import NameTree.Path
import NameTree.Store

/-!
From paths to places: directories are followed by name from the root. Point operations ask for the
parent and the last name of a path, enumerations for the directory at the path itself.
-/

namespace NameTree.Store

/-- Follows `names` through directory bindings, starting at `place`, whose directory index is
`dirs`. Every directory entered must have a record. A name that is not bound is reported with the
whole `path`. -/
def descend (store : Store) (path : String) (place : Place) (dirs : Index) :
    List String → Except Fault Place
  | [] => .ok place
  | name :: rest =>
    match dirs.get? name with
    | none => .error (.notFound path)
    | some id =>
      match store.dirs.require id with
      | .error fault => .error fault
      | .ok record => store.descend path (some id) record.dirs rest

/-- The parent and the last name of a path; names longer than `maxLen` are refused before any
is followed. -/
def locate (store : Store) (maxLen : Int) (path : String) : Except Fault (Place × String) :=
  let trimmed := Path.dropFinalSlash path
  if trimmed = "/" then .error (.rootOperation path)
  else
    let names := Path.components trimmed
    match names.getLast? with
    | none => .error (.malformedPath path .noComponents)
    | some leaf => do
      Path.checkComponents maxLen names
      let parent ← store.descend path none store.rootDirs names.dropLast
      pure (parent, leaf)

def place (store : Store) (maxLen : Int) (path : String) : Except Fault Place := do
  let names := Path.components path
  Path.checkComponents maxLen names
  store.descend path none store.rootDirs names

def indexes (store : Store) (place : Place) : Except Fault (Index × Index) := do
  let files ← store.index .file place
  let dirs ← store.index .dir place
  pure (files, dirs)

/-- The bindings of the directory at `path`. A path without components other than `/` names none. -/
def children (store : Store) (maxLen : Int) (path : String) : Except Fault (Index × Index) :=
  if path = "/" then .ok (store.rootFiles, store.rootDirs)
  else do
    match ← store.place maxLen path with
    | none => .error (.notFound path)
    | some id => store.indexes (some id)

end NameTree.Store
