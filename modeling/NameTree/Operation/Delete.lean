import NameTree.Limits
import NameTree.Operation.Outcome
import NameTree.Store.Resolve
import NameTree.Store.Subtree

/-!
Deleting a file, or a directory with everything below it. The name is unbound first and the records
are dropped after that, so a missing record leaves the name unbound.
-/

namespace NameTree

/-- An id bound to `leaf` in `index`, an index at `place`, about to be unbound. -/
structure DeletePlan where
  place : Place
  leaf : String
  index : Index
  id : Int

structure Removed where
  files : List Int
  dirs : List Int
  deriving DecidableEq

namespace Store

def planDelete (store : Store) (limits : Limits) (kind : Kind) (path : String) :
    Except Fault DeletePlan := do
  let trimmed := Path.dropFinalSlash path
  limits.checkPath trimmed
  let (place, leaf) ← store.locate limits.maxStringLen trimmed
  let index ← store.index kind place
  match index.get? leaf with
  | none => throw (.notFound path)
  | some id => pure ⟨place, leaf, index, id⟩

end Store

namespace DeletePlan

def unbind (plan : DeletePlan) (kind : Kind) (store : Store) : Store :=
  store.setIndex kind plan.place (plan.index.erase plan.leaf)

def writeFile (plan : DeletePlan) (store : Store) : Outcome Int :=
  let unbound := plan.unbind .file store
  match unbound.files.remove plan.id with
  | .error fault => .failed fault unbound
  | .ok files => .done plan.id { unbound with files }

def removalRecord (path : String) (files dirs : Nat) : LogRecord :=
  ⟨.debug, .operations, "delete_dir " ++ path ++ " removed " ++ toString files ++ " files and " ++
    toString dirs ++ " directories"⟩

def writeDir (plan : DeletePlan) (path : String) (store : Store) : Outcome Removed :=
  let unbound := plan.unbind .dir store
  match unbound.subtree plan.id with
  | .error fault => .failed fault unbound
  | .ok (files, dirs) =>
    match unbound.files.drop files with
    | (.error fault, leftFiles) => .failed fault { unbound with files := leftFiles }
    | (.ok (), leftFiles) =>
      match unbound.dirs.drop dirs with
      | (.error fault, leftDirs) =>
        .failed fault { unbound with files := leftFiles, dirs := leftDirs }
      | (.ok (), leftDirs) =>
        ⟨.ok ⟨files, insertId plan.id dirs⟩,
          { unbound with files := leftFiles, dirs := leftDirs.erase plan.id }, 0,
          [removalRecord path files.length (dirs.length + 1)]⟩

end DeletePlan

namespace Store

def deleteFile (store : Store) (limits : Limits) (path : String) : Outcome Int :=
  match store.planDelete limits .file path with
  | .error fault => .failed fault store
  | .ok plan => plan.writeFile store

def deleteDir (store : Store) (limits : Limits) (path : String) : Outcome Removed :=
  match store.planDelete limits .dir path with
  | .error fault => .failed fault store
  | .ok plan => plan.writeDir path store

end Store
end NameTree
