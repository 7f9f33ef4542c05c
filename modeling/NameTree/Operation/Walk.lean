import NameTree.Operation.Read

/-!
The walk: every directory below a path before its own subdirectories, in index order, each with the
names bound in it. Each directory is looked up by its path, which is the start path with names
appended.
-/

namespace NameTree

structure Visit where
  path : String
  dirNames : List String
  fileNames : List String
  deriving DecidableEq

namespace Store

/-- `depth` limits the length of the chains of directories that are followed. -/
def visits (store : Store) (maxLen : Int) : Nat → String → Except Fault (List Visit)
  | 0, path => .error (.endlessWalk path)
  | depth + 1, path => do
    let (files, dirs) ← store.children maxLen (Path.addFinalSlash path)
    let below ← dirs.names.mapM (fun name => store.visits maxLen depth (Path.child path name))
    pure (⟨path, dirs.names, files.names⟩ :: below.flatten)

/-- A chain enters the root, each directory at most once, and fails at the next; a longer one passes
some directory twice and never ends. -/
def walk (store : Store) (limits : Limits) (path : String) : Except Fault (List Visit) := do
  let trimmed := Path.dropFinalSlash path
  let start := if trimmed = "" then "/" else trimmed
  let _ ← store.listDir limits start
  store.visits limits.maxStringLen (store.dirs.size + 2) start

end Store
end NameTree
