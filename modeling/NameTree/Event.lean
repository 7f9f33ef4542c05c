import NameTree.Operation

/-!
Events: what a listener is told about a mutation once its transaction has ended. Renames tell
nothing, and of the failures only those in which a create meets an entry of the same name.
-/

namespace NameTree

inductive Event where
  | fileAdded (path : String) (record : FileRecord)
  | fileExists (path : String) (record : FileRecord)
  | dirAdded (path : String) (createTs : Int) (tags : List String)
  | dirExists (path : String) (createTs : Int) (tags : List String)
  | deleted (path : String)
  | epochUpdated (epoch : Int)
  deriving DecidableEq

namespace Event

def kind : Event → String
  | .fileAdded _ _ => "file_added"
  | .fileExists _ _ => "file_exists"
  | .dirAdded _ _ _ => "dir_added"
  | .dirExists _ _ _ => "dir_exists"
  | .deleted _ => "deleted"
  | .epochUpdated _ => "epoch_updated"

end Event

namespace Mutation

def event? (m : Mutation) (effect : Effect) (store : Store) : Except Fault (Option Event) :=
  match m, effect with
  | .createFile path _, .bound id => (store.files.require id).map fun r => some (.fileAdded path r)
  | .createDir path _, .bound id =>
    (store.dirs.require id).map fun r => some (.dirAdded path r.createTs r.tags)
  | .deleteFile path, _ => .ok (some (.deleted path))
  | .deleteDir path, _ => .ok (some (.deleted path))
  | .updateEpoch (.int epoch), _ => .ok (some (.epochUpdated epoch))
  | _, _ => .ok none

/-- The event of a mutation that was aborted with `fault`. -/
def collision? (m : Mutation) (fault : Fault) : Option Event :=
  match m, fault with
  | .createFile path _, .fileExists _ (some entry) => some (.fileExists path entry.fileRecord)
  | .createDir path _, .dirExists _ (some entry) => some (.dirExists path entry.createTs entry.tags)
  | _, _ => none

end Mutation
end NameTree
