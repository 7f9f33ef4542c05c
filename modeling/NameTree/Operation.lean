import NameTree.Operation.Create
import NameTree.Operation.Delete
import NameTree.Operation.Read
import NameTree.Operation.Rename
import NameTree.Operation.Walk
import NameTree.Store.Consistency

/-!
The operations on a store as data: mutations, which may read the clock once, and queries, which
leave the store as it is.
-/

namespace NameTree

structure Stats where
  fileCount : Nat
  dirCount : Nat
  lastId : Nat
  epoch : Int
  capacity : Option Int
  deriving DecidableEq

inductive Mutation where
  | createFile (path : String) (spec : FileSpec)
  | createDir (path : String) (tags : Tags)
  | rename (kind : Kind) (source target : String)
  | deleteFile (path : String)
  | deleteDir (path : String)
  | updateEpoch (epoch : Value)

inductive Query where
  | stat (path : String)
  | listDir (path : String)
  | exportDir (path : String)
  | checkConsistency
  | walk (path : String)
  | epoch
  | stats

inductive Effect where
  | done
  | bound (id : Int)
  | removedFile (id : Int)
  | removedDir (removed : Removed)
  deriving DecidableEq

inductive Reply where
  | listing (entry : Listing)
  | listings (entries : List Listing)
  | subtree (content : Export)
  | ids (ids : List Int)
  | visits (visits : List Visit)
  | epoch (epoch : Int)
  | stats (stats : Stats)
  deriving DecidableEq

def Store.stats (store : Store) : Stats :=
  ⟨store.files.size, store.dirs.size, store.counter, store.epoch, store.capacity⟩

def Store.updateEpoch (store : Store) (epoch : Value) : Outcome Unit :=
  match checkWord "epoch" epoch with
  | .error fault => .failed fault store
  | .ok number => .done () { store with epoch := number }

namespace Mutation

def label : Mutation → String
  | .createFile _ _ => "create_file"
  | .createDir _ _ => "create_dir"
  | .rename .file _ _ => "rename_file"
  | .rename .dir _ _ => "rename_dir"
  | .deleteFile _ => "delete_file"
  | .deleteDir _ => "delete_dir"
  | .updateEpoch _ => "update_epoch"

/-- `reading` is what the clock gives if the mutation reads it. -/
def apply (m : Mutation) (limits : Limits) (reading : Option Int) (store : Store) :
    Outcome Effect :=
  match m with
  | .createFile path spec => (store.createFile limits reading path spec).map .bound
  | .createDir path tags => (store.createDir limits reading path tags).map .bound
  | .rename kind source target => (store.rename limits kind source target).map fun _ => .done
  | .deleteFile path => (store.deleteFile limits path).map .removedFile
  | .deleteDir path => (store.deleteDir limits path).map .removedDir
  | .updateEpoch epoch => (store.updateEpoch epoch).map fun _ => .done

end Mutation

def unreferencedRecord (orphans : List Int) : LogRecord :=
  ⟨.warning, .operations, "Unreferenced records in namespace: " ++ Text.numberList orphans⟩

namespace Query

def run (q : Query) (limits : Limits) (store : Store) : Except Fault Reply :=
  match q with
  | .stat path => (store.stat limits path).map .listing
  | .listDir path => (store.listDir limits path).map .listings
  | .exportDir path => (store.exportDir limits path).map .subtree
  | .checkConsistency => store.checkConsistency.map .ids
  | .walk path => (store.walk limits path).map .visits
  | .epoch => .ok (.epoch store.epoch)
  | .stats => .ok (.stats store.stats)

def log (q : Query) (store : Store) : List LogRecord :=
  match q with
  | .checkConsistency =>
    match store.checkConsistency with
    | .ok (first :: rest) => [unreferencedRecord (first :: rest)]
    | _ => []
  | _ => []

end Query
end NameTree
