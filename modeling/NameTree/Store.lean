import NameTree.Arena
import NameTree.Index

/-!
Everything that one namespace keeps: two arenas of records, the bindings of the root, those of each
directory in its record, the counter from which ids are drawn, and the epoch.

The root has no record. A file or directory is reached by the names bound on the way to it, and its
record is found in the arena under the id bound last.
-/

namespace NameTree

structure DirRecord where
  createTs : Int
  tags : List String
  files : Index
  dirs : Index
  deriving DecidableEq

namespace DirRecord

def make (createTs : Int) (tags : List String) (capacity : Option Int) : DirRecord :=
  ⟨createTs, tags, .empty "children_files" capacity, .empty "children_dirs" capacity⟩

def listing (name : String) (r : DirRecord) : Listing :=
  ⟨name, r.createTs, true, r.tags, 0, "", 0⟩

def describe (r : DirRecord) : String :=
  "DirRecord(create_ts=" ++ toString r.createTs ++ ", tags=" ++ Text.quotedTuple r.tags ++
    ", files=" ++ toString r.files.size ++ ", dirs=" ++ toString r.dirs.size ++ ")"

end DirRecord

/-- What a name can be bound to; files and directories are named apart. -/
inductive Kind where
  | file
  | dir
  deriving DecidableEq

structure Store where
  capacity : Option Int
  rootFiles : Index
  rootDirs : Index
  files : Arena "file" FileRecord
  dirs : Arena "dir" DirRecord
  counter : Nat
  epoch : Int
  deriving DecidableEq

namespace Store

def empty (capacity : Option Int) : Store where
  capacity := capacity
  rootFiles := .empty "root_files" capacity
  rootDirs := .empty "root_dirs" capacity
  files := .empty capacity
  dirs := .empty capacity
  counter := 0
  epoch := 0

/-- A working copy. Copies of indexes, records and the counter are equal to what they were made
from; the arenas are made anew, with the capacity of the store. -/
def clone (store : Store) : Store where
  capacity := store.capacity
  rootFiles := store.rootFiles
  rootDirs := store.rootDirs
  files := ⟨store.capacity, store.files.records⟩
  dirs := ⟨store.capacity, store.dirs.records⟩
  counter := store.counter
  epoch := store.epoch

/-- Draws the next id; it is the counter afterwards. -/
def advance (store : Store) : Store := { store with counter := store.counter + 1 }

def index (store : Store) (kind : Kind) : Place → Except Fault Index
  | none =>
    match kind with
    | .file => .ok store.rootFiles
    | .dir => .ok store.rootDirs
  | some id =>
    match store.dirs.require id with
    | .error fault => .error fault
    | .ok record =>
      match kind with
      | .file => .ok record.files
      | .dir => .ok record.dirs

def setIndex (store : Store) (kind : Kind) (place : Place) (index : Index) : Store :=
  match place, kind with
  | none, .file => { store with rootFiles := index }
  | none, .dir => { store with rootDirs := index }
  | some id, .file => { store with dirs := store.dirs.modify id ({ · with files := index }) }
  | some id, .dir => { store with dirs := store.dirs.modify id ({ · with dirs := index }) }

def listing (store : Store) (kind : Kind) (name : String) (id : Int) : Except Fault Listing :=
  match kind with
  | .file => (store.files.require id).map (FileRecord.listing name)
  | .dir => (store.dirs.require id).map (DirRecord.listing name)

theorem clone_eq_self_iff {store : Store} :
    store.clone = store ↔ store.files.capacity = store.capacity ∧
      store.dirs.capacity = store.capacity := by
  rcases store with
    ⟨capacity, rootFiles, rootDirs, ⟨filesCapacity, files⟩, ⟨dirsCapacity, dirs⟩, counter, epoch⟩
  simp [clone, eq_comm]

theorem index_setIndex_self {store : Store} {kind : Kind} {place : Place} {old : Index}
    (present : store.index kind place = .ok old) (index : Index) :
    (store.setIndex kind place index).index kind place = .ok index := by
  cases place with
  | none => cases kind <;> rfl
  | some id =>
    cases found : store.dirs.get? id with
    | none => simp [Store.index, Arena.require, found] at present
    | some record =>
      cases kind <;> simp [Store.index, setIndex, Arena.require, Arena.get?_modify, found]

theorem index_setIndex_of_ne (store : Store) {kind other : Kind} {place elsewhere : Place}
    (ne : (other, elsewhere) ≠ (kind, place)) (index : Index) :
    (store.setIndex kind place index).index other elsewhere = store.index other elsewhere := by
  cases place with
  | none =>
    cases elsewhere with
    | none => cases kind <;> cases other <;> simp_all [Store.index, setIndex]
    | some id => cases kind <;> rfl
  | some id =>
    cases elsewhere with
    | none => cases kind <;> cases other <;> rfl
    | some at_ =>
      by_cases same : at_ = id
      · subst same
        cases found : store.dirs.get? at_ <;> cases kind <;> cases other <;>
          simp_all [Store.index, setIndex, Arena.require, Arena.get?_modify]
      · cases kind <;> simp [Store.index, setIndex, Arena.require, Arena.get?_modify, same]

end Store
end NameTree
