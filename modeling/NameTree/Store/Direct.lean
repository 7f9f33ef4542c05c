import NameTree.Store.Resolve
import NameTree.Store.Subtree

/-!
Direct acts on the containers of a store, past the checks of the operations. They can leave a store
that no sequence of operations leads to: ids without records, shared directories, loops.
-/

namespace NameTree

inductive IndexAct where
  | get (name : String)
  | contains (name : String)
  | insert (name : String) (id : Int)
  | remove (name : String)
  | names
  | ids
  | items
  | size
  | describe

inductive IndexFinding where
  | id (id : Option Int)
  | flag (flag : Bool)
  | names (names : List String)
  | ids (ids : List Int)
  | items (items : List (String × Int))
  | size (size : Nat)
  | text (text : String)
  deriving DecidableEq

def IndexAct.run (act : IndexAct) (index : Index) : Except Fault IndexFinding × Index :=
  match act with
  | .get name => (.ok (.id (index.get? name)), index)
  | .contains name => (.ok (.flag (index.contains name)), index)
  | .insert name id =>
    match index.insert name id with
    | .error fault => (.error fault, index)
    | .ok changed => (.ok (.id (index.get? name)), changed)
  | .remove name => (.ok (.id (index.get? name)), index.erase name)
  | .names => (.ok (.names index.names), index)
  | .ids => (.ok (.ids index.ids), index)
  | .items => (.ok (.items index.toList), index)
  | .size => (.ok (.size index.size), index)
  | .describe => (.ok (.text index.describe), index)

inductive ArenaAct (ρ : Type) where
  | get (id : Int)
  | require (id : Int)
  | insert (id : Int) (record : ρ)
  | remove (id : Int)
  | contains (id : Int)
  | size
  | items
  | describe (id : Int)

inductive ArenaFinding (ρ : Type) where
  | record (record : Option ρ)
  | flag (flag : Bool)
  | size (size : Nat)
  | items (items : List (Int × ρ))
  | text (text : String)
  deriving DecidableEq

namespace ArenaAct

variable {kind : String} {ρ : Type}

def run (describe : ρ → String) (act : ArenaAct ρ) (arena : Arena kind ρ) :
    Except Fault (ArenaFinding ρ) × Arena kind ρ :=
  match act with
  | .get id => (.ok (.record (arena.get? id)), arena)
  | .require id => ((arena.require id).map fun r => .record (some r), arena)
  | .insert id record =>
    match arena.insert id record with
    | .error fault => (.error fault, arena)
    | .ok changed => (.ok (.record (arena.get? id)), changed)
  | .remove id => (.ok (.record (arena.get? id)), arena.erase id)
  | .contains id => (.ok (.flag (arena.contains id)), arena)
  | .size => (.ok (.size arena.size), arena)
  | .items => (.ok (.items arena.toList), arena)
  | .describe id => ((arena.require id).map fun r => .text (describe r), arena)

def map {π : Type} (f : π → ρ) : ArenaAct π → ArenaAct ρ
  | .get id => .get id
  | .require id => .require id
  | .insert id record => .insert id (f record)
  | .remove id => .remove id
  | .contains id => .contains id
  | .size => .size
  | .items => .items
  | .describe id => .describe id

end ArenaAct

/-- A new directory record without children; its indexes take the capacity of the store. -/
structure DirHead where
  createTs : Int
  tags : List String

inductive StoreAct where
  | files (act : ArenaAct FileRecord)
  | dirs (act : ArenaAct DirHead)
  | index (kind : Kind) (place : Place) (act : IndexAct)
  | nextId
  | currentId
  | restart (counter : Int)
  | setEpoch (epoch : Int)
  | locate (maxLen : Int) (path : String)
  | place (maxLen : Int) (path : String)
  | children (maxLen : Int) (path : String)
  | indexes (place : Place)
  | subtree (id : Int)

inductive StoreFinding where
  | nothing
  | file (finding : ArenaFinding FileRecord)
  | dir (finding : ArenaFinding DirRecord)
  | index (finding : IndexFinding)
  | number (number : Int)
  | located (place : Place) (leaf : String)
  | place (place : Place)
  | indexes (files dirs : Index)
  | subtree (files dirs : List Int)
  deriving DecidableEq

def StoreAct.run (act : StoreAct) (store : Store) : Except Fault StoreFinding × Store :=
  match act with
  | .files act =>
    let (found, changed) := act.run FileRecord.describe store.files
    (found.map .file, { store with files := changed })
  | .dirs act =>
    let act := act.map fun head => DirRecord.make head.createTs head.tags store.capacity
    let (found, changed) := act.run DirRecord.describe store.dirs
    (found.map .dir, { store with dirs := changed })
  | .index kind parent act =>
    match store.index kind parent with
    | .error fault => (.error fault, store)
    | .ok bindings =>
      let (found, changed) := act.run bindings
      (found.map .index, store.setIndex kind parent changed)
  | .nextId => (.ok (.number (store.counter + 1)), store.advance)
  | .currentId => (.ok (.number store.counter), store)
  | .restart counter =>
    if counter < 0 then (.error (.negativeCounter counter), store)
    else (.ok .nothing, { store with counter := counter.toNat })
  | .setEpoch epoch => (.ok .nothing, { store with epoch })
  | .locate maxLen path =>
    ((store.locate maxLen path).map fun found => .located found.1 found.2, store)
  | .place maxLen path => ((store.place maxLen path).map .place, store)
  | .children maxLen path =>
    ((store.children maxLen path).map fun found => .indexes found.1 found.2, store)
  | .indexes parent => ((store.indexes parent).map fun found => .indexes found.1 found.2, store)
  | .subtree id => ((store.subtree id).map fun found => .subtree found.1 found.2, store)

end NameTree
