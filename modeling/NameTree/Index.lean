import NameTree.Capacity

/-!
The child bindings of one directory, or of the root: names bound to ids, in the order in which the
names became bound.
-/

namespace NameTree

structure Index where
  label : String
  capacity : Option Int
  bindings : OrderedMap String Int
  deriving DecidableEq

namespace Index

def empty (label : String) (capacity : Option Int) : Index := ⟨label, capacity, .empty⟩

def get? (index : Index) (name : String) : Option Int := index.bindings.get? name

def contains (index : Index) (name : String) : Bool := index.bindings.contains name

def names (index : Index) : List String := index.bindings.keys

def ids (index : Index) : List Int := index.bindings.values

def toList (index : Index) : List (String × Int) := index.bindings.toList

def size (index : Index) : Nat := index.bindings.size

def insert (index : Index) (name : String) (id : Int) : Except Fault Index :=
  match index.bindings.insertWithin index.label index.capacity name id with
  | .error fault => .error fault
  | .ok bindings => .ok { index with bindings }

def erase (index : Index) (name : String) : Index :=
  { index with bindings := index.bindings.erase name }

def describe (index : Index) : String :=
  "NameIndex(" ++ Text.quoted index.label ++ ", " ++ Text.numberTable index.toList ++ ")"

theorem names_eq_map_toList (index : Index) : index.names = index.toList.map Prod.fst := rfl

theorem mem_ids_iff {index : Index} {id : Int} : id ∈ index.ids ↔
    ∃ name, index.get? name = some id :=
  OrderedMap.mem_values_iff

theorem eq_of_insert {index after : Index} {name : String} {id : Int}
    (done : index.insert name id = .ok after) :
    after = { index with bindings := index.bindings.insert name id } := by
  unfold insert at done
  split at done
  · cases done
  · rename_i bindings inserted
    cases done
    rw [OrderedMap.eq_insert_of_insertWithin inserted]

theorem get?_of_insert {index after : Index} {name : String} {id : Int}
    (done : index.insert name id = .ok after) (other : String) :
    after.get? other = if other = name then some id else index.get? other := by
  rw [eq_of_insert done]
  exact OrderedMap.get?_insert index.bindings name other id

theorem get?_erase (index : Index) (name other : String) :
    (index.erase name).get? other = if other = name then none else index.get? other :=
  OrderedMap.get?_erase index.bindings name other

theorem toList_erase (index : Index) (name : String) :
    (index.erase name).toList = index.toList.filter fun binding => decide (binding.1 ≠ name) :=
  OrderedMap.discard_eq_filter name index.toList

theorem toList_of_insert {index after : Index} {name : String} {id : Int}
    (free : index.get? name = none) (done : index.insert name id = .ok after) :
    after.toList = index.toList ++ [(name, id)] := by
  rw [eq_of_insert done]
  exact OrderedMap.toList_insert_of_absent free id

theorem toList_of_insert_of_bound {index after : Index} {name : String} {id old : Int}
    (bound : index.get? name = some old) (done : index.insert name id = .ok after) :
    after.toList = index.toList.map fun binding => if binding.1 = name then (name, id)
      else binding := by
  rw [eq_of_insert done]
  exact OrderedMap.toList_insert_of_mem (OrderedMap.mem_keys_of_get? bound) id

theorem erase_of_insert {index after : Index} {name : String} {id : Int}
    (free : index.get? name = none) (done : index.insert name id = .ok after) :
    after.erase name = index := by
  rw [eq_of_insert done, erase, OrderedMap.erase_insert, OrderedMap.erase_of_absent free]

end Index
end NameTree
