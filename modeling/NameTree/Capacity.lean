import NameTree.Fault
import NameTree.OrderedMap

/-!
Insertion under a ceiling: a container at its capacity takes no new key, but still replaces the
value of a key it holds.
-/

namespace NameTree

variable {κ ν : Type}

/-- The capacity, if `m` has reached it. -/
def OrderedMap.ceiling? (capacity : Option Int) (m : OrderedMap κ ν) : Option Int :=
  capacity.filter (fun limit => decide (limit ≤ m.size))

namespace OrderedMap

variable {capacity : Option Int} {m : OrderedMap κ ν}

theorem ceiling?_eq_some_iff {limit : Int} :
    m.ceiling? capacity = some limit ↔ capacity = some limit ∧ limit ≤ m.size := by
  simp [ceiling?, Option.filter_eq_some_iff]

theorem ceiling?_eq_none_iff : m.ceiling? capacity = none ↔
    ∀ limit ∈ capacity, (m.size : Int) < limit := by
  simp [ceiling?, Option.filter_eq_none_iff]

variable [DecidableEq κ]

def insertWithin (container : String) (capacity : Option Int) (m : OrderedMap κ ν)
    (key : κ) (value : ν) : Except Fault (OrderedMap κ ν) :=
  match m.get? key, m.ceiling? capacity with
  | none, some limit => .error (.capacityExceeded container m.size limit)
  | _, _ => .ok (m.insert key value)

variable {key : κ}

theorem insertWithin_of_present {container : String} {old : ν} (present : m.get? key = some old)
    (value : ν) :
    m.insertWithin container capacity key value = .ok (m.insert key value) := by
  simp [insertWithin, present]

theorem insertWithin_of_room {container : String}
    (room : ∀ limit ∈ capacity, (m.size : Int) < limit) (key : κ) (value : ν) :
    m.insertWithin container capacity key value = .ok (m.insert key value) := by
  simp [insertWithin, ceiling?_eq_none_iff.mpr room]

theorem insertWithin_of_full {container : String} {limit : Int} (absent : m.get? key = none)
    (full : m.ceiling? capacity = some limit) (value : ν) :
    m.insertWithin container capacity key value =
      .error (.capacityExceeded container m.size limit) := by
  simp [insertWithin, absent, full]

theorem eq_insert_of_insertWithin {container : String} {n : OrderedMap κ ν} {value : ν}
    (done : m.insertWithin container capacity key value = .ok n) : n = m.insert key value := by
  unfold insertWithin at done
  split at done
  · cases done
  · cases done
    rfl

theorem size_of_insertWithin {container : String} {n : OrderedMap κ ν} {value : ν}
    (done : m.insertWithin container capacity key value = .ok n)
    (within : ∀ limit ∈ capacity, (m.size : Int) ≤ limit) :
    ∀ limit ∈ capacity, (n.size : Int) ≤ limit := by
  obtain rfl := eq_insert_of_insertWithin done
  rw [size_eq_length_keys, keys_insert]
  by_cases present : key ∈ m.keys
  · rw [if_pos present, ← size_eq_length_keys]
    exact within
  · rw [if_neg present, List.length_append, List.length_singleton, ← size_eq_length_keys]
    cases full : m.ceiling? capacity with
    | none =>
      intro limit given
      have below := ceiling?_eq_none_iff.mp full limit given
      omega
    | some limit =>
      rw [insertWithin_of_full (get?_eq_none_iff.mpr present) full] at done
      cases done

end OrderedMap
end NameTree
