/-!
Finite maps that remember the order in which keys became present.

`insert` on a present key keeps its position and on an absent key appends; `erase` drops the pair,
so erasing and inserting again moves a key to the end. The view is `toList`, a list of pairs with
distinct keys; the lemmas say what each operation does to `get?` and to the keys.
-/

namespace NameTree

structure OrderedMap (κ ν : Type) where
  toList : List (κ × ν)
  keys_nodup : (toList.map Prod.fst).Nodup
  deriving DecidableEq

variable {κ ν : Type}

namespace OrderedMap

def empty : OrderedMap κ ν := ⟨[], List.nodup_nil⟩

def keys (m : OrderedMap κ ν) : List κ := m.toList.map Prod.fst

def values (m : OrderedMap κ ν) : List ν := m.toList.map Prod.snd

def size (m : OrderedMap κ ν) : Nat := m.toList.length

theorem ext_toList {m n : OrderedMap κ ν} (same : m.toList = n.toList) : m = n := by
  cases m
  cases n
  simp_all

theorem nodup_keys (m : OrderedMap κ ν) : m.keys.Nodup := m.keys_nodup

theorem size_eq_length_keys (m : OrderedMap κ ν) : m.size = m.keys.length := by
  simp [size, keys]

variable [DecidableEq κ]

def lookup (key : κ) : List (κ × ν) → Option ν
  | [] => none
  | (k, v) :: rest => if k = key then some v else lookup key rest

def assign (key : κ) (value : ν) : List (κ × ν) → List (κ × ν)
  | [] => [(key, value)]
  | (k, v) :: rest => if k = key then (key, value) :: rest else (k, v) :: assign key value rest

def discard (key : κ) : List (κ × ν) → List (κ × ν)
  | [] => []
  | (k, v) :: rest => if k = key then discard key rest else (k, v) :: discard key rest

theorem lookup_eq_none_iff (key : κ) (pairs : List (κ × ν)) :
    lookup key pairs = none ↔ key ∉ pairs.map Prod.fst := by
  induction pairs with
  | nil => simp [lookup]
  | cons pair rest ih =>
    by_cases h : pair.1 = key
    · simp [lookup, h]
    · simp [lookup, h, ih, Ne.symm h]

theorem mem_of_lookup {key : κ} {value : ν} {pairs : List (κ × ν)}
    (found : lookup key pairs = some value) : (key, value) ∈ pairs := by
  induction pairs with
  | nil => simp [lookup] at found
  | cons pair rest ih =>
    obtain ⟨k, v⟩ := pair
    by_cases h : k = key
    · simp [lookup, h] at found
      simp [h, found]
    · simp only [lookup, h, if_false] at found
      exact List.mem_cons_of_mem _ (ih found)

theorem lookup_of_mem {key : κ} {value : ν} {pairs : List (κ × ν)}
    (distinct : (pairs.map Prod.fst).Nodup) (present : (key, value) ∈ pairs) :
    lookup key pairs = some value := by
  induction pairs with
  | nil => simp at present
  | cons pair rest ih =>
    obtain ⟨k, v⟩ := pair
    simp only [List.map_cons, List.nodup_cons] at distinct
    rcases List.mem_cons.mp present with same | later
    · cases same
      simp [lookup]
    · have ne : k ≠ key := by
        intro same
        subst same
        exact distinct.1 (List.mem_map_of_mem later)
      simp [lookup, ne, ih distinct.2 later]

theorem keys_assign (key : κ) (value : ν) (pairs : List (κ × ν)) :
    (assign key value pairs).map Prod.fst =
      if key ∈ pairs.map Prod.fst then pairs.map Prod.fst else pairs.map Prod.fst ++ [key] := by
  induction pairs with
  | nil => simp [assign]
  | cons pair rest ih =>
    by_cases h : pair.1 = key
    · simp [assign, h]
    · by_cases later : key ∈ rest.map Prod.fst
      · rw [if_pos later] at ih
        simp [assign, h, ih, List.mem_cons_of_mem _ later]
      · rw [if_neg later] at ih
        have absent : key ∉ pair.1 :: rest.map Prod.fst := by
          simp only [List.mem_cons, not_or]
          exact ⟨Ne.symm h, later⟩
        simp only [List.map_cons, assign, h, if_false, ih, absent, List.cons_append]

theorem lookup_assign_self (key : κ) (value : ν) (pairs : List (κ × ν)) :
    lookup key (assign key value pairs) = some value := by
  induction pairs with
  | nil => simp [assign, lookup]
  | cons pair rest ih =>
    by_cases h : pair.1 = key
    · simp [assign, lookup, h]
    · simp [assign, lookup, h, ih]

theorem lookup_assign_of_ne {key other : κ} (ne : other ≠ key) (value : ν) (pairs : List (κ × ν)) :
    lookup other (assign key value pairs) = lookup other pairs := by
  induction pairs with
  | nil => simp [assign, lookup, Ne.symm ne]
  | cons pair rest ih =>
    obtain ⟨k, v⟩ := pair
    by_cases h : k = key
    · subst h
      simp [assign, lookup, Ne.symm ne]
    · simp [assign, lookup, h, ih]

theorem assign_of_lookup {key : κ} {value : ν} {pairs : List (κ × ν)}
    (found : lookup key pairs = some value) :
    assign key value pairs = pairs := by
  induction pairs with
  | nil => cases found
  | cons pair rest ih =>
    by_cases same : pair.1 = key
    · obtain ⟨k, v⟩ := pair
      subst same
      simp only [lookup, if_true, Option.some.injEq] at found
      simp [assign, found]
    · simp only [lookup, same, if_false] at found
      simp [assign, same, ih found]

theorem assign_of_lookup_eq_none {key : κ} {pairs : List (κ × ν)} (absent : lookup key pairs = none)
    (value : ν) :
    assign key value pairs = pairs ++ [(key, value)] := by
  induction pairs with
  | nil => rfl
  | cons pair rest ih =>
    by_cases same : pair.1 = key
    · simp [lookup, same] at absent
    · simp only [lookup, same, if_false] at absent
      simp [assign, same, ih absent]

theorem assign_of_mem {key : κ} {pairs : List (κ × ν)} (distinct : (pairs.map Prod.fst).Nodup)
    (present : key ∈ pairs.map Prod.fst) (value : ν) :
    assign key value pairs = pairs.map fun pair => if pair.1 = key then (key, value) else pair := by
  induction pairs with
  | nil => cases present
  | cons pair rest ih =>
    rw [List.map_cons, List.nodup_cons] at distinct
    by_cases same : pair.1 = key
    · have others : rest.map (fun pair => if pair.1 = key then (key, value) else pair) = rest := by
        refine (List.map_congr_left fun other member => ?_).trans (List.map_id rest)
        have ne : other.1 ≠ key := by
          intro again
          exact distinct.1 ((same.trans again.symm) ▸ List.mem_map_of_mem member)
        rw [if_neg ne, id]
      simp [assign, same, others]
    · have later := (List.mem_cons.mp present).resolve_left (Ne.symm same)
      simp [assign, same, ih distinct.2 later]

theorem assign_assign (key : κ) (first second : ν) (pairs : List (κ × ν)) :
    assign key second (assign key first pairs) = assign key second pairs := by
  induction pairs with
  | nil => simp [assign]
  | cons pair rest ih =>
    by_cases same : pair.1 = key
    · simp [assign, same]
    · simp [assign, same, ih]

theorem discard_eq_filter (key : κ) (pairs : List (κ × ν)) :
    discard key pairs = pairs.filter (fun pair => decide (pair.1 ≠ key)) := by
  induction pairs with
  | nil => rfl
  | cons pair rest ih =>
    by_cases h : pair.1 = key
    · simp [discard, h, ih]
    · simp [discard, h, ih]

theorem keys_discard (key : κ) (pairs : List (κ × ν)) :
    (discard key pairs).map Prod.fst = (pairs.map Prod.fst).filter (fun k => decide (k ≠ key)) := by
  rw [discard_eq_filter, List.filter_map]
  rfl

theorem lookup_discard_self (key : κ) (pairs : List (κ × ν)) :
    lookup key (discard key pairs) = none := by
  rw [lookup_eq_none_iff, keys_discard]
  simp

theorem lookup_discard_of_ne {key other : κ} (ne : other ≠ key) (pairs : List (κ × ν)) :
    lookup other (discard key pairs) = lookup other pairs := by
  induction pairs with
  | nil => rfl
  | cons pair rest ih =>
    obtain ⟨k, v⟩ := pair
    by_cases h : k = key
    · subst h
      simp [discard, lookup, Ne.symm ne, ih]
    · simp [discard, lookup, h, ih]

theorem discard_of_absent {key : κ} {pairs : List (κ × ν)} (absent : key ∉ pairs.map Prod.fst) :
    discard key pairs = pairs := by
  rw [discard_eq_filter, List.filter_eq_self]
  intro pair member
  have ne : pair.1 ≠ key := by
    intro same
    exact absent (same ▸ List.mem_map_of_mem member)
  simpa using ne

theorem discard_assign (key : κ) (value : ν) (pairs : List (κ × ν)) :
    discard key (assign key value pairs) = discard key pairs := by
  induction pairs with
  | nil => simp [assign, discard]
  | cons pair rest ih =>
    by_cases same : pair.1 = key
    · simp [assign, discard, same]
    · simp [assign, discard, same, ih]

def get? (m : OrderedMap κ ν) (key : κ) : Option ν := lookup key m.toList

def contains (m : OrderedMap κ ν) (key : κ) : Bool := (m.get? key).isSome

def insert (m : OrderedMap κ ν) (key : κ) (value : ν) : OrderedMap κ ν where
  toList := assign key value m.toList
  keys_nodup := by
    rw [keys_assign]
    split
    · exact m.keys_nodup
    · rename_i absent
      rw [List.nodup_append]
      refine ⟨m.keys_nodup, by simp, ?_⟩
      intro a memberA b memberB same
      simp only [List.mem_singleton] at memberB
      subst memberB
      subst same
      exact absent memberA

def erase (m : OrderedMap κ ν) (key : κ) : OrderedMap κ ν where
  toList := discard key m.toList
  keys_nodup := by
    rw [keys_discard]
    exact m.keys_nodup.filter _

def modify (m : OrderedMap κ ν) (key : κ) (change : ν → ν) : OrderedMap κ ν :=
  match m.get? key with
  | none => m
  | some value => m.insert key (change value)

@[simp] theorem get?_empty (key : κ) : (empty : OrderedMap κ ν).get? key = none := rfl

theorem get?_eq_none_iff {m : OrderedMap κ ν} {key : κ} : m.get? key = none ↔ key ∉ m.keys :=
  lookup_eq_none_iff key m.toList

theorem contains_iff {m : OrderedMap κ ν} {key : κ} : m.contains key = true ↔ key ∈ m.keys := by
  cases h : m.get? key with
  | none => simp [contains, h, get?_eq_none_iff.mp h]
  | some value =>
    have present : key ∈ m.keys := by
      by_cases member : key ∈ m.keys
      · exact member
      · rw [get?_eq_none_iff.mpr member] at h
        cases h
    simp [contains, h, present]

theorem mem_keys_iff {m : OrderedMap κ ν} {key : κ} :
    key ∈ m.keys ↔ ∃ value, m.get? key = some value := by
  cases h : m.get? key with
  | none => simp [get?_eq_none_iff.mp h]
  | some value => simp [← contains_iff, contains, h]

theorem get?_eq_some_iff {m : OrderedMap κ ν} {key : κ} {value : ν} :
    m.get? key = some value ↔ (key, value) ∈ m.toList :=
  ⟨mem_of_lookup, lookup_of_mem m.keys_nodup⟩

theorem mem_values_iff {m : OrderedMap κ ν} {value : ν} :
    value ∈ m.values ↔ ∃ key, m.get? key = some value := by
  simp only [values, List.mem_map, get?_eq_some_iff, Prod.exists, exists_eq_right]

theorem mem_keys_of_get? {m : OrderedMap κ ν} {key : κ} {value : ν}
    (found : m.get? key = some value) : key ∈ m.keys :=
  List.mem_map.mpr ⟨(key, value), get?_eq_some_iff.mp found, rfl⟩

@[simp] theorem get?_insert_self (m : OrderedMap κ ν) (key : κ) (value : ν) :
    (m.insert key value).get? key = some value :=
  lookup_assign_self key value m.toList

theorem get?_insert_of_ne (m : OrderedMap κ ν) {key other : κ} (ne : other ≠ key) (value : ν) :
    (m.insert key value).get? other = m.get? other :=
  lookup_assign_of_ne ne value m.toList

theorem get?_insert (m : OrderedMap κ ν) (key other : κ) (value : ν) :
    (m.insert key value).get? other = if other = key then some value else m.get? other := by
  by_cases h : other = key
  · subst h
    simp
  · simp [h, get?_insert_of_ne m h]

theorem keys_insert (m : OrderedMap κ ν) (key : κ) (value : ν) :
    (m.insert key value).keys = if key ∈ m.keys then m.keys else m.keys ++ [key] :=
  keys_assign key value m.toList

theorem insert_of_get? {m : OrderedMap κ ν} {key : κ} {value : ν}
    (found : m.get? key = some value) :
    m.insert key value = m :=
  ext_toList (assign_of_lookup found)

theorem toList_insert_of_absent {m : OrderedMap κ ν} {key : κ} (absent : m.get? key = none)
    (value : ν) :
    (m.insert key value).toList = m.toList ++ [(key, value)] :=
  assign_of_lookup_eq_none absent value

theorem toList_insert_of_mem {m : OrderedMap κ ν} {key : κ} (present : key ∈ m.keys) (value : ν) :
    (m.insert key value).toList =
      m.toList.map fun pair => if pair.1 = key then (key, value) else pair :=
  assign_of_mem m.keys_nodup present value

theorem insert_insert (m : OrderedMap κ ν) (key : κ) (first second : ν) :
    (m.insert key first).insert key second = m.insert key second :=
  ext_toList (assign_assign key first second m.toList)

@[simp] theorem get?_erase_self (m : OrderedMap κ ν) (key : κ) : (m.erase key).get? key = none :=
  lookup_discard_self key m.toList

theorem get?_erase_of_ne (m : OrderedMap κ ν) {key other : κ} (ne : other ≠ key) :
    (m.erase key).get? other = m.get? other :=
  lookup_discard_of_ne ne m.toList

theorem get?_erase (m : OrderedMap κ ν) (key other : κ) :
    (m.erase key).get? other = if other = key then none else m.get? other := by
  by_cases h : other = key
  · subst h
    simp
  · simp [h, get?_erase_of_ne m h]

theorem keys_erase (m : OrderedMap κ ν) (key : κ) :
    (m.erase key).keys = m.keys.filter (fun k => decide (k ≠ key)) :=
  keys_discard key m.toList

theorem erase_of_absent {m : OrderedMap κ ν} {key : κ} (absent : m.get? key = none) :
    m.erase key = m :=
  ext_toList (discard_of_absent (get?_eq_none_iff.mp absent))

theorem erase_insert (m : OrderedMap κ ν) (key : κ) (value : ν) :
    (m.insert key value).erase key = m.erase key :=
  ext_toList (discard_assign key value m.toList)

theorem size_erase_le (m : OrderedMap κ ν) (key : κ) : (m.erase key).size ≤ m.size := by
  rw [size_eq_length_keys, size_eq_length_keys, keys_erase]
  exact List.length_filter_le _ _

theorem size_erase_lt {m : OrderedMap κ ν} {key : κ} (present : key ∈ m.keys) :
    (m.erase key).size < m.size := by
  rw [size_eq_length_keys, size_eq_length_keys, keys_erase]
  have shorter : (m.keys.filter (fun k => decide (k ≠ key))).length ≠ m.keys.length := by
    rw [Ne, List.length_filter_eq_length_iff]
    intro all
    simpa using all key present
  have bounded := List.length_filter_le (fun k => decide (k ≠ key)) m.keys
  omega

theorem get?_modify (m : OrderedMap κ ν) (key other : κ) (change : ν → ν) :
    (m.modify key change).get? other =
      if other = key then (m.get? key).map change else m.get? other := by
  unfold modify
  cases found : m.get? key with
  | none =>
    by_cases h : other = key
    · simp [h, found]
    · simp [h]
  | some value => simp [get?_insert]

theorem keys_modify (m : OrderedMap κ ν) (key : κ) (change : ν → ν) :
    (m.modify key change).keys = m.keys := by
  unfold modify
  cases found : m.get? key with
  | none => rfl
  | some value =>
    simp only [keys_insert]
    rw [if_pos (mem_keys_of_get? found)]

theorem modify_modify (m : OrderedMap κ ν) (key : κ) (first second : ν → ν) :
    (m.modify key first).modify key second = m.modify key (second ∘ first) := by
  cases found : m.get? key with
  | none => simp only [modify, found]
  | some value => simp only [modify, found, get?_insert_self, insert_insert, Function.comp]

theorem modify_of_get? {m : OrderedMap κ ν} {key : κ} {value : ν} {change : ν → ν}
    (found : m.get? key = some value) (same : change value = value) : m.modify key change = m := by
  simp only [modify, found, same]
  exact insert_of_get? found

theorem toList_modify (m : OrderedMap κ ν) (key : κ) (change : ν → ν) :
    (m.modify key change).toList =
      m.toList.map fun entry => if entry.1 = key then (key, change entry.2) else entry := by
  unfold modify
  cases found : m.get? key with
  | none =>
    refine ((List.map_congr_left fun entry member => ?_).trans (List.map_id m.toList)).symm
    have ne : entry.1 ≠ key := by
      intro same
      exact get?_eq_none_iff.mp found (same ▸ List.mem_map_of_mem member)
    rw [if_neg ne, id]
  | some value =>
    refine (assign_of_mem m.keys_nodup (mem_keys_of_get? found) (change value)).trans ?_
    refine List.map_congr_left fun entry member => ?_
    by_cases same : entry.1 = key
    · have held : m.get? key = some entry.2 := get?_eq_some_iff.mpr (same ▸ member)
      cases held.symm.trans found
      rw [if_pos same]
    · rw [if_neg same, if_neg same]

theorem modify_comm {first second : ν → ν}
    (comm : ∀ value, first (second value) = second (first value)) (m : OrderedMap κ ν)
    (key other : κ) :
    (m.modify key first).modify other second = (m.modify other second).modify key first := by
  refine ext_toList ?_
  simp only [toList_modify, List.map_map]
  refine List.map_congr_left fun entry _ => ?_
  by_cases here : entry.1 = key <;> by_cases there : entry.1 = other <;> simp_all

end OrderedMap
end NameTree
