import NameTree.Operation.Delete
import NameTree.Proofs.Bindings

/-!
Maps without some of their keys, arenas without some of their records: what is left keeps its order.
-/

namespace NameTree

namespace OrderedMap

variable {κ ν : Type} {keep : κ → Bool}

def restrict (keep : κ → Bool) (m : OrderedMap κ ν) : OrderedMap κ ν where
  toList := m.toList.filter fun entry => keep entry.1
  keys_nodup := m.keys_nodup.sublist (List.filter_sublist.map Prod.fst)

theorem keys_restrict (m : OrderedMap κ ν) : (m.restrict keep).keys = m.keys.filter keep :=
  (List.filter_map).symm

theorem restrict_of_all {m : OrderedMap κ ν} (all : ∀ key ∈ m.keys, keep key = true) :
    m.restrict keep = m :=
  ext_toList <| List.filter_eq_self.mpr fun _ member => all _ (List.mem_map_of_mem member)

theorem restrict_restrict (keep more : κ → Bool) (m : OrderedMap κ ν) :
    (m.restrict keep).restrict more = m.restrict fun key => keep key && more key := by
  refine ext_toList ?_
  simp only [restrict, List.filter_filter, Bool.and_comm]

variable [DecidableEq κ] {key : κ}

theorem erase_eq_restrict (m : OrderedMap κ ν) (key : κ) :
    m.erase key = m.restrict fun other => decide (other ≠ key) :=
  ext_toList (discard_eq_filter key m.toList)

theorem get?_restrict_of_keep (kept : keep key = true) (m : OrderedMap κ ν) :
    (m.restrict keep).get? key = m.get? key := by
  refine Option.ext fun value => ?_
  simp only [get?_eq_some_iff, restrict, List.mem_filter, kept, and_true]

theorem filter_assign_of_drop (dropped : keep key = false) (value : ν) (pairs : List (κ × ν)) :
    (assign key value pairs).filter (fun entry => keep entry.1) = pairs.filter fun entry =>
      keep entry.1 := by
  induction pairs with
  | nil => simp [assign, dropped]
  | cons pair rest ih =>
    by_cases same : pair.1 = key
    · simp [assign, same, dropped]
    · simp only [assign, same, if_false, List.filter_cons, ih]

theorem restrict_insert_of_drop (dropped : keep key = false) (value : ν) (m : OrderedMap κ ν) :
    (m.insert key value).restrict keep = m.restrict keep :=
  ext_toList (filter_assign_of_drop dropped value m.toList)

theorem restrict_modify_of_drop (dropped : keep key = false) (change : ν → ν) (m : OrderedMap κ ν) :
    (m.modify key change).restrict keep = m.restrict keep := by
  unfold modify
  split
  · rfl
  · exact restrict_insert_of_drop dropped _ m

theorem restrict_modify (m : OrderedMap κ ν) (key : κ) (change : ν → ν) :
    (m.modify key change).restrict keep = (m.restrict keep).modify key change := by
  refine ext_toList ?_
  simp only [restrict, toList_modify, List.filter_map]
  congr 2
  funext entry
  by_cases here : entry.1 = key <;> simp [here]

theorem restrict_erase_of_drop (dropped : keep key = false) (m : OrderedMap κ ν) :
    (m.erase key).restrict keep = m.restrict keep := by
  refine ext_toList ?_
  simp only [restrict, erase, discard_eq_filter, List.filter_filter]
  refine List.filter_congr fun entry _ => ?_
  by_cases same : entry.1 = key
  · simp [same, dropped]
  · simp [same]

end OrderedMap

namespace Arena

variable {kind : String} {ρ : Type} {arena : Arena kind ρ} {gone : List Int} {id : Int}

def without (gone : List Int) (arena : Arena kind ρ) : Arena kind ρ :=
  { arena with records := arena.records.restrict fun id => decide (id ∉ gone) }

theorem toList_without (gone : List Int) (arena : Arena kind ρ) :
    (arena.without gone).toList = arena.toList.filter fun entry => decide (entry.1 ∉ gone) := rfl

theorem ids_without (gone : List Int) (arena : Arena kind ρ) :
    (arena.without gone).ids = arena.ids.filter fun id => decide (id ∉ gone) :=
  OrderedMap.keys_restrict arena.records

theorem get?_without (gone : List Int) (arena : Arena kind ρ) (id : Int) :
    (arena.without gone).get? id = if id ∈ gone then none else arena.get? id := by
  by_cases dropped : id ∈ gone
  · have absent : id ∉ (arena.without gone).ids := by
      rw [ids_without, List.mem_filter]
      simp [dropped]
    rw [if_pos dropped]
    exact OrderedMap.get?_eq_none_iff.mpr absent
  · rw [if_neg dropped]
    exact OrderedMap.get?_restrict_of_keep (by simpa using dropped) arena.records

theorem without_nil (arena : Arena kind ρ) : arena.without [] = arena := by
  have same : arena.records.restrict (fun id => decide (id ∉ [])) = arena.records :=
    OrderedMap.restrict_of_all fun _ _ => by simp
  rw [without, same]

theorem without_congr {others : List Int} (same : ∀ id, id ∈ gone ↔ id ∈ others) :
    arena.without gone = arena.without others := by
  simp only [without, same]

theorem without_without (first second : List Int) (arena : Arena kind ρ) :
    (arena.without first).without second = arena.without (first ++ second) := by
  simp only [without, OrderedMap.restrict_restrict, List.mem_append, not_or, Bool.decide_and]

theorem without_comm (arena : Arena kind ρ) (gone more : List Int) :
    (arena.without gone).without more = (arena.without more).without gone := by
  rw [without_without, without_without]
  exact without_congr fun id => by rw [List.mem_append, List.mem_append, or_comm]

theorem erase_eq_without (arena : Arena kind ρ) (id : Int) :
    arena.erase id = arena.without [id] := by
  simp only [erase, without, OrderedMap.erase_eq_restrict, List.mem_singleton, ne_eq]

section Drop

theorem exists_drop_eq (arena : Arena kind ρ) (gone : List Int) :
    ∃ dropped, (arena.drop gone).2 = arena.without dropped ∧
      ((arena.drop gone).1 = .ok () → dropped = gone) := by
  induction gone generalizing arena with
  | nil => exact ⟨[], arena.without_nil.symm, fun _ => rfl⟩
  | cons first rest ih =>
    by_cases member : first ∈ arena.ids
    · have stepped : arena.drop (first :: rest) = (arena.erase first).drop rest := by
        rw [drop, remove_of_mem member]
      obtain ⟨dropped, left, all⟩ := ih (arena.erase first)
      rw [stepped]
      refine ⟨first :: dropped, ?_, fun done => congrArg (first :: ·) (all done)⟩
      rw [left, erase_eq_without, without_without]
      rfl
    · have stopped : arena.drop (first :: rest) = (.error (.mismatch first kind), arena) := by
        rw [drop, remove_of_notMem member]
      rw [stopped]
      exact ⟨[], arena.without_nil.symm, nofun⟩

theorem eq_without_of_drop {left : Arena kind ρ} (done : arena.drop gone = (.ok (), left)) :
    left = arena.without gone := by
  obtain ⟨dropped, same, all⟩ := arena.exists_drop_eq gone
  rw [done] at same all
  rw [← all rfl]
  exact same

theorem drop_of_recorded (distinct : gone.Nodup) (recorded : ∀ id ∈ gone, id ∈ arena.ids) :
    arena.drop gone = (.ok (), arena.without gone) := by
  have done : (arena.drop gone).1 = .ok () := by
    induction gone generalizing arena with
    | nil => rfl
    | cons first rest ih =>
      have ⟨notLater, distinct⟩ := List.nodup_cons.mp distinct
      rw [drop, remove_of_mem (recorded first List.mem_cons_self)]
      refine ih distinct fun id member => ?_
      have ne : id ≠ first := fun same => notLater (same ▸ member)
      exact mem_ids_erase.mpr ⟨recorded id (List.mem_cons_of_mem _ member), ne⟩
  have paired : arena.drop gone = (.ok (), (arena.drop gone).2) := Prod.ext done rfl
  rw [paired, eq_without_of_drop paired]

theorem capacity_drop (arena : Arena kind ρ) (gone : List Int) :
    (arena.drop gone).2.capacity = arena.capacity := by
  obtain ⟨dropped, same, -⟩ := arena.exists_drop_eq gone
  rw [same]
  rfl

theorem get?_of_drop {record : ρ} (found : (arena.drop gone).2.get? id = some record) :
    arena.get? id = some record := by
  obtain ⟨dropped, same, -⟩ := arena.exists_drop_eq gone
  rw [same, get?_without] at found
  split at found
  · cases found
  · exact found

end Drop

end Arena

def Removed.ids (removed : Removed) : Kind → List Int
  | .file => removed.files
  | .dir => removed.dirs

namespace Store

variable {store : Store} {removed : Removed} {place : Place}

def without (removed : Removed) (store : Store) : Store :=
  { store with files := store.files.without removed.files, dirs := store.dirs.without removed.dirs }

theorem mem_ids_without {kind : Kind} {id : Int} :
    id ∈ (store.without removed).ids kind ↔ id ∈ store.ids kind ∧ id ∉ removed.ids kind := by
  cases kind <;> simp only [ids, without, Removed.ids, Arena.ids_without, List.mem_filter,
    decide_eq_true_iff]

theorem hasPlace_without :
    (store.without removed).HasPlace place ↔ store.HasPlace place ∧
      ∀ id ∈ place, id ∉ removed.dirs := by
  cases place with
  | none => simp [HasPlace]
  | some id => simp [HasPlace, mem_ids_without, Removed.ids]

theorem index_without (left : ∀ id ∈ place, id ∉ removed.dirs) (kind : Kind) :
    (store.without removed).index kind place = store.index kind place := by
  cases place with
  | none => cases kind <;> rfl
  | some id =>
    have kept : (store.dirs.without removed.dirs).get? id = store.dirs.get? id := by
      rw [Arena.get?_without, if_neg (left id rfl)]
    simp only [index, without, Arena.require, kept]

theorem binding?_without {kind : Kind} {name : String} {id : Int} :
    (store.without removed).binding? kind place name = some id ↔
      store.binding? kind place name = some id ∧ ∀ parent ∈ place, parent ∉ removed.dirs := by
  by_cases left : ∀ parent ∈ place, parent ∉ removed.dirs
  · simp only [binding?, index_without left, and_iff_left left]
  · have absent : ¬ (store.without removed).HasPlace place :=
      fun present => left (hasPlace_without.mp present).2
    rw [binding?_of_absent absent]
    exact iff_of_false (by simp) fun both => left both.2

end Store

end NameTree
