import NameTree.Proofs.Histories
import NameTree.Store.Direct

/-!
What an index and an arena hold, told from their history. From the empty container on, the values
are those given last and the keys stand in the order in which they arrived, under a capacity that is
never exceeded. Both kinds of container are ordered maps under a name and a capacity, for which the
law is proved once.
-/

namespace NameTree

/-- A kind of container: how an edit changes one, how the value that its key had is answered, and
what is seen of the container. -/
structure Container (γ κ ν α : Type) where
  run : Edit κ ν → γ → Except Fault α × γ
  previous : Option ν → α
  get? : γ → κ → Option ν
  toList : γ → List (κ × ν)
  size : γ → Nat

namespace Container

variable {γ κ ν α : Type}

def keys (c : Container γ κ ν α) (state : γ) : List κ := (c.toList state).map Prod.fst

def replay (c : Container γ κ ν α) : List (Edit κ ν) → γ → History κ ν α × γ
  | [], state => ([], state)
  | edit :: rest, state =>
    let (answer, changed) := c.run edit state
    let (history, last) := c.replay rest changed
    ((edit, answer) :: history, last)

/-- The container holds what the history tells, in the order in which the history tells that the
keys arrived. -/
structure Recounts (c : Container γ κ ν α) (capacity : Option Int) (history : History κ ν α)
    (state : γ) : Prop where
  get?_iff : ∀ key value, c.get? state key = some value ↔ history.Holds key value
  mem_toList_iff : ∀ key value, (key, value) ∈ c.toList state ↔ c.get? state key = some value
  nodup_keys : (c.keys state).Nodup
  arrived : ∀ key ∈ c.keys state, ∃ time, history.LastArrival key time
  ordered : (c.keys state).Pairwise history.Before
  size_eq : c.size state = (c.toList state).length
  size_le : ∀ limit ∈ capacity, (c.size state : Int) ≤ limit

/-- What the next edit is answered, and where it leaves the keys. Only a new key is ever refused,
and only where there are as many as the capacity allows. -/
structure Answers [DecidableEq κ] (c : Container γ κ ν α) (name : String) (capacity : Option Int)
    (state : γ) : Prop where
  refused_iff : ∀ key value, (∃ fault, (c.run (.insert key value) state).1 = .error fault) ↔
    c.get? state key = none ∧ capacity = some (c.size state)
  refusal : ∀ key value fault, (c.run (.insert key value) state).1 = .error fault →
    fault = .capacityExceeded name (c.size state) (c.size state) ∧
    (c.run (.insert key value) state).2 = state
  inserted : ∀ key value answer, (c.run (.insert key value) state).1 = .ok answer →
    answer = c.previous (c.get? state key)
  removed : ∀ key, (c.run (.remove key) state).1 = .ok (c.previous (c.get? state key))
  overwritten : ∀ key value, key ∈ c.keys state →
    c.keys (c.run (.insert key value) state).2 = c.keys state
  reinserted : ∀ key value, key ∈ c.keys state →
    c.keys (c.run (.insert key value) (c.run (.remove key) state).2).2 =
      (c.keys state).filter (fun other => decide (other ≠ key)) ++ [key]

end Container

namespace Edit

variable {ρ : Type}

def onIndex : Edit String Int → IndexAct
  | .insert name id => .insert name id
  | .remove name => .remove name

def onArena : Edit Int ρ → ArenaAct ρ
  | .insert id record => .insert id record
  | .remove id => .remove id

end Edit

def Index.container : Container Index String Int IndexFinding where
  run edit index := edit.onIndex.run index
  previous := .id
  get? := Index.get?
  toList := Index.toList
  size := Index.size

def Arena.container {kind : String} {ρ : Type} (describe : ρ → String) :
    Container (Arena kind ρ) Int ρ (ArenaFinding ρ) where
  run edit arena := edit.onArena.run describe arena
  previous := .record
  get? := Arena.get?
  toList := Arena.toList
  size := Arena.size

namespace OrderedMap

variable {κ ν α : Type} [DecidableEq κ] {m n : OrderedMap κ ν} {history : History κ ν α}
  {entry : Edit κ ν × Except Fault α} {name : String} {capacity : Option Int} {key : κ}

def edit (name : String) (capacity : Option Int) (m : OrderedMap κ ν) :
    Edit κ ν → Except Fault (Option ν) × OrderedMap κ ν
  | .insert key value =>
    match m.insertWithin name capacity key value with
    | .error fault => (.error fault, m)
    | .ok changed => (.ok (m.get? key), changed)
  | .remove key => (.ok (m.get? key), m.erase key)

section Bounded

variable (bounded : ∀ limit ∈ capacity, (m.size : Int) ≤ limit)

theorem edit_insert_of_full (absent : m.get? key = none) (full : capacity = some (m.size : Int))
    (value : ν) :
    m.edit name capacity (.insert key value) =
      (.error (.capacityExceeded name m.size m.size), m) := by
  have reached : m.ceiling? capacity = some (m.size : Int) :=
    ceiling?_eq_some_iff.mpr ⟨full, Int.le_refl _⟩
  simp only [edit, insertWithin_of_full absent reached]

include bounded

theorem edit_insert_of_fits (fits : ¬ (m.get? key = none ∧ capacity = some (m.size : Int)))
    (value : ν) :
    m.edit name capacity (.insert key value) = (.ok (m.get? key), m.insert key value) := by
  have done : m.insertWithin name capacity key value = .ok (m.insert key value) := by
    cases present : m.get? key with
    | some old => exact insertWithin_of_present present value
    | none =>
      refine insertWithin_of_room (fun limit given => ?_) key value
      have within := bounded limit given
      have ne : (m.size : Int) ≠ limit := by
        rintro rfl
        exact fits ⟨present, given⟩
      omega
  simp only [edit, done]

theorem size_edit (made : Edit κ ν) :
    ∀ limit ∈ capacity, ((m.edit name capacity made).2.size : Int) ≤ limit := by
  cases made with
  | insert key value =>
    simp only [edit]
    split
    · exact bounded
    · rename_i changed inserted
      exact size_of_insertWithin inserted bounded
  | remove key =>
    intro limit given
    exact Int.le_trans (Int.ofNat_le.mpr (m.size_erase_le key)) (bounded limit given)

end Bounded

structure ToldBy (m : OrderedMap κ ν) (history : History κ ν α) : Prop where
  get?_iff : ∀ key value, m.get? key = some value ↔ history.Holds key value
  arrived : ∀ key ∈ m.keys, ∃ time, history.LastArrival key time
  ordered : m.keys.Pairwise history.Before

theorem toldBy_nil : (empty : OrderedMap κ ν).ToldBy ([] : History κ ν α) where
  get?_iff key value := by
    rw [get?_empty]
    exact iff_of_false (by simp) fun ⟨_, written⟩ =>
      absurd written.writes.lt_length (Nat.not_lt_zero _)
  arrived := by simp [empty, keys]
  ordered := List.Pairwise.nil

namespace ToldBy

theorem has_iff (told : m.ToldBy history) : history.Has key ↔ key ∈ m.keys := by
  simp only [mem_keys_iff, History.Has, told.get?_iff]

theorem arrived_concat (told : m.ToldBy history) (entry : Edit κ ν × Except Fault α)
    (member : key ∈ m.keys) :
    ∃ time, History.LastArrival (history ++ [entry]) key time ∧ time < history.length := by
  obtain ⟨time, arrival⟩ := told.arrived key member
  exact ⟨time, arrival.concat (told.has_iff.mpr member) entry, arrival.lt_length⟩

theorem ordered_concat (told : m.ToldBy history) (entry : Edit κ ν × Except Fault α) :
    m.keys.Pairwise (History.Before (history ++ [entry])) := by
  refine told.ordered.imp_of_mem ?_
  rintro first second firstMem secondMem ⟨earlier, later, firstArrival, secondArrival, order⟩
  exact ⟨earlier, later, firstArrival.concat (told.has_iff.mpr firstMem) entry,
    secondArrival.concat (told.has_iff.mpr secondMem) entry, order⟩

theorem of_sublist (told : m.ToldBy history) (left : n.keys.Sublist m.keys)
    (get?_iff : ∀ key value, n.get? key = some value ↔
      History.Holds (history ++ [entry]) key value) :
    n.ToldBy (history ++ [entry]) where
  get?_iff := get?_iff
  arrived key member := by
    obtain ⟨time, arrival, -⟩ := told.arrived_concat entry (left.subset member)
    exact ⟨time, arrival⟩
  ordered := (told.ordered_concat entry).sublist left

theorem refused (told : m.ToldBy history) (key : κ) (value : ν) (fault : Fault) :
    m.ToldBy (history ++ [(.insert key value, .error fault)]) :=
  told.of_sublist (List.Sublist.refl _) fun other found => by
    rw [History.holds_concat_refused, told.get?_iff]

theorem removed (told : m.ToldBy history) (key : κ) (result : Except Fault α) :
    (m.erase key).ToldBy (history ++ [(.remove key, result)]) := by
  refine told.of_sublist ?_ fun other found => ?_
  · rw [keys_erase]
    exact List.filter_sublist
  · rw [History.holds_concat_removed, get?_erase, ← told.get?_iff]
    by_cases same : other = key <;> simp [same]

theorem written (told : m.ToldBy history) (key : κ) (value : ν) (answer : α) :
    (m.insert key value).ToldBy (history ++ [(.insert key value, .ok answer)]) := by
  have get?_iff (other : κ) (found : ν) : (m.insert key value).get? other = some found ↔
      History.Holds (history ++ [(.insert key value, .ok answer)]) other found := by
    rw [History.holds_concat_written, get?_insert, ← told.get?_iff]
    by_cases same : other = key <;> simp [same]
  by_cases present : key ∈ m.keys
  · have same : (m.insert key value).keys = m.keys := by rw [keys_insert, if_pos present]
    exact told.of_sublist (same ▸ List.Sublist.refl _) get?_iff
  · have arrival : History.LastArrival (history ++ [(.insert key value, .ok answer)]) key
        history.length :=
      History.lastArrival_concat ⟨answer, rfl⟩ (mt told.has_iff.mp present)
    have last : (m.insert key value).keys = m.keys ++ [key] := by rw [keys_insert, if_neg present]
    refine ⟨get?_iff, ?_, ?_⟩
    · intro other member
      rw [last, List.mem_append, List.mem_singleton] at member
      rcases member with old | rfl
      · obtain ⟨time, arrived, -⟩ := told.arrived_concat _ old
        exact ⟨time, arrived⟩
      · exact ⟨_, arrival⟩
    · rw [last, List.pairwise_append]
      refine ⟨told.ordered_concat _, List.pairwise_singleton _ _, fun other old fresh isNew => ?_⟩
      obtain rfl := List.mem_singleton.mp isNew
      obtain ⟨time, arrived, earlier⟩ := told.arrived_concat _ old
      exact ⟨time, _, arrived, arrival, earlier⟩

theorem edit (told : m.ToldBy history) (name : String) (capacity : Option Int)
    (previous : Option ν → α) (made : Edit κ ν) :
    (m.edit name capacity made).2.ToldBy
      (history ++ [(made, (m.edit name capacity made).1.map previous)]) := by
  cases made with
  | remove key => exact told.removed key _
  | insert key value =>
    simp only [OrderedMap.edit]
    split
    · exact told.refused key value _
    · rename_i changed inserted
      rw [eq_insert_of_insertWithin inserted]
      exact told.written key value _

end ToldBy

end OrderedMap

namespace Container

variable {γ κ ν α : Type} [DecidableEq κ] {c : Container γ κ ν α} {name : String}
  {capacity : Option Int} {make : OrderedMap κ ν → γ} {m : OrderedMap κ ν} {key : κ}

structure Wraps (c : Container γ κ ν α) (name : String) (capacity : Option Int)
    (make : OrderedMap κ ν → γ) : Prop where
  run : ∀ edit m,
    c.run edit (make m) = ((m.edit name capacity edit).1.map c.previous,
      make (m.edit name capacity edit).2)
  get? : ∀ m key, c.get? (make m) key = m.get? key
  toList : ∀ m, c.toList (make m) = m.toList
  size : ∀ m, c.size (make m) = m.size

namespace Wraps

theorem keys (wraps : c.Wraps name capacity make) (m : OrderedMap κ ν) :
    c.keys (make m) = m.keys := by
  rw [Container.keys, wraps.toList]
  rfl

theorem exists_replay (wraps : c.Wraps name capacity make) (edits : List (Edit κ ν))
    {history : History κ ν α} (told : m.ToldBy history)
    (bounded : ∀ limit ∈ capacity, (m.size : Int) ≤ limit) :
    ∃ n : OrderedMap κ ν, (c.replay edits (make m)).2 = make n ∧
      n.ToldBy (history ++ (c.replay edits (make m)).1) ∧
      ∀ limit ∈ capacity, (n.size : Int) ≤ limit := by
  -- the history told so far grows by one entry at a time
  induction edits generalizing m history with
  | nil =>
    refine ⟨m, rfl, ?_, bounded⟩
    rwa [replay, List.append_nil]
  | cons edit rest ih =>
    obtain ⟨n, ended, toldAll, within⟩ :=
      ih (told.edit name capacity c.previous edit) (OrderedMap.size_edit bounded edit)
    rw [List.append_assoc, List.singleton_append] at toldAll
    simp only [replay, wraps.run]
    exact ⟨n, ended, toldAll, within⟩

theorem recounts (wraps : c.Wraps name capacity make) {history : History κ ν α}
    (told : m.ToldBy history) (bounded : ∀ limit ∈ capacity, (m.size : Int) ≤ limit) :
    c.Recounts capacity history (make m) where
  get?_iff key value := by rw [wraps.get?, told.get?_iff]
  mem_toList_iff key value := by rw [wraps.toList, wraps.get?, OrderedMap.get?_eq_some_iff]
  nodup_keys := by
    rw [wraps.keys]
    exact m.nodup_keys
  arrived := by
    rw [wraps.keys]
    exact told.arrived
  ordered := by
    rw [wraps.keys]
    exact told.ordered
  size_eq := by
    rw [wraps.size, wraps.toList]
    rfl
  size_le := by
    rw [wraps.size]
    exact bounded

theorem run_remove (wraps : c.Wraps name capacity make) (m : OrderedMap κ ν) (key : κ) :
    c.run (.remove key) (make m) = (.ok (c.previous (m.get? key)), make (m.erase key)) :=
  wraps.run (.remove key) m

section Insert

variable (wraps : c.Wraps name capacity make) (bounded : ∀ limit ∈ capacity, (m.size : Int) ≤ limit)
include wraps bounded

theorem run_insert_of_fits (fits : ¬ (m.get? key = none ∧ capacity = some (m.size : Int)))
    (value : ν) :
    c.run (.insert key value) (make m) =
      (.ok (c.previous (m.get? key)), make (m.insert key value)) := by
  rw [wraps.run, OrderedMap.edit_insert_of_fits bounded fits]
  rfl

theorem run_insert_cases (key : κ) (value : ν) :
    (m.get? key = none ∧ capacity = some (m.size : Int)) ∧
        c.run (.insert key value) (make m) =
          (.error (.capacityExceeded name m.size m.size), make m) ∨
      ¬ (m.get? key = none ∧ capacity = some (m.size : Int)) ∧
        c.run (.insert key value) (make m) =
          (.ok (c.previous (m.get? key)), make (m.insert key value)) := by
  by_cases full : m.get? key = none ∧ capacity = some (m.size : Int)
  · refine Or.inl ⟨full, ?_⟩
    rw [wraps.run, OrderedMap.edit_insert_of_full full.1 full.2]
    rfl
  · exact Or.inr ⟨full, wraps.run_insert_of_fits bounded full value⟩

end Insert

theorem answers (wraps : c.Wraps name capacity make)
    (bounded : ∀ limit ∈ capacity, (m.size : Int) ≤ limit) : c.Answers name capacity (make m) where
  refused_iff key value := by
    rw [wraps.get?, wraps.size]
    rcases wraps.run_insert_cases bounded key value with ⟨full, refused⟩ | ⟨fits, done⟩
    · rw [refused]
      exact iff_of_true ⟨_, rfl⟩ full
    · rw [done]
      exact iff_of_false (by simp) fits
  refusal key value fault failed := by
    rw [wraps.size]
    rcases wraps.run_insert_cases bounded key value with ⟨-, refused⟩ | ⟨-, done⟩
    · rw [refused] at failed ⊢
      cases failed
      exact ⟨rfl, rfl⟩
    · rw [done] at failed
      cases failed
  inserted key value answer given := by
    rw [wraps.get?]
    rcases wraps.run_insert_cases bounded key value with ⟨-, refused⟩ | ⟨-, done⟩
    · rw [refused] at given
      cases given
    · rw [done] at given
      cases given
      rfl
  removed key := by rw [wraps.run_remove, wraps.get?]
  overwritten key value member := by
    rw [wraps.keys] at member ⊢
    have present : m.get? key ≠ none := mt OrderedMap.get?_eq_none_iff.mp (not_not_intro member)
    rw [wraps.run_insert_of_fits bounded (fun full => present full.1), wraps.keys,
      OrderedMap.keys_insert, if_pos member]
  reinserted key value member := by
    rw [wraps.keys] at member ⊢
    have fewer := OrderedMap.size_erase_lt member
    have room : ∀ limit ∈ capacity, ((m.erase key).size : Int) < limit := by
      intro limit given
      have within := bounded limit given
      omega
    have fits : capacity ≠ some ((m.erase key).size : Int) :=
      fun full => Int.lt_irrefl _ (room _ full)
    have absent : key ∉ (m.erase key).keys := OrderedMap.get?_eq_none_iff.mp (m.get?_erase_self key)
    rw [wraps.run_remove, wraps.run_insert_of_fits
      (fun limit given => Int.le_of_lt (room limit given)) (fun full => fits full.2), wraps.keys,
      OrderedMap.keys_insert, if_neg absent, OrderedMap.keys_erase]

theorem replay (wraps : c.Wraps name capacity make) (nonneg : ∀ given ∈ capacity, 0 ≤ given)
    (edits : List (Edit κ ν)) :
    let replayed := c.replay edits (make .empty)
    c.Recounts capacity replayed.1 replayed.2 ∧ c.Answers name capacity replayed.2 := by
  intro replayed
  obtain ⟨n, ended, told, within⟩ := wraps.exists_replay edits OrderedMap.toldBy_nil nonneg
  rw [List.nil_append] at told
  rw [ended]
  exact ⟨wraps.recounts told within, wraps.answers within⟩

end Wraps

end Container

theorem Index.wraps (label : String) (capacity : Option Int) :
    Index.container.Wraps label capacity fun bindings => ⟨label, capacity, bindings⟩ where
  run edit m := by
    cases edit with
    | remove name => rfl
    | insert name id =>
      simp only [Index.container, Edit.onIndex, IndexAct.run, Index.insert, OrderedMap.edit]
      cases m.insertWithin label capacity name id <;> rfl
  get? _ _ := rfl
  toList _ := rfl
  size _ := rfl

theorem Arena.wraps {kind : String} {ρ : Type} (describe : ρ → String) (capacity : Option Int) :
    (Arena.container describe : Container (Arena kind ρ) Int ρ (ArenaFinding ρ)).Wraps
      (kind ++ " arena") capacity
      fun records => ⟨capacity, records⟩ where
  run edit m := by
    cases edit with
    | remove id => rfl
    | insert id record =>
      simp only [Arena.container, Edit.onArena, ArenaAct.run, Arena.insert, OrderedMap.edit]
      cases m.insertWithin (kind ++ " arena") capacity id record <;> rfl
  get? _ _ := rfl
  toList _ := rfl
  size _ := rfl

/-- After any insertions and removals an index and an arena hold the values that their keys were
given last. The keys stand in the order in which they last arrived, and are never more than the
capacity allows. -/
theorem containers_follow_history {capacity : Option Int} (nonneg : ∀ given ∈ capacity, 0 ≤ given) :
    (∀ label (edits : List (Edit String Int)),
      let replayed := Index.container.replay edits (.empty label capacity)
      Index.container.Recounts capacity replayed.1 replayed.2 ∧
        Index.container.Answers label capacity replayed.2 ∧
        replayed.2.names = replayed.2.toList.map Prod.fst ∧
          replayed.2.ids = replayed.2.toList.map Prod.snd) ∧
    ∀ kind (ρ : Type) (describe : ρ → String) (edits : List (Edit Int ρ)),
      let arenas : Container (Arena kind ρ) Int ρ (ArenaFinding ρ) := Arena.container describe
      let replayed := arenas.replay edits (.empty capacity)
      arenas.Recounts capacity replayed.1 replayed.2 ∧
        arenas.Answers (kind ++ " arena") capacity replayed.2 := by
  constructor
  · intro label edits replayed
    obtain ⟨told, answered⟩ := (Index.wraps label capacity).replay nonneg edits
    exact ⟨told, answered, rfl, rfl⟩
  · intro kind ρ describe edits arenas replayed
    exact (Arena.wraps describe capacity).replay nonneg edits

theorem containers_follow_history_full :
    let ids := Index.container.replay [.insert "a" 1, .insert "b" 2, .insert "c" 3, .insert "a" 4,
      .remove "a",
      .insert "a" 5] (.empty "names" (some 2))
    let arenas : Container (Arena "file" String) Int String (ArenaFinding String) :=
      Arena.container id
    let records := arenas.replay [.insert 7 "x", .insert 3 "y", .remove 8, .insert 7 "z"]
      (.empty (some 2))
    (∀ given ∈ some (2 : Int), 0 ≤ given) ∧
      ids.1.map Prod.snd = [.ok (.id none), .ok (.id none), .error (.capacityExceeded "names" 2 2),
        .ok (.id (some 1)), .ok (.id (some 4)), .ok (.id none)] ∧
      ids.2.toList = [("b", 2), ("a", 5)] ∧ ids.1.Holds "a" 5 ∧ ids.1.Before "b" "a" ∧
      (∃ fault, (Index.container.run (.insert "c" 6) ids.2).1 = .error fault) ∧
      records.2.toList = [(7, "z"), (3, "y")] ∧ records.1.Holds 7 "z" ∧ records.1.Before 7 3 := by
  intro ids arenas records
  have nonneg : ∀ given ∈ some (2 : Int), 0 ≤ given := by decide
  obtain ⟨indexes, others⟩ := containers_follow_history nonneg
  obtain ⟨told, answered, -⟩ :=
    indexes "names" [.insert "a" 1, .insert "b" 2, .insert "c" 3, .insert "a" 4, .remove "a",
    .insert "a" 5]
  obtain ⟨toldRecords, -⟩ :=
    others "file" String id [.insert 7 "x", .insert 3 "y", .remove 8, .insert 7 "z"]
  have names : Index.container.keys ids.2 = ["b", "a"] := by decide +kernel
  have keys : arenas.keys records.2 = [7, 3] := by decide +kernel
  refine ⟨nonneg, by decide +kernel, by decide +kernel,
    (told.get?_iff "a" 5).mp (by decide +kernel), ?_,
    (answered.refused_iff "c" 6).mpr (by decide +kernel), by decide +kernel,
    (toldRecords.get?_iff 7 "z").mp (by decide +kernel), ?_⟩
  · have ordered := told.ordered
    rw [names] at ordered
    exact (List.pairwise_cons.mp ordered).1 "a" (List.mem_singleton_self "a")
  · have ordered := toldRecords.ordered
    rw [keys] at ordered
    exact (List.pairwise_cons.mp ordered).1 3 (List.mem_singleton_self 3)

end NameTree
