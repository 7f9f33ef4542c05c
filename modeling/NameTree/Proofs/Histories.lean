import NameTree.Fault

/-!
Histories of insertions and removals. A history lists the edits of a container with their answers,
and from these alone it tells which value a key was given last and when the key last arrived. Each
of the two is described for a history with one more entry.
-/

namespace NameTree

inductive Edit (κ ν : Type) where
  | insert (key : κ) (value : ν)
  | remove (key : κ)

abbrev History (κ ν α : Type) := List (Edit κ ν × Except Fault α)

namespace History

variable {κ ν α : Type}

/-- The key was given the value; the insertion was not refused. -/
def Writes (history : History κ ν α) (time : Nat) (key : κ) (value : ν) : Prop :=
  ∃ answer, history[time]? = some (.insert key value, .ok answer)

def Removes (history : History κ ν α) (time : Nat) (key : κ) : Prop :=
  ∃ answer, history[time]? = some (.remove key, answer)

def Touches (history : History κ ν α) (time : Nat) (key : κ) : Prop :=
  (∃ value, history.Writes time key value) ∨ history.Removes time key

/-- Since the key was given the value it was neither removed nor given another. -/
structure LastWrite (history : History κ ν α) (key : κ) (value : ν) (time : Nat) : Prop where
  writes : history.Writes time key value
  last : ∀ later > time, ¬ history.Touches later key

def Holds (history : History κ ν α) (key : κ) (value : ν) : Prop :=
  ∃ time, history.LastWrite key value time

def Has (history : History κ ν α) (key : κ) : Prop := ∃ value, history.Holds key value

/-- The key was given a value when it was absent. -/
def Arrives (history : History κ ν α) (key : κ) (time : Nat) : Prop :=
  (∃ value, history.Writes time key value) ∧ ¬ Has (history.take time) key

structure LastArrival (history : History κ ν α) (key : κ) (time : Nat) : Prop where
  arrives : history.Arrives key time
  last : ∀ later > time, ¬ history.Arrives key later

def Before (history : History κ ν α) (first second : κ) : Prop :=
  ∃ earlier later, history.LastArrival first earlier ∧ history.LastArrival second later ∧
    earlier < later

variable {history : History κ ν α} {entry : Edit κ ν × Except Fault α} {key : κ} {value : ν}
  {time : Nat}

theorem getElem?_concat_eq_some_iff {β : Type} {list : List β} {last found : β} {index : Nat} :
    (list ++ [last])[index]? = some found ↔ list[index]? = some found ∨ index = list.length ∧
      last = found := by
  rcases Nat.lt_or_ge index list.length with inside | beyond
  · rw [List.getElem?_append_left inside]
    simp [Nat.ne_of_lt inside]
  · have atEnd : index - list.length = 0 ↔ index = list.length := by omega
    rw [List.getElem?_append_right beyond, List.getElem?_eq_none beyond, List.getElem?_singleton]
    simp [atEnd]

theorem writes_concat : Writes (history ++ [entry]) time key value ↔
    history.Writes time key value ∨ time = history.length ∧ Writes [entry] 0 key value := by
  simp only [Writes, getElem?_concat_eq_some_iff, exists_or, exists_and_left,
    List.getElem?_cons_zero, Option.some.injEq]

theorem touches_concat : Touches (history ++ [entry]) time key ↔
    history.Touches time key ∨ time = history.length ∧ Touches [entry] 0 key := by
  simp only [Touches, Removes, writes_concat, getElem?_concat_eq_some_iff, exists_or,
    exists_and_left, List.getElem?_cons_zero, Option.some.injEq, and_or_left]
  exact or_or_or_comm

theorem Touches.lt_length (touches : history.Touches time key) : time < history.length := by
  rcases touches with
    ⟨value, answer, there⟩ | ⟨answer, there⟩ <;> exact (List.getElem?_eq_some_iff.mp there).1

theorem Writes.lt_length (writes : history.Writes time key value) : time < history.length :=
  Touches.lt_length (Or.inl ⟨value, writes⟩)

theorem not_touches_of_length_lt (beyond : history.length < time) :
    ¬ Touches (history ++ [entry]) time key := by
  intro touches
  have within := touches.lt_length
  rw [List.length_append, List.length_singleton] at within
  omega

theorem holds_concat : Holds (history ++ [entry]) key value ↔
    Writes [entry] 0 key value ∨ history.Holds key value ∧ ¬ Touches [entry] 0 key := by
  constructor
  · rintro ⟨time, writes, last⟩
    rcases writes_concat.mp writes with old | ⟨-, new⟩
    · refine Or.inr ⟨⟨time, old, ?_⟩, ?_⟩
      · exact fun later after again => last later after (touches_concat.mpr (Or.inl again))
      · exact fun again => last _ old.lt_length (touches_concat.mpr (Or.inr ⟨rfl, again⟩))
    · exact Or.inl new
  · rintro (new | ⟨⟨time, writes, last⟩, untouched⟩)
    · exact ⟨history.length, writes_concat.mpr (Or.inr ⟨rfl, new⟩),
        fun _ => not_touches_of_length_lt⟩
    · refine ⟨time, writes_concat.mpr (Or.inl writes), fun later after again => ?_⟩
      rcases touches_concat.mp again with old | ⟨-, new⟩
      · exact last later after old
      · exact untouched new

theorem arrives_concat : Arrives (history ++ [entry]) key time ↔
    history.Arrives key time ∨ time = history.length ∧ (∃ value, Writes [entry] 0 key value) ∧
    ¬ history.Has key := by
  constructor
  · rintro ⟨⟨value, writes⟩, absent⟩
    rcases writes_concat.mp writes with old | ⟨rfl, new⟩
    · rw [List.take_append_of_le_length (Nat.le_of_lt old.lt_length)] at absent
      exact Or.inl ⟨⟨value, old⟩, absent⟩
    · rw [List.take_left] at absent
      exact Or.inr ⟨rfl, ⟨value, new⟩, absent⟩
  · rintro (⟨⟨value, old⟩, absent⟩ | ⟨rfl, ⟨value, new⟩, absent⟩)
    · refine ⟨⟨value, writes_concat.mpr (Or.inl old)⟩, ?_⟩
      rwa [List.take_append_of_le_length (Nat.le_of_lt old.lt_length)]
    · refine ⟨⟨value, writes_concat.mpr (Or.inr ⟨rfl, new⟩)⟩, ?_⟩
      rwa [List.take_left]

theorem LastArrival.concat (arrival : history.LastArrival key time) (present : history.Has key)
    (entry : Edit κ ν × Except Fault α) : LastArrival (history ++ [entry]) key time where
  arrives := arrives_concat.mpr (Or.inl arrival.arrives)
  last := by
    intro later after again
    rcases arrives_concat.mp again with old | ⟨-, -, absent⟩
    · exact arrival.last later after old
    · exact absent present

theorem LastArrival.lt_length (arrival : history.LastArrival key time) : time < history.length := by
  obtain ⟨⟨⟨value, writes⟩, -⟩, -⟩ := arrival
  exact writes.lt_length

theorem lastArrival_concat (writes : Writes [entry] 0 key value) (absent : ¬ history.Has key) :
    LastArrival (history ++ [entry]) key history.length where
  arrives := arrives_concat.mpr (Or.inr ⟨rfl, ⟨value, writes⟩, absent⟩)
  last _ after again := not_touches_of_length_lt after (Or.inl again.1)

section Entry

variable {given : ν} {other : κ} {answer : α} {result : Except Fault α} {fault : Fault}

theorem holds_concat_refused :
    Holds (history ++ [(.insert key given, .error fault)]) other value ↔
      history.Holds other value := by
  simp [holds_concat, Touches, Writes, Removes]

theorem holds_concat_written [DecidableEq κ] :
    Holds (history ++ [(.insert key given, .ok answer)]) other value ↔
      if other = key then given = value else history.Holds other value := by
  by_cases same : other = key
  · simp [holds_concat, Touches, Writes, Removes, same]
  · simp [holds_concat, Touches, Writes, Removes, same, Ne.symm same]

theorem holds_concat_removed :
    Holds (history ++ [(.remove key, result)]) other value ↔
      other ≠ key ∧ history.Holds other value := by
  simp [holds_concat, Touches, Writes, Removes, and_comm, eq_comm]

end Entry

end History

end NameTree
