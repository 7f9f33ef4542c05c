import Mathlib.Data.List.Forall2
import NameTree.Fault

/-!
Computations that may end in a fault, taken apart at a sequence of two: when it succeeds, when it
fails, and which faults it can end in.
-/

namespace NameTree

variable {α β γ : Type}

theorem bind_eq_ok_iff {first : Except Fault α} {next : α → Except Fault β} {value : β} :
    (first >>= next) = .ok value ↔ ∃ middle, first = .ok middle ∧ next middle = .ok value := by
  cases first <;> simp [bind, Except.bind]

theorem bind_eq_error_iff {first : Except Fault α} {next : α → Except Fault β} {fault : Fault} :
    (first >>= next) = .error fault ↔
      first = .error fault ∨ ∃ middle, first = .ok middle ∧ next middle = .error fault := by
  cases first <;> simp [bind, Except.bind]

theorem map_eq_ok_iff {result : Except Fault α} {f : α → β} {value : β} :
    result.map f = .ok value ↔ ∃ middle, result = .ok middle ∧ f middle = value := by
  cases result <;> simp [Except.map]

theorem map_eq_error_iff {result : Except Fault α} {f : α → β} {fault : Fault} :
    result.map f = .error fault ↔ result = .error fault := by
  cases result <;> simp [Except.map]

theorem mapM_eq_ok_iff {f : α → Except Fault β} {values : List α} {results : List β} :
    values.mapM f = .ok results ↔
      List.Forall₂ (fun value result => f value = .ok result) values results := by
  induction values generalizing results with
  | nil => cases results <;> simp [pure, Except.pure]
  | cons value rest ih =>
    simp only [List.mapM_cons, bind_eq_ok_iff, ih, List.forall₂_cons_left_iff]
    constructor
    · intro given
      rcases given with ⟨first, done, others, doneRest, same⟩
      cases same
      exact ⟨first, others, done, doneRest, rfl⟩
    · intro given
      rcases given with ⟨first, others, done, doneRest, rfl⟩
      exact ⟨first, done, others, doneRest, rfl⟩

theorem mapM_map_eq_ok {key : α → β} {f : β → Except Fault γ} {g : α → γ} {inputs : List α}
    (computed : ∀ input ∈ inputs, f (key input) = .ok (g input)) :
    (inputs.map key).mapM f = .ok (inputs.map g) := by
  rw [mapM_eq_ok_iff, List.forall₂_map_left_iff, List.forall₂_map_right_iff, List.forall₂_same]
  exact computed

theorem exists_mapM {f : α → Except Fault β} {key : α → γ} {view : β → γ} {values : List α}
    (each : ∀ value ∈ values, ∃ result, f value = .ok result ∧ view result = key value) :
    ∃ results, values.mapM f = .ok results ∧ results.map view = values.map key := by
  induction values with
  | nil => exact ⟨[], rfl, rfl⟩
  | cons value rest ih =>
    obtain ⟨first, done, shown⟩ := each value List.mem_cons_self
    obtain ⟨others, doneRest, shownRest⟩ := ih fun other member =>
      each other (List.mem_cons_of_mem value member)
    refine ⟨first :: others, mapM_eq_ok_iff.mpr (.cons done (mapM_eq_ok_iff.mp doneRest)), ?_⟩
    rw [List.map_cons, List.map_cons, shown, shownRest]

theorem mem_of_mapM {f : α → Except Fault β} {values : List α} {results : List β} {result : β}
    (done : values.mapM f = .ok results) : result ∈ results ↔
      ∃ value ∈ values, f value = .ok result := by
  rw [mapM_eq_ok_iff] at done
  induction done with
  | nil => simp
  | cons here _ ih =>
    rw [List.mem_cons, ih]
    simp [here, eq_comm]

theorem of_mapM {f : α → Except Fault β} {key : β → α} {values : List α} {results : List β}
    (shown : ∀ {value result}, f value = .ok result → key result = value)
    (done : values.mapM f = .ok results) :
    results.map key = values ∧ ∀ result ∈ results, f (key result) = .ok result := by
  rw [mapM_eq_ok_iff] at done
  induction done with
  | nil => simp
  | @cons value result values results here _ ih =>
    obtain ⟨keys, computed⟩ := ih
    have same := shown here
    refine ⟨by rw [List.map_cons, keys, same], ?_⟩
    intro other member
    rcases List.mem_cons.mp member with rfl | later
    · rw [same]
      exact here
    · exact computed other later

/-- Whatever fault it ends in is one of the possible ones. -/
def FailsOnly (possible : Fault → Prop) (result : Except Fault α) : Prop :=
  ∀ fault, result = .error fault → possible fault

namespace FailsOnly

variable {possible : Fault → Prop}

theorem of_ok {result : Except Fault α} {value : α} (done : result = .ok value) :
    FailsOnly possible result := by
  intro fault failed
  rw [done] at failed
  cases failed

theorem ok (value : α) : FailsOnly possible (.ok value : Except Fault α) := of_ok rfl

theorem error {fault : Fault} (isPossible : possible fault) :
    FailsOnly possible (.error fault : Except Fault α) := by
  intro other failed
  cases failed
  exact isPossible

theorem mono {wider : Fault → Prop} {result : Except Fault α} (fails : FailsOnly possible result)
    (weaken : ∀ fault, possible fault → wider fault) : FailsOnly wider result :=
  fun fault failed => weaken fault (fails fault failed)

theorem bind {first : Except Fault α} {next : α → Except Fault β} (fails : FailsOnly possible first)
    (further : ∀ middle, first = .ok middle → FailsOnly possible (next middle)) :
    FailsOnly possible (first >>= next) := by
  intro fault failed
  rcases bind_eq_error_iff.mp failed with here | ⟨middle, done, later⟩
  · exact fails fault here
  · exact further middle done fault later

theorem map {result : Except Fault α} (fails : FailsOnly possible result) (f : α → β) :
    FailsOnly possible (result.map f) := by
  intro fault failed
  exact fails fault (map_eq_error_iff.mp failed)

theorem mapM {f : α → Except Fault β} {values : List α}
    (fails : ∀ value ∈ values, FailsOnly possible (f value)) :
    FailsOnly possible (values.mapM f) := by
  induction values with
  | nil => exact ok []
  | cons value rest ih =>
    rw [List.mapM_cons]
    refine (fails value List.mem_cons_self).bind fun _ _ => ?_
    refine (ih fun other member => fails other (List.mem_cons_of_mem _ member)).bind fun _ _ => ?_
    exact ok _

theorem forM {f : α → Except Fault Unit} {values : List α}
    (fails : ∀ value, FailsOnly possible (f value)) :
    FailsOnly possible (values.forM f) := by
  induction values with
  | nil => exact ok ()
  | cons value rest ih => exact (fails value).bind fun _ _ => ih

end FailsOnly

/-- No fault that it can end in is an internal one. -/
def External (result : Except Fault α) : Prop :=
  ∀ fault, result = .error fault → fault.isInternal = false

namespace External

theorem ok (value : α) : External (.ok value : Except Fault α) := FailsOnly.ok value

theorem error {fault : Fault} (outside : fault.isInternal = false) :
    External (.error fault : Except Fault α) :=
  FailsOnly.error outside

theorem map {result : Except Fault α} (external : External result) (f : α → β) :
    External (result.map f) :=
  FailsOnly.map external f

end External

end NameTree
