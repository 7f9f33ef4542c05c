import NameTree.Operation
import NameTree.Proofs.Resolution

/-!
When a mutation succeeds: what its plan stands for, and the store that is written. A plan is made
exactly when the arguments pass their checks and the path leads to an index of the store.
-/

namespace NameTree

section After

variable {π α : Type} {planned : Except Fault π} {store : Store} {write : π → Outcome α}

/-- A plan is made and then written. When there is no plan the store stays as it is. -/
def Outcome.after (planned : Except Fault π) (store : Store) (write : π → Outcome α) : Outcome α :=
  match planned with
  | .error fault => .failed fault store
  | .ok plan => write plan

theorem Outcome.after_of_ok {plan : π} (made : planned = .ok plan) :
    after planned store write = write plan := by
  rw [made]
  rfl

theorem Outcome.after_of_error {fault : Fault} (failed : planned = .error fault) :
    after planned store write = .failed fault store := by
  rw [failed]
  rfl

theorem Outcome.map_after {ρ β : Type} {made : π → ρ} {write : ρ → Outcome β}
    {given : π → Outcome α} {f : α → β} (same : ∀ plan, (given plan).map f = write (made plan)) :
    (after planned store given).map f = after (planned.map made) store write := by
  cases planned with
  | error fault => rfl
  | ok plan => exact same plan

theorem Outcome.exists_plan_of_after {value : α}
    (done : (after planned store write).result = .ok value) :
    ∃ plan, planned = .ok plan ∧ (write plan).result = .ok value ∧
      after planned store write = write plan := by
  cases made : planned with
  | error fault =>
    rw [after_of_error made] at done
    cases done
  | ok plan =>
    rw [after_of_ok made] at done
    exact ⟨plan, rfl, done, rfl⟩

end After

namespace Store

variable (store : Store) (limits : Limits) (reading : Option Int) (path : String)

theorem createFile_eq_after (spec : FileSpec) : store.createFile limits reading path spec =
    .after (store.planFile limits path spec) store (·.write reading store) := by
  unfold createFile
  cases store.planFile limits path spec <;> rfl

theorem createDir_eq_after (tags : Tags) : store.createDir limits reading path tags =
    .after (store.planDir limits path tags) store (·.write reading store) := by
  unfold createDir
  cases store.planDir limits path tags <;> rfl

theorem rename_eq_after (kind : Kind) (target : String) : store.rename limits kind path target =
    .after (store.planRename limits kind path target) store (·.write kind store) := by
  unfold rename
  cases store.planRename limits kind path target <;> rfl

theorem deleteFile_eq_after : store.deleteFile limits path =
    .after (store.planDelete limits .file path) store (·.writeFile store) := by
  unfold deleteFile
  cases store.planDelete limits .file path <;> rfl

theorem deleteDir_eq_after : store.deleteDir limits path =
    .after (store.planDelete limits .dir path) store (·.writeDir path store) := by
  unfold deleteDir
  cases store.planDelete limits .dir path <;> rfl

theorem updateEpoch_eq_after (epoch : Value) : store.updateEpoch epoch =
    .after (checkWord "epoch" epoch) store fun number =>
      .done () { store with epoch := number } := by
  unfold updateEpoch
  cases checkWord "epoch" epoch <;> rfl

end Store

/-- A path that passes its check and leads to the name `leaf` in `index`, the index at `place`. -/
structure Destination (store : Store) (limits : Limits) (kind : Kind) (path : String)
    (place : Place) (leaf : String) (index : Index) : Prop where
  checked : limits.checkPath path = .ok ()
  located : store.locate limits.maxStringLen path = .ok (place, leaf)
  present : store.index kind place = .ok index

namespace Destination

variable {store : Store} {limits : Limits} {kind : Kind} {path : String} {place : Place}
  {leaf : String} {index : Index}

theorem hasPlace (target : Destination store limits kind path place leaf index) :
    store.HasPlace place :=
  Store.hasPlace_of_locate target.located

theorem binding? (target : Destination store limits kind path place leaf index) (name : String) :
    store.binding? kind place name = index.get? name :=
  Store.binding?_of_index target.present name

end Destination

namespace Store

variable {store : Store} {limits : Limits}

theorem planFile_eq_ok_iff {path : String} {spec : FileSpec} {plan : FilePlan} :
    store.planFile limits path spec = .ok plan ↔
      Destination store limits .file path plan.place plan.leaf plan.index ∧
        spec.check limits = .ok plan.draft ∧ plan.replaced = plan.index.get? plan.leaf ∧
        (plan.replaced = none ∨ spec.overwrite = true) := by
  simp only [planFile, bind_eq_ok_iff, Prod.exists]
  constructor
  · intro given
    rcases given with ⟨_, checked, draft, drafted, place, leaf, located, index, present, planned⟩
    cases bound : index.get? leaf with
    | none =>
      rw [bound] at planned
      cases planned
      exact ⟨⟨checked, located, present⟩, drafted, bound.symm, Or.inl rfl⟩
    | some id =>
      rw [bound] at planned
      by_cases overwrite : spec.overwrite = true
      · rw [overwrite] at planned
        cases planned
        exact ⟨⟨checked, located, present⟩, drafted, bound.symm, Or.inr overwrite⟩
      · simp only [Bool.not_eq_true] at overwrite
        rw [overwrite] at planned
        obtain ⟨_, -, refused⟩ := bind_eq_ok_iff.mp planned
        cases refused
  · intro given
    rcases given with ⟨target, drafted, replaced, permitted⟩
    refine ⟨(), target.checked, plan.draft, drafted, plan.place, plan.leaf,
      target.located, plan.index, target.present, ?_⟩
    cases bound : plan.index.get? plan.leaf with
    | none =>
      rw [bound] at replaced
      simp [← replaced, pure, Except.pure]
    | some id =>
      rw [bound] at replaced
      rcases permitted with unbound | overwrite
      · rw [unbound] at replaced
        cases replaced
      · simp [overwrite, ← replaced, pure, Except.pure]

theorem planDir_eq_ok_iff {path : String} {tags : Tags} {plan : DirPlan} :
    store.planDir limits path tags = .ok plan ↔
      Destination store limits .dir (Path.dropFinalSlash path) plan.place plan.leaf plan.index ∧
        limits.checkTags tags = .ok plan.tags ∧ plan.index.get? plan.leaf = none := by
  simp only [planDir, bind_eq_ok_iff, Prod.exists]
  constructor
  · intro given
    rcases given with ⟨_, checked, texts, tagged, place, leaf, located, index, present, planned⟩
    cases bound : index.get? leaf with
    | none =>
      rw [bound] at planned
      cases planned
      exact ⟨⟨checked, located, present⟩, tagged, bound⟩
    | some id =>
      simp only [bound, bind_eq_ok_iff] at planned
      obtain ⟨_, -, refused⟩ := planned
      cases refused
  · intro given
    rcases given with ⟨target, tagged, free⟩
    refine ⟨(), target.checked, plan.tags, tagged, plan.place, plan.leaf,
      target.located, plan.index, target.present, ?_⟩
    rw [free]
    rfl

theorem planDelete_eq_ok_iff {kind : Kind} {path : String} {plan : DeletePlan} :
    store.planDelete limits kind path = .ok plan ↔
      Destination store limits kind (Path.dropFinalSlash path) plan.place plan.leaf plan.index ∧
        plan.index.get? plan.leaf = some plan.id := by
  simp only [planDelete, bind_eq_ok_iff, Prod.exists]
  constructor
  · intro given
    rcases given with ⟨_, checked, place, leaf, located, index, present, planned⟩
    cases bound : index.get? leaf with
    | none =>
      rw [bound] at planned
      cases planned
    | some id =>
      rw [bound] at planned
      cases planned
      exact ⟨⟨checked, located, present⟩, bound⟩
  · intro given
    rcases given with ⟨target, bound⟩
    refine ⟨(), target.checked, plan.place, plan.leaf, target.located, plan.index,
      target.present, ?_⟩
    rw [bound]
    rfl

theorem locatePair_eq_ok_iff {source target : String} {place : Place} {old new : String} :
    store.locatePair limits source target = .ok (place, old, new) ↔
      limits.checkPath (Path.dropFinalSlash source) = .ok () ∧
        limits.checkPath (Path.dropFinalSlash target) = .ok () ∧
        store.locate limits.maxStringLen (Path.dropFinalSlash source) = .ok (place, old) ∧
        store.locate limits.maxStringLen (Path.dropFinalSlash target) = .ok (place, new) := by
  simp only [locatePair, bind_eq_ok_iff, Prod.exists]
  constructor
  · intro given
    rcases given with
      ⟨_, fromChecked, _, toChecked, oldPlace, oldLeaf, fromLocated, newPlace, newLeaf,
      toLocated, paired⟩
    by_cases same : oldPlace = newPlace
    · rw [if_pos same] at paired
      cases paired
      exact ⟨fromChecked, toChecked, fromLocated, same ▸ toLocated⟩
    · rw [if_neg same] at paired
      cases paired
  · intro given
    rcases given with ⟨fromChecked, toChecked, fromLocated, toLocated⟩
    refine ⟨(), fromChecked, (), toChecked, place, old, fromLocated, place, new, toLocated, ?_⟩
    rw [if_pos rfl]
    rfl

theorem planRename_eq_ok_iff {kind : Kind} {source target : String} {plan : RenamePlan} :
    store.planRename limits kind source target = .ok plan ↔
      Destination store limits kind
          (Path.dropFinalSlash source) plan.place plan.oldName plan.index ∧
        Destination store limits kind
          (Path.dropFinalSlash target) plan.place plan.newName plan.index ∧
        (∃ id, plan.index.get? plan.oldName = some id) ∧ plan.index.get? plan.newName = none := by
  simp only [planRename, bind_eq_ok_iff, Prod.exists, locatePair_eq_ok_iff]
  constructor
  · intro given
    rcases given with
      ⟨place, oldName, newName, ⟨fromChecked, toChecked, fromLocated, toLocated⟩, index,
      present, planned⟩
    by_cases held : index.contains oldName = true
    · rw [if_pos held] at planned
      have bound : ∃ id, index.get? oldName = some id := Option.isSome_iff_exists.mp held
      cases taken : index.get? newName with
      | none =>
        rw [taken] at planned
        cases planned
        exact ⟨⟨fromChecked, fromLocated, present⟩, ⟨toChecked, toLocated, present⟩, bound, taken⟩
      | some id =>
        simp only [taken, bind_eq_ok_iff] at planned
        obtain ⟨_, -, refused⟩ := planned
        cases refused
    · rw [if_neg held] at planned
      cases planned
  · intro given
    rcases given with ⟨fromTarget, toTarget, bound, free⟩
    have held : plan.index.contains plan.oldName = true := Option.isSome_iff_exists.mpr bound
    refine ⟨plan.place, plan.oldName, plan.newName,
      ⟨fromTarget.checked, toTarget.checked, fromTarget.located, toTarget.located⟩, plan.index,
      fromTarget.present, ?_⟩
    rw [if_pos held, free]
    rfl

end Store

inductive Plan where
  | file (plan : FilePlan)
  | dir (plan : DirPlan)
  | rename (kind : Kind) (plan : RenamePlan)
  | deleteFile (plan : DeletePlan)
  | deleteDir (plan : DeletePlan) (path : String)
  | epoch (number : Int)

def Plan.write (plan : Plan) (reading : Option Int) (store : Store) : Outcome Effect :=
  match plan with
  | .file plan => (plan.write reading store).map .bound
  | .dir plan => (plan.write reading store).map .bound
  | .rename kind plan => (plan.write kind store).map fun _ => .done
  | .deleteFile plan => (plan.writeFile store).map .removedFile
  | .deleteDir plan path => (plan.writeDir path store).map .removedDir
  | .epoch number => .done .done { store with epoch := number }

/-- What a plan says of the store that it was made for. -/
inductive Plan.Suits (store : Store) : Plan → Prop where
  | file {plan : FilePlan} (present : store.index .file plan.place = .ok plan.index)
    (replaced : plan.replaced = plan.index.get? plan.leaf) : Suits store (.file plan)
  | dir {plan : DirPlan} (present : store.index .dir plan.place = .ok plan.index) :
    Suits store (.dir plan)
  | rename {kind : Kind} {plan : RenamePlan} {id : Int}
    (present : store.index kind plan.place = .ok plan.index)
    (held : plan.index.get? plan.oldName = some id) : Suits store (.rename kind plan)
  | deleteFile {plan : DeletePlan} (present : store.index .file plan.place = .ok plan.index)
    (held : plan.index.get? plan.leaf = some plan.id) : Suits store (.deleteFile plan)
  | deleteDir {plan : DeletePlan} (path : String)
    (present : store.index .dir plan.place = .ok plan.index)
    (held : plan.index.get? plan.leaf = some plan.id) : Suits store (.deleteDir plan path)
  | epoch (number : Int) : Suits store (.epoch number)

namespace Mutation

def plan (m : Mutation) (limits : Limits) (store : Store) : Except Fault Plan :=
  match m with
  | .createFile path spec => (store.planFile limits path spec).map .file
  | .createDir path tags => (store.planDir limits path tags).map .dir
  | .rename kind source target => (store.planRename limits kind source target).map (.rename kind)
  | .deleteFile path => (store.planDelete limits .file path).map .deleteFile
  | .deleteDir path => (store.planDelete limits .dir path).map (.deleteDir · path)
  | .updateEpoch epoch => (checkWord "epoch" epoch).map .epoch

variable {store : Store} {limits : Limits} {m : Mutation}

theorem apply_eq_after (m : Mutation) (limits : Limits) (reading : Option Int) (store : Store) :
    m.apply limits reading store = .after (m.plan limits store) store (·.write reading store) := by
  cases m with
  | createFile path spec =>
    rw [apply, Store.createFile_eq_after]
    exact Outcome.map_after fun _ => rfl
  | createDir path tags =>
    rw [apply, Store.createDir_eq_after]
    exact Outcome.map_after fun _ => rfl
  | rename kind source target =>
    rw [apply, Store.rename_eq_after]
    exact Outcome.map_after fun _ => rfl
  | deleteFile path =>
    rw [apply, Store.deleteFile_eq_after]
    exact Outcome.map_after fun _ => rfl
  | deleteDir path =>
    rw [apply, Store.deleteDir_eq_after]
    exact Outcome.map_after fun _ => rfl
  | updateEpoch epoch =>
    rw [apply, Store.updateEpoch_eq_after]
    exact Outcome.map_after fun _ => rfl

theorem exists_plan_of_apply {reading : Option Int} {effect : Effect}
    (done : (m.apply limits reading store).result = .ok effect) :
    ∃ plan, m.plan limits store = .ok plan ∧ (plan.write reading store).result = .ok effect ∧
      m.apply limits reading store = plan.write reading store := by
  rw [apply_eq_after] at done ⊢
  exact Outcome.exists_plan_of_after done

theorem suits_of_plan {made : Plan} (planned : m.plan limits store = .ok made) :
    made.Suits store := by
  cases m with
  | createFile path spec =>
    obtain ⟨plan, done, rfl⟩ := map_eq_ok_iff.mp planned
    obtain ⟨target, -, replaced, -⟩ := Store.planFile_eq_ok_iff.mp done
    exact .file target.present replaced
  | createDir path tags =>
    obtain ⟨plan, done, rfl⟩ := map_eq_ok_iff.mp planned
    exact .dir (Store.planDir_eq_ok_iff.mp done).1.present
  | rename kind source target =>
    obtain ⟨plan, done, rfl⟩ := map_eq_ok_iff.mp planned
    obtain ⟨fromTarget, -, ⟨id, held⟩, -⟩ := Store.planRename_eq_ok_iff.mp done
    exact .rename fromTarget.present held
  | deleteFile path =>
    obtain ⟨plan, done, rfl⟩ := map_eq_ok_iff.mp planned
    obtain ⟨target, held⟩ := Store.planDelete_eq_ok_iff.mp done
    exact .deleteFile target.present held
  | deleteDir path =>
    obtain ⟨plan, done, rfl⟩ := map_eq_ok_iff.mp planned
    obtain ⟨target, held⟩ := Store.planDelete_eq_ok_iff.mp done
    exact .deleteDir path target.present held
  | updateEpoch epoch =>
    obtain ⟨number, -, rfl⟩ := map_eq_ok_iff.mp planned
    exact .epoch number

end Mutation

end NameTree
