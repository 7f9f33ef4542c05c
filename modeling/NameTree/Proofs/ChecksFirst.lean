import NameTree.Proofs.Capacities
import NameTree.Proofs.CleanReport

/-!
Checks come before writes, on every store. A fault that is found by a check leaves the store as it
was. What can still go wrong after the first write are a record that is missing or met twice, the
clock, and a full container. On a tree whose containers have one capacity the last of these comes
before anything but the counter has changed: the arena is never less full than an index, and it is
asked first.
-/

namespace NameTree

/-- Faults that can come after the first write. -/
def Fault.isLate : Fault → Bool
  | .mismatch _ _ | .cycle _ | .clockFailed | .capacityExceeded _ _ _ => true
  | _ => false

abbrev Late {α : Type} (result : Except Fault α) : Prop :=
  FailsOnly (fun fault => fault.isLate = true) result

theorem Late.of_obstructed {α : Type} {result : Except Fault α} (obstructed : Obstructed result) :
    Late result := by
  refine obstructed.mono fun fault obstacle => ?_
  cases fault with
  | clockFailed | capacityExceeded => rfl
  | _ => cases obstacle

section Writes

variable {store : Store}

theorem Arena.late_remove {kind : String} {ρ : Type} (arena : Arena kind ρ) (id : Int) :
    Late (arena.remove id) := by
  unfold remove
  split
  · exact .error rfl
  · exact .ok _

theorem Arena.late_drop {kind : String} {ρ : Type} (arena : Arena kind ρ) (gone : List Int) :
    Late (arena.drop gone).1 := by
  induction gone generalizing arena with
  | nil => exact .ok ()
  | cons first rest ih =>
    have removed := arena.late_remove first
    unfold drop
    split
    · rename_i failed
      exact .error (removed _ failed)
    · exact ih _

theorem Store.late_dropReplaced (store : Store) (replaced : Option Int) :
    Late (store.dropReplaced replaced) := by
  cases replaced with
  | none => exact .ok store
  | some id =>
    have removed := store.files.late_remove id
    unfold dropReplaced
    dsimp only
    split
    · rename_i failed
      exact .error (removed _ failed)
    · exact .ok _

theorem Store.late_subtree (store : Store) (top : Int) : Late (store.subtree top) := by
  intro fault failed
  cases flaw_of_subtree failed <;> rfl

theorem Late.insert {kind : String} {ρ : Type} (arena : Arena kind ρ) (index : Index)
    (reading : Option Int) (record : Int → ρ) (id : Int) (name : String) : Late (do
      let now ← Clock.read reading
      let _ ← arena.insert id (record now)
      let _ ← index.insert name id
      pure id) := by
  refine (Late.of_obstructed (Clock.obstructed_read reading)).bind fun _ _ => ?_
  refine (Late.of_obstructed (Arena.obstructed_insert _ _ _)).bind fun _ _ => ?_
  exact (Late.of_obstructed (Index.obstructed_insert _ _ _)).bind fun _ _ => .ok _

theorem FilePlan.late_write (plan : FilePlan) (reading : Option Int) :
    Late (plan.write reading store).result := by
  cases dropped : store.dropReplaced plan.replaced with
  | error fault =>
    unfold write
    rw [dropped]
    exact .error (store.late_dropReplaced plan.replaced fault dropped)
  | ok cleared =>
    rw [result_write dropped]
    exact .insert _ _ _ plan.draft.stamp _ _

theorem DirPlan.late_write (plan : DirPlan) (reading : Option Int) :
    Late (plan.write reading store).result := by
  rw [result_write]
  exact .insert store.dirs plan.index reading
    (fun now => DirRecord.make now plan.tags store.capacity) _ _

theorem DeletePlan.late_writeFile (plan : DeletePlan) : Late (plan.writeFile store).result := by
  have removed := (plan.unbind .file store).files.late_remove plan.id
  unfold writeFile
  dsimp only
  split
  · rename_i failed
    exact .error (removed _ failed)
  · exact .ok _

theorem DeletePlan.late_writeDir (plan : DeletePlan) (path : String) :
    Late (plan.writeDir path store).result := by
  have searched := (plan.unbind .dir store).late_subtree plan.id
  unfold writeDir
  dsimp only
  split
  · rename_i failed
    exact .error (searched _ failed)
  · rename_i files dirs found
    have dropped := (plan.unbind .dir store).files.late_drop files
    split
    · rename_i failed
      exact .error (dropped _ (congrArg Prod.fst failed))
    · have dropped := (plan.unbind .dir store).dirs.late_drop dirs
      split
      · rename_i failed
        exact .error (dropped _ (congrArg Prod.fst failed))
      · exact .ok _

theorem Plan.Suits.late_write {plan : Plan} (suits : plan.Suits store) (reading : Option Int) :
    Late (plan.write reading store).result := by
  cases suits with
  | @file plan present replaced => exact (plan.late_write reading).map _
  | @dir plan present => exact (plan.late_write reading).map _
  | rename present held =>
    refine FailsOnly.map ?_ _
    rw [RenamePlan.result_write held]
    exact (Late.of_obstructed (Index.obstructed_insert _ _ _)).map _
  | @deleteFile plan present held => exact plan.late_writeFile.map _
  | @deleteDir plan path present held => exact (plan.late_writeDir path).map _
  | epoch number => exact .ok _

end Writes

theorem Mutation.apply_of_early {m : Mutation} {limits : Limits} {reading : Option Int}
    {store : Store} {fault : Fault} (failed : (m.apply limits reading store).result = .error fault)
    (early : fault.isLate = false) :
    m.apply limits reading store = .failed fault store := by
  rw [apply_eq_after] at failed ⊢
  cases planned : m.plan limits store with
  | error other =>
    rw [Outcome.after_of_error planned] at failed
    cases failed
    rfl
  | ok plan =>
    rw [Outcome.after_of_ok planned] at failed
    cases early.symm.trans ((suits_of_plan planned).late_write reading fault failed)

theorem Query.log_of_error {q : Query} {limits : Limits} {store : Store} {fault : Fault}
    (failed : q.run limits store = .error fault) : q.log store = [] := by
  cases q with
  | checkConsistency =>
    have unanswered : store.checkConsistency = .error fault := map_eq_error_iff.mp failed
    simp only [log, unanswered]
  | _ => rfl

namespace Store

variable {store : Store}

theorem IsTree.intact (tree : store.IsTree) : store.Intact := by
  have reached {place : Place} (present : store.HasPlace place) : store.Reached place := by
    cases place with
    | none => exact reached_root store
    | some id =>
      obtain ⟨names, found, -⟩ := tree.reached_once .dir id present
      exact ⟨names, follow_eq_some_dir_iff.mpr found⟩
  have once (kind : Kind) : store.BoundOnce kind := by
    intro place name elsewhere other id bound again
    have same : (elsewhere, other) = (place, name) :=
      (tree.bound_once kind id (tree.recorded kind place name id bound)).unique again bound
    exact Prod.mk.inj same
  exact {
    recorded := fun bound => tree.recorded _ _ _ _ bound
    unique := fun bound again => once _ bound again
    ranked := ⟨store.depth, ranked_depth (once .dir) reached⟩
    bound := fun member => by
      obtain ⟨⟨place, name⟩, bound, -⟩ := tree.bound_once _ _ member
      exact ⟨place, name, bound⟩
    issued := fun member => (tree.issued _ _ member).2 }

end Store

section Full

variable {store : Store} {capacity : Option Int} {plan : Plan} {kind : Kind} {fault : Fault}

theorem Plan.write_of_full (intact : store.Intact) (added : plan.adds? = some kind)
    (full : store.overflow? kind = some fault) (now : Int) :
    plan.write (some now) store = ⟨.error fault, store.advance, 1, []⟩ := by
  cases plan with
  | file plan =>
    simp only [adds?, Option.ite_none_right_eq_some, Option.some.injEq] at added
    obtain ⟨new, rfl⟩ := added
    have fresh : (store.advance.counter : Int) ∉ store.files.ids := intact.not_issued rfl .file
    have refused := Arena.stopped_insert fresh (plan.draft.stamp now)
    rw [show store.files.overflow? = some fault from full] at refused
    have unstored : store.advance.files.insert store.advance.counter (plan.draft.stamp now) =
        .error fault := refused
    simp only [write, FilePlan.write, new, Store.dropReplaced, unstored]
    rfl
  | dir plan =>
    cases added
    have fresh : (store.advance.counter : Int) ∉ store.dirs.ids := intact.not_issued rfl .dir
    have refused := Arena.stopped_insert fresh (DirRecord.make now plan.tags store.capacity)
    rw [show store.dirs.overflow? = some fault from full] at refused
    have unstored : store.advance.dirs.insert store.advance.counter
        (DirRecord.make now plan.tags store.capacity) = .error fault := refused
    simp only [write, DirPlan.write, unstored]
    rfl
  | _ => cases added

theorem Mutation.apply_of_full {m : Mutation} {limits : Limits} {reading : Option Int}
    {container : String} {current limit : Int} (intact : store.Intact)
    (capped : store.Capped capacity) (bounded : store.Bounded capacity)
    (failed : (m.apply limits reading store).result =
      .error (.capacityExceeded container current limit)) :
    m.apply limits reading store =
      ⟨.error (.capacityExceeded container current limit), store.advance, 1, []⟩ := by
  rcases declines_or_obstacle intact capped bounded failed with declines | ⟨plan, planned, met⟩
  · cases declines.isObstacle
  · obtain ⟨kind, added, full⟩ := Plan.overflow?_of_obstacle? met
    rw [apply_eq_after, Outcome.after_of_ok planned]
    cases reading with
    | none =>
      -- the clock would have failed first
      cases plan with
      | file _ | dir _ => cases met
      | _ => cases added
    | some now => exact Plan.write_of_full intact added full now

end Full

/-- An operation that fails in its checks leaves everything as it was, also on a damaged store: the
store, the clock unread, and the log. On a tree within its capacity, an operation that meets a full
container has drawn an id and read the clock, no more. -/
theorem checks_come_before_writes (limits : Limits) (clock : Clock) (op : Operation)
    (bench : Workbench) (fault : Fault)
    (failed : (bench.perform limits clock op).1 = .error fault) :
    (fault.isLate = false → (bench.perform limits clock op).2 = bench) ∧
    ∀ capacity container current limit, bench.store.IsTree → bench.store.Capped capacity →
      bench.store.Bounded capacity → fault = .capacityExceeded container current limit →
        (bench.perform limits clock op).2 = ⟨bench.store.advance, bench.ticks + 1, bench.log⟩ := by
  cases op with
  | query q =>
    have unanswered := map_eq_error_iff.mp failed
    constructor
    · intro _
      have silent := Query.log_of_error unanswered
      simp only [Workbench.perform, silent, List.append_nil]
    · rintro capacity container current limit tree - - rfl
      cases Fault.isObstacle_of_declinesQuery (q.declining_run tree.intact _ unanswered)
  | mutate m =>
    have stopped := map_eq_error_iff.mp failed
    constructor
    · intro early
      have applied := Mutation.apply_of_early stopped early
      simp only [Workbench.perform, applied, Outcome.failed, Nat.add_zero, List.append_nil]
    · rintro capacity container current limit tree capped bounded rfl
      have applied := Mutation.apply_of_full tree.intact capped bounded stopped
      simp only [Workbench.perform, applied, List.append_nil]

theorem checks_come_before_writes_filling :
    let clock : Clock := fun _ => some 7
    let damaged := Workbench.start Store.damaged
    let lost := damaged.perform .default clock (.mutate (.deleteDir "/d/x"))
    let world := (FileSystem.filling.run 1
      [.call (.mutate none (.createDir "/d" (.items []))),
        .call (.mutate none (.createDir "/e" (.items [])))]
      (FileSystem.filling.start ⟨[], 2⟩)).2
    let store := world.host.committed
    let refused := (Workbench.start store).perform .default clock
      (.mutate (.createDir "/g" (.items [])))
    (lost.1 = .error (.notFound "/d/x") ∧ Fault.isLate (.notFound "/d/x") = false ∧
      lost.2 = damaged) ∧
      store.IsTree ∧ store.Capped (some 2) ∧ store.Bounded (some 2) ∧
      refused.1 = .error (.capacityExceeded "dir arena" 2 2) ∧
      refused.2 = ⟨store.advance, 1, []⟩ := by
  intro clock damaged lost world store refused
  have absent : lost.1 = .error (.notFound "/d/x") := by decide +kernel
  have full : refused.1 = .error (.capacityExceeded "dir arena" 2 2) := by decide +kernel
  have reachable : FileSystem.filling.Reachable world := FileSystem.filling.reachable_run 1 _ _
  have tree : store.IsTree := (reachable.sound FileSystem.stepsOnly_filling).isTree
  have capped : store.Capped (some 2) := (reachable.uniform FileSystem.stepsOnly_filling).capped
  have bounded : store.Bounded (some 2) := reachable.bounded FileSystem.stepsOnly_filling
  obtain ⟨unchanged, -⟩ := checks_come_before_writes _ clock
    (.mutate (.deleteDir "/d/x")) damaged _ absent
  -- any store will do, and the one at hand is large
  have advanced (store : Store) (tree : store.IsTree) (capped : store.Capped (some 2))
      (bounded : store.Bounded (some 2)) (op : Operation)
      (full : ((Workbench.start store).perform .default clock op).1 =
        .error (.capacityExceeded "dir arena" 2 2)) :
      ((Workbench.start store).perform .default clock op).2 = ⟨store.advance, 1, []⟩ :=
    (checks_come_before_writes _ clock op (Workbench.start store) _ full).2
      (some 2) _ _ _ tree capped bounded rfl
  exact ⟨⟨absent, rfl, unchanged rfl⟩, tree, capped, bounded, full,
    advanced store tree capped bounded _ full⟩

end NameTree
