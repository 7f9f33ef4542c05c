import NameTree.Proofs.Calls
import NameTree.Proofs.Committed
import NameTree.Proofs.Room

/-!
The capacity of a namespace. In every world the arenas, and with them all indexes, keep within it. A
create that would add a record is stopped by it exactly when as many records of its kind are there
as it allows; nothing else is ever stopped by it, also where the namespace is full.
-/

namespace NameTree

section Bounded

namespace Store

variable {store after : Store} {capacity : Option Int}

theorem bounded_empty (nonneg : ∀ given ∈ capacity, 0 ≤ given) :
    (empty capacity).Bounded capacity := by
  intro kind limit given
  have below := nonneg limit given
  cases kind <;> exact below

theorem Bounded.of_count_le (bounded : store.Bounded capacity)
    (fewer : ∀ kind, after.count kind ≤ store.count kind) : after.Bounded capacity := by
  intro kind limit given
  have within := bounded kind limit given
  have := fewer kind
  omega

end Store

variable {store : Store} {capacity : Option Int} {reading : Option Int}

section Creates

variable (uniform : store.Uniform capacity) (bounded : store.Bounded capacity)
include uniform bounded

theorem FilePlan.bounded_write {plan : FilePlan} {id : Int}
    (done : (plan.write reading store).result = .ok id) :
    (plan.write reading store).store.Bounded capacity := by
  obtain ⟨now, cleared, files, index, -, dropped, -, stored, -, written⟩ := plan.write_eq_ok done
  obtain ⟨sameRest, left⟩ := Store.dropReplaced_eq_ok dropped
  rw [written]
  intro kind limit given
  rw [Store.count_setIndex]
  cases kind with
  | file =>
    have fewer : cleared.count .file ≤ store.count .file :=
      Store.count_le_of_ids fun id member => ((left id).mp member).1
    have within : ∀ limit ∈ cleared.files.capacity, (cleared.files.size : Int) ≤ limit := by
      intro limit capped
      rw [(uniform.dropReplaced dropped).files] at capped
      have := bounded .file limit capped
      exact (Int.ofNat_le.mpr fewer).trans this
    exact Arena.size_of_insert stored within limit ((uniform.dropReplaced dropped).files ▸ given)
  | dir =>
    rw [sameRest]
    exact bounded .dir limit given

theorem DirPlan.bounded_write {plan : DirPlan} {id : Int}
    (apart : plan.place ≠ some ((store.counter : Int) + 1))
    (done : (plan.write reading store).result = .ok id) :
    (plan.write reading store).store.Bounded capacity := by
  obtain ⟨now, dirs, index, -, -, stored, -, written⟩ := plan.write_eq_ok apart done
  rw [written]
  intro kind limit given
  rw [Store.count_setIndex]
  cases kind with
  | file => exact bounded .file limit given
  | dir =>
    have within : ∀ limit ∈ store.dirs.capacity, (store.dirs.size : Int) ≤ limit := by
      intro limit capped
      rw [uniform.dirs] at capped
      exact bounded .dir limit capped
    exact Arena.size_of_insert stored within limit (uniform.dirs ▸ given)

end Creates

theorem Mutation.bounded_apply {m : Mutation} {limits : Limits} {effect : Effect}
    (intact : store.Intact) (uniform : store.Uniform capacity) (bounded : store.Bounded capacity)
    (done : (m.apply limits reading store).result = .ok effect) :
    (m.apply limits reading store).store.Bounded capacity := by
  have does := m.does intact done
  obtain ⟨_, planned, written, same⟩ := m.exists_plan_of_apply done
  cases m with
  | createFile path spec =>
    obtain ⟨plan, -, rfl⟩ := map_eq_ok_iff.mp planned
    obtain ⟨id, written, -⟩ := map_eq_ok_iff.mp written
    rw [same]
    exact plan.bounded_write uniform bounded written
  | createDir path tags =>
    obtain ⟨plan, made, rfl⟩ := map_eq_ok_iff.mp planned
    obtain ⟨id, written, -⟩ := map_eq_ok_iff.mp written
    have present := (Store.planDir_eq_ok_iff.mp made).1.hasPlace
    rw [same]
    exact plan.bounded_write uniform bounded (intact.place_ne_next present) written
  | rename _ _ _ | deleteFile _ | deleteDir _ | updateEpoch _ =>
    exact bounded.of_count_le fun kind => Store.count_le_of_ids fun id member =>
      does.mem_before rfl member

end Bounded

namespace FileSystem

variable {σ : Type} {fs : FileSystem σ} {world : World σ}

theorem Reachable.bounded (reachable : fs.Reachable world) (stepsOnly : fs.StepsOnly) :
    world.host.committed.Bounded fs.capacity := by
  have kept (m : Mutation) (reading : Option Int) (store : Store) (effect : Effect)
      (sound : store.Sound) (uniform : store.Uniform fs.capacity)
      (before : store.Bounded fs.capacity)
      (done : (m.apply fs.limits reading store).result = .ok effect) :
      (m.apply fs.limits reading store).store.Bounded fs.capacity :=
    m.bounded_apply sound.toIntact uniform before done
  exact reachable.of_sound stepsOnly kept (Store.bounded_empty fs.capacity_nonneg)

section Adds

variable {capacity : Int} {m : Mutation} {kind : Kind} (reachable : fs.Reachable world)
  (stepsOnly : fs.StepsOnly) (capped : fs.capacity = some capacity)
include reachable stepsOnly capped

theorem Reachable.transact_of_adds (adds : m.Adds fs.limits world.host.committed kind)
    (steady : fs.clock world.ticks ≠ none) :
    (fs.transact m world).1 =
      if world.host.committed.count kind < capacity then
        .ok (.bound (world.host.committed.counter + 1))
      else .error (.capacityExceeded kind.container capacity capacity) := by
  have containers := (reachable.uniform stepsOnly).capped
  have stopped := m.stopped_of_adds (reachable.sound stepsOnly).toIntact containers
    (reachable.bounded stepsOnly) adds (fs.clock world.ticks)
  rw [← reachable.result_transact stepsOnly] at stopped
  obtain ⟨now, shown⟩ := Option.ne_none_iff_exists'.mp steady
  rw [shown, Clock.obstacle?, Option.none_or] at stopped
  by_cases room : (world.host.committed.count kind : Int) < capacity
  · rw [if_pos room]
    have open_ : world.host.committed.overflow? kind = none := by
      rw [containers.overflow?_eq_none_iff, capped]
      simpa using room
    rw [open_] at stopped
    obtain ⟨effect, done⟩ := stopped
    rw [done]
    rw [reachable.result_transact stepsOnly] at done
    rw [Mutation.drawn_of_creates adds.creates done]
  · rw [if_neg room]
    have within : (world.host.committed.count kind : Int) ≤ capacity :=
      reachable.bounded stepsOnly kind capacity capped
    have filled : (world.host.committed.count kind : Int) = capacity := by omega
    have full : world.host.committed.overflow? kind =
        some (.capacityExceeded kind.container capacity capacity) :=
      containers.overflow?_eq_some_iff.mpr ⟨capacity, capped, filled.ge, by rw [filled]⟩
    rw [full] at stopped
    exact stopped

end Adds

end FileSystem

/-- Renames, deletions and creates that replace a file add nothing, so that the capacity never stops
them. The listener is told after the transaction has ended: if it fails, a create has been committed
all the same. -/
theorem capacity_limits_records {σ : Type} (fs : FileSystem σ) (stepsOnly : fs.StepsOnly)
    (capacity : Int) (capped : fs.capacity = some capacity) (world : World σ)
    (reachable : fs.Reachable world) :
    let store := world.host.committed
    (∀ kind, store.count kind ≤ capacity) ∧
      (∀ kind place index, store.index kind place = .ok index → index.size ≤ capacity) ∧
      (∀ depth caller m kind, fs.turnAway caller m world = .ok () → m.Adds fs.limits store kind →
        fs.clock world.ticks ≠ none →
        let call := fs.perform depth (.call (.mutate caller m)) world
        (store.count kind < capacity →
          (fs.transact m world).1 = .ok (.bound (store.counter + 1)) ∧
            call.1 = (fs.told depth m world).1.bind fun _ => .ok (.id (store.counter + 1))) ∧
        (¬ store.count kind < capacity →
          call.1 = .error (.capacityExceeded kind.container capacity capacity))) ∧
      ∀ depth caller m container current limit,
        (fs.perform depth (.call (.mutate caller m)) world).1 =
          .error (.capacityExceeded container current limit) →
        (∃ kind, m.Adds fs.limits store kind ∧ store.count kind = capacity ∧
          container = kind.container ∧ current = capacity ∧ limit = capacity) ∨
          (fs.told depth m world).1 = .error (.capacityExceeded container current limit) := by
  intro store
  have sound : store.Sound := reachable.sound stepsOnly
  have uniform : store.Uniform fs.capacity := reachable.uniform stepsOnly
  have bounded : store.Bounded fs.capacity := reachable.bounded stepsOnly
  have within (kind : Kind) : (store.count kind : Int) ≤ capacity := bounded kind capacity capped
  refine ⟨within, ?_, ?_, ?_⟩
  · intro kind place index present
    exact (Int.ofNat_le.mpr (sound.size_index_le present)).trans (within kind)
  · intro depth caller m kind admitted adds steady call
    have ended := reachable.transact_of_adds stepsOnly capped adds steady
    have called : call = _ := FileSystem.perform_mutate admitted
    constructor
    · intro room
      rw [if_pos room] at ended
      exact ⟨ended, by rw [called, ended]; rfl⟩
    · intro full
      rw [if_neg full] at ended
      rw [called, FileSystem.told_of_no_collision ended (m.collision?_of_isCollision rfl), ended]
      rfl
  · intro depth caller m container current limit failed
    rcases FileSystem.error_of_perform_mutate rfl failed with ended | told
    · rw [reachable.result_transact stepsOnly] at ended
      obtain ⟨kind, adds, reached, filled, rfl, rfl⟩ :=
        Mutation.adds_of_capacityExceeded sound.toIntact uniform bounded ended
      obtain rfl := Option.some.inj (capped.symm.trans reached)
      exact Or.inl ⟨kind, adds, filled, rfl, rfl, rfl⟩
    · exact Or.inr told

theorem capacity_limits_records_filling :
    let createDir (path : String) : Mutation := .createDir path (.items [])
    let createFile : Mutation := .createFile "/g" ⟨.items [], .int 1, "", .int 0, false⟩
    let world := (FileSystem.filling.run 1
      [.call (.mutate none (createDir "/d")), .call (.mutate none (createDir "/e"))]
      (FileSystem.filling.start ⟨[], 2⟩)).2
    let store := world.host.committed
    FileSystem.filling.StepsOnly ∧ FileSystem.filling.capacity = some 2 ∧
      FileSystem.filling.Reachable world ∧
      store.count .dir = 2 ∧ store.count .file = 1 ∧ (∀ kind, (store.count kind : Int) ≤ 2) ∧
      (FileSystem.filling.perform 1 (.call (.mutate none (createDir "/g"))) world).1 =
        .error (.capacityExceeded "dir arena" 2 2) ∧
      (FileSystem.filling.perform 1 (.call (.mutate none createFile)) world).1 = .ok (.id 5) ∧
      (FileSystem.filling.perform 1 (.call (.mutate none (.rename .dir "/d" "/g"))) world).1 =
        .ok .done := by
  intro createDir createFile world store
  have reachable : FileSystem.filling.Reachable world := FileSystem.filling.reachable_run 1 _ _
  obtain ⟨within, -, added, -⟩ :=
    capacity_limits_records FileSystem.filling FileSystem.stepsOnly_filling 2 rfl world reachable
  have located : store.locate FileSystem.filling.limits.maxStringLen "/g" = .ok (none, "g") := by
    decide +kernel
  have addsDir : (createDir "/g").Adds FileSystem.filling.limits store .dir :=
    .dir ⟨by decide +kernel, located, rfl⟩ rfl (show store.rootDirs.get? "g" =
      none by decide +kernel)
  have addsFile : createFile.Adds FileSystem.filling.limits store .file :=
    .file ⟨by decide +kernel, located, rfl⟩ rfl (show store.rootFiles.get? "g" =
      none by decide +kernel)
  have admitted (m : Mutation) (checked : FileSystem.precheck m = .ok ()) :
      FileSystem.filling.turnAway none m world = .ok () :=
    FileSystem.turnAway_eq_ok_iff.mpr ⟨checked, by decide +kernel, Or.inl rfl⟩
  have steady : FileSystem.filling.clock world.ticks ≠ none := Option.some_ne_none 7
  have refused := (added 1 none _ .dir (admitted (createDir "/g") rfl) addsDir steady).2
  have taken := (added 1 none _ .file (admitted createFile rfl) addsFile steady).1
  refine ⟨FileSystem.stepsOnly_filling, rfl, reachable, by decide +kernel, by decide +kernel,
    within, ?_, ?_, by decide +kernel⟩
  · exact refused (by decide +kernel)
  · rw [(taken (by decide +kernel)).2]
    decide +kernel

end NameTree
