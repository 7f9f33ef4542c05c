import NameTree.Proofs.Obstacles
import NameTree.Proofs.Uniform

/-!
Full containers. No record is bound twice, so an index never holds more names than there are
records: where the arenas keep within the capacity all indexes do, and an arena that takes a new
record leaves room for its name. What stops a plan from being written is therefore the clock or the
arena, and a plan that adds no record is never stopped by the capacity.
-/

namespace NameTree

section StoppedBy

variable {α β : Type}

/-- It fails with the obstacle, if there is one, and succeeds otherwise. -/
def StoppedBy (obstacle : Option Fault) (result : Except Fault α) : Prop :=
  match obstacle with
  | some fault => result = .error fault
  | none => ∃ value, result = .ok value

namespace StoppedBy

variable {obstacle further : Option Fault} {result : Except Fault α}

theorem ok (value : α) : StoppedBy none (.ok value : Except Fault α) := ⟨value, rfl⟩

theorem map (stopped : StoppedBy obstacle result) (f : α → β) :
    StoppedBy obstacle (result.map f) := by
  cases obstacle with
  | some fault => exact map_eq_error_iff.mpr stopped
  | none =>
    obtain ⟨value, done⟩ := stopped
    exact ⟨f value, map_eq_ok_iff.mpr ⟨value, done, rfl⟩⟩

theorem bind {next : α → Except Fault β} (stopped : StoppedBy obstacle result)
    (later : ∀ middle, result = .ok middle → StoppedBy further (next middle)) :
    StoppedBy (obstacle.or further) (result >>= next) := by
  cases obstacle with
  | some fault => exact bind_eq_error_iff.mpr (Or.inl stopped)
  | none =>
    obtain ⟨middle, done⟩ := stopped
    rw [Option.none_or, done]
    exact later middle done

theorem obstacle_eq_some (stopped : StoppedBy obstacle result) {fault : Fault}
    (failed : result = .error fault) :
    obstacle = some fault := by
  cases obstacle with
  | some other =>
    cases stopped.symm.trans failed
    rfl
  | none =>
    obtain ⟨value, done⟩ := stopped
    cases done.symm.trans failed

theorem obstacle_eq_none (stopped : StoppedBy obstacle result) {value : α}
    (done : result = .ok value) :
    obstacle = none := by
  cases obstacle with
  | some other => cases (show result = .error other from stopped).symm.trans done
  | none => rfl

end StoppedBy

end StoppedBy

section Containers

def Clock.obstacle? : Option Int → Option Fault
  | none => some .clockFailed
  | some _ => none

theorem Clock.stopped_read (reading : Option Int) :
    StoppedBy (Clock.obstacle? reading) (Clock.read reading) := by
  cases reading with
  | none => rfl
  | some now => exact .ok now

theorem Index.exists_insert_of_room {index : Index}
    (room : ∀ limit ∈ index.capacity, (index.size : Int) < limit) (name : String) (id : Int) :
    ∃ after, index.insert name id = .ok after := by
  unfold insert
  rw [OrderedMap.insertWithin_of_room room]
  exact ⟨_, rfl⟩

theorem Index.exists_insert_of_bound {index : Index} {name : String} {old : Int}
    (bound : index.get? name = some old) (id : Int) :
    ∃ after, index.insert name id = .ok after := by
  unfold insert
  rw [OrderedMap.insertWithin_of_present bound]
  exact ⟨_, rfl⟩

variable {kind : String} {ρ : Type} {arena after : Arena kind ρ} {id : Int} {record : ρ}

def Arena.overflow? (arena : Arena kind ρ) : Option Fault :=
  (arena.records.ceiling? arena.capacity).map (.capacityExceeded (kind ++ " arena") arena.size)

theorem Arena.overflow?_eq_some_iff {fault : Fault} :
    arena.overflow? = some fault ↔ ∃ limit, arena.capacity = some limit ∧ limit ≤ arena.size ∧
      fault = .capacityExceeded (kind ++ " arena") arena.size limit := by
  unfold overflow?
  rw [Option.map_eq_some_iff]
  refine exists_congr fun limit => ?_
  rw [OrderedMap.ceiling?_eq_some_iff, and_assoc, eq_comm (a := fault)]
  rfl

theorem Arena.overflow?_eq_none_iff :
    arena.overflow? = none ↔ ∀ limit ∈ arena.capacity, (arena.size : Int) < limit := by
  unfold overflow?
  rw [Option.map_eq_none_iff, OrderedMap.ceiling?_eq_none_iff]
  rfl

theorem Arena.stopped_insert (absent : id ∉ arena.ids) (record : ρ) :
    StoppedBy arena.overflow? (arena.insert id record) := by
  have unheld : arena.records.get? id = none := OrderedMap.get?_eq_none_iff.mpr absent
  unfold overflow? insert
  cases full : arena.records.ceiling? arena.capacity with
  | none =>
    rw [OrderedMap.insertWithin_of_room (OrderedMap.ceiling?_eq_none_iff.mp full)]
    exact .ok _
  | some limit =>
    rw [OrderedMap.insertWithin_of_full unheld full]
    rfl

theorem Arena.exists_insert_of_room (room : ∀ limit ∈ arena.capacity, (arena.size : Int) < limit)
    (id : Int) (record : ρ) : ∃ after, arena.insert id record = .ok after := by
  unfold insert
  rw [OrderedMap.insertWithin_of_room room]
  exact ⟨_, rfl⟩

end Containers

def Kind.container : Kind → String
  | .file => "file arena"
  | .dir => "dir arena"

namespace Store

def Bounded (store : Store) (capacity : Option Int) : Prop :=
  ∀ kind, ∀ limit ∈ capacity, (store.count kind : Int) ≤ limit

def overflow? (store : Store) : Kind → Option Fault
  | .file => store.files.overflow?
  | .dir => store.dirs.overflow?

variable {store after : Store} {capacity : Option Int} {kind : Kind}

theorem count_le_of_ids (fewer : ∀ id ∈ after.ids kind, id ∈ store.ids kind) :
    after.count kind ≤ store.count kind := by
  rw [count_eq_length_ids, count_eq_length_ids]
  exact (List.subperm_of_subset (after.nodup_ids kind) fewer).length_le

theorem Linked.size_index_le (linked : store.Linked) {place : Place} {index : Index}
    (present : store.index kind place = .ok index) : index.size ≤ store.count kind := by
  -- every name of an index has a record of its own
  have recorded : index.ids ⊆ store.ids kind := by
    intro id member
    obtain ⟨name, bound⟩ := Index.mem_ids_iff.mp member
    exact linked.mem_ids_of_index present bound
  have injected := (List.subperm_of_subset (linked.nodup_index_ids present) recorded).length_le
  rw [count_eq_length_ids]
  simpa [Index.ids, Index.size, OrderedMap.values, OrderedMap.size] using injected

theorem bounded_none (store : Store) : store.Bounded none := by
  intro kind limit given
  cases given

section Capped

variable (capped : store.Capped capacity)
include capped

theorem Capped.overflow?_eq_some_iff {fault : Fault} :
    store.overflow? kind = some fault ↔ ∃ limit, capacity = some limit ∧ limit ≤ store.count kind ∧
      fault = .capacityExceeded kind.container (store.count kind) limit := by
  cases kind with
  | file =>
    rw [← capped.files]
    exact Arena.overflow?_eq_some_iff
  | dir =>
    rw [← capped.dirs]
    exact Arena.overflow?_eq_some_iff

theorem Capped.overflow?_eq_none_iff :
    store.overflow? kind = none ↔ ∀ limit ∈ capacity, (store.count kind : Int) < limit := by
  cases kind with
  | file =>
    rw [← capped.files]
    exact Arena.overflow?_eq_none_iff
  | dir =>
    rw [← capped.dirs]
    exact Arena.overflow?_eq_none_iff

end Capped

theorem Linked.exists_insert_index (linked : store.Linked) (capped : store.Capped capacity)
    {place : Place} {index : Index} (present : store.index kind place = .ok index)
    (room : store.overflow? kind = none) (name : String) (id : Int) :
    ∃ after, index.insert name id = .ok after := by
  refine Index.exists_insert_of_room ?_ name id
  intro limit given
  rw [capped.index present] at given
  have below := capped.overflow?_eq_none_iff.mp room limit given
  have injected := linked.size_index_le present
  omega

end Store

section Plans

def Plan.adds? : Plan → Option Kind
  | .file plan => if plan.replaced = none then some .file else none
  | .dir _ => some .dir
  | _ => none

/-- What keeps a plan from being written, if anything does. -/
def Plan.obstacle? (plan : Plan) (reading : Option Int) (store : Store) : Option Fault :=
  match plan with
  | .file _ | .dir _ => (Clock.obstacle? reading).or (plan.adds?.bind store.overflow?)
  | _ => none

variable {store : Store} {capacity : Option Int}

theorem Plan.overflow?_of_obstacle? {plan : Plan} {reading : Option Int} {container : String}
    {current limit : Int}
    (met : plan.obstacle? reading store = some (.capacityExceeded container current limit)) :
    ∃ kind, plan.adds? = some kind ∧ store.overflow? kind =
      some (.capacityExceeded container current limit) := by
  cases plan with
  | file _ | dir _ =>
    cases reading with
    | none => cases met
    | some now => exact Option.bind_eq_some_iff.mp met
  | _ => cases met

theorem Plan.obstacle?_of_uncapped (plan : Plan) (uncapped : store.Capped none) (now : Int) :
    plan.obstacle? (some now) store = none := by
  have room (kind : Kind) : store.overflow? kind = none :=
    uncapped.overflow?_eq_none_iff.mpr fun limit given => by cases given
  cases plan with
  | file _ | dir _ => simp [obstacle?, Clock.obstacle?, room]
  | _ => rfl

section Writes

variable (intact : store.Intact) (capped : store.Capped capacity) (reading : Option Int)
include intact capped

theorem FilePlan.stopped_write_new {plan : FilePlan}
    (present : store.index .file plan.place = .ok plan.index) (new : plan.replaced = none) :
    StoppedBy ((Clock.obstacle? reading).or (store.overflow? .file))
      (plan.write reading store).result := by
  have dropped : store.dropReplaced plan.replaced = .ok store := by rw [new]; rfl
  have fresh : (store.advance.counter : Int) ∉ store.files.ids := intact.not_issued rfl .file
  rw [result_write dropped]
  refine (Clock.stopped_read reading).bind fun now _ => ?_
  have arena := Arena.stopped_insert fresh (plan.draft.stamp now)
  rw [← Option.or_none (o := store.overflow? .file)]
  refine arena.bind fun files stored => ?_
  obtain ⟨index, bound⟩ := intact.exists_insert_index capped present
    (arena.obstacle_eq_none stored) plan.leaf store.advance.counter
  rw [bound]
  exact .ok _

theorem DirPlan.stopped_write {plan : DirPlan}
    (present : store.index .dir plan.place = .ok plan.index) :
    StoppedBy ((Clock.obstacle? reading).or (store.overflow? .dir))
      (plan.write reading store).result := by
  have fresh : (store.advance.counter : Int) ∉ store.dirs.ids := intact.not_issued rfl .dir
  rw [result_write]
  refine (Clock.stopped_read reading).bind fun now _ => ?_
  have arena := Arena.stopped_insert fresh (.make now plan.tags store.capacity)
  rw [← Option.or_none (o := store.overflow? .dir)]
  refine arena.bind fun dirs stored => ?_
  obtain ⟨index, bound⟩ := intact.exists_insert_index capped present
    (arena.obstacle_eq_none stored) plan.leaf store.advance.counter
  rw [bound]
  exact .ok _

variable (bounded : store.Bounded capacity)
include bounded

theorem FilePlan.stopped_write_over {plan : FilePlan} {old : Int}
    (present : store.index .file plan.place = .ok plan.index)
    (bound : plan.index.get? plan.leaf = some old) (replaced : plan.replaced = some old) :
    StoppedBy (Clock.obstacle? reading) (plan.write reading store).result := by
  obtain ⟨record, held⟩ := Store.mem_ids_file.mp (intact.mem_ids_of_index present bound)
  have dropped : store.dropReplaced plan.replaced =
      .ok { store with files := store.files.erase old } := by
    rw [replaced]
    exact Store.dropReplaced_some_eq_ok_iff.mpr ⟨Arena.mem_ids_iff.mpr ⟨record, held⟩, rfl⟩
  have shrunk := Arena.size_erase_lt held
  have room : ∀ limit ∈ (store.files.erase old).capacity,
      ((store.files.erase old).size : Int) < limit := by
    intro limit given
    have limited : limit ∈ store.files.capacity := given
    rw [capped.files] at limited
    have within : (store.files.size : Int) ≤ limit := bounded .file limit limited
    omega
  rw [result_write dropped, ← Option.or_none (o := Clock.obstacle? reading)]
  refine (Clock.stopped_read reading).bind fun now _ => ?_
  obtain ⟨files, stored⟩ :=
    Arena.exists_insert_of_room room (store.counter + 1 : Nat) (plan.draft.stamp now)
  obtain ⟨index, rebound⟩ := Index.exists_insert_of_bound bound (store.counter + 1 : Nat)
  simp only [Store.advance, stored, rebound]
  exact .ok _

theorem RenamePlan.exists_write {kind : Kind} {plan : RenamePlan} {id : Int}
    (present : store.index kind plan.place = .ok plan.index)
    (held : plan.index.get? plan.oldName = some id) :
    (plan.write kind store).result = .ok () := by
  have shrunk : (plan.index.erase plan.oldName).size < plan.index.size :=
    OrderedMap.size_erase_lt (OrderedMap.mem_keys_of_get? held)
  have room : ∀ limit ∈ (plan.index.erase plan.oldName).capacity,
      ((plan.index.erase plan.oldName).size : Int) < limit := by
    intro limit given
    have limited : limit ∈ plan.index.capacity := given
    rw [capped.index present] at limited
    have within := bounded kind limit limited
    have injected := intact.size_index_le present
    omega
  obtain ⟨index, bound⟩ := Index.exists_insert_of_room room plan.newName id
  rw [result_write held, bound]
  rfl

theorem Plan.Suits.stopped_write {plan : Plan} (suits : plan.Suits store) :
    StoppedBy (plan.obstacle? reading store) (plan.write reading store).result := by
  cases suits with
  | @file plan present replaced =>
    refine StoppedBy.map ?_ _
    cases bound : plan.index.get? plan.leaf with
    | none =>
      rw [bound] at replaced
      simp only [obstacle?, adds?, replaced, if_true, Option.bind_some]
      exact plan.stopped_write_new intact capped reading present replaced
    | some old =>
      rw [bound] at replaced
      simp only [obstacle?, adds?, replaced, reduceCtorEq, if_false, Option.bind_none,
        Option.or_none]
      exact plan.stopped_write_over intact capped reading bounded present bound replaced
  | @dir plan present => exact (plan.stopped_write intact capped reading present).map _
  | rename present held =>
    have done := RenamePlan.exists_write intact capped bounded present held
    exact ⟨_, map_eq_ok_iff.mpr ⟨(), done, rfl⟩⟩
  | deleteFile present held =>
    have done := DeletePlan.result_writeFile _ (intact.mem_ids_of_index present held)
    exact ⟨_, map_eq_ok_iff.mpr ⟨_, done, rfl⟩⟩
  | deleteDir path present held =>
    obtain ⟨removed, done⟩ :=
      DeletePlan.exists_writeDir _ intact.toLinked present
        (intact.mem_ids_of_index present held) path
    exact ⟨_, map_eq_ok_iff.mpr ⟨removed, done, rfl⟩⟩
  | epoch number => exact .ok _

end Writes

end Plans

namespace Mutation

/-- The mutation is admissible and would bind a name that is free to a new record. -/
inductive Adds (limits : Limits) (store : Store) : Mutation → Kind → Prop where
  | file {path : String} {spec : FileSpec} {draft : FileDraft} {place : Place} {leaf : String}
    {index : Index} (target : Destination store limits .file path place leaf index)
    (checked : spec.check limits = .ok draft) (free : index.get? leaf = none) :
    Adds limits store (.createFile path spec) .file
  | dir {path : String} {tags : Tags} {texts : List String} {place : Place} {leaf : String}
    {index : Index}
    (target : Destination store limits .dir (Path.dropFinalSlash path) place leaf index)
    (checked : limits.checkTags tags = .ok texts) (free : index.get? leaf = none) :
    Adds limits store (.createDir path tags) .dir

variable {store : Store} {limits : Limits} {m : Mutation} {kind : Kind} {capacity : Option Int}

theorem adds_iff : m.Adds limits store kind ↔
    ∃ plan, m.plan limits store = .ok plan ∧ plan.adds? = some kind := by
  constructor
  · intro adds
    cases adds with
    | @file path spec draft place leaf index target checked free =>
      have planned : store.planFile limits path spec = .ok ⟨place, leaf, index, none, draft⟩ :=
        Store.planFile_eq_ok_iff.mpr ⟨target, checked, free.symm, Or.inl rfl⟩
      exact ⟨_, map_eq_ok_iff.mpr ⟨_, planned, rfl⟩, rfl⟩
    | @dir path tags texts place leaf index target checked free =>
      have planned : store.planDir limits path tags = .ok ⟨place, leaf, index, texts⟩ :=
        Store.planDir_eq_ok_iff.mpr ⟨target, checked, free⟩
      exact ⟨_, map_eq_ok_iff.mpr ⟨_, planned, rfl⟩, rfl⟩
  · intro given
    rcases given with ⟨made, planned, adds⟩
    cases m with
    | createFile path spec =>
      obtain ⟨plan, done, rfl⟩ := map_eq_ok_iff.mp planned
      obtain ⟨target, checked, replaced, -⟩ := Store.planFile_eq_ok_iff.mp done
      simp only [Plan.adds?, Option.ite_none_right_eq_some, Option.some.injEq] at adds
      obtain ⟨new, rfl⟩ := adds
      exact .file target checked (replaced.symm.trans new)
    | createDir path tags =>
      obtain ⟨plan, done, rfl⟩ := map_eq_ok_iff.mp planned
      obtain ⟨target, checked, free⟩ := Store.planDir_eq_ok_iff.mp done
      cases adds
      exact .dir target checked free
    | rename _ _ _ | deleteFile _ | deleteDir _ | updateEpoch _ =>
      obtain ⟨plan, -, rfl⟩ := map_eq_ok_iff.mp planned
      cases adds

theorem Adds.creates (adds : m.Adds limits store kind) : m.creates = true := by
  cases adds <;> rfl

section Apply

variable (intact : store.Intact) (capped : store.Capped capacity) (bounded : store.Bounded capacity)
include intact capped bounded

theorem stopped_of_adds (adds : m.Adds limits store kind) (reading : Option Int) :
    StoppedBy ((Clock.obstacle? reading).or (store.overflow? kind))
      (m.apply limits reading store).result := by
  obtain ⟨plan, planned, added⟩ := adds_iff.mp adds
  have stopped := (suits_of_plan planned).stopped_write intact capped reading bounded
  rw [apply_eq_after, Outcome.after_of_ok planned]
  cases plan with
  | file _ | dir _ => simpa only [Plan.obstacle?, added, Option.bind_some] using stopped
  | _ => cases added

theorem declines_or_obstacle {reading : Option Int} {fault : Fault}
    (failed : (m.apply limits reading store).result = .error fault) :
    m.Declines limits store fault ∨
      ∃ plan, m.plan limits store = .ok plan ∧ plan.obstacle? reading store = some fault := by
  rw [apply_eq_after] at failed
  cases planned : m.plan limits store with
  | error other =>
    rw [Outcome.after_of_error planned] at failed
    cases failed
    exact Or.inl (intact.plan_declines limits m fault planned)
  | ok plan =>
    rw [Outcome.after_of_ok planned] at failed
    have stopped := (suits_of_plan planned).stopped_write intact capped reading bounded
    exact Or.inr ⟨plan, rfl, stopped.obstacle_eq_some failed⟩

end Apply

theorem adds_of_capacityExceeded (intact : store.Intact) (uniform : store.Uniform capacity)
    (bounded : store.Bounded capacity) {reading : Option Int} {container : String}
    {current limit : Int} (failed : (m.apply limits reading store).result =
      .error (.capacityExceeded container current limit)) :
    ∃ kind, m.Adds limits store kind ∧ capacity = some limit ∧ store.count kind = limit ∧
      current = limit ∧
      container = kind.container := by
  -- only the arena of a new record can be full, and it is then exactly full
  rcases declines_or_obstacle intact uniform.capped bounded failed with
    declines | ⟨plan, planned, met⟩
  · cases declines.isObstacle
  · obtain ⟨kind, added, full⟩ := Plan.overflow?_of_obstacle? met
    obtain ⟨reached, rfl, filled, same⟩ := uniform.capped.overflow?_eq_some_iff.mp full
    cases same
    have within := bounded kind limit rfl
    have exact_ : (store.count kind : Int) = limit := le_antisymm within filled
    exact ⟨kind, adds_iff.mpr ⟨plan, planned, added⟩, rfl, exact_, exact_, rfl⟩

theorem unchanged_of_error {now : Int} {fault : Fault} (uncapped : store.Uniform none)
    (intact : store.Intact) (failed : (m.apply limits (some now) store).result = .error fault) :
    (m.apply limits (some now) store).store = store := by
  rw [apply_eq_after] at failed ⊢
  cases planned : m.plan limits store with
  | error other => rfl
  | ok plan =>
    have stopped := (suits_of_plan planned).stopped_write intact uncapped.capped
      (some now) store.bounded_none
    rw [planned, Outcome.after_of_ok rfl] at failed
    have met := stopped.obstacle_eq_some failed
    rw [plan.obstacle?_of_uncapped uncapped.capped now] at met
    cases met

end Mutation

end NameTree
