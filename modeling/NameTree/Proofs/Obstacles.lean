import NameTree.Proofs.Refusals

/-!
What can stop a plan from being written. On a linked store every record that a plan drops is there,
so what is left are the clock and the containers that are to take something new. A write that can be
stopped is, as far as its result goes, the sequence of the steps that can stop it.
-/

namespace NameTree

/-- Neither the caller nor the store is to blame: the clock failed, or a container is full. -/
def Fault.isObstacle : Fault → Bool
  | .clockFailed | .capacityExceeded _ _ _ => true
  | _ => false

theorem Fault.isInternal_of_isObstacle {fault : Fault} (obstacle : fault.isObstacle = true) :
    fault.isInternal = false := by
  cases fault with
  | mismatch | cycle | assertionFailed => cases obstacle
  | _ => rfl

theorem Mutation.Declines.isObstacle {m : Mutation} {limits : Limits} {store : Store}
    {fault : Fault} (declines : m.Declines limits store fault) : fault.isObstacle = false := by
  cases fault with
  | clockFailed | capacityExceeded =>
    rcases declines with refusal | collides
    · cases refusal
    · cases collides.isCollision
  | _ => rfl

abbrev Obstructed {α : Type} (result : Except Fault α) : Prop :=
  FailsOnly (fun fault => fault.isObstacle = true) result

/-- What the clock gives, if it does not fail. -/
def Clock.read : Option Int → Except Fault Int
  | none => .error .clockFailed
  | some now => .ok now

theorem Clock.obstructed_read (reading : Option Int) : Obstructed (Clock.read reading) := by
  cases reading with
  | none => exact .error rfl
  | some now => exact .ok now

theorem OrderedMap.obstructed_insertWithin {κ ν : Type} [DecidableEq κ] (container : String)
    (capacity : Option Int) (m : OrderedMap κ ν) (key : κ) (value : ν) :
    Obstructed (m.insertWithin container capacity key value) := by
  unfold OrderedMap.insertWithin
  split
  · exact .error rfl
  · exact .ok _

theorem Index.obstructed_insert (index : Index) (name : String) (id : Int) :
    Obstructed (index.insert name id) := by
  have inserted :=
    OrderedMap.obstructed_insertWithin index.label index.capacity index.bindings name id
  unfold Index.insert
  split
  · rename_i failed
    exact .error (inserted _ failed)
  · exact .ok _

theorem Arena.obstructed_insert {kind : String} {ρ : Type} (arena : Arena kind ρ) (id : Int)
    (record : ρ) :
    Obstructed (arena.insert id record) := by
  have inserted := OrderedMap.obstructed_insertWithin
    (kind ++ " arena") arena.capacity arena.records id record
  unfold Arena.insert
  split
  · rename_i failed
    exact .error (inserted _ failed)
  · exact .ok _

variable {store : Store}

section Drops

namespace Store

theorem exists_dropReplaced {replaced : Option Int}
    (recorded : ∀ id ∈ replaced, id ∈ store.ids .file) :
    ∃ cleared, store.dropReplaced replaced = .ok cleared := by
  cases replaced with
  | none => exact ⟨store, rfl⟩
  | some id =>
    exact ⟨_, dropReplaced_some_eq_ok_iff.mpr ⟨recorded id rfl, rfl⟩⟩

end Store

end Drops

section Creates

theorem FilePlan.result_write {plan : FilePlan} {cleared : Store}
    (dropped : store.dropReplaced plan.replaced = .ok cleared) (reading : Option Int) :
    (plan.write reading store).result = (do
      let now ← Clock.read reading
      let _ ← cleared.files.insert cleared.advance.counter (plan.draft.stamp now)
      let _ ← plan.index.insert plan.leaf cleared.advance.counter
      pure (cleared.advance.counter : Int)) := by
  unfold write
  rw [dropped]
  cases reading with
  | none => rfl
  | some now =>
    simp only [Clock.read, bind, Except.bind, pure, Except.pure]
    have same : cleared.advance.files = cleared.files := rfl
    rw [same]
    cases cleared.files.insert cleared.advance.counter (plan.draft.stamp now) with
    | error fault => rfl
    | ok files => cases plan.index.insert plan.leaf cleared.advance.counter <;> rfl

theorem DirPlan.result_write (plan : DirPlan) (reading : Option Int) (store : Store) :
    (plan.write reading store).result = (do
      let now ← Clock.read reading
      let _ ← store.dirs.insert store.advance.counter (.make now plan.tags store.capacity)
      let _ ← plan.index.insert plan.leaf store.advance.counter
      pure (store.advance.counter : Int)) := by
  unfold write
  cases reading with
  | none => rfl
  | some now =>
    simp only [Clock.read, bind, Except.bind, pure, Except.pure]
    have same : store.advance.dirs = store.dirs := rfl
    rw [same]
    cases store.dirs.insert store.advance.counter (.make now plan.tags store.capacity) with
    | error fault => rfl
    | ok dirs =>
      cases plan.index.insert plan.leaf store.advance.counter with
      | error fault => rfl
      | ok index =>
        dsimp only
        split <;> rfl

theorem DirPlan.drawn_of_write {plan : DirPlan} {reading : Option Int} {id : Int}
    (done : (plan.write reading store).result = .ok id) : id = store.counter + 1 := by
  rw [result_write] at done
  obtain ⟨now, -, done⟩ := bind_eq_ok_iff.mp done
  obtain ⟨dirs, -, done⟩ := bind_eq_ok_iff.mp done
  obtain ⟨index, -, done⟩ := bind_eq_ok_iff.mp done
  cases done
  simp [Store.advance]

theorem Mutation.drawn_of_creates {m : Mutation} {limits : Limits} {reading : Option Int}
    {effect : Effect} (creates : m.creates = true)
    (done : (m.apply limits reading store).result = .ok effect) :
    effect = .bound (store.counter + 1) := by
  cases m with
  | createFile path spec =>
    obtain ⟨id, created, rfl⟩ := map_eq_ok_iff.mp done
    rw [(Store.createFile_binds created).1]
  | createDir path tags =>
    obtain ⟨id, created, rfl⟩ := map_eq_ok_iff.mp done
    rw [Store.createDir_eq_after] at created
    obtain ⟨plan, -, written, -⟩ := Outcome.exists_plan_of_after created
    rw [plan.drawn_of_write written]
  | rename _ _ _ | deleteFile _ | deleteDir _ | updateEpoch _ => cases creates

end Creates

theorem RenamePlan.result_write {plan : RenamePlan} {id : Int}
    (held : plan.index.get? plan.oldName = some id) (kind : Kind) (store : Store) :
    (plan.write kind store).result =
      ((plan.index.erase plan.oldName).insert plan.newName id).map fun _ => () := by
  unfold write
  simp only [held]
  cases (plan.index.erase plan.oldName).insert plan.newName id <;> rfl

section Deletes

namespace DeletePlan

variable (plan : DeletePlan)

theorem result_writeFile (recorded : plan.id ∈ store.ids .file) :
    (plan.writeFile store).result = .ok plan.id := by
  rw [Store.writeFile_of_mem recorded]
  rfl

theorem linked_unbind (linked : store.Linked)
    (present : store.index .dir plan.place = .ok plan.index) :
    (plan.unbind .dir store).Linked := by
  have fewer {kind place name id}
      (bound : (plan.unbind .dir store).binding? kind place name = some id) :
          store.binding? kind place name = some id := by
    rw [unbind, Store.binding?_setIndex_erase present] at bound
    split at bound
    · cases bound
    · exact bound
  refine linked.of_fewer fewer ?_
  intro kind place name id bound
  rw [unbind, Store.ids_setIndex]
  exact linked.recorded (fewer bound)

theorem exists_writeDir (linked : store.Linked)
    (present : store.index .dir plan.place = .ok plan.index) (recorded : plan.id ∈ store.ids .dir)
    (path : String) :
    ∃ removed, (plan.writeDir path store).result = .ok removed := by
  have unbound := plan.linked_unbind linked present
  have held : plan.id ∈ (plan.unbind .dir store).ids .dir := by
    rw [unbind, Store.ids_setIndex]
    exact recorded
  obtain ⟨files, dirs, searched⟩ := unbound.exists_subtree held
  obtain ⟨filesUnder, dirsUnder⟩ := Store.mem_of_subtree searched
  obtain ⟨filesAscend, dirsAscend⟩ := Store.pairwise_of_subtree searched
  have droppedFiles : (plan.unbind .dir store).files.drop files = _ :=
    Arena.drop_of_recorded filesAscend.nodup fun id member =>
      unbound.mem_ids_of_fileUnder ((filesUnder id).mp member)
  have droppedDirs : (plan.unbind .dir store).dirs.drop dirs = _ :=
    Arena.drop_of_recorded dirsAscend.nodup fun id member =>
      unbound.mem_ids_of_under ((dirsUnder id).mp member).1 held
  unfold writeDir
  dsimp only
  rw [searched]
  dsimp only
  rw [droppedFiles]
  dsimp only
  rw [droppedDirs]
  exact ⟨_, rfl⟩

end DeletePlan

end Deletes

theorem Plan.Suits.obstructed_write {plan : Plan} (suits : plan.Suits store) (linked : store.Linked)
    (reading : Option Int) : Obstructed (plan.write reading store).result := by
  cases suits with
  | file present replaced =>
    obtain ⟨cleared, dropped⟩ := Store.exists_dropReplaced fun id held =>
      linked.mem_ids_of_index present (replaced.symm.trans held)
    refine FailsOnly.map ?_ _
    rw [FilePlan.result_write dropped]
    refine (Clock.obstructed_read reading).bind fun _ _ => ?_
    refine (Arena.obstructed_insert _ _ _).bind fun _ _ => ?_
    exact (Index.obstructed_insert _ _ _).bind fun _ _ => .ok _
  | dir present =>
    refine FailsOnly.map ?_ _
    rw [DirPlan.result_write]
    refine (Clock.obstructed_read reading).bind fun _ _ => ?_
    refine (Arena.obstructed_insert _ _ _).bind fun _ _ => ?_
    exact (Index.obstructed_insert _ _ _).bind fun _ _ => .ok _
  | rename present held =>
    refine FailsOnly.map ?_ _
    rw [RenamePlan.result_write held]
    exact (Index.obstructed_insert _ _ _).map _
  | deleteFile present held =>
    have done := DeletePlan.result_writeFile _ (linked.mem_ids_of_index present held)
    exact (FailsOnly.of_ok done).map _
  | deleteDir path present held =>
    obtain ⟨removed, done⟩ :=
      DeletePlan.exists_writeDir _ linked present (linked.mem_ids_of_index present held) path
    exact (FailsOnly.of_ok done).map _
  | epoch number => exact .ok _

theorem Mutation.declines_or_isObstacle {m : Mutation} {limits : Limits} {reading : Option Int}
    {fault : Fault} (linked : store.Linked)
    (failed : (m.apply limits reading store).result = .error fault) :
    m.Declines limits store fault ∨ fault.isObstacle = true := by
  rw [apply_eq_after] at failed
  cases planned : m.plan limits store with
  | error other =>
    rw [Outcome.after_of_error planned] at failed
    cases failed
    exact Or.inl (linked.plan_declines limits m fault planned)
  | ok plan =>
    rw [Outcome.after_of_ok planned] at failed
    exact Or.inr ((suits_of_plan planned).obstructed_write linked reading fault failed)

end NameTree
