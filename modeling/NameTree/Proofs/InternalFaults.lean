import NameTree.Proofs.Calls
import NameTree.Proofs.Committed
import NameTree.Proofs.External

/-!
Internal faults are never seen: in no world of a file system does a call end in one, unless a
listener raises it on its own account. A listener that passes on what a nested call was answered is
not the origin of it.
-/

namespace NameTree

variable {σ : Type}

/-- The reaction fails with `fault`, and nothing that it did before was answered with it. -/
inductive Reaction.Raises (fault : Fault) : Reaction σ → Prop where
  | fail (state : σ) : Raises fault (.fail state fault)
  | step {state : σ} {taken : Step} {next : σ → Except Fault Answer → Reaction σ} (after : σ)
    (answer : Except Fault Answer) (other : answer ≠ .error fault)
    (later : Raises fault (next after answer)) :
    Raises fault (.step state taken next)
  | act {state : σ} {done : StoreAct} {next : σ → Except Fault StoreFinding → Reaction σ}
    (after : σ) (found : Except Fault StoreFinding) (other : found ≠ .error fault)
    (later : Raises fault (next after found)) :
    Raises fault (.act state done next)

def FileSystem.ListenerRaises (fs : FileSystem σ) (fault : Fault) : Prop :=
  ∃ listener ∈ fs.listener, ∃ event state, (listener event state).Raises fault

variable {fs : FileSystem σ} {world : World σ} {fault : Fault}

namespace FileSystem

theorem Reachable.external_read (reachable : fs.Reachable world)
    (stepsOnly : fs.StepsOnly) {α : Type} (view : Store → Except Fault α)
    (external : ∀ store : Store, store.Sound → External (view store)) :
    External (read view world) := by
  unfold read
  split
  · exact external _ (reachable.sound stepsOnly)
  · exact .error rfl

theorem exists_event_transact (fs : FileSystem σ) (m : Mutation) (world : World σ) {effect : Effect}
    (done : (fs.transact m world).1 = .ok effect) :
    ∃ event, m.event? effect (fs.transact m world).2.host.committed = .ok event := by
  rcases fs.committed_transact m world with ⟨-, fault, failed⟩ | ⟨_, same, applied, committed⟩
  · rw [failed] at done
    cases done
  · cases same.symm.trans done
    rw [committed]
    exact m.exists_event? applied

/-- How a listener's steps are answered: in the worlds of the file system, and with internal faults
only as far as the listener raises them. -/
structure Accounted (fs : FileSystem σ) (nested : Step → World σ → Except Fault Answer × World σ) :
    Prop where
  reachable : ∀ taken {world}, fs.Reachable world → fs.Reachable (nested taken world).2
  raised : ∀ taken {world fault}, fs.Reachable world → (nested taken world).1 = .error fault →
    fault.isInternal = true → fs.ListenerRaises fault

variable {nested : Step → World σ → Except Fault Answer × World σ}

theorem Accounted.run (accounted : fs.Accounted nested) {reaction : Reaction σ}
    (stepsOnly : reaction.StepsOnly) (reachable : fs.Reachable world)
    (failed : (reaction.run nested world).1 = .error fault) (isInternal : fault.isInternal = true) :
    fs.ListenerRaises fault ∨ reaction.Raises fault := by
  induction reaction generalizing world with
  | stop state => cases failed
  | fail state given =>
    cases failed
    exact Or.inr (.fail state)
  | step state taken next ih =>
    have before := reachable.listen state
    by_cases passed : (nested taken { world with listener := state }).1 = .error fault
    · exact Or.inl (accounted.raised taken before passed isInternal)
    · rcases ih _ _ (stepsOnly _ _) (accounted.reachable taken before) failed with raised | later
      · exact Or.inl raised
      · exact Or.inr (.step _ _ passed later)
  | act state done next ih => exact absurd stepsOnly (by simp [Reaction.StepsOnly])

theorem Accounted.tell (accounted : fs.Accounted nested) (stepsOnly : fs.StepsOnly)
    {listener : Listener σ} (present : listener ∈ fs.listener) {event : Option Event}
    (reachable : fs.Reachable world)
    (failed : (FileSystem.tell listener nested event world).1 = .error fault)
    (isInternal : fault.isInternal = true) : fs.ListenerRaises fault := by
  cases event with
  | none => cases failed
  | some event =>
    rcases accounted.run (stepsOnly listener present event _) reachable failed isInternal with
      raised | here
    · exact raised
    · exact ⟨listener, present, event, world.listener, here⟩

theorem Accounted.announce (accounted : fs.Accounted nested) (stepsOnly : fs.StepsOnly)
    (m : Mutation) (reachable : fs.Reachable (fs.transact m world).2)
    (failed : (fs.announce nested m (fs.transact m world).1 (fs.transact m world).2).1 =
      .error fault)
    (isInternal : fault.isInternal = true) : fs.ListenerRaises fault := by
  unfold FileSystem.announce at failed
  split at failed
  · cases failed
  · rename_i listener present
    split at failed
    · exact accounted.tell stepsOnly present reachable failed isInternal
    · rename_i effect done
      obtain ⟨event, told⟩ := fs.exists_event_transact m world done
      rw [told] at failed
      exact accounted.tell stepsOnly present reachable failed isInternal

theorem Reachable.external_transact (reachable : fs.Reachable world) (stepsOnly : fs.StepsOnly)
    (m : Mutation) :
    External (fs.transact m world).1 := by
  rw [reachable.result_transact stepsOnly]
  exact m.external_apply (reachable.sound stepsOnly).toLinked fs.limits (fs.clock world.ticks)

theorem Accounted.mutate (accounted : fs.Accounted nested) (stepsOnly : fs.StepsOnly)
    (caller : Option String) (m : Mutation) (reachable : fs.Reachable world)
    (failed : (fs.mutate nested caller m world).1 = .error fault)
    (isInternal : fault.isInternal = true) :
    fs.ListenerRaises fault := by
  unfold FileSystem.mutate at failed
  cases admitted : fs.turnAway caller m world with
  | error refused =>
    simp only [admitted] at failed
    cases failed
    simp [External.of_refusing (fs.refusing_turnAway caller m world) fault admitted] at isInternal
  | ok _ =>
    simp only [admitted] at failed
    have ended := reachable.transact caller m admitted
    split at failed
    · rename_i raised after announced
      cases failed
      refine accounted.announce stepsOnly m ended ?_ isInternal
      rw [announced]
    · have ended := reachable.external_transact stepsOnly m
      simp [ended.map Effect.answer fault failed] at isInternal

theorem Reachable.external_query (reachable : fs.Reachable world) (stepsOnly : fs.StepsOnly)
    (q : Query) :
    External (fs.query q world).1 := by
  have answered := reachable.external_read stepsOnly (q.run fs.limits) fun _ sound =>
    q.external_run sound.toIntact
  unfold query
  split
  · rename_i failed
    exact .error (answered _ failed)
  · exact .ok _

theorem Reachable.external_probe (reachable : fs.Reachable world) (stepsOnly : fs.StepsOnly)
    (path : String) (root : Bool) (view : Listing → Bool) :
    External (fs.probe path root view world) := by
  have answered := reachable.external_read stepsOnly (·.stat fs.limits path)
    fun _ sound => .of_refusing sound.refusing_stat
  unfold probe
  split
  · exact .ok _
  · split
    · exact .ok _
    · rename_i failed
      split
      · exact .ok _
      · exact .error (answered _ failed)

theorem Accounted.step (accounted : fs.Accounted nested) (stepsOnly : fs.StepsOnly) (taken : Step)
    (reachable : fs.Reachable world) (failed : (fs.step nested taken world).1 = .error fault)
    (isInternal : fault.isInternal = true) : fs.ListenerRaises fault := by
  have contradicted {result : Except Fault Answer} (external : External result)
      (failed : result = .error fault) : fs.ListenerRaises fault := by
    simp [external fault failed] at isInternal
  cases taken with
  | hold | release => cases failed
  | call call =>
    cases call with
    | mutate caller m => exact accounted.mutate stepsOnly caller m reachable failed isInternal
    | query q => exact contradicted (reachable.external_query stepsOnly q) failed
    | pathExists path => exact contradicted (reachable.external_probe stepsOnly path _ _) failed
    | isDir path => exact contradicted (reachable.external_probe stepsOnly path _ _) failed
    | isFile path => exact contradicted (reachable.external_probe stepsOnly path _ _) failed
    | owner | lastTransaction => cases failed

theorem accounted_perform (stepsOnly : fs.StepsOnly) (depth : Nat) :
    fs.Accounted (fs.perform depth) := by
  induction depth with
  | zero =>
    refine ⟨fun taken _ reachable => reachable.perform 0 taken, ?_⟩
    have refused : fs.Accounted fun _ world => (.error .nestedTooDeep, world) := by
      refine ⟨fun _ _ reachable => reachable, ?_⟩
      intro taken world fault _ failed isInternal
      cases failed
      cases isInternal
    intro taken world fault reachable failed isInternal
    exact refused.step stepsOnly taken reachable failed isInternal
  | succ depth ih =>
    refine ⟨fun taken _ reachable => reachable.perform (depth + 1) taken, ?_⟩
    intro taken world fault reachable failed isInternal
    exact ih.step stepsOnly taken reachable failed isInternal

theorem Reachable.external_aborted (reachable : fs.Reachable world) (stepsOnly : fs.StepsOnly) :
    ∀ transaction ∈ world.host.journal, ∀ fault, transaction.state = .aborted fault →
      fault.isInternal = false := by
  have keeps : fs.Keeps fun world =>
      (world.host.committed.Sound ∧ world.host.committed.Uniform fs.capacity) ∧
      ∀ transaction ∈ world.host.journal, ∀ fault, transaction.state = .aborted fault →
        fault.isInternal = false :=
    { listen := fun _ before => before
      lock := fun _ before => before
      log := fun _ before => before
      transact := by
        intro world caller m kept admitted
        rcases kept with ⟨⟨sound, uniform⟩, aborted⟩
        refine ⟨fs.keeps_sound.transact caller m ⟨sound, uniform⟩ admitted, ?_⟩
        intro transaction member fault ended
        rw [journal_transact, List.mem_append, List.mem_singleton] at member
        rcases member with old | rfl
        · exact aborted transaction old fault ended
        · have result := fs.result_transact m world
          rw [uniform.clone] at result
          cases applied : (fs.transact m world).1 with
          | ok effect =>
            rw [applied] at ended
            cases ended
          | error given =>
            rw [applied] at ended
            cases ended
            exact m.external_apply sound.toLinked _ _ _ (result.symm.trans applied) }
  refine (reachable.of_keeps keeps stepsOnly fun listener =>
    ⟨⟨Store.sound_empty fs.capacity, Store.uniform_empty fs.capacity⟩, ?_⟩).2
  simp [FileSystem.start, Host.start]

theorem Reachable.external_of_not_mutate (reachable : fs.Reachable world) (stepsOnly : fs.StepsOnly)
    (depth : Nat) {taken : Step} (other : ∀ caller m, taken ≠ .call (.mutate caller m)) :
    External (fs.perform depth taken world).1 := by
  rw [perform_eq_step]
  cases taken with
  | hold | release => exact .ok _
  | call call =>
    cases call with
    | mutate caller m => exact absurd rfl (other caller m)
    | query q => exact reachable.external_query stepsOnly q
    | pathExists path | isDir path | isFile path =>
      exact reachable.external_probe stepsOnly path _ _
    | owner | lastTransaction => exact .ok _

end FileSystem

/-- The listener is the only one to raise an internal fault. What the file system does itself never
fails with one: no step but a mutation, no check of a caller, no transaction and no lookup of what
the listener is to be told. -/
theorem internal_fault_only_from_listener (fs : FileSystem σ) (stepsOnly : fs.StepsOnly)
    (world : World σ) (reachable : fs.Reachable world) :
    (∀ depth taken fault, (fs.perform depth taken world).1 = .error fault →
      fault.isInternal = true → fs.ListenerRaises fault) ∧
      (∀ depth, fs.perform depth (.call (.query .checkConsistency)) world =
        (if world.lockFree then .ok (.reply (.ids [])) else .error .lockUnavailable, world)) ∧
      (∀ transaction ∈ world.host.journal, ∀ fault, transaction.state = .aborted fault →
        fault.isInternal = false) ∧
      (∀ depth taken fault, (∀ caller m, taken ≠ .call (.mutate caller m)) →
        (fs.perform depth taken world).1 = .error fault → fault.isInternal = false) ∧
      (∀ caller m fault, fs.turnAway caller m world = .error fault → fault.isInternal = false) ∧
      (∀ m fault, (fs.transact m world).1 = .error fault → fault.isInternal = false) ∧
      (∀ m effect, (fs.transact m world).1 = .ok effect →
        ∃ event, m.event? effect (fs.transact m world).2.host.committed = .ok event) ∧
      ∀ depth caller m fault, (fs.perform depth (.call (.mutate caller m)) world).1 = .error fault →
        fault.isInternal = true →
          fs.listener ≠ none ∧ (fs.told depth m world).1 = .error fault := by
  have consistent := (reachable.sound stepsOnly).checkConsistency
  refine ⟨?_, ?_, reachable.external_aborted stepsOnly, ?_, ?_, ?_, ?_, ?_⟩
  · intro depth taken fault failed isInternal
    exact (FileSystem.accounted_perform stepsOnly depth).raised taken reachable failed isInternal
  · intro depth
    have answered : fs.query .checkConsistency world =
        (if world.lockFree then .ok (.reply (.ids [])) else .error .lockUnavailable, world) := by
      unfold FileSystem.query FileSystem.read
      by_cases lockFree : world.lockFree = true
      · rw [if_pos lockFree, if_pos lockFree]
        simp [Query.run, Query.log, consistent, Except.map]
      · simp [lockFree]
    cases depth <;> exact answered
  · exact fun depth taken fault other failed =>
      reachable.external_of_not_mutate stepsOnly depth other fault failed
  · exact fun caller m fault refused =>
      External.of_refusing (fs.refusing_turnAway caller m world) fault refused
  · exact fun m fault failed => reachable.external_transact stepsOnly m fault failed
  · exact fun m effect done => fs.exists_event_transact m world done
  · intro depth caller m fault failed isInternal
    have notRefusal : fault.isRefusal = false := by
      cases fault <;> first | rfl | cases isInternal
    have told : (fs.told depth m world).1 = .error fault := by
      rcases FileSystem.error_of_perform_mutate notRefusal failed with ended | told
      · simp [reachable.external_transact stepsOnly m fault ended] at isInternal
      · exact told
    refine ⟨?_, told⟩
    intro nobody
    simp [FileSystem.told, FileSystem.announce, nobody] at told

theorem Listener.not_raises_stepping (kinds : List String) (taken : Step) (event : Event)
    (book : Notebook) (fault : Fault) :
    ¬ (Listener.stepping kinds taken event book).Raises fault := by
  intro raised
  dsimp only [Listener.stepping, Listener.reacting] at raised
  split at raised
  · cases raised with
    | step after answer other later =>
      cases answer with
      | ok answer => cases later
      | error given =>
        cases later
        exact other rfl
  · cases raised

theorem no_internal_fault_of_nested_creates :
    let world := (FileSystem.filling.run 1
      [.call (.mutate none (.createDir "/d" (.items []))),
        .call (.mutate none (.createDir "/d" (.items [])))]
      (FileSystem.filling.start ⟨[], 2⟩)).2
    FileSystem.filling.StepsOnly ∧ FileSystem.filling.Reachable world ∧
      (∀ depth taken fault, (FileSystem.filling.perform depth taken world).1 = .error fault →
        fault.isInternal = false) ∧
      (FileSystem.filling.perform 0 (.call (.query .checkConsistency)) world).1 =
        .ok (.reply (.ids [])) := by
  intro world
  have reachable : FileSystem.filling.Reachable world := FileSystem.filling.reachable_run 1 _ _
  obtain ⟨raised, checked, -⟩ :=
    internal_fault_only_from_listener FileSystem.filling FileSystem.stepsOnly_filling
      world reachable
  refine ⟨FileSystem.stepsOnly_filling, reachable, ?_, ?_⟩
  · intro depth taken fault failed
    cases isInternal : fault.isInternal with
    | false => rfl
    | true =>
      obtain ⟨listener, present, event, state, raises⟩ := raised depth taken fault failed isInternal
      cases present
      exact absurd raises (Listener.not_raises_stepping _ _ _ _ _)
  · have lockFree : world.lockFree = true := by decide +kernel
    rw [checked, if_pos lockFree]

end NameTree
