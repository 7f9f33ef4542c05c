import NameTree.Proofs.Calls
import NameTree.Proofs.Checks
import NameTree.Proofs.Committed
import NameTree.Proofs.Obstacles

/-!
The log of a listener that only records. Each step of a run adds to it what the outcome of the step
calls for, one event or none, and the steps do so in their order. The fields of an event are those
of a record: the one stored by a create that was committed, or the one that a create has met.
-/

namespace NameTree

/-- What is told about a mutation that led from the committed store `before` to `after` and was
answered with `answer`. -/
inductive Mutation.Tells (limits : Limits) (before after : Store) :
    Mutation → Except Fault Answer → List Event → Prop where
  | fileAdded {path : String} {spec : FileSpec} {id : Int} {record : FileRecord}
    (stored : after.files.get? id = some record) :
    Tells limits before after (.createFile path spec) (.ok (.id id)) [.fileAdded path record]
  | dirAdded {path : String} {tags : Tags} {id : Int} {record : DirRecord}
    (stored : after.dirs.get? id = some record) :
    Tells limits before after (.createDir path tags) (.ok (.id id))
      [.dirAdded path record.createTs record.tags]
  | fileDeleted (path : String) :
    Tells limits before after (.deleteFile path) (.ok .done) [.deleted path]
  | dirDeleted (path : String) :
    Tells limits before after (.deleteDir path) (.ok .done) [.deleted path]
  | epochUpdated (epoch : Int) :
    Tells limits before after (.updateEpoch (.int epoch)) (.ok .done) [.epochUpdated epoch]
  | fileExists {path : String} {spec : FileSpec} {place : Place} {leaf : String}
    {index : Index} {id : Int} {record : FileRecord}
    (target : Destination before limits .file path place leaf index)
    (bound : index.get? leaf = some id) (kept : spec.overwrite = false)
    (stored : before.files.get? id = some record) (unchanged : after = before) :
    Tells limits before after (.createFile path spec)
      (.error (.fileExists path (some (record.listing leaf))))
      [.fileExists path record]
  | dirExists {path : String} {tags : Tags} {place : Place} {leaf : String}
    {index : Index} {id : Int} {record : DirRecord}
    (target : Destination before limits .dir (Path.dropFinalSlash path) place leaf index)
    (bound : index.get? leaf = some id) (stored : before.dirs.get? id = some record)
    (unchanged : after = before) :
    Tells limits before after (.createDir path tags)
      (.error (.dirExists path (some (record.listing leaf))))
      [.dirExists path record.createTs record.tags]
  | rename (kind : Kind) (source target : String) (answer : Except Fault Answer) :
    Tells limits before after (.rename kind source target) answer []
  | failed (m : Mutation) {fault : Fault} (cause : fault.isRefusal = true ∨ fault.isObstacle = true)
    (unchanged : after = before) : Tells limits before after m (.error fault) []

inductive Step.Tells (limits : Limits) (before after : Store) :
    Step → Except Fault Answer → List Event → Prop where
  | mutation {caller : Option String} {m : Mutation} {answer : Except Fault Answer}
    {events : List Event} (told : m.Tells limits before after answer events) :
    Tells limits before after (.call (.mutate caller m)) answer events
  | other {step : Step} (quiet : ∀ caller m, step ≠ .call (.mutate caller m))
    (answer : Except Fault Answer) :
    Tells limits before after step answer []

section Outcomes

variable {m : Mutation} {limits : Limits} {reading : Option Int} {store : Store}

theorem Mutation.tells_of_ok {effect : Effect} {event : Option Event}
    (done : (m.apply limits reading store).result = .ok effect)
    (told : m.event? effect (m.apply limits reading store).store = .ok event) :
    m.Tells limits store (m.apply limits reading store).store (.ok effect.answer) event.toList := by
  cases m with
  | createFile path spec =>
    obtain ⟨id, -, rfl⟩ := map_eq_ok_iff.mp done
    obtain ⟨record, required, rfl⟩ := map_eq_ok_iff.mp told
    exact .fileAdded (Arena.require_eq_ok_iff.mp required)
  | createDir path tags =>
    obtain ⟨id, -, rfl⟩ := map_eq_ok_iff.mp done
    obtain ⟨record, required, rfl⟩ := map_eq_ok_iff.mp told
    exact .dirAdded (Arena.require_eq_ok_iff.mp required)
  | rename kind source target =>
    cases told
    exact .rename kind source target _
  | deleteFile path =>
    obtain ⟨id, -, rfl⟩ := map_eq_ok_iff.mp done
    cases told
    exact .fileDeleted path
  | deleteDir path =>
    obtain ⟨removed, -, rfl⟩ := map_eq_ok_iff.mp done
    cases told
    exact .dirDeleted path
  | updateEpoch epoch =>
    obtain ⟨_, updated, rfl⟩ := map_eq_ok_iff.mp done
    rw [Store.updateEpoch_eq_after] at updated
    obtain ⟨number, checked, -, -⟩ := Outcome.exists_plan_of_after updated
    obtain rfl := (checkWord_eq_ok_iff.mp checked).1
    cases told
    exact .epochUpdated number

theorem Fault.isCollision_of_cause {fault : Fault}
    (cause : fault.isRefusal = true ∨ fault.isObstacle = true) :
    fault.isCollision = false := by
  cases fault with
  | fileExists | dirExists => rcases cause with refusal | obstacle <;> contradiction
  | _ => rfl

theorem Mutation.tells_of_error {fault : Fault} (linked : store.Linked)
    (failed : (m.apply limits reading store).result = .error fault) :
    m.Tells limits store store (.error fault) (m.collision? fault).toList := by
  have silent (cause : fault.isRefusal = true ∨ fault.isObstacle = true) :
      m.Tells limits store store (.error fault) (m.collision? fault).toList := by
    rw [m.collision?_of_isCollision (Fault.isCollision_of_cause cause)]
    exact .failed m cause rfl
  rcases declines_or_isObstacle linked failed with declines | obstacle
  · rcases declines with refusal | collides
    · exact silent (Or.inl refusal)
    · cases collides with
      | createFile target bound kept listed =>
        obtain ⟨record, required, rfl⟩ := map_eq_ok_iff.mp listed
        exact .fileExists target bound kept (Arena.require_eq_ok_iff.mp required) rfl
      | createDir target bound listed =>
        obtain ⟨record, required, rfl⟩ := map_eq_ok_iff.mp listed
        exact .dirExists target bound (Arena.require_eq_ok_iff.mp required) rfl
      | rename kind =>
        cases kind <;> exact .rename _ _ _ _
  · exact silent (Or.inr obstacle)

end Outcomes

/-- A step of a run, with the worlds around it and what it was answered. -/
structure Moment (σ : Type) where
  before : World σ
  step : Step
  answer : Except Fault Answer
  after : World σ

def Moment.Tells {σ : Type} (limits : Limits) (moment : Moment σ) (events : List Event) : Prop :=
  moment.step.Tells limits moment.before.host.committed moment.after.host.committed
    moment.answer events

def FileSystem.moments {σ : Type} (fs : FileSystem σ) (depth : Nat) :
    List Step → World σ → List (Moment σ)
  | [], _ => []
  | s :: rest, world =>
    let (answer, after) := fs.perform depth s world
    ⟨world, s, answer, after⟩ :: fs.moments depth rest after

section Recorder

variable {fs : FileSystem Notebook} {world : World Notebook}

namespace FileSystem

theorem heard_recorder (event : Option Event) (book : Notebook) :
    heard (some fun event book => (.ok (), Notebook.add book (.event event))) event book =
      (.ok (), { book with notes := book.notes ++ event.toList.map .event }) := by
  cases event with
  | none => simp [heard]
  | some event => rfl

theorem plain_of_recorded (recorded : fs.listener = some .recorder) :
    fs.listener = (some fun event book => (.ok (), Notebook.add book (.event event))).map
      Listener.plain :=
  recorded.trans (congrArg some Listener.recorder_eq_plain)

theorem perform_recorded (recorded : fs.listener = some .recorder) {caller : Option String}
    {m : Mutation} {after : World Notebook} {result : Except Fault Effect} {event : Option Event}
    (admitted : fs.turnAway caller m world = .ok ()) (ended : fs.transact m world = (result, after))
    (told : eventOf m after.host.committed result = .ok event) (depth : Nat) :
    fs.perform depth (.call (.mutate caller m)) world =
      (result.map Effect.answer, { after with listener :=
        { after.listener with notes := after.listener.notes ++ event.toList.map .event } }) := by
  rw [perform_eq_step]
  refine (mutate_plain (plain_of_recorded recorded) admitted ended told).trans ?_
  rw [heard_recorder]
  rfl

theorem tells_perform (recorded : fs.listener = some .recorder) (reachable : fs.Reachable world)
    (depth : Nat) (taken : Step) :
    ∃ events, taken.Tells fs.limits world.host.committed
      (fs.perform depth taken world).2.host.committed
        (fs.perform depth taken world).1 events ∧
      (fs.perform depth taken world).2.listener.notes =
        world.listener.notes ++ events.map .event := by
  cases taken with
  | call call =>
    cases call with
    | mutate caller m =>
      have stepsOnly := stepsOnly_of_plain (plain_of_recorded recorded)
      have linked := (reachable.sound stepsOnly).toLinked
      have copied := reachable.clone stepsOnly
      cases admitted : fs.turnAway caller m world with
      | error fault =>
        have refusal := fs.refusing_turnAway caller m world fault admitted
        rw [perform_of_turnAway admitted]
        exact ⟨[], .mutation (.failed m (Or.inl refusal) rfl), by simp⟩
      | ok _ =>
        cases done :
            (m.apply fs.limits (fs.clock world.ticks) world.host.committed.clone).result with
        | error fault =>
          rw [perform_recorded recorded admitted (transact_of_error done) rfl]
          rw [copied] at done
          exact ⟨_, .mutation (Mutation.tells_of_error linked done), rfl⟩
        | ok effect =>
          obtain ⟨event, told⟩ := m.exists_event? done
          rw [perform_recorded recorded admitted (transact_of_ok done) told]
          rw [copied] at done told ⊢
          exact ⟨_, .mutation (Mutation.tells_of_ok done told), rfl⟩
    | query q =>
      refine ⟨[], .other (by simp) _, ?_⟩
      rw [perform_eq_step]
      simp only [step, respond, query]
      split <;> simp
    | pathExists _ | isDir _ | isFile _ | owner | lastTransaction =>
      refine ⟨[], .other (by simp) _, ?_⟩
      rw [perform_eq_step]
      simp [step, respond]
  | hold | release =>
    refine ⟨[], .other (by simp) _, ?_⟩
    rw [perform_eq_step]
    simp [step]

end FileSystem

end Recorder

/-- The run starts in any world and with any notes; its own are added to them. -/
theorem event_log_of_run (fs : FileSystem Notebook) (recorded : fs.listener = some .recorder)
    (depth : Nat) (steps : List Step) (world : World Notebook) (reachable : fs.Reachable world) :
    (fs.moments depth steps world).map (fun moment => (moment.step, moment.answer)) =
        steps.zip (fs.run depth steps world).1 ∧
      ∃ reports, List.Forall₂ (Moment.Tells fs.limits) (fs.moments depth steps world) reports ∧
        (fs.run depth steps world).2.listener.notes =
          world.listener.notes ++ reports.flatten.map Note.event := by
  induction steps generalizing world with
  | nil => exact ⟨rfl, [], .nil, by simp [FileSystem.run]⟩
  | cons step rest ih =>
    obtain ⟨answered, reports, told, noted⟩ :=
      ih (fs.perform depth step world).2 (reachable.perform depth step)
    obtain ⟨events, toldFirst, notedFirst⟩ := FileSystem.tells_perform recorded reachable depth step
    refine ⟨congrArg (_ :: ·) answered, events :: reports, .cons toldFirst told, ?_⟩
    calc (fs.run depth (step :: rest) world).2.listener.notes
        = (fs.perform depth step world).2.listener.notes ++ reports.flatten.map Note.event := noted
      _ = world.listener.notes ++ (events :: reports).flatten.map Note.event := by
          rw [notedFirst, List.flatten_cons, List.map_append, List.append_assoc]

def FileSystem.recording : FileSystem Notebook :=
  { flaky with clock := .stepping 7 1 [2], listener := some .recorder }

/-- A create, one that meets it, one that is over the capacity, one for which the clock fails, a
rename onto itself, a stranger's deletion and the owner's. -/
theorem event_log_of_run_recording :
    let call (m : Mutation) : Step := .call (.mutate (some "owner") m)
    let file (path : String) : Mutation := .createFile path ⟨.items [], .int 1, "", .int 0, false⟩
    let steps :=
      [call (file "/f"), call (file "/f"), call (file "/g"), call (.createDir "/d/" (.items [])),
      call (.createDir "/d/" (.items [])), call (.rename .file "/f" "/f"),
      .call (.mutate none (.deleteFile "/f")), call (.deleteFile "/f")]
    let start := FileSystem.recording.start ⟨[], 0⟩
    let record : FileRecord := ⟨7, [], 1, "", 0⟩
    FileSystem.recording.listener = some .recorder ∧ FileSystem.recording.Reachable start ∧
      ∃ reports, List.Forall₂ (Moment.Tells .default)
        (FileSystem.recording.moments 0 steps start) reports ∧
        reports.flatten.map Note.event =
          [.event (.fileAdded "/f" record), .event (.fileExists "/f" record),
            .event (.dirAdded "/d/" 10 []), .event (.deleted "/f")] := by
  intro call file steps start record
  have reachable : FileSystem.recording.Reachable start := .start _
  obtain ⟨-, reports, told, noted⟩ :=
    event_log_of_run FileSystem.recording rfl 0 steps start reachable
  exact ⟨rfl, reachable, reports, told, noted.symm.trans (by decide +kernel)⟩

end NameTree
