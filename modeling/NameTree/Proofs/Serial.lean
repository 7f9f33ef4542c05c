import NameTree.Proofs.Committed
import NameTree.Proofs.Rollback

/-!
Calls nested in one another, taken apart into transactions that follow one another. The transaction
of a call has ended before the listener hears of it, so whatever the listener calls then comes after
it: the deeds of a call are its own and then those of the reaction, in order, up to where an error
cuts it short. A host that has been through any calls is the one that has done their deeds in this
order, without listeners.
-/

namespace NameTree

variable {σ : Type}

/-- A mutation that was run in a transaction, and what the clock would give to it. -/
structure Deed where
  mutation : Mutation
  reading : Option Int

section Trace

/-- The deeds of a reaction; `deeds` gives those of the steps that it takes. -/
def Reaction.deeds (perform : Step → World σ → Except Fault Answer × World σ)
    (deeds : Step → World σ → List Deed) : Reaction σ → World σ → List Deed
  | .stop _, _ => []
  | .fail _ _, _ => []
  | .step state taken next, world =>
    let before := { world with listener := state }
    let (answer, after) := perform taken before
    deeds taken before ++ (next after.listener answer).deeds perform deeds after
  | .act state done next, world =>
    let (found, after) := World.act done { world with listener := state }
    (next after.listener found).deeds perform deeds after

namespace FileSystem

def deedsOnTell (listener : Listener σ) (perform : Step → World σ → Except Fault Answer × World σ)
    (deeds : Step → World σ → List Deed) (event : Option Event) (world : World σ) : List Deed :=
  event.elim [] fun event => (listener event world.listener).deeds perform deeds world

def deedsOnAnnounce (fs : FileSystem σ) (perform : Step → World σ → Except Fault Answer × World σ)
    (deeds : Step → World σ → List Deed) (m : Mutation) (result : Except Fault Effect)
    (world : World σ) :
    List Deed :=
  match fs.listener, eventOf m world.host.committed result with
  | some listener, .ok event => deedsOnTell listener perform deeds event world
  | _, _ => []

/-- A mutation that is turned away is no deed; one that fails is. -/
def deedsOfStep (fs : FileSystem σ) (perform : Step → World σ → Except Fault Answer × World σ)
    (deeds : Step → World σ → List Deed) (taken : Step) (world : World σ) : List Deed :=
  match taken with
  | .call (.mutate caller m) =>
    match fs.turnAway caller m world with
    | .error _ => []
    | .ok () =>
      let (result, ended) := fs.transact m world
      ⟨m, fs.clock world.ticks⟩ :: fs.deedsOnAnnounce perform deeds m result ended
  | _ => []

def deeds (fs : FileSystem σ) : Nat → Step → World σ → List Deed
  | 0 => fs.deedsOfStep (fun _ world => (.error .nestedTooDeep, world)) fun _ _ => []
  | depth + 1 => fs.deedsOfStep (fs.perform depth) (fs.deeds depth)

def deedsOfRun (fs : FileSystem σ) (depth : Nat) : List Step → World σ → List Deed
  | [], _ => []
  | s :: rest, world =>
    fs.deeds depth s world ++ fs.deedsOfRun depth rest (fs.perform depth s world).2

/-- `past` are all deeds so far on the way from a fresh namespace to a world. -/
inductive Passes (fs : FileSystem σ) : List Deed → World σ → Prop where
  | start (listener : σ) : fs.Passes [] (fs.start listener)
  | perform {past : List Deed} {world : World σ} (depth : Nat) (step : Step)
    (before : fs.Passes past world) :
    fs.Passes (past ++ fs.deeds depth step world) (fs.perform depth step world).2
  | transact {past : List Deed} {world : World σ} (caller : Option String) (m : Mutation)
    (before : fs.Passes past world) (admitted : fs.turnAway caller m world = .ok ()) :
    fs.Passes (past ++ [⟨m, fs.clock world.ticks⟩]) (fs.transact m world).2
  | listen {past : List Deed} {world : World σ} (listener : σ) (before : fs.Passes past world) :
    fs.Passes past { world with listener := listener }

theorem reachable_iff_passes {fs : FileSystem σ} {world : World σ} :
    fs.Reachable world ↔ ∃ past, fs.Passes past world := by
  constructor
  · intro reachable
    induction reachable with
    | start listener => exact ⟨[], .start listener⟩
    | perform depth step _ ih =>
      obtain ⟨past, passes⟩ := ih
      exact ⟨_, passes.perform depth step⟩
    | transact caller m _ admitted ih =>
      obtain ⟨past, passes⟩ := ih
      exact ⟨_, passes.transact caller m admitted⟩
    | listen listener _ ih =>
      obtain ⟨past, passes⟩ := ih
      exact ⟨past, passes.listen listener⟩
  · intro given
    rcases given with ⟨past, passes⟩
    induction passes with
    | start listener => exact .start listener
    | perform depth step _ ih => exact ih.perform depth step
    | transact caller m _ admitted ih => exact ih.transact caller m admitted
    | listen listener _ ih => exact ih.listen listener

theorem Passes.run {fs : FileSystem σ} (depth : Nat) (steps : List Step) {past : List Deed}
    {world : World σ} (before : fs.Passes past world) :
    fs.Passes (past ++ fs.deedsOfRun depth steps world) (fs.run depth steps world).2 := by
  induction steps generalizing past world with
  | nil => simpa [deedsOfRun, FileSystem.run] using before
  | cons step rest ih =>
    have further := ih (before.perform depth step)
    rw [List.append_assoc] at further
    exact further

theorem passes_run (fs : FileSystem σ) (depth : Nat) (steps : List Step) (listener : σ) :
    fs.Passes (fs.deedsOfRun depth steps (fs.start listener))
      (fs.run depth steps (fs.start listener)).2 :=
  (Passes.start listener).run depth steps

end FileSystem

end Trace

def Store.replay (limits : Limits) (deeds : List Deed) (store : Store) : Store :=
  deeds.foldl (fun store deed => (deed.mutation.apply limits deed.reading store).store) store

namespace Host

def doDeed (limits : Limits) (host : Host) (deed : Deed) : Host :=
  (host.run deed.mutation.label (deed.mutation.apply limits deed.reading)).host

def doAll (limits : Limits) (host : Host) (deeds : List Deed) : Host :=
  deeds.foldl (doDeed limits) host

/-- The deeds whose transactions were committed; transactions and deeds correspond by position. -/
def kept (deeds : List Deed) (ended : List Transaction) : List Deed :=
  ((deeds.zip ended).filter fun done => done.2.state = .committed).map Prod.fst

/-- Between two hosts nothing happened but `deeds`, one after another, each in a transaction
of `ended`. -/
structure Serial (limits : Limits) (before : Host) (deeds : List Deed) (ended : List Transaction)
    (after : Host) : Prop where
  journal : after.journal = before.journal ++ ended
  numbers : ended.map (·.number) = List.range' before.nextNumber deeds.length
  nextNumber : after.nextNumber = before.nextNumber + deeds.length
  labels : ended.map (·.label) = deeds.map (·.mutation.label)
  finished : ∀ transaction ∈ ended, transaction.state ≠ .active
  committed : after.committed = Store.replay limits (kept deeds ended) before.committed

variable {limits : Limits} {capacity : Option Int}

section Deed

variable {host : Host} (uniform : host.committed.Uniform capacity)
include uniform

theorem doDeed_eq (deed : Deed) :
    host.doDeed limits deed =
      ⟨match (deed.mutation.apply limits deed.reading host.committed).result with
        | .ok _ => (deed.mutation.apply limits deed.reading host.committed).store
        | .error _ => host.committed,
        host.nextNumber + 1, some host.journal.length,
        host.journal ++ [⟨host.nextNumber, deed.mutation.label,
          ending (deed.mutation.apply limits deed.reading host.committed).result⟩]⟩ := by
  have copied := uniform.clone
  unfold doDeed
  cases ended : (deed.mutation.apply limits deed.reading host.committed).result with
  | ok effect =>
    rw [run_of_ok (by rw [copied, ended]), copied]
    rfl
  | error fault =>
    rw [run_of_error (by rw [copied, ended])]
    rfl

theorem uniform_doDeed (limits : Limits) (deed : Deed) :
    (host.doDeed limits deed).committed.Uniform capacity := by
  rw [doDeed_eq uniform]
  dsimp only
  split
  · exact deed.mutation.uniform_apply uniform limits deed.reading
  · exact uniform

end Deed

theorem Serial.nil (host : Host) : host.Serial limits [] [] host where
  journal := by simp
  numbers := rfl
  nextNumber := rfl
  labels := rfl
  finished := by simp
  committed := rfl

theorem Serial.cons {before after : Host} {deed : Deed} {deeds : List Deed}
    {ended : List Transaction} (uniform : before.committed.Uniform capacity)
    (later : (before.doDeed limits deed).Serial limits deeds ended after) :
    before.Serial limits (deed :: deeds) (⟨before.nextNumber, deed.mutation.label,
      ending (deed.mutation.apply limits deed.reading before.committed).result⟩ ::
        ended) after := by
  rw [doDeed_eq uniform] at later
  constructor
  case journal =>
    rw [later.journal]
    simp
  case numbers => rw [List.map_cons, later.numbers, List.length_cons, List.range'_succ]
  case nextNumber =>
    rw [later.nextNumber, List.length_cons, Nat.add_assoc, Nat.add_comm 1]
  case labels => rw [List.map_cons, List.map_cons, later.labels]
  case finished =>
    intro transaction member
    rcases List.mem_cons.mp member with rfl | further
    · exact ending_ne_active _
    · exact later.finished transaction further
  case committed =>
    rw [later.committed]
    cases done : (deed.mutation.apply limits deed.reading before.committed).result with
    | error fault => simp [kept, ending]
    | ok effect => simp [kept, ending, Store.replay]

theorem exists_serial_doAll (limits : Limits) {host : Host}
    (uniform : host.committed.Uniform capacity) (deeds : List Deed) :
    ∃ ended, host.Serial limits deeds ended (host.doAll limits deeds) := by
  -- each deed finds the host that those before it have left
  induction deeds generalizing host with
  | nil => exact ⟨[], .nil host⟩
  | cons deed rest ih =>
    obtain ⟨ended, later⟩ := ih (uniform_doDeed uniform limits deed)
    exact ⟨_, later.cons uniform⟩

theorem doAll_append (host : Host) (first second : List Deed) :
    host.doAll limits (first ++ second) = (host.doAll limits first).doAll limits second :=
  List.foldl_append

end Host

section Hosts

variable {fs : FileSystem σ} {perform : Step → World σ → Except Fault Answer × World σ}
  {deeds : Step → World σ → List Deed}

theorem Reaction.host_run {limits : Limits}
    (steps : ∀ taken world, (perform taken world).2.host =
      world.host.doAll limits (deeds taken world))
    {reaction : Reaction σ} (stepsOnly : reaction.StepsOnly) (world : World σ) :
    (reaction.run perform world).2.host =
      world.host.doAll limits (reaction.deeds perform deeds world) := by
  induction reaction generalizing world with
  | stop state => rfl
  | fail state fault => rfl
  | step state taken next ih =>
    simp only [Reaction.run, Reaction.deeds]
    rw [ih _ _ (stepsOnly _ _), steps, Host.doAll_append]
  | act state done next ih => exact absurd stepsOnly (by simp [Reaction.StepsOnly])

namespace FileSystem

theorem host_tell
    (steps : ∀ taken world, (perform taken world).2.host =
      world.host.doAll fs.limits (deeds taken world))
    {listener : Listener σ} (stepsOnly : listener.StepsOnly) (event : Option Event)
    (world : World σ) :
    (tell listener perform event world).2.host =
      world.host.doAll fs.limits (deedsOnTell listener perform deeds event world) := by
  cases event with
  | none => rfl
  | some event => exact Reaction.host_run steps (stepsOnly event world.listener) world

theorem host_announce (stepsOnly : fs.StepsOnly)
    (steps : ∀ taken world, (perform taken world).2.host =
      world.host.doAll fs.limits (deeds taken world))
    (m : Mutation) (result : Except Fault Effect) (world : World σ) :
    (fs.announce perform m result world).2.host =
      world.host.doAll fs.limits (fs.deedsOnAnnounce perform deeds m result world) := by
  unfold announce deedsOnAnnounce
  cases present : fs.listener with
  | none => rfl
  | some listener =>
    have listenerSteps : listener.StepsOnly := stepsOnly listener present
    cases result with
    | error fault => exact host_tell steps listenerSteps (m.collision? fault) world
    | ok effect =>
      dsimp only [eventOf]
      cases m.event? effect world.host.committed with
      | error fault => rfl
      | ok event => exact host_tell steps listenerSteps event world

theorem host_transact (m : Mutation) (world : World σ) :
    (fs.transact m world).2.host = world.host.doDeed fs.limits ⟨m, fs.clock world.ticks⟩ := rfl

theorem host_step (stepsOnly : fs.StepsOnly)
    (steps : ∀ taken world, (perform taken world).2.host =
      world.host.doAll fs.limits (deeds taken world))
    (taken : Step) (world : World σ) :
    (fs.step perform taken world).2.host =
      world.host.doAll fs.limits (fs.deedsOfStep perform deeds taken world) := by
  cases taken with
  | hold | release => rfl
  | call call =>
    cases call with
    | mutate caller m =>
      have told := host_announce stepsOnly steps m (fs.transact m world).1 (fs.transact m world).2
      rw [host_transact] at told
      simp only [step, respond, mutate, deedsOfStep]
      cases fs.turnAway caller m world with
      | error fault => rfl
      | ok _ =>
        -- the call's own transaction comes first, those of the listener follow
        dsimp only
        rw [Host.doAll, List.foldl_cons, ← Host.doAll, ← told]
        split <;> (rename_i announced; rw [announced])
    | query q =>
      simp only [step, respond, query, deedsOfStep]
      split <;> rfl
    | pathExists path | isDir path | isFile path | owner | lastTransaction => rfl

theorem host_perform (stepsOnly : fs.StepsOnly) (depth : Nat) (taken : Step) (world : World σ) :
    (fs.perform depth taken world).2.host =
      world.host.doAll fs.limits (fs.deeds depth taken world) := by
  induction depth generalizing taken world with
  | zero => exact host_step stepsOnly (fun _ _ => rfl) taken world
  | succ depth ih => exact host_step stepsOnly ih taken world

theorem Passes.host (stepsOnly : fs.StepsOnly) {past : List Deed} {world : World σ}
    (passes : fs.Passes past world) :
    world.host = (Host.start (.empty fs.capacity)).doAll fs.limits past := by
  induction passes with
  | start listener => rfl
  | @perform past world depth step _ ih =>
    calc (fs.perform depth step world).2.host
        = world.host.doAll fs.limits (fs.deeds depth step world) :=
          host_perform stepsOnly depth step world
      _ = ((Host.start (.empty fs.capacity)).doAll fs.limits past).doAll fs.limits
            (fs.deeds depth step world) := by rw [ih]
      _ = (Host.start (.empty fs.capacity)).doAll fs.limits (past ++ fs.deeds depth step world) :=
          (Host.doAll_append _ past _).symm
  | @transact past world caller m _ admitted ih =>
    calc (fs.transact m world).2.host
        = world.host.doDeed fs.limits ⟨m, fs.clock world.ticks⟩ := host_transact m world
      _ = ((Host.start (.empty fs.capacity)).doAll fs.limits past).doDeed fs.limits
            ⟨m, fs.clock world.ticks⟩ := by rw [ih]
      _ = (Host.start (.empty fs.capacity)).doAll fs.limits
        (past ++ [⟨m, fs.clock world.ticks⟩]) := by
          rw [Host.doAll_append]
          rfl
  | listen listener _ ih => exact ih

end FileSystem

end Hosts

/-- In every world, also in one in which a listener is being told, all transactions so far have
ended, in the order of their numbers, and the committed store is what the committed ones of them
make of an empty one. Any further step adds its own to that, those of the listener after that of
the call. -/
theorem transactions_are_serial (fs : FileSystem σ) (stepsOnly : fs.StepsOnly) (past : List Deed)
    (world : World σ) (passes : fs.Passes past world) :
    (Host.start (.empty fs.capacity)).Serial fs.limits past world.host.journal world.host ∧
      (∀ label,
        (world.host.begin label).journal.filter (fun transaction => transaction.state = .active) =
          [⟨world.host.nextNumber, label, .active⟩]) ∧
      ∀ depth step, ∃ ended, world.host.Serial fs.limits (fs.deeds depth step world) ended
        (fs.perform depth step world).2.host := by
  have serial : (Host.start (.empty fs.capacity)).Serial fs.limits past world.host.journal
      world.host := by
    have uniform : (Host.start (.empty fs.capacity)).committed.Uniform fs.capacity :=
      Store.uniform_empty fs.capacity
    obtain ⟨ended, serial⟩ := Host.exists_serial_doAll fs.limits uniform past
    rw [← passes.host stepsOnly] at serial
    have all : world.host.journal = ended := serial.journal
    exact all ▸ serial
  refine ⟨serial, ?_, ?_⟩
  · intro label
    have none_active :
        world.host.journal.filter (fun transaction => transaction.state = .active) = [] := by
      rw [List.filter_eq_nil_iff]
      intro transaction member
      simpa using serial.finished transaction member
    simp [Host.begin, List.filter_append, none_active]
  · intro depth step
    rw [FileSystem.host_perform stepsOnly]
    exact Host.exists_serial_doAll fs.limits
      ((FileSystem.reachable_iff_passes.mpr ⟨past, passes⟩).uniform stepsOnly)
        (fs.deeds depth step world)

theorem transactions_are_serial_of_nested_creates :
    let steps := [.call (.mutate none (.createDir "/d" (.items []))),
      .call (.mutate none (.createDir "/d" (.items []))), .call (.mutate none (.deleteDir "/d")),
      .call (.mutate none (.createDir "/d" (.items [])))]
    let past := FileSystem.filling.deedsOfRun 1 steps (FileSystem.filling.start ⟨[], 2⟩)
    let world := (FileSystem.filling.run 1 steps (FileSystem.filling.start ⟨[], 2⟩)).2
    FileSystem.filling.StepsOnly ∧ FileSystem.filling.Passes past world ∧
      past.map (·.mutation.label) =
        ["create_dir", "create_file", "create_dir", "delete_dir", "create_dir", "create_file"] ∧
      (Host.kept past world.host.journal).map (·.mutation.label) =
        ["create_dir", "create_file", "delete_dir", "create_dir", "create_file"] ∧
      world.host.committed = Store.replay .default (Host.kept past world.host.journal)
        (.empty (some 2)) ∧
      world.host.committed.resolve? .file ["d", "f"] = some 4 := by
  intro steps past world
  have passes : FileSystem.filling.Passes past world :=
    FileSystem.filling.passes_run 1 steps ⟨[], 2⟩
  obtain ⟨serial, -⟩ :=
    transactions_are_serial FileSystem.filling FileSystem.stepsOnly_filling past world passes
  exact ⟨FileSystem.stepsOnly_filling, passes, by decide +kernel, by decide +kernel,
    serial.committed, by decide +kernel⟩

end NameTree
