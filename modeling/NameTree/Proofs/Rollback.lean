import NameTree.FileSystem.Listeners
import NameTree.Proofs.Entries
import NameTree.Proofs.Reachable
import NameTree.Proofs.Written

/-!
A mutation of a file system beside the same mutation on a bare store. The bare store may be left
half changed by a fault; the committed store is then what it was. A listener that takes no steps can
make the call fail, but it cannot change which store is committed.
-/

namespace NameTree

variable {σ : Type}

/-- What a listener that takes no steps makes of an event in each of its states. -/
abbrev Hearing (σ : Type) := Event → σ → Except Fault Unit × σ

/-- The listener that does nothing but hear: it stops or fails, in a new state of its own. -/
def Listener.plain (hearing : Hearing σ) : Listener σ := fun event state =>
  match hearing event state with
  | (.ok (), after) => .stop after
  | (.error fault, after) => .fail after fault

theorem Listener.stepsOnly_plain (hearing : Hearing σ) : (plain hearing).StepsOnly := by
  intro event state
  unfold plain
  split <;> trivial

def heard (hearing : Option (Hearing σ)) (event : Option Event) (state : σ) :
    Except Fault Unit × σ :=
  match hearing, event with
  | some hearing, some event => hearing event state
  | _, _ => (.ok (), state)

theorem Listener.recorder_eq_plain :
    recorder = plain fun event book => (.ok (), book.add (.event event)) := rfl

theorem Listener.failing_eq_plain (kinds : List String) (reason : String) :
    failing kinds reason = plain fun event book =>
      (if event.kind ∈ kinds then .error (.raised reason)
        else .ok (), book.add (.event event)) := by
  funext event book
  by_cases chosen : event.kind ∈ kinds <;> simp [failing, plain, chosen]

namespace FileSystem

variable {fs : FileSystem σ} {hearing : Option (Hearing σ)}
  {nested : Step → World σ → Except Fault Answer × World σ}

theorem tell_plain (hearing : Hearing σ) (event : Option Event) (world : World σ) :
    tell (Listener.plain hearing) nested event world =
      ((heard (some hearing) event world.listener).1,
        { world with listener := (heard (some hearing) event world.listener).2 }) := by
  cases event with
  | none => rfl
  | some event =>
    unfold tell heard Listener.plain
    dsimp only
    split
    · rename_i answered
      rw [answered]
      rfl
    · rename_i answered
      rw [answered]
      rfl

/-- The event that the listener is told when a transaction has ended with this result. -/
def eventOf (m : Mutation) (committed : Store) : Except Fault Effect → Except Fault (Option Event)
  | .error fault => .ok (m.collision? fault)
  | .ok effect => m.event? effect committed

theorem announce_plain (plain : fs.listener = hearing.map Listener.plain) {m : Mutation}
    {result : Except Fault Effect} {event : Option Event} {world : World σ}
    (told : eventOf m world.host.committed result = .ok event) :
    fs.announce nested m result world =
      ((heard hearing event world.listener).1,
        { world with listener := (heard hearing event world.listener).2 }) := by
  unfold announce
  cases hearing with
  | none => simp [plain, heard]
  | some hearing =>
    rw [plain]
    cases result with
    | error fault =>
      cases told
      exact tell_plain hearing _ world
    | ok effect =>
      have found : m.event? effect world.host.committed = .ok event := told
      simp only [Option.map_some, found]
      exact tell_plain hearing event world

theorem turnAway_eq_ok_iff {caller : Option String} {m : Mutation} {world : World σ} :
    fs.turnAway caller m world = .ok () ↔
      precheck m = .ok () ∧ world.lockFree = true ∧ (fs.owner = none ∨ caller = fs.owner) := by
  unfold turnAway
  cases precheck m with
  | error fault => simp
  | ok _ => by_cases lockFree : world.lockFree = true <;> simp [lockFree, checkCaller_eq_ok_iff]

theorem precheck_eq_error_iff {m : Mutation} {fault : Fault} :
    precheck m = .error fault ↔ ∃ epoch, m = .updateEpoch epoch ∧
      checkWord "epoch" epoch = .error fault := by
  cases m with
  | updateEpoch epoch => cases checked : checkWord "epoch" epoch <;> simp [precheck, checked]
  | _ => simp [precheck]

theorem precheck_eq_ok_iff {m : Mutation} :
    precheck m = .ok () ↔ ∀ epoch, m = .updateEpoch epoch →
      ∃ word, checkWord "epoch" epoch = .ok word := by
  cases m with
  | updateEpoch epoch => cases checked : checkWord "epoch" epoch <;> simp [precheck, checked]
  | _ => simp [precheck]

theorem mutate_of_turnAway {caller : Option String} {m : Mutation} {world : World σ} {fault : Fault}
    (refused : fs.turnAway caller m world = .error fault) :
    fs.mutate nested caller m world = (.error fault, world) := by
  simp [mutate, refused]

section Transact

variable {m : Mutation} {world : World σ}

theorem transact_of_error {fault : Fault}
    (failed : (m.apply fs.limits (fs.clock world.ticks) world.host.committed.clone).result =
      .error fault) :
    fs.transact m world = (.error fault,
      { world with
        host := ⟨world.host.committed, world.host.nextNumber + 1, some world.host.journal.length,
          world.host.journal ++ [⟨world.host.nextNumber, m.label, .aborted fault⟩]⟩
        ticks := world.ticks +
          (m.apply fs.limits (fs.clock world.ticks) world.host.committed.clone).clockCalls
        log := world.log ++
          ((m.apply fs.limits (fs.clock world.ticks) world.host.committed.clone).log ++
            [Transaction.abortRecord world.host.nextNumber m.label fault]) }) := by
  unfold transact
  rw [Host.run_of_error failed]

theorem transact_of_ok {effect : Effect}
    (done : (m.apply fs.limits (fs.clock world.ticks) world.host.committed.clone).result =
      .ok effect) :
    fs.transact m world = (.ok effect,
      { world with
        host := ⟨(m.apply fs.limits (fs.clock world.ticks) world.host.committed.clone).store,
          world.host.nextNumber + 1, some world.host.journal.length,
          world.host.journal ++ [⟨world.host.nextNumber, m.label, .committed⟩]⟩
        ticks := world.ticks +
          (m.apply fs.limits (fs.clock world.ticks) world.host.committed.clone).clockCalls
        log := world.log ++
          ((m.apply fs.limits (fs.clock world.ticks) world.host.committed.clone).log ++
            [Transaction.commitRecord world.host.nextNumber m.label]) }) := by
  unfold transact
  rw [Host.run_of_ok done]

end Transact

theorem mutate_plain (plain : fs.listener = hearing.map Listener.plain) {caller : Option String}
    {m : Mutation} {world after : World σ} {result : Except Fault Effect} {event : Option Event}
    (admitted : fs.turnAway caller m world = .ok ()) (ended : fs.transact m world = (result, after))
    (told : eventOf m after.host.committed result = .ok event) :
    fs.mutate nested caller m world =
      ((heard hearing event after.listener).1.bind fun _ => result.map Effect.answer,
        { after with listener := (heard hearing event after.listener).2 }) := by
  unfold mutate
  rw [admitted]
  simp only [ended, announce_plain plain told]
  cases (heard hearing event after.listener).1 <;> rfl

end FileSystem

inductive Mutation.Calls : Mutation → String → Prop where
  | createFile (path : String) (spec : FileSpec) : Calls (.createFile path spec) "create_file"
  | createDir (path : String) (tags : Tags) : Calls (.createDir path tags) "create_dir"
  | renameFile (source target : String) : Calls (.rename .file source target) "rename_file"
  | renameDir (source target : String) : Calls (.rename .dir source target) "rename_dir"
  | deleteFile (path : String) : Calls (.deleteFile path) "delete_file"
  | deleteDir (path : String) : Calls (.deleteDir path) "delete_dir"
  | updateEpoch (epoch : Value) : Calls (.updateEpoch epoch) "update_epoch"

/-- What the caller gets of the effect: the id of what was created, or nothing. -/
inductive Mutation.Returns : Mutation → Effect → Answer → Prop where
  | createFile (path : String) (spec : FileSpec) (id : Int) :
    Returns (.createFile path spec) (.bound id) (.id id)
  | createDir (path : String) (tags : Tags) (id : Int) :
    Returns (.createDir path tags) (.bound id) (.id id)
  | rename (kind : Kind) (source target : String) : Returns (.rename kind source target) .done .done
  | deleteFile (path : String) (id : Int) : Returns (.deleteFile path) (.removedFile id) .done
  | deleteDir (path : String) (removed : Removed) :
    Returns (.deleteDir path) (.removedDir removed) .done
  | updateEpoch (epoch : Value) : Returns (.updateEpoch epoch) .done .done

theorem Mutation.calls_label (m : Mutation) : m.Calls m.label := by
  cases m with
  | createFile path spec => exact .createFile path spec
  | createDir path tags => exact .createDir path tags
  | rename kind source target =>
    cases kind with
    | file => exact .renameFile source target
    | dir => exact .renameDir source target
  | deleteFile path => exact .deleteFile path
  | deleteDir path => exact .deleteDir path
  | updateEpoch epoch => exact .updateEpoch epoch

theorem Mutation.returns_answer {m : Mutation} {limits : Limits} {reading : Option Int}
    {store : Store} {effect : Effect} (done : (m.apply limits reading store).result = .ok effect) :
    m.Returns effect effect.answer := by
  cases m with
  | createFile path spec =>
    obtain ⟨id, -, rfl⟩ := map_eq_ok_iff.mp done
    exact .createFile path spec id
  | createDir path tags =>
    obtain ⟨id, -, rfl⟩ := map_eq_ok_iff.mp done
    exact .createDir path tags id
  | rename kind source target =>
    obtain ⟨_, -, rfl⟩ := map_eq_ok_iff.mp done
    exact .rename kind source target
  | deleteFile path =>
    obtain ⟨id, -, rfl⟩ := map_eq_ok_iff.mp done
    exact .deleteFile path id
  | deleteDir path =>
    obtain ⟨removed, -, rfl⟩ := map_eq_ok_iff.mp done
    exact .deleteDir path removed
  | updateEpoch epoch =>
    obtain ⟨_, -, rfl⟩ := map_eq_ok_iff.mp done
    exact .updateEpoch epoch

/-- A file system whose clock fails at its second call and whose listener fails at every
new file. -/
def FileSystem.flaky : FileSystem Notebook where
  owner := some "owner"
  capacity := some 1
  limits := .default
  capacity_nonneg := by simp
  clock := .stepping 7 1 [1]
  listener := some (.failing ["file_added"] "refused")

end NameTree
