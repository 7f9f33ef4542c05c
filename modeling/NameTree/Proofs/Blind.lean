import NameTree.FileSystem.Listeners
import NameTree.Proofs.Calls
import NameTree.Proofs.Quoting

/-!
Runs side by side. Their steps have the same targets, and the listener makes nothing of the paths
that it is told or that faults quote. Then all steps are answered alike, nested ones included, and
the same store is committed.
-/

namespace NameTree

section Unquoted

def TransactionState.unquoted : TransactionState → TransactionState
  | .aborted fault => .aborted fault.unquoted
  | state => state

def Transaction.unquoted (t : Transaction) : Transaction := { t with state := t.state.unquoted }

def Answer.unquoted : Answer → Answer
  | .transaction last => .transaction (last.map Transaction.unquoted)
  | answer => answer

def Event.unquoted : Event → Event
  | .fileAdded _ record => .fileAdded "" record
  | .fileExists _ record => .fileExists "" record
  | .dirAdded _ createTs tags => .dirAdded "" createTs tags
  | .dirExists _ createTs tags => .dirExists "" createTs tags
  | .deleted _ => .deleted ""
  | .epochUpdated epoch => .epochUpdated epoch

theorem Event.kind_unquoted (event : Event) : event.unquoted.kind = event.kind := by
  cases event <;> rfl

end Unquoted

/-- The same answer but for what faults quote. -/
def AnsweredAlike (first second : Except Fault Answer) : Prop :=
  Alike (first.map Answer.unquoted) (second.map Answer.unquoted)

theorem AnsweredAlike.cases_on {first second : Except Fault Answer}
    (alike : AnsweredAlike first second) :
    (∃ answer other, first = .ok answer ∧ second = .ok other ∧ other.unquoted = answer.unquoted) ∨
      ∃ fault other, first = .error fault ∧ second = .error other ∧
        other.unquoted = fault.unquoted := by
  rcases Alike.cases_on alike with ⟨_, here, there⟩ | ⟨fault, other, here, there, same⟩
  · obtain ⟨answer, rfl, rfl⟩ := map_eq_ok_iff.mp here
    obtain ⟨other, rfl, same⟩ := map_eq_ok_iff.mp there
    exact Or.inl ⟨answer, other, rfl, rfl, same⟩
  · exact Or.inr ⟨fault, other, map_eq_error_iff.mp here, map_eq_error_iff.mp there, same⟩

theorem Alike.answered {first second : Except Fault Answer} (alike : Alike first second) :
    AnsweredAlike first second :=
  alike.map _

inductive Call.Related (created used listed : String → String → Prop) : Call → Call → Prop where
  | mutate {m other : Mutation} (caller : Option String)
    (mutations : m.Related created used other) :
    Related created used listed (.mutate caller m) (.mutate caller other)
  | query {q other : Query} (queries : q.Related used listed other) :
    Related created used listed (.query q) (.query other)
  | pathExists {path other : String} (paths : used path other) :
    Related created used listed (.pathExists path) (.pathExists other)
  | isDir {path other : String} (paths : used path other) :
    Related created used listed (.isDir path) (.isDir other)
  | isFile {path other : String} (paths : used path other) :
    Related created used listed (.isFile path) (.isFile other)
  | owner : Related created used listed .owner .owner
  | lastTransaction : Related created used listed .lastTransaction .lastTransaction

inductive Step.Related (created used listed : String → String → Prop) : Step → Step → Prop where
  | call {call other : Call} (calls : call.Related created used listed other) :
    Related created used listed (.call call) (.call other)
  | hold : Related created used listed .hold .hold
  | release : Related created used listed .release .release

abbrev Step.SameTargets (limits : Limits) : Step → Step → Prop :=
  Step.Related (Path.SameTarget limits) (Path.SameUse limits) Path.SameDir

theorem Step.Related.refl {created used listed : String → String → Prop}
    (new : ∀ path, created path path) (old : ∀ path, used path path)
    (dirs : ∀ path, listed path path) (taken : Step) :
    taken.Related created used listed taken := by
  cases taken with
  | hold => exact .hold
  | release => exact .release
  | call call =>
    refine .call ?_
    cases call with
    | mutate caller m => exact .mutate caller (.refl new old m)
    | query q => exact .query (.refl old dirs q)
    | pathExists path => exact .pathExists (old path)
    | isDir path => exact .isDir (old path)
    | isFile path => exact .isFile (old path)
    | owner => exact .owner
    | lastTransaction => exact .lastTransaction

section Mono

variable {created used listed created' used' listed' : String → String → Prop}
  (new : ∀ path path', created path path' → created' path path')
  (old : ∀ path path', used path path' → used' path path')
  (dirs : ∀ path path', listed path path' → listed' path path')
include new old dirs

theorem Call.Related.mono {call other : Call} (related : call.Related created used listed other) :
    call.Related created' used' listed' other := by
  cases related with
  | mutate caller mutations => exact .mutate caller (mutations.mono new old)
  | query queries => exact .query (queries.mono old dirs)
  | pathExists paths => exact .pathExists (old _ _ paths)
  | isDir paths => exact .isDir (old _ _ paths)
  | isFile paths => exact .isFile (old _ _ paths)
  | owner => exact .owner
  | lastTransaction => exact .lastTransaction

theorem Step.Related.mono {taken other : Step} (related : taken.Related created used listed other) :
    taken.Related created' used' listed' other := by
  cases related with
  | call calls => exact .call (calls.mono new old dirs)
  | hold => exact .hold
  | release => exact .release

end Mono

variable {σ : Type} {fs : FileSystem σ} {limits : Limits} {same : σ → σ → Prop}

/-- The worlds have the same store and differ in quotations, in their logs, and in the states of
their listeners, which are related by `same`. -/
structure World.Alike (same : σ → σ → Prop) (first second : World σ) : Prop where
  committed : first.host.committed = second.host.committed
  nextNumber : first.host.nextNumber = second.host.nextNumber
  last : first.host.last = second.host.last
  journal : first.host.journal.map Transaction.unquoted =
    second.host.journal.map Transaction.unquoted
  ticks : first.ticks = second.ticks
  lockFree : first.lockFree = second.lockFree
  listener : same first.listener second.listener

theorem World.Alike.refl {world : World σ} (listener : same world.listener world.listener) :
    world.Alike same world :=
  ⟨rfl, rfl, rfl, rfl, rfl, rfl, listener⟩

theorem World.Alike.listen {first second : World σ} (worlds : first.Alike same second)
    {state other : σ} (states : same state other) :
    World.Alike same { first with listener := state } { second with listener := other } :=
  { worlds with listener := states }

/-- The reactions do the same one after the other, from states that are related and as long as they
are answered alike. -/
inductive Reaction.Alike (limits : Limits) (same : σ → σ → Prop) :
    Reaction σ → Reaction σ → Prop where
  | stop {state other : σ} (states : same state other) :
    Alike limits same (.stop state) (.stop other)
  | fail {state other : σ} {fault fault' : Fault} (states : same state other)
    (faults : fault'.unquoted = fault.unquoted) :
    Alike limits same (.fail state fault) (.fail other fault')
  | step {state other : σ} {taken taken' : Step} {next next' : σ → Except Fault Answer → Reaction σ}
    (states : same state other) (steps : taken.SameTargets limits taken')
    (further : ∀ state other answer answer', same state other → AnsweredAlike answer answer' →
      Alike limits same (next state answer) (next' other answer')) :
    Alike limits same (.step state taken next) (.step other taken' next')
  | act {state other : σ} {done : StoreAct}
    {next next' : σ → Except Fault StoreFinding → Reaction σ} (states : same state other)
    (further : ∀ state other found, same state other →
      Alike limits same (next state found) (next' other found)) :
    Alike limits same (.act state done next) (.act other done next')

/-- From states related by `same`, the listener reacts alike to events that differ in their
paths only. -/
def Listener.PathBlind (limits : Limits) (same : σ → σ → Prop) (listener : Listener σ) : Prop :=
  ∀ event other state state', event.unquoted = other.unquoted → same state state' →
    (listener event state).Alike limits same (listener other state')

def FileSystem.PathBlind (fs : FileSystem σ) (same : σ → σ → Prop) : Prop :=
  ∀ listener ∈ fs.listener, listener.PathBlind fs.limits same

section Events

variable {m other : Mutation} {created used : String → String → Prop}

theorem Mutation.Related.event_eq (related : m.Related created used other) (effect : Effect)
    (store : Store) :
    (m.event? effect store).map (Option.map Event.unquoted) =
      (other.event? effect store).map (Option.map Event.unquoted) := by
  cases related with
  | createFile =>
    cases effect with
    | bound id =>
      dsimp only [event?]
      cases store.files.require id <;> rfl
    | _ => rfl
  | createDir =>
    cases effect with
    | bound id =>
      dsimp only [event?]
      cases store.dirs.require id <;> rfl
    | _ => rfl
  | rename | deleteFile | deleteDir | updateEpoch => rfl

theorem Mutation.collision_unquoted (m : Mutation) (fault : Fault) :
    m.collision? fault.unquoted = m.collision? fault := by
  cases fault with
  | fileExists path existing => cases m <;> cases existing <;> rfl
  | dirExists path existing => cases m <;> cases existing <;> rfl
  | _ => cases m <;> rfl

theorem Mutation.Related.collision_eq (related : m.Related created used other) (fault : Fault) :
    (m.collision? fault).map Event.unquoted = (other.collision? fault).map Event.unquoted := by
  cases related with
  | createFile | createDir =>
    unfold collision?
    cases fault with
    | fileExists _ existing | dirExists _ existing => cases existing <;> rfl
    | _ => rfl
  | rename | deleteFile | deleteDir | updateEpoch => rfl

theorem Mutation.Related.eventOf_eq (related : m.Related created used other)
    {first second : Except Fault Effect} (alike : Alike first second) (store : Store) :
    (FileSystem.eventOf m store first).map (Option.map Event.unquoted) =
      (FileSystem.eventOf other store second).map (Option.map Event.unquoted) := by
  rcases alike.cases_on with ⟨effect, rfl, rfl⟩ | ⟨fault, fault', rfl, rfl, faults⟩
  · exact related.event_eq effect store
  · have collisions : (m.collision? fault).map Event.unquoted =
        (other.collision? fault').map Event.unquoted := by
      rw [← m.collision_unquoted, ← other.collision_unquoted, faults]
      exact related.collision_eq fault.unquoted
    exact congrArg Except.ok collisions

end Events

namespace FileSystem

structure EndAlike {α : Type} (same : σ → σ → Prop)
    (results : Except Fault α → Except Fault α → Prop)
    (first second : Except Fault α × World σ) : Prop where
  result : results first.1 second.1
  world : first.2.Alike same second.2

def StepsAlike (limits : Limits) (same : σ → σ → Prop)
    (nested : Step → World σ → Except Fault Answer × World σ) : Prop :=
  ∀ taken other world world', taken.SameTargets limits other → World.Alike same world world' →
    EndAlike same AnsweredAlike (nested taken world) (nested other world')

variable {nested : Step → World σ → Except Fault Answer × World σ} {world world' : World σ}

section Listening

variable (nestedAlike : StepsAlike limits same nested)
include nestedAlike

theorem alike_run_reaction {reaction other : Reaction σ} (alike : reaction.Alike limits same other)
    (worlds : World.Alike same world world') :
    EndAlike same NameTree.Alike (reaction.run nested world) (other.run nested world') := by
  -- the states agree after every step that is taken, and so do the answers to go on with
  induction alike generalizing world world' with
  | stop states => exact ⟨.refl _, worlds.listen states⟩
  | fail states faults => exact ⟨Alike.error_iff.mpr ⟨_, rfl, faults⟩, worlds.listen states⟩
  | step states steps further ih =>
    have taken := nestedAlike _ _ _ _ steps (worlds.listen states)
    exact ih _ _ _ _ taken.world.listener taken.result taken.world
  | @act state other done next next' states further ih =>
    simp only [Reaction.run, World.act]
    rw [← worlds.committed]
    exact ih _ _ _ states { worlds with committed := rfl, listener := states }

theorem alike_tell {listener : Listener σ} (blind : listener.PathBlind limits same)
    {event other : Option Event} (events : event.map Event.unquoted = other.map Event.unquoted)
    (worlds : World.Alike same world world') :
    EndAlike same NameTree.Alike (tell listener nested event world)
      (tell listener nested other world') := by
  cases event with
  | none =>
    cases other with
    | none => exact ⟨.refl _, worlds⟩
    | some other => cases events
  | some event =>
    cases other with
    | none => cases events
    | some other =>
      rw [Option.map_some, Option.map_some, Option.some.injEq] at events
      exact alike_run_reaction nestedAlike (blind event other _ _ events worlds.listener) worlds

end Listening

theorem announce_of_listener {listener : Listener σ} (present : fs.listener = some listener)
    (m : Mutation) (result : Except Fault Effect) :
    fs.announce nested m result world =
      match eventOf m world.host.committed result with
      | .error fault => (.error fault, world)
      | .ok event => tell listener nested event world := by
  unfold announce
  rw [present]
  cases result <;> rfl

theorem alike_announce (blind : fs.PathBlind same) (nestedAlike : StepsAlike fs.limits same nested)
    {m other : Mutation} {created used : String → String → Prop}
    (related : m.Related created used other) {first second : Except Fault Effect}
    (alike : NameTree.Alike first second) (worlds : World.Alike same world world') :
    EndAlike same NameTree.Alike (fs.announce nested m first world)
      (fs.announce nested other second world') := by
  cases present : fs.listener with
  | none =>
    unfold announce
    rw [present]
    exact ⟨.refl _, worlds⟩
  | some listener =>
    have events := related.eventOf_eq alike world.host.committed
    rw [announce_of_listener present, announce_of_listener present, ← worlds.committed]
    cases told : eventOf m world.host.committed first with
    | error fault =>
      rw [told] at events
      rw [map_eq_error_iff.mp events.symm]
      exact ⟨.refl _, worlds⟩
    | ok event =>
      rw [told] at events
      obtain ⟨event', told', same⟩ := map_eq_ok_iff.mp events.symm
      rw [told']
      exact alike_tell nestedAlike (blind listener present) same.symm worlds

section Call

variable {m other : Mutation}
  (related : m.Related (Path.SameTarget fs.limits) (Path.SameUse fs.limits) other)
  (worlds : World.Alike same world world')
include related worlds

theorem alike_transact : EndAlike same NameTree.Alike (fs.transact m world)
    (fs.transact other world') := by
  have applied : (m.apply fs.limits (fs.clock world.ticks) world.host.committed.clone).Alike
      (other.apply fs.limits (fs.clock world'.ticks) world'.host.committed.clone) := by
    rw [← worlds.ticks, ← worlds.committed]
    exact related.alike_apply _ _
  have ticks := congrArg₂ (· + ·) worlds.ticks applied.clockCalls
  have number : world.host.nextNumber + 1 = world'.host.nextNumber + 1 :=
    congrArg (· + 1) worlds.nextNumber
  have last : some world.host.journal.length = some world'.host.journal.length := by
    have lengths := congrArg List.length worlds.journal
    rw [List.length_map, List.length_map] at lengths
    exact congrArg some lengths
  have journal (state state' : TransactionState) (states : state.unquoted = state'.unquoted) :
      List.map Transaction.unquoted
        (world.host.journal ++ [⟨world.host.nextNumber, m.label, state⟩]) =
        List.map Transaction.unquoted
          (world'.host.journal ++ [⟨world'.host.nextNumber, other.label, state'⟩]) := by
    rw [List.map_append, List.map_append, worlds.journal, worlds.nextNumber, related.label_eq]
    simp only [List.map_cons, List.map_nil, Transaction.unquoted, states]
  rcases applied.result.cases_on with
    ⟨effect, done, done'⟩ | ⟨fault, fault', failed, failed', faults⟩
  · have committed := journal .committed .committed rfl
    rw [transact_of_ok done, transact_of_ok done']
    exact ⟨.refl _, applied.store, number, last, committed, ticks, worlds.lockFree, worlds.listener⟩
  · have aborted := journal (.aborted fault) (.aborted fault')
      (congrArg TransactionState.aborted faults.symm)
    rw [transact_of_error failed, transact_of_error failed']
    exact ⟨Alike.error_iff.mpr ⟨fault', rfl, faults⟩, worlds.committed, number, last,
      aborted, ticks, worlds.lockFree, worlds.listener⟩

theorem turnAway_eq (caller : Option String) :
    fs.turnAway caller other world' = fs.turnAway caller m world := by
  unfold turnAway
  rw [worlds.lockFree]
  cases related <;> rfl

end Call

variable {depth : Nat}

theorem alike_mutate (blind : fs.PathBlind same)
    (nestedAlike : StepsAlike fs.limits same (fs.nestedAt depth)) {m other : Mutation}
    (related : m.Related (Path.SameTarget fs.limits) (Path.SameUse fs.limits) other)
    (caller : Option String) (worlds : World.Alike same world world') :
    EndAlike same NameTree.Alike (fs.perform depth (.call (.mutate caller m)) world)
      (fs.perform depth (.call (.mutate caller other)) world') := by
  have turned := turnAway_eq related worlds caller
  cases admitted : fs.turnAway caller m world with
  | error fault =>
    rw [perform_of_turnAway admitted, perform_of_turnAway (turned.trans admitted)]
    exact ⟨.refl _, worlds⟩
  | ok _ =>
    rw [perform_mutate admitted, perform_mutate (turned.trans admitted)]
    have ended := alike_transact related worlds
    have told := alike_announce blind nestedAlike related ended.result ended.world
    exact ⟨told.result.bind fun _ => ended.result.map _, told.world⟩

theorem alike_probe {path other : String} (paths : Path.SameUse fs.limits path other) (root : Bool)
    (view : Listing → Bool) (worlds : World.Alike same world world') :
    NameTree.Alike (fs.probe path root view world) (fs.probe other root view world') := by
  unfold probe
  by_cases isRoot : Path.dropFinalSlash path = "/"
  · rw [if_pos isRoot, if_pos (paths.root.mp isRoot)]
    exact .refl _
  · rw [if_neg isRoot, if_neg fun again => isRoot (paths.root.mpr again)]
    have shown : NameTree.Alike (read (·.stat fs.limits path) world)
        (read (·.stat fs.limits other) world') := by
      unfold read
      rw [← worlds.lockFree, ← worlds.committed]
      split
      · exact world.host.committed.alike_stat paths
      · exact .refl _
    rcases shown.cases_on with ⟨entry, here, there⟩ | ⟨fault, fault', failed, failed', faults⟩
    · rw [here, there]
      exact .refl _
    · have absent : fault'.meansAbsent = fault.meansAbsent := by
        rw [← fault'.meansAbsent_unquoted, faults, fault.meansAbsent_unquoted]
      rw [failed, failed']
      simp only [absent]
      split
      · exact .refl _
      · exact Alike.error_iff.mpr ⟨fault', rfl, faults⟩

theorem alike_query {q other : Query}
    (related : q.Related (Path.SameUse fs.limits) Path.SameDir other)
    (worlds : World.Alike same world world') :
    EndAlike same NameTree.Alike (fs.query q world) (fs.query other world') := by
  have answered : NameTree.Alike (read (q.run fs.limits) world)
      (read (other.run fs.limits) world') := by
    unfold read
    rw [← worlds.lockFree, ← worlds.committed]
    split
    · exact related.alike_run _
    · exact .refl _
  unfold query
  rcases answered.cases_on with ⟨reply, here, there⟩ | ⟨fault, fault', failed, failed', faults⟩
  · rw [here, there]
    exact ⟨.refl _, { worlds with }⟩
  · rw [failed, failed']
    exact ⟨Alike.error_iff.mpr ⟨fault', rfl, faults⟩, worlds⟩

theorem alike_step (blind : fs.PathBlind same)
    (nestedAlike : StepsAlike fs.limits same (fs.nestedAt depth)) :
    StepsAlike fs.limits same (fs.perform depth) := by
  intro taken other world world' related worlds
  have answered {first second : Except Fault Answer × World σ}
      (ends : EndAlike same NameTree.Alike first second) :
          EndAlike same AnsweredAlike first second := ⟨ends.result.answered, ends.world⟩
  cases related with
  | hold =>
    rw [perform_eq_step]
    exact ⟨.refl _, { worlds with lockFree := rfl }⟩
  | release =>
    rw [perform_eq_step]
    exact ⟨.refl _, { worlds with lockFree := rfl }⟩
  | call calls =>
    cases calls with
    | mutate caller mutations =>
      exact answered (alike_mutate blind nestedAlike mutations caller worlds)
    | query queries =>
      rw [perform_eq_step]
      exact answered (alike_query queries worlds)
    | pathExists paths | isDir paths | isFile paths =>
      rw [perform_eq_step]
      exact answered ⟨alike_probe paths _ _ worlds, worlds⟩
    | owner =>
      rw [perform_eq_step]
      exact answered ⟨.refl _, worlds⟩
    | lastTransaction =>
      rw [perform_eq_step]
      refine ⟨?_, worlds⟩
      have last : world.host.lastTransaction.map Transaction.unquoted =
          world'.host.lastTransaction.map Transaction.unquoted := by
        unfold Host.lastTransaction
        rw [← worlds.last]
        cases world.host.last with
        | none => rfl
        | some place =>
          have shown := congrArg (·[place]?) worlds.journal
          simpa only [List.getElem?_map, Option.bind_some] using shown
      exact Alike.of_eq (congrArg (fun found => Except.ok (Answer.transaction found)) last)

theorem alike_perform (blind : fs.PathBlind same) (depth : Nat) :
    StepsAlike fs.limits same (fs.perform depth) := by
  induction depth with
  | zero => exact alike_step blind fun _ _ _ _ _ worlds => ⟨.refl _, worlds⟩
  | succ depth ih => exact alike_step blind ih

theorem alike_run (blind : fs.PathBlind same) (depth : Nat) {steps others : List Step}
    (related : List.Forall₂ (Step.SameTargets fs.limits) steps others) {world world' : World σ}
    (worlds : World.Alike same world world') :
    List.Forall₂ AnsweredAlike (fs.run depth steps world).1 (fs.run depth others world').1 ∧
      World.Alike same (fs.run depth steps world).2 (fs.run depth others world').2 := by
  induction related generalizing world world' with
  | nil => exact ⟨.nil, worlds⟩
  | cons first _ ih =>
    have here := alike_perform blind depth _ _ _ _ first worlds
    obtain ⟨later, last⟩ := ih here.world
    exact ⟨.cons here.result later, last⟩

end FileSystem

/-! The ready-made listeners only count what they were told. -/

namespace Listener

def SameLeft (book other : Notebook) : Prop := book.left = other.left

theorem pathBlind_reacting (limits : Limits) (kinds : List String)
    {react : Notebook → Reaction Notebook}
    (alike : ∀ book other, SameLeft book other → (react book).Alike limits SameLeft (react other)) :
    (reacting kinds react).PathBlind limits SameLeft := by
  intro event other book book' events left
  have kind : event.kind = other.kind := by
    rw [← event.kind_unquoted, events, other.kind_unquoted]
  have fewer : (book.add (.event event)).left = (book'.add (.event other)).left := left
  dsimp only [reacting]
  rw [kind, fewer]
  split
  · exact alike _ _ rfl
  · exact .stop left

theorem pathBlind_stepping (limits : Limits) (kinds : List String) (step : Step) :
    (stepping kinds step).PathBlind limits SameLeft := by
  refine pathBlind_reacting limits kinds fun book other left => ?_
  refine .step left (.refl (.refl limits) (.refl limits) .refl step)
    fun book other answer answer' left answers => ?_
  rcases answers.cases_on with ⟨_, _, rfl, rfl, -⟩ | ⟨_, _, rfl, rfl, faults⟩
  · exact .stop left
  · exact .fail left faults

end Listener

end NameTree
