import NameTree.Proofs.Calls
import NameTree.Proofs.Named
import NameTree.Proofs.Obstacles
import NameTree.Proofs.Serial

/-!
How ids are issued. The counter is part of the store, so that it is undone with everything else when
a transaction fails: the committed creates, whatever happened between them, are given the numbers 1,
2, 3 and so on. An id that the counter has passed is never drawn again, and once no record has it
none ever will.
-/

namespace NameTree

def Transaction.isCreation (t : Transaction) : Bool :=
  decide (t.state = .committed ∧ (t.label = "create_file" ∨ t.label = "create_dir"))

def Mutation.created? : Mutation → Option (Kind × List String)
  | .createFile path _ => some (.file, Path.components path)
  | .createDir path _ => some (.dir, Path.components path)
  | _ => none

/-- The id that the deed binds when it is done on `store`, if it is a create that succeeds. -/
def Deed.issues? (limits : Limits) (deed : Deed) (store : Store) : Option Int :=
  match (deed.mutation.apply limits deed.reading store).result with
  | .ok (.bound id) => some id
  | _ => none

def Host.issued (limits : Limits) (host : Host) : List Deed → List Int
  | [] => []
  | deed :: rest =>
    (deed.issues? limits host.committed).toList ++ issued limits (host.doDeed limits deed) rest

section Mutations

variable {m : Mutation} {limits : Limits} {reading : Option Int} {store : Store}

theorem Mutation.creates_iff_label :
    m.creates = true ↔ m.label = "create_file" ∨ m.label = "create_dir" := by
  cases m with
  | rename kind source target => cases kind <;> simp [creates, label]
  | _ => simp [creates, label]

theorem Mutation.creates_of_created? {place : Kind × List String}
    (created : m.created? = some place) :
    m.creates = true := by
  cases m with
  | createFile _ _ | createDir _ _ => rfl
  | _ => cases created

theorem Mutation.creates_of_bound {id : Int}
    (done : (m.apply limits reading store).result = .ok (.bound id)) :
    m.creates = true := by
  cases m with
  | createFile _ _ | createDir _ _ => rfl
  | rename _ _ _ | deleteFile _ | deleteDir _ | updateEpoch _ =>
    obtain ⟨_, -, other⟩ := map_eq_ok_iff.mp done
    cases other

theorem Transaction.isCreation_committed (number : Nat) (m : Mutation) :
    isCreation ⟨number, m.label, .committed⟩ = m.creates := by
  rw [Bool.eq_iff_iff, Mutation.creates_iff_label]
  simp [isCreation]

theorem Deed.issues?_eq (limits : Limits) (deed : Deed) (store : Store) :
    deed.issues? limits store =
      match (deed.mutation.apply limits deed.reading store).result with
      | .ok _ => if deed.mutation.creates then some (store.counter + 1 : Int) else none
      | .error _ => none := by
  unfold issues?
  cases done : (deed.mutation.apply limits deed.reading store).result with
  | error fault => rfl
  | ok effect =>
    cases creates : deed.mutation.creates with
    | true => simp [deed.mutation.drawn_of_creates creates done]
    | false =>
      cases effect with
      | bound id => cases creates.symm.trans (Mutation.creates_of_bound done)
      | _ => rfl

theorem Mutation.Does.resolve?_created {after : Store} (does : m.Does limits store after)
    (linked : store.Linked) {kind : Kind} {names : List String}
    (created : m.created? = some (kind, names)) :
    after.resolve? kind names = some (after.counter : Int) := by
  cases does with
  | createFile target change =>
    cases created
    obtain ⟨front, led, split, -⟩ := target.exists_front
    rw [split]
    exact change.resolve?_new linked led
  | createDir target change =>
    cases created
    obtain ⟨front, led, split, -⟩ := target.exists_front
    rw [Path.components_dropFinalSlash] at split
    rw [split]
    exact change.resolve?_new linked led
  | rename | deleteFile | deleteDir | updateEpoch => cases created

end Mutations

namespace Host

/-- What deeds have done to the ids of a host: those issued follow the counter without a gap, there
is one for each committed create, and what the counter had passed has not come back. -/
structure Issues (limits : Limits) (before : Host) (deeds : List Deed) (after : Host) : Prop where
  sound : after.committed.Sound
  counter : after.committed.counter = before.committed.counter + (before.issued limits deeds).length
  consecutive : before.issued limits deeds =
    (List.range' (before.committed.counter + 1) (before.issued limits deeds).length).map Int.ofNat
  journal : after.journal.countP Transaction.isCreation =
    before.journal.countP Transaction.isCreation + (before.issued limits deeds).length
  gone : ∀ kind, ∀ id : Int, id ≤ before.committed.counter → id ∉ before.committed.ids kind →
    id ∉ after.committed.ids kind

variable {limits : Limits} {host : Host} {capacity : Option Int}

theorem issues_nil (limits : Limits) (sound : host.committed.Sound) :
    host.Issues limits [] host where
  sound := sound
  counter := rfl
  consecutive := rfl
  journal := rfl
  gone _ _ _ absent := absent

theorem issues_doDeed (limits : Limits) (sound : host.committed.Sound)
    (uniform : host.committed.Uniform capacity) (deed : Deed) :
    host.Issues limits [deed] (host.doDeed limits deed) := by
  have issues := deed.issues?_eq limits host.committed
  rw [doDeed_eq uniform]
  cases done : (deed.mutation.apply limits deed.reading host.committed).result with
  | error fault =>
    rw [done] at issues
    have nothing : host.issued limits [deed] = [] := by simp [issued, issues]
    constructor
    case sound => exact sound
    case counter => rw [nothing]; rfl
    case consecutive => rw [nothing]; rfl
    case journal => simp [nothing, ending, Transaction.isCreation]
    case gone => exact fun _ _ _ absent => absent
  | ok effect =>
    have does := deed.mutation.does sound.toIntact done
    rw [done] at issues
    have drawn : (host.issued limits [deed]).length = if deed.mutation.creates then 1 else 0 := by
      cases creates : deed.mutation.creates <;> simp [issued, issues, creates]
    constructor
    case sound => exact does.sound sound
    case counter => rw [does.counter, drawn]
    case consecutive =>
      rw [drawn]
      cases creates : deed.mutation.creates <;> simp [issued, issues, creates]
    case journal => simp [drawn, ending, List.countP_singleton, Transaction.isCreation_committed]
    case gone =>
      intro kind id passed absent member
      rcases does.change.old_or_new member with old | ⟨⟨place, name, bound⟩, new⟩
      · exact absent old
      · have := bound.counter
        omega

theorem issued_append (host : Host) (first second : List Deed) :
    host.issued limits (first ++ second) =
      host.issued limits first ++ (host.doAll limits first).issued limits second := by
  induction first generalizing host with
  | nil => rfl
  | cons deed rest ih =>
    simp only [List.cons_append, issued, ih, List.append_assoc]
    rfl

theorem Issues.append {deeds further : List Deed} {after : Host}
    (first : host.Issues limits deeds (host.doAll limits deeds))
    (second : (host.doAll limits deeds).Issues limits further after) :
    host.Issues limits (deeds ++ further) after where
  sound := second.sound
  counter := by rw [second.counter, first.counter, issued_append, List.length_append, Nat.add_assoc]
  consecutive := by
    rw [issued_append, List.length_append, ← List.range'_append_1, List.map_append,
      ← first.consecutive]
    rw [Nat.add_right_comm, ← first.counter, ← second.consecutive]
  journal := by rw [second.journal, first.journal, issued_append, List.length_append, Nat.add_assoc]
  gone kind id passed absent := by
    refine second.gone kind id ?_ (first.gone kind id passed absent)
    have := first.counter
    omega

theorem issues_doAll (limits : Limits) (sound : host.committed.Sound)
    (uniform : host.committed.Uniform capacity) (deeds : List Deed) :
    host.Issues limits deeds (host.doAll limits deeds) := by
  induction deeds generalizing host with
  | nil => exact issues_nil limits sound
  | cons deed rest ih =>
    have first := issues_doDeed limits sound uniform deed
    exact first.append (ih first.sound (uniform_doDeed uniform limits deed))

section Removed

variable {deeds : List Deed} {after : Host} {kind : Kind} {id : Int}

theorem Issues.not_mem_of_removed (issues : host.Issues limits deeds after)
    (sound : host.committed.Sound) (held : id ∈ host.committed.ids kind)
    (removed : id ∉ after.committed.ids kind) (other : Kind) :
    id ∉ after.committed.ids other := by
  -- ids are not shared between kinds, so the other kind cannot have taken the place of one removed
  by_cases same : other = kind
  · exact same ▸ removed
  · exact issues.gone other id (sound.issued held) fun again => same (sound.kind_unique held again)

theorem Issues.absent (issues : host.Issues limits deeds after)
    (passed : id ≤ host.committed.counter) (gone : id ∉ host.committed.ids kind) :
    id ∉ after.committed.ids kind ∧
      ∀ place index, after.committed.index kind place = .ok index → id ∉ index.ids := by
  have absent := issues.gone kind id passed gone
  refine ⟨absent, fun place index present member => absent ?_⟩
  obtain ⟨name, bound⟩ := Index.mem_ids_iff.mp member
  exact issues.sound.mem_ids_of_index present bound

end Removed

end Host

variable {σ : Type} {fs : FileSystem σ}

namespace FileSystem

theorem Passes.issues (stepsOnly : fs.StepsOnly) {past : List Deed} {world : World σ}
    (passes : fs.Passes past world) :
    (Host.start (.empty fs.capacity)).Issues fs.limits past world.host := by
  rw [passes.host stepsOnly]
  exact Host.issues_doAll fs.limits (Store.sound_empty fs.capacity)
    (Store.uniform_empty fs.capacity) past

theorem Passes.issues_since (stepsOnly : fs.StepsOnly) {past more : List Deed}
    {world later : World σ} (passes : fs.Passes past world)
    (passesLater : fs.Passes (past ++ more) later) :
    world.host.Issues fs.limits more later.host := by
  have sound := (passes.issues stepsOnly).sound
  have uniform := (reachable_iff_passes.mpr ⟨past, passes⟩).uniform stepsOnly
  rw [passesLater.host stepsOnly, Host.doAll_append, ← passes.host stepsOnly]
  exact Host.issues_doAll fs.limits sound uniform more

theorem bound_of_transact {m : Mutation} {world : World σ} {kind : Kind} {names : List String}
    {effect : Effect} (sound : world.host.committed.Sound)
    (copied : world.host.committed.clone = world.host.committed)
    (creation : m.created? = some (kind, names)) (ended : (fs.transact m world).1 = .ok effect) :
    effect = .bound (world.host.committed.counter + 1) ∧
      (fs.transact m world).2.host.committed.resolve? kind names =
        some ((world.host.committed.counter : Int) + 1) := by
  have done := (fs.result_transact m world).symm.trans ended
  rw [transact_of_ok done]
  rw [copied] at done ⊢
  have creates := Mutation.creates_of_created? creation
  have does := m.does sound.toIntact done
  have next := does.counter
  rw [creates, if_pos rfl] at next
  have found := does.resolve?_created sound.toLinked creation
  rw [next] at found
  exact ⟨m.drawn_of_creates creates done, found⟩

theorem perform_stats (depth : Nat) (world : World σ) :
    (fs.perform depth (.call (.query .stats)) world).1 =
      if world.lockFree then .ok (.reply (.stats world.host.committed.stats))
        else .error .lockUnavailable := by
  rw [perform_query rfl, read]
  cases world.lockFree <;> rfl

end FileSystem

/-- The committed creates of a run are given the ids 1, 2, 3 and so on, in the order in which they
are committed. A removed id never comes back, whatever is created later. -/
theorem ids_are_issued_in_order (fs : FileSystem σ) (stepsOnly : fs.StepsOnly) (past : List Deed)
    (world : World σ) (passes : fs.Passes past world) :
    let store := world.host.committed
    let created := world.host.journal.countP Transaction.isCreation
    (Host.start (.empty fs.capacity)).issued fs.limits past =
      (List.range' 1 created).map Int.ofNat ∧
      (∀ depth, (fs.perform depth (.call (.query .stats)) world).1 =
        if world.lockFree then .ok (.reply (.stats { store.stats with lastId := created }))
        else .error .lockUnavailable) ∧
      (∀ m kind names, m.created? = some (kind, names) →
        (∀ effect, (fs.transact m world).1 = .ok effect → effect = .bound (created + 1) ∧
          (fs.transact m world).2.host.committed.resolve? kind names = some ((created : Int) + 1)) ∧
        ∀ fault, (fs.transact m world).1 = .error fault →
          (fs.transact m world).2.host.committed = store) ∧
      ∀ kind, ∀ id ∈ store.ids kind, ∀ more middle, fs.Passes (past ++ more) middle →
        id ∉ middle.host.committed.ids kind → ∀ further later,
        fs.Passes (past ++ more ++ further) later →
        ∀ other, id ∉ later.host.committed.ids other ∧
          ∀ place index, later.host.committed.index other place = .ok index → id ∉ index.ids := by
  intro store created
  have issues := passes.issues stepsOnly
  have sound : store.Sound := issues.sound
  have copied : store.clone = store :=
    (FileSystem.reachable_iff_passes.mpr ⟨past, passes⟩).clone stepsOnly
  have journal : created = ((Host.start (.empty fs.capacity)).issued fs.limits past).length := by
    simpa [Host.start] using issues.journal
  have counter : store.counter = created := by
    rw [journal]
    simpa [Host.start, Store.empty] using issues.counter
  refine ⟨?_, ?_, ?_, ?_⟩
  · rw [journal]
    exact issues.consecutive
  · intro depth
    rw [FileSystem.perform_stats, ← counter]
    rfl
  · intro m kind names creation
    constructor
    · intro effect ended
      rw [← counter]
      exact FileSystem.bound_of_transact sound copied creation ended
    · intro fault failed
      have undone := (fs.result_transact m world).symm.trans failed
      rw [FileSystem.transact_of_error undone]
  · intro kind id held more middle passesMiddle removed further later passesLater other
    have between := passes.issues_since stepsOnly passesMiddle
    have afterwards := passesMiddle.issues_since stepsOnly passesLater
    have passed : id ≤ world.host.committed.counter := sound.issued held
    have passedMiddle : id ≤ middle.host.committed.counter := by
      have := between.counter
      omega
    exact afterwards.absent passedMiddle (between.not_mem_of_removed sound held removed other)

/-- Four creates are committed, two of them by the listener; one has failed. The file that was
deleted with its directory had the id 2. -/
theorem ids_are_issued_in_order_filling :
    let create (path : String) : Step := .call (.mutate none (.createDir path (.items [])))
    let delete : Step := .call (.mutate none (.deleteDir "/d"))
    let start := FileSystem.filling.start ⟨[], 2⟩
    let first := [create "/d", create "/d"]
    let world := (FileSystem.filling.run 1 first start).2
    let middle := (FileSystem.filling.run 1 [delete] world).2
    let later := (FileSystem.filling.run 1 [create "/d"] middle).2
    FileSystem.filling.StepsOnly ∧
      FileSystem.filling.Passes (FileSystem.filling.deedsOfRun 1 first start) world ∧
      (Host.start (.empty (some 2))).issued .default (FileSystem.filling.deedsOfRun 1 first start) =
        [1, 2] ∧
      world.host.committed.resolve? .file ["d", "f"] = some 2 ∧
      (∀ kind, 2 ∉ later.host.committed.ids kind) ∧
      later.host.committed.resolve? .file ["d", "f"] = some 4 := by
  intro create delete start first world middle later
  have passes : FileSystem.filling.Passes (FileSystem.filling.deedsOfRun 1 first start) world :=
    FileSystem.filling.passes_run 1 first ⟨[], 2⟩
  obtain ⟨issued, -, -, gone⟩ :=
    ids_are_issued_in_order FileSystem.filling FileSystem.stepsOnly_filling _ world passes
  have absent := gone .file 2 (by decide +kernel) _ middle (passes.run 1 [delete])
    (by decide +kernel) _ later ((passes.run 1 [delete]).run 1 [create "/d"])
  refine ⟨FileSystem.stepsOnly_filling, passes, issued.trans (by decide +kernel), by decide +kernel,
    fun kind => (absent kind).1, by decide +kernel⟩

end NameTree
