import NameTree.Proofs.Rollback

/-!
Calls of strangers beside runs without them. Where a namespace has an owner, a mutation that
somebody else calls is turned away before anything is begun, so that the run without it ends in the
same world: the same store, the same transactions, the same readings of the clock and the same
events. Nobody can tell afterwards that it was called.
-/

namespace NameTree

variable {σ : Type}

namespace FileSystem

/-- A mutation whose caller is not the owner. -/
def isStranger (fs : FileSystem σ) : Step → Bool
  | .call (.mutate caller _) => decide (caller ≠ fs.owner)
  | _ => false

def answersWithoutStrangers (fs : FileSystem σ) (steps : List Step)
    (answers : List (Except Fault Answer)) :
    List (Except Fault Answer) :=
  ((steps.zip answers).filter fun answered => !fs.isStranger answered.1).map Prod.snd

/-- The fault with which a stranger is turned away. Only an epoch is looked at before the
caller is. -/
def refusal (caller : Option String) (m : Mutation) (lockFree : Bool) : Fault :=
  let turnedAway := if lockFree then .unauthorized caller else .lockUnavailable
  match m with
  | .updateEpoch epoch =>
    match checkWord "epoch" epoch with
    | .error fault => fault
    | .ok _ => turnedAway
  | _ => turnedAway

end FileSystem

def Call.isRead : Call → Bool
  | .query _ | .pathExists _ | .isDir _ | .isFile _ | .lastTransaction => true
  | .mutate _ _ | .owner => false

namespace FileSystem

variable {fs : FileSystem σ} {world : World σ}

theorem turnAway_of_stranger (owned : fs.owner ≠ none) {caller : Option String}
    (stranger : caller ≠ fs.owner) (m : Mutation) (world : World σ) :
    fs.turnAway caller m world = .error (refusal caller m world.lockFree) := by
  have refused : checkCaller fs.owner caller = .error (.unauthorized caller) := by
    unfold checkCaller
    split
    · rename_i ownerless
      exact absurd ownerless owned
    · exact if_neg stranger
  unfold turnAway refusal precheck
  cases m with
  | updateEpoch epoch =>
    cases checked : checkWord "epoch" epoch with
    | error fault => simp [checked]
    | ok _ => cases world.lockFree <;> simp [checked, refused]
  | _ => cases world.lockFree <;> simp [refused]

theorem perform_of_stranger (owned : fs.owner ≠ none) {caller : Option String}
    (stranger : caller ≠ fs.owner) (depth : Nat) (m : Mutation) (world : World σ) :
    fs.perform depth (.call (.mutate caller m)) world =
      (.error (refusal caller m world.lockFree), world) := by
  have refused := turnAway_of_stranger owned stranger m world
  cases depth <;> exact mutate_of_turnAway refused

theorem exists_refusal (owned : fs.owner ≠ none) {step : Step}
    (stranger : fs.isStranger step = true) (depth : Nat) (world : World σ) :
    ∃ fault, fs.perform depth step world = (.error fault, world) := by
  cases step with
  | hold | release => cases stranger
  | call call =>
    cases call with
    | mutate caller m =>
      have other : caller ≠ fs.owner := of_decide_eq_true stranger
      exact ⟨_, perform_of_stranger owned other depth m world⟩
    | query _ | pathExists _ | isDir _ | isFile _ | owner | lastTransaction => cases stranger

theorem run_cons (depth : Nat) (step : Step) (rest : List Step) (world : World σ) :
    fs.run depth (step :: rest) world =
      ((fs.perform depth step world).1 :: (fs.run depth rest (fs.perform depth step world).2).1,
        (fs.run depth rest (fs.perform depth step world).2).2) := rfl

theorem run_append (depth : Nat) (front back : List Step) (world : World σ) :
    fs.run depth (front ++ back) world =
      ((fs.run depth front world).1 ++ (fs.run depth back (fs.run depth front world).2).1,
        (fs.run depth back (fs.run depth front world).2).2) := by
  induction front generalizing world with
  | nil => rfl
  | cons step rest ih => simp only [List.cons_append, run_cons, ih]

theorem length_answers (fs : FileSystem σ) (depth : Nat) (steps : List Step) (world : World σ) :
    (fs.run depth steps world).1.length = steps.length := by
  induction steps generalizing world with
  | nil => rfl
  | cons step rest ih => simp only [run_cons, List.length_cons, ih]

theorem run_without_strangers (owned : fs.owner ≠ none) (depth : Nat) (steps : List Step)
    (world : World σ) :
    fs.run depth (steps.filter (!fs.isStranger ·)) world =
      (fs.answersWithoutStrangers steps (fs.run depth steps world).1,
        (fs.run depth steps world).2) := by
  -- the step of a stranger leaves the world to the next as it was
  induction steps generalizing world with
  | nil => rfl
  | cons step rest ih =>
    cases stranger : fs.isStranger step with
    | true =>
      obtain ⟨fault, refused⟩ := exists_refusal owned stranger depth world
      rw [run_cons, refused, List.filter_cons_of_neg (by simp [stranger]), ih]
      simp [answersWithoutStrangers, stranger]
    | false =>
      rw [List.filter_cons_of_pos (by simp [stranger]), run_cons, run_cons, ih]
      simp [answersWithoutStrangers, stranger]

theorem kind_of_checkWord {field : String} {value : Value} {fault : Fault}
    (refused : checkWord field value = .error fault) :
    fault.kind = "TypeError" ∨ fault.kind = "ValueError" := by
  unfold checkWord at refused
  split at refused
  · split at refused
    · cases refused
      exact Or.inr rfl
    · cases refused
  · cases refused
    exact Or.inl rfl

end FileSystem

section Lock

def Reaction.NeverHolds : Reaction σ → Prop
  | .stop _ | .fail _ _ => True
  | .step _ taken next => taken ≠ .hold ∧ ∀ state answer, (next state answer).NeverHolds
  | .act _ _ next => ∀ state found, (next state found).NeverHolds

def FileSystem.NeverHolds (fs : FileSystem σ) : Prop :=
  ∀ listener ∈ fs.listener, ∀ event state, (listener event state).NeverHolds

theorem FileSystem.neverHolds_of_plain {fs : FileSystem σ} {hearing : Option (Hearing σ)}
    (plain : fs.listener = hearing.map Listener.plain) : fs.NeverHolds := by
  intro listener present event state
  obtain ⟨hearing, -, rfl⟩ := Option.map_eq_some_iff.mp (plain.symm.trans present)
  unfold Listener.plain
  split <;> trivial

variable {fs : FileSystem σ} {nested : Step → World σ → Except Fault Answer × World σ}

theorem Reaction.lockFree_run
    (steps : ∀ taken world, taken ≠ .hold → world.lockFree = true →
      (nested taken world).2.lockFree = true)
    {reaction : Reaction σ} (neverHolds : reaction.NeverHolds) {world : World σ}
    (free : world.lockFree = true) :
    (reaction.run nested world).2.lockFree = true := by
  induction reaction generalizing world with
  | stop state | fail state fault => exact free
  | step state taken next ih => exact ih _ _ (neverHolds.2 _ _) (steps taken _ neverHolds.1 free)
  | act state done next ih => exact ih _ _ (neverHolds _ _) free

namespace FileSystem

theorem lockFree_announce (neverHolds : fs.NeverHolds)
    (steps : ∀ taken world, taken ≠ .hold → world.lockFree = true →
      (nested taken world).2.lockFree = true)
    (m : Mutation) (result : Except Fault Effect) {world : World σ} (free : world.lockFree = true) :
    (fs.announce nested m result world).2.lockFree = true := by
  have told (listener : Listener σ) (present : listener ∈ fs.listener) (event : Option Event) :
      (tell listener nested event world).2.lockFree = true := by
    cases event with
    | none => exact free
    | some event => exact Reaction.lockFree_run steps (neverHolds listener present event _) free
  unfold announce
  split
  · exact free
  · rename_i listener present
    split
    · exact told listener present _
    · split
      · exact free
      · exact told listener present _

theorem lockFree_step (neverHolds : fs.NeverHolds)
    (steps : ∀ taken world, taken ≠ .hold → world.lockFree = true →
      (nested taken world).2.lockFree = true)
    {taken : Step} (calls : taken ≠ .hold) {world : World σ} (free : world.lockFree = true) :
    (fs.step nested taken world).2.lockFree = true := by
  cases taken with
  | hold => exact absurd rfl calls
  | release => rfl
  | call call =>
    cases call with
    | mutate caller m =>
      have told := lockFree_announce neverHolds steps m (fs.transact m world).1
        (show (fs.transact m world).2.lockFree = true from free)
      simp only [step, respond, mutate]
      split
      · exact free
      · split <;> (rename_i announced; rw [announced] at told; exact told)
    | query q =>
      simp only [step, respond, query]
      split <;> exact free
    | pathExists path | isDir path | isFile path | owner | lastTransaction => exact free

theorem lockFree_perform (neverHolds : fs.NeverHolds) (depth : Nat) {taken : Step}
    (calls : taken ≠ .hold) {world : World σ} (free : world.lockFree = true) :
    (fs.perform depth taken world).2.lockFree = true := by
  induction depth generalizing taken world with
  | zero => exact lockFree_step neverHolds (fun _ _ _ free => free) calls free
  | succ depth ih => exact lockFree_step neverHolds (fun _ _ calls free => ih calls free) calls free

theorem lockFree_run (neverHolds : fs.NeverHolds) (depth : Nat) {steps : List Step}
    (calls : ∀ step ∈ steps, step ≠ .hold) {world : World σ} (free : world.lockFree = true) :
    (fs.run depth steps world).2.lockFree = true := by
  induction steps generalizing world with
  | nil => exact free
  | cons step rest ih =>
    have ⟨callsFirst, callsRest⟩ := List.forall_mem_cons.mp calls
    exact ih callsRest (lockFree_perform neverHolds depth callsFirst free)

end FileSystem

end Lock

/-- What a stranger is told depends on its arguments and on the lock only. Reads do not depend on
who the owner is. -/
theorem strangers_are_invisible (fs : FileSystem σ) (owned : fs.owner ≠ none) (depth : Nat)
    (steps : List Step) (world : World σ) :
    let full := fs.run depth steps world
    fs.run depth (steps.filter (!fs.isStranger ·)) world =
      (fs.answersWithoutStrangers steps full.1, full.2) ∧
      (∀ front caller m back, steps = front ++ .call (.mutate caller m) :: back →
        caller ≠ fs.owner →
        let before := (fs.run depth front world).2
        full.1[front.length]? = some (.error (FileSystem.refusal caller m before.lockFree)) ∧
          (world.lockFree = true → (∀ step ∈ steps, step ≠ .hold) → fs.NeverHolds →
            before.lockFree = true)) ∧
      (∀ m fault, FileSystem.precheck m = .error fault ↔ ∃ epoch, m = .updateEpoch epoch ∧
        checkWord "epoch" epoch = .error fault ∧
        (fault.kind = "TypeError" ∨ fault.kind = "ValueError")) ∧
      ∀ other call, call.isRead = true →
        { fs with owner := other }.perform depth (.call call) world =
          fs.perform depth (.call call) world := by
  intro full
  refine ⟨FileSystem.run_without_strangers owned depth steps world, ?_, ?_, ?_⟩
  · intro front caller m back split stranger before
    constructor
    · have answers : full.1 = (fs.run depth front world).1 ++
          (fs.run depth (.call (.mutate caller m) :: back) before).1 := by
        simp only [full, split, FileSystem.run_append, before]
      have behind := fs.length_answers depth front world
      rw [answers, ← behind, List.getElem?_append_right le_rfl, FileSystem.run_cons,
        FileSystem.perform_of_stranger owned stranger]
      simp
    · intro free calls neverHolds
      have callsBefore : ∀ step ∈ front, step ≠ .hold := by
        intro step member
        exact calls step (split ▸ List.mem_append_left _ member)
      exact FileSystem.lockFree_run neverHolds depth callsBefore free
  · intro m fault
    rw [FileSystem.precheck_eq_error_iff]
    constructor
    · rintro ⟨epoch, isUpdate, refused⟩
      exact ⟨epoch, isUpdate, refused, FileSystem.kind_of_checkWord refused⟩
    · rintro ⟨epoch, isUpdate, refused, -⟩
      exact ⟨epoch, isUpdate, refused⟩
  · intro other call isRead
    cases call with
    | mutate _ _ | owner => cases isRead
    | query _ | pathExists _ | isDir _ | isFile _ | lastTransaction => cases depth <;> rfl

theorem strangers_are_invisible_flaky :
    let create (caller : Option String) : Step :=
      .call (.mutate caller (.createFile "/f" ⟨.items [], .int 1, "", .int 0, true⟩))
    let steps :=
      [create (some "owner"), create (some "guest"), .call (.mutate none (.updateEpoch .float)),
      create (some "owner"), .call (.query (.stat "/f"))]
    let start := FileSystem.flaky.start ⟨[], 0⟩
    let full := FileSystem.flaky.run 0 steps start
    FileSystem.flaky.owner ≠ none ∧
      FileSystem.flaky.run 0 [create (some "owner"), create (some "owner"),
        .call (.query (.stat "/f"))] start =
        (FileSystem.flaky.answersWithoutStrangers steps full.1, full.2) ∧
      full.1 = [.error (.raised "refused"), .error (.unauthorized (some "guest")),
        .error (.numberType "epoch" "float"), .error .clockFailed,
        .ok (.reply (.listing ⟨"f", 7, false, [], 1, "", 0⟩))] ∧ full.2.ticks = 2 := by
  intro create steps start full
  have owned : FileSystem.flaky.owner ≠ none := Option.some_ne_none "owner"
  obtain ⟨same, -⟩ := strangers_are_invisible FileSystem.flaky owned 0 steps start
  exact ⟨owned, same, by decide +kernel, by decide +kernel⟩

end NameTree
