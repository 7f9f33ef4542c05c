import NameTree.FileSystem.Run
import NameTree.Proofs.Checked

/-!
The worlds that a file system can be in, and how a property of all of them is proved: it has to
survive a transaction that begins, a change of the lock, a log record, and whatever a listener keeps
for itself.
-/

namespace NameTree

variable {σ : Type}

/-- The listener, if there is one, keeps to steps that could be taken from outside. -/
def FileSystem.StepsOnly (fs : FileSystem σ) : Prop := ∀ listener ∈ fs.listener, listener.StepsOnly

/-- A world between two steps from outside, or within a call: its transaction has ended, and the
listener, in whatever state, may take steps. -/
inductive FileSystem.Reachable (fs : FileSystem σ) : World σ → Prop where
  | start (listener : σ) : fs.Reachable (fs.start listener)
  | perform {world : World σ} (depth : Nat) (step : Step) (before : fs.Reachable world) :
    fs.Reachable (fs.perform depth step world).2
  | transact {world : World σ} (caller : Option String) (m : Mutation) (before : fs.Reachable world)
    (admitted : fs.turnAway caller m world = .ok ()) : fs.Reachable (fs.transact m world).2
  | listen {world : World σ} (listener : σ) (before : fs.Reachable world) :
    fs.Reachable { world with listener := listener }

theorem FileSystem.Reachable.run {fs : FileSystem σ} (depth : Nat) (steps : List Step)
    {world : World σ} (before : fs.Reachable world) :
    fs.Reachable (fs.run depth steps world).2 := by
  induction steps generalizing world with
  | nil => exact before
  | cons step rest ih => exact ih (before.perform depth step)

theorem FileSystem.reachable_run (fs : FileSystem σ) (depth : Nat) (steps : List Step)
    (listener : σ) :
    fs.Reachable (fs.run depth steps (fs.start listener)).2 :=
  (Reachable.start listener).run depth steps

/-- A property of worlds that no part of a step can end. -/
structure FileSystem.Keeps (fs : FileSystem σ) (property : World σ → Prop) : Prop where
  listen : ∀ {world} (listener : σ), property world → property { world with listener := listener }
  lock : ∀ {world} (lockFree : Bool), property world → property { world with lockFree := lockFree }
  log : ∀ {world} (log : List LogRecord), property world → property { world with log := log }
  transact : ∀ {world} (caller : Option String) (m : Mutation), property world →
    fs.turnAway caller m world = .ok () → property (fs.transact m world).2

section Keeps

variable {fs : FileSystem σ} {property : World σ → Prop}
  {nested : Step → World σ → Except Fault Answer × World σ}

theorem Reaction.run_keeps (keeps : fs.Keeps property)
    (nestedKeeps : ∀ step world, property world → property (nested step world).2)
    {reaction : Reaction σ} (stepsOnly : reaction.StepsOnly) {world : World σ}
    (before : property world) :
    property (reaction.run nested world).2 := by
  induction reaction generalizing world with
  | stop state => exact keeps.listen state before
  | fail state fault => exact keeps.listen state before
  | step state taken next ih =>
    exact ih _ _ (stepsOnly _ _) (nestedKeeps taken _ (keeps.listen state before))
  | act state done next ih => exact absurd stepsOnly (by simp [Reaction.StepsOnly])

namespace FileSystem

theorem tell_keeps (keeps : fs.Keeps property)
    (nestedKeeps : ∀ step world, property world → property (nested step world).2)
    {listener : Listener σ} (stepsOnly : listener.StepsOnly) (event : Option Event)
    {world : World σ} (before : property world) :
    property (tell listener nested event world).2 := by
  cases event with
  | none => exact before
  | some event => exact Reaction.run_keeps keeps nestedKeeps (stepsOnly event world.listener) before

theorem announce_keeps (keeps : fs.Keeps property) (stepsOnly : fs.StepsOnly)
    (nestedKeeps : ∀ step world, property world → property (nested step world).2) (m : Mutation)
    (result : Except Fault Effect) {world : World σ} (before : property world) :
    property (fs.announce nested m result world).2 := by
  unfold announce
  split
  · exact before
  · rename_i listener present
    have listenerSteps : listener.StepsOnly := stepsOnly listener present
    split
    · exact tell_keeps keeps nestedKeeps listenerSteps _ before
    · split
      · exact before
      · exact tell_keeps keeps nestedKeeps listenerSteps _ before

theorem mutate_keeps (keeps : fs.Keeps property) (stepsOnly : fs.StepsOnly)
    (nestedKeeps : ∀ step world, property world → property (nested step world).2)
    (caller : Option String) (m : Mutation) {world : World σ} (before : property world) :
    property (fs.mutate nested caller m world).2 := by
  unfold mutate
  cases admitted : fs.turnAway caller m world with
  | error fault => exact before
  | ok _ =>
    have ended := keeps.transact caller m before admitted
    have told := announce_keeps keeps stepsOnly nestedKeeps m (fs.transact m world).1 ended
    simp only
    split
    · rename_i announced
      rw [announced] at told
      exact told
    · rename_i announced
      rw [announced] at told
      exact told

theorem step_keeps (keeps : fs.Keeps property) (stepsOnly : fs.StepsOnly)
    (nestedKeeps : ∀ step world, property world → property (nested step world).2) (taken : Step)
    {world : World σ} (before : property world) : property (fs.step nested taken world).2 := by
  cases taken with
  | hold => exact keeps.lock false before
  | release => exact keeps.lock true before
  | call call =>
    cases call with
    | mutate caller m => exact mutate_keeps keeps stepsOnly nestedKeeps caller m before
    | query q =>
      unfold step respond query
      simp only
      split
      · exact before
      · exact keeps.log _ before
    | pathExists path | isDir path | isFile path | owner | lastTransaction => exact before

theorem perform_keeps (keeps : fs.Keeps property) (stepsOnly : fs.StepsOnly) (depth : Nat)
    (taken : Step) {world : World σ} (before : property world) :
    property (fs.perform depth taken world).2 := by
  induction depth generalizing taken world with
  | zero => exact step_keeps keeps stepsOnly (fun _ _ before => before) taken before
  | succ depth ih =>
    exact step_keeps keeps stepsOnly (fun step _ before => ih step before) taken before

theorem Reachable.of_keeps (keeps : fs.Keeps property) (stepsOnly : fs.StepsOnly)
    (initial : ∀ listener, property (fs.start listener)) {world : World σ}
    (reachable : fs.Reachable world) :
    property world := by
  induction reachable with
  | start listener => exact initial listener
  | perform depth step _ ih => exact perform_keeps keeps stepsOnly depth step ih
  | transact caller m _ admitted ih => exact keeps.transact caller m ih admitted
  | listen listener _ ih => exact keeps.listen listener ih

theorem committed_transact (m : Mutation) (world : World σ) :
    ((fs.transact m world).2.host.committed = world.host.committed ∧
        ∃ fault, (fs.transact m world).1 = .error fault) ∨
      ∃ effect, (fs.transact m world).1 = .ok effect ∧
        (m.apply fs.limits (fs.clock world.ticks) world.host.committed.clone).result = .ok effect ∧
        (fs.transact m world).2.host.committed =
          (m.apply fs.limits (fs.clock world.ticks) world.host.committed.clone).store := by
  unfold transact
  cases result : (m.apply fs.limits (fs.clock world.ticks) world.host.committed.clone).result with
  | ok effect =>
    rw [Host.run_of_ok result]
    exact Or.inr ⟨effect, rfl, rfl, rfl⟩
  | error fault =>
    rw [Host.run_of_error result]
    exact Or.inl ⟨rfl, fault, rfl⟩

theorem result_transact (fs : FileSystem σ) (m : Mutation) (world : World σ) :
    (fs.transact m world).1 =
      (m.apply fs.limits (fs.clock world.ticks) world.host.committed.clone).result := by
  unfold transact
  cases result : (m.apply fs.limits (fs.clock world.ticks) world.host.committed.clone).result with
  | ok effect => rw [Host.run_of_ok result]
  | error fault => rw [Host.run_of_error result]

theorem journal_transact (fs : FileSystem σ) (m : Mutation) (world : World σ) :
    (fs.transact m world).2.host.journal = world.host.journal ++ [⟨world.host.nextNumber, m.label,
      Host.ending (fs.transact m world).1⟩] := by
  unfold transact
  cases result : (m.apply fs.limits (fs.clock world.ticks) world.host.committed.clone).result with
  | ok effect => rw [Host.run_of_ok result, Host.ending]
  | error fault => rw [Host.run_of_error result, Host.ending]

theorem keeps_committed {property : Store → Prop}
    (applied : ∀ (m : Mutation) (reading : Option Int) (store : Store) (effect : Effect),
      property store →
      (m.apply fs.limits reading store.clone).result = .ok effect →
      property (m.apply fs.limits reading store.clone).store) :
    fs.Keeps fun world => property world.host.committed where
  listen _ before := before
  lock _ before := before
  log _ before := before
  transact {world} _ m before _ := by
    rcases committed_transact m world with ⟨same, -⟩ | ⟨effect, -, done, same⟩
    · rw [same]
      exact before
    · rw [same]
      exact applied m _ _ effect before done

end FileSystem

end Keeps

end NameTree
