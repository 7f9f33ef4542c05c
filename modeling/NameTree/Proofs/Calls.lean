import NameTree.Proofs.Refusals
import NameTree.Proofs.Rollback

/-!
One call in parts: it is turned away, or it runs its transaction and tells the listener how that
ended. What it is answered is how the transaction ended, unless the listener fails.
-/

namespace NameTree

variable {σ : Type}

namespace FileSystem

theorem refusing_turnAway (fs : FileSystem σ) (caller : Option String) (m : Mutation)
    (world : World σ) :
    Refusing (fs.turnAway caller m world) := by
  have prechecked : Refusing (precheck m) := by
    cases m with
    | updateEpoch epoch =>
      unfold precheck
      dsimp only
      split
      · rename_i failed
        exact .error (refusing_checkWord _ _ _ failed)
      · exact .ok ()
    | _ => exact .ok ()
  unfold turnAway
  split
  · rename_i failed
    exact .error (prechecked _ failed)
  · split
    · exact refusing_checkCaller _ _
    · exact .error rfl

/-- How the steps are answered that a listener takes, when steps are nested up to `depth` levels. -/
def nestedAt (fs : FileSystem σ) : Nat → Step → World σ → Except Fault Answer × World σ
  | 0 => fun _ world => (.error .nestedTooDeep, world)
  | depth + 1 => fs.perform depth

theorem perform_eq_step (fs : FileSystem σ) (depth : Nat) :
    fs.perform depth = fs.step (fs.nestedAt depth) := by
  cases depth <;> rfl

/-- What becomes of the transaction of `m` when the listener has been told how it ended. -/
def told (fs : FileSystem σ) (depth : Nat) (m : Mutation) (world : World σ) :
    Except Fault Unit × World σ :=
  fs.announce (fs.nestedAt depth) m (fs.transact m world).1 (fs.transact m world).2

variable {fs : FileSystem σ} {depth : Nat} {caller : Option String} {m : Mutation} {world : World σ}

theorem perform_of_turnAway {fault : Fault} (refused : fs.turnAway caller m world = .error fault) :
    fs.perform depth (.call (.mutate caller m)) world = (.error fault, world) := by
  rw [perform_eq_step]
  exact mutate_of_turnAway refused

section Queries

variable {q : Query} {reply : Reply}

theorem read_eq_ok_iff {α : Type} {view : Store → Except Fault α} {value : α} :
    read view world = .ok value ↔ world.lockFree = true ∧
      view world.host.committed = .ok value := by
  unfold read
  cases world.lockFree <;> simp

theorem perform_query (silent : q.log world.host.committed = []) :
    fs.perform depth (.call (.query q)) world =
      ((read (q.run fs.limits) world).map .reply, world) := by
  rw [perform_eq_step]
  simp only [step, respond, query, silent, List.append_nil]
  cases read (q.run fs.limits) world <;> rfl

theorem perform_query_of_run (silent : q.log world.host.committed = [])
    (lockFree : world.lockFree = true) (ran : q.run fs.limits world.host.committed = .ok reply) :
    fs.perform depth (.call (.query q)) world = (.ok (.reply reply), world) := by
  rw [perform_query silent, read, if_pos lockFree, ran]
  rfl

theorem run_of_perform_query (silent : q.log world.host.committed = [])
    (answered : (fs.perform depth (.call (.query q)) world).1 = .ok (.reply reply)) :
    world.lockFree = true ∧ q.run fs.limits world.host.committed = .ok reply := by
  rw [perform_query silent] at answered
  obtain ⟨_, ran, same⟩ := map_eq_ok_iff.mp answered
  cases same
  exact read_eq_ok_iff.mp ran

theorem of_probe {path : String} {root : Bool} {view : Listing → Bool}
    (answered : fs.probe path root view world = .ok (.flag true)) :
    Path.dropFinalSlash path = "/" ∨
      (world.lockFree = true ∧ ∃ entry, world.host.committed.stat fs.limits path = .ok entry ∧
        view entry = true) := by
  unfold probe at answered
  split at answered
  · rename_i isRoot
    exact Or.inl isRoot
  · split at answered
    · rename_i entry shown
      obtain ⟨lockFree, found⟩ := read_eq_ok_iff.mp shown
      rw [Except.ok.injEq, Answer.flag.injEq] at answered
      exact Or.inr ⟨lockFree, entry, found, answered⟩
    · split at answered <;> cases answered

end Queries

theorem perform_mutate (admitted : fs.turnAway caller m world = .ok ()) :
    fs.perform depth (.call (.mutate caller m)) world =
      ((fs.told depth m world).1.bind fun _ => (fs.transact m world).1.map Effect.answer,
        (fs.told depth m world).2) := by
  rw [perform_eq_step]
  simp only [step, respond, mutate, admitted, told]
  rcases fs.announce (fs.nestedAt depth) m (fs.transact m world).1 (fs.transact m world).2 with
    ⟨fault | _, after⟩ <;> rfl

theorem error_of_perform_mutate {fault : Fault} (other : fault.isRefusal = false)
    (failed : (fs.perform depth (.call (.mutate caller m)) world).1 = .error fault) :
    (fs.transact m world).1 = .error fault ∨ (fs.told depth m world).1 = .error fault := by
  cases admitted : fs.turnAway caller m world with
  | error refusal =>
    rw [perform_of_turnAway admitted] at failed
    cases failed
    cases other.symm.trans (fs.refusing_turnAway caller m world _ admitted)
  | ok _ =>
    rw [perform_mutate admitted] at failed
    cases answered : (fs.told depth m world).1 with
    | error raised =>
      rw [answered] at failed
      cases failed
      exact Or.inr rfl
    | ok _ =>
      rw [answered] at failed
      exact Or.inl (map_eq_error_iff.mp failed)

theorem apply_of_perform_id {id : Int}
    (answered : (fs.perform depth (.call (.mutate caller m)) world).1 = .ok (.id id)) :
    fs.turnAway caller m world = .ok () ∧
      (m.apply fs.limits (fs.clock world.ticks) world.host.committed.clone).result =
        .ok (.bound id) := by
  cases admitted : fs.turnAway caller m world with
  | error refusal =>
    rw [perform_of_turnAway admitted] at answered
    cases answered
  | ok _ =>
    refine ⟨rfl, ?_⟩
    rw [perform_mutate admitted] at answered
    obtain ⟨_, -, ended⟩ := bind_eq_ok_iff.mp answered
    obtain ⟨effect, done, same⟩ := map_eq_ok_iff.mp ended
    rw [fs.result_transact] at done
    cases effect <;> cases same
    exact done

theorem told_of_no_collision {fault : Fault} (failed : (fs.transact m world).1 = .error fault)
    (silent : m.collision? fault = none) :
    fs.told depth m world = (.ok (), (fs.transact m world).2) := by
  unfold told announce
  cases fs.listener with
  | none => rfl
  | some listener => simp only [failed, silent, tell]

theorem perform_of_error {fault : Fault} (admitted : fs.turnAway caller m world = .ok ())
    (failed : (m.apply fs.limits (fs.clock world.ticks) world.host.committed.clone).result =
      .error fault)
    (silent : m.collision? fault = none) :
    (fs.perform depth (.call (.mutate caller m)) world).1 = .error fault ∧
      (fs.perform depth (.call (.mutate caller m)) world).2.host.committed =
        world.host.committed := by
  have aborted := transact_of_error failed
  rw [perform_mutate admitted, told_of_no_collision (congrArg Prod.fst aborted) silent, aborted]
  exact ⟨rfl, rfl⟩

section Plain

variable {hearing : Option (Hearing σ)} (plain : fs.listener = hearing.map Listener.plain)
include plain

theorem stepsOnly_of_plain : fs.StepsOnly := by
  intro listener present
  obtain ⟨hearing, -, rfl⟩ := Option.map_eq_some_iff.mp (plain.symm.trans present)
  exact Listener.stepsOnly_plain hearing

theorem host_told_plain (depth : Nat) (m : Mutation) (world : World σ) :
    (fs.told depth m world).2.host = (fs.transact m world).2.host := by
  unfold told announce
  rw [plain]
  cases hearing with
  | none => rfl
  | some hearing =>
    simp only [Option.map_some]
    split
    · rw [tell_plain]
    · split
      · rfl
      · rw [tell_plain]

theorem committed_perform_of_ok (depth : Nat) {effect : Effect}
    (admitted : fs.turnAway caller m world = .ok ())
    (done : (m.apply fs.limits (fs.clock world.ticks) world.host.committed.clone).result =
      .ok effect) :
    (fs.perform depth (.call (.mutate caller m)) world).2.host.committed =
      (m.apply fs.limits (fs.clock world.ticks) world.host.committed.clone).store := by
  rw [perform_mutate admitted, host_told_plain plain, transact_of_ok done]

theorem committed_perform_plain (depth : Nat) (call : Call) (world : World σ) :
    (fs.perform depth (.call call) world).2.host.committed = world.host.committed ∨
      ∃ caller m effect, call = .mutate caller m ∧
        (m.apply fs.limits (fs.clock world.ticks) world.host.committed.clone).result = .ok effect ∧
        (fs.perform depth (.call call) world).2.host.committed =
          (m.apply fs.limits (fs.clock world.ticks) world.host.committed.clone).store := by
  cases call with
  | mutate caller m =>
    cases admitted : fs.turnAway caller m world with
    | error fault =>
      rw [perform_of_turnAway admitted]
      exact Or.inl rfl
    | ok _ =>
      cases done : (m.apply fs.limits (fs.clock world.ticks) world.host.committed.clone).result with
      | error fault =>
        rw [perform_mutate admitted, host_told_plain plain, transact_of_error done]
        exact Or.inl rfl
      | ok effect =>
        exact Or.inr ⟨caller, m, effect, rfl, done,
          committed_perform_of_ok plain depth admitted done⟩
  | query q =>
    left
    rw [perform_eq_step]
    simp only [step, respond, query]
    split <;> rfl
  | pathExists _ | isDir _ | isFile _ | owner | lastTransaction =>
    left
    rw [perform_eq_step]
    rfl

end Plain

end FileSystem

end NameTree
