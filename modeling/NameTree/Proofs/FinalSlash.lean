import NameTree.Proofs.Addressable
import NameTree.Proofs.Blind
import NameTree.Proofs.Committed

/-!
A final slash on a path. It is dropped before the path is used, or added where there is none, so
that steps with and without it end alike. Only the path of a new file is checked with the slash that
it was given, which can be one byte more than there may be.
-/

namespace NameTree

namespace Path

/-- The second path is the first, or the first with a final slash where it had none. -/
inductive Closes (path : String) : String → Prop where
  | same : Closes path path
  | slash (nonempty : path ≠ "") (bare : endsWithSlash path = false) : Closes path (path ++ "/")

/-- An acceptable path that is as long as paths can be. -/
def Fills (limits : Limits) (path : String) : Prop :=
  limits.checkPath path = .ok () ∧ byteLength path = limits.pathLen

/-- A slash is not added to a path that has no room for it. -/
def ClosesNew (limits : Limits) (path closed : String) : Prop :=
  Closes path closed ∧ (Fills limits path → closed = path)

section Slash

variable {limits : Limits} {path closed : String}

variable (nonempty : path ≠ "") (bare : endsWithSlash path = false)
include nonempty bare

theorem absolute_append_slash_iff :
    ((path ++ "/").toList.head? = some '/' ∧ hasEmptyComponent (path ++ "/").toList = false) ↔
      path.toList.head? = some '/' ∧ hasEmptyComponent path.toList = false := by
  have present : path.toList ≠ [] := by
    rw [Ne, String.toList_eq_nil_iff]
    exact nonempty
  rw [toList_append_slash, hasEmptyComponent_concat_slash, List.head?_append_of_ne_nil _ present,
    show (path.toList.getLast? == some '/') = false from bare, Bool.or_false]

theorem check_append_slash_iff {limit : Int} :
    check limit (path ++ "/") = .ok () ↔ check limit path = .ok () ∧
      (byteLength path : Int) ≠ limit := by
  rw [check_eq_ok_iff, check_eq_ok_iff, absolute_append_slash_iff nonempty bare,
    byteLength_append_slash]
  constructor
  · rintro ⟨short, absolute⟩
    exact ⟨⟨by omega, absolute⟩, by omega⟩
  · rintro ⟨⟨short, absolute⟩, room⟩
    exact ⟨by omega, absolute⟩

theorem check_append_slash_of_fills (fills : Fills limits path) :
    limits.checkPath (path ++ "/") =
      .error (.malformedPath (path ++ "/") (.longerThan limits.pathLen)) := by
  obtain ⟨slash, sound⟩ := (absolute_append_slash_iff nonempty bare).mpr
    (check_eq_ok_iff.mp fills.1).2
  have long : limits.pathLen < byteLength (path ++ "/") := by
    have full := fills.2
    rw [byteLength_append_slash]
    omega
  exact (check_of_absolute limits.pathLen slash sound).trans (if_pos long)

end Slash

theorem Closes.sameDir {path closed : String} (closes : Closes path closed) :
    SameDir path closed := by
  cases closes with
  | same => exact .refl path
  | slash nonempty bare =>
    have added : addFinalSlash path = path ++ "/" := if_neg (by simp [bare])
    have kept : addFinalSlash (path ++ "/") = path ++ "/" :=
      if_pos (endsWithSlash_append_slash path)
    refine ⟨added.trans kept.symm, ?_⟩
    rw [dropFinalSlash_of_bare (Or.inr bare), dropFinalSlash_append_slash nonempty]

theorem ClosesNew.sameTarget {limits : Limits} {path closed : String}
    (closes : ClosesNew limits path closed) :
    SameTarget limits path closed := by
  obtain ⟨closes, room⟩ := closes
  have dropped := closes.sameDir.dropped
  refine ⟨?_, by rw [dropped], by rw [← components_dropFinalSlash, dropped,
    components_dropFinalSlash]⟩
  cases closes with
  | same => exact .refl _
  | slash nonempty bare =>
    refine alike_check ?_
    rw [Limits.checkPath, Limits.checkPath, check_append_slash_iff nonempty bare]
    refine ⟨fun accepted => ⟨accepted, fun full => ?_⟩, And.left⟩
    have longer := congrArg byteLength (room ⟨accepted, full⟩)
    rw [byteLength_append_slash] at longer
    omega

end Path

abbrev Step.Closes (limits : Limits) : Step → Step → Prop :=
  Step.Related (Path.ClosesNew limits) Path.Closes Path.Closes

theorem Step.Closes.sameTargets {limits : Limits} {taken closed : Step}
    (closes : taken.Closes limits closed) :
    taken.SameTargets limits closed := by
  refine closes.mono (fun _ _ new => new.sameTarget) (fun _ _ used => ?_)
    (fun _ _ listed => listed.sameDir)
  exact used.sameDir.sameUse limits

variable {σ : Type}

theorem Store.createFile_append_slash {limits : Limits} {path : String} (nonempty : path ≠ "")
    (bare : Path.endsWithSlash path = false) (fills : Path.Fills limits path) (reading : Option Int)
    (store : Store) (spec : FileSpec) :
    (store.createFile limits reading (path ++ "/") spec).result =
      .error (.malformedPath (path ++ "/") (.longerThan limits.pathLen)) := by
  rw [createFile_eq_after, planFile, Path.check_append_slash_of_fills nonempty bare fills]
  rfl

/-- Steps with final slashes end as steps without them, to whatever depth the listener nests steps,
as long as it does not look at the paths that it is told. The transactions do with every listener,
which is told the same but for the path. The one exception is a new file whose path is as long as
paths can be: with a final slash it is refused. -/
theorem final_slash_is_immaterial (fs : FileSystem σ) :
    (∀ same, fs.PathBlind same → ∀ depth steps closed,
      List.Forall₂ (Step.Closes fs.limits) steps closed → ∀ world world',
      World.Alike same world world' →
        List.Forall₂ AnsweredAlike (fs.run depth steps world).1 (fs.run depth closed world').1 ∧
          World.Alike same (fs.run depth steps world).2 (fs.run depth closed world').2) ∧
    (∀ caller m closed, m.Related (Path.ClosesNew fs.limits) Path.Closes closed → ∀ world,
      fs.turnAway caller closed world = fs.turnAway caller m world ∧
        FileSystem.EndAlike Eq Alike (fs.transact m world) (fs.transact closed world) ∧
        (fs.transact closed world).1.mapError Fault.kind =
          (fs.transact m world).1.mapError Fault.kind ∧
        (FileSystem.eventOf m (fs.transact m world).2.host.committed (fs.transact m world).1).map
            (Option.map Event.unquoted) =
          (FileSystem.eventOf closed
              (fs.transact closed world).2.host.committed (fs.transact closed world).1).map
            (Option.map Event.unquoted)) ∧
    ∀ path, path ≠ "" → Path.endsWithSlash path = false → Path.Fills fs.limits path →
      ∀ depth caller spec world,
        fs.turnAway caller (.createFile (path ++ "/") spec) world = .ok () →
        let ended :=
          fs.perform depth (.call (.mutate caller (.createFile (path ++ "/") spec))) world
        ended.1 = .error (.malformedPath (path ++ "/") (.longerThan fs.limits.pathLen)) ∧
          ended.2.host.committed = world.host.committed := by
  refine ⟨?_, ?_, ?_⟩
  · intro same blind depth steps closed closes world world' worlds
    exact FileSystem.alike_run blind depth (closes.imp fun _ _ step => step.sameTargets) worlds
  · intro caller m closed closes world
    have related := closes.mono (fun _ _ new => new.sameTarget) fun _ _ used =>
      used.sameDir.sameUse fs.limits
    have itself : World.Alike Eq world world := .refl rfl
    have ended := FileSystem.alike_transact related itself
    refine ⟨FileSystem.turnAway_eq related itself caller, ended, ended.result.mapError_kind, ?_⟩
    rw [← ended.world.committed]
    exact related.eventOf_eq ended.result _
  · intro path nonempty bare fills depth caller spec world admitted
    refine FileSystem.perform_of_error admitted ?_ rfl
    have refused := world.host.committed.clone.createFile_append_slash nonempty bare fills
      (fs.clock world.ticks) spec
    rw [Mutation.apply, Outcome.map, refused]
    rfl

def FileSystem.crampedCreate (path : String) : Call :=
  .mutate none (.createFile path ⟨.items [], .int 1, "", .int 0, false⟩)

theorem longest_file_not_created_with_final_slash :
    let answer := fun call => (FileSystem.cramped.perform 0 (.call call) FileSystem.crampedWorld).1
    FileSystem.cramped.Reachable FileSystem.crampedWorld ∧ FileSystem.cramped.limits.pathLen = 8 ∧
      Path.endsWithSlash "/longest" = false ∧
      answer (FileSystem.crampedCreate "/longest") = .ok (.id 3) ∧
      answer (FileSystem.crampedCreate "/longest/") =
        .error (.malformedPath "/longest/" (.longerThan 8)) ∧
      answer (.mutate none (.createDir "/longest" (.items []))) = .ok (.id 3) ∧
      answer (.mutate none (.createDir "/longest/" (.items []))) = .ok (.id 3) := by
  intro answer
  refine ⟨FileSystem.reachable_crampedWorld, ?_, ?_, ?_, ?_, ?_, ?_⟩ <;> decide +kernel

theorem FileSystem.pathBlind_filling : filling.PathBlind Listener.SameLeft := by
  intro listener present
  cases present
  exact Listener.pathBlind_stepping _ _ _

theorem final_slash_is_immaterial_filling :
    let start := FileSystem.filling.start ⟨[], 2⟩
    let create (path : String) : Step := .call (.mutate none (.createDir path (.items [])))
    let remove (path : String) : Step := .call (.mutate none (.deleteDir path))
    let bare := FileSystem.filling.run 1 [create "/d", .call (.isFile "/d/f"), remove "/d"] start
    let closed :=
      FileSystem.filling.run 1 [create "/d/", .call (.isFile "/d/f/"), remove "/d/"] start
    FileSystem.filling.PathBlind Listener.SameLeft ∧ List.Forall₂ AnsweredAlike bare.1 closed.1 ∧
      World.Alike Listener.SameLeft bare.2 closed.2 ∧
      closed.1 = [.ok (.id 1), .ok (.flag true), .ok .done] ∧
      closed.2.host.committed.counter = 2 ∧ Path.Fills FileSystem.cramped.limits "/longest" ∧
      (FileSystem.cramped.perform 0 (.call (FileSystem.crampedCreate "/longest/"))
        FileSystem.crampedWorld).1 =
        .error (.malformedPath "/longest/" (.longerThan 8)) := by
  intro start create remove bare closed
  obtain ⟨ignored, -, -⟩ := final_slash_is_immaterial FileSystem.filling
  obtain ⟨-, -, refused⟩ := final_slash_is_immaterial FileSystem.cramped
  have slash (path : String) (nonempty : path ≠ "") (open_ : Path.endsWithSlash path = false) :
      Path.Closes path (path ++ "/") := .slash nonempty open_
  have dir := slash "/d" (by decide +kernel) (by decide +kernel)
  have file := slash "/d/f" (by decide +kernel) (by decide +kernel)
  have closes : List.Forall₂ (Step.Closes FileSystem.filling.limits)
      [create "/d", .call (.isFile "/d/f"), remove "/d"]
        [create "/d/", .call (.isFile "/d/f/"), remove "/d/"] :=
    .cons (.call (.mutate none (.createDir dir _))) (.cons (.call (.isFile file))
      (.cons (.call (.mutate none (.deleteDir dir))) .nil))
  obtain ⟨answers, worlds⟩ :=
    ignored Listener.SameLeft FileSystem.pathBlind_filling 1 _ _ closes start start (.refl rfl)
  have fills : Path.Fills FileSystem.cramped.limits "/longest" :=
    ⟨by decide +kernel, by decide +kernel⟩
  refine ⟨FileSystem.pathBlind_filling, answers, worlds, ?_, ?_, fills, ?_⟩
  · decide +kernel
  · decide +kernel
  · exact (refused "/longest" (by decide +kernel)
      (by decide +kernel) fills 0 none _ FileSystem.crampedWorld (by decide +kernel)).1

end NameTree
