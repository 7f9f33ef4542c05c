import NameTree.Proofs.Addressable
import NameTree.Proofs.Capacities

/-!
Renaming: what a rename is answered with, read off the names of both paths and the bindings at their
parents, and what it changes, which is one binding. Everything below a renamed directory is found
under the new name and nothing under the old one.
-/

namespace NameTree

namespace Store

variable {store : Store} {limits : Limits} {path leaf : String} {front : List String}

theorem Linked.descend_eq (linked : store.Linked) {place : Place} {dirs : Index}
    (present : store.index .dir place = .ok dirs) (names : List String) :
    store.descend path place dirs names =
      match store.follow place names with
      | none => .error (.notFound path)
      | some reached => .ok reached := by
  induction names generalizing place dirs with
  | nil => rfl
  | cons name rest ih =>
    have bound : store.binding? .dir place name = dirs.get? name := binding?_of_index present name
    simp only [descend, follow, bound]
    cases found : dirs.get? name with
    | none => rfl
    | some id =>
      obtain ⟨record, held⟩ := mem_ids_dir.mp (linked.recorded (bound.trans found))
      simp only [Arena.require, held]
      exact ih (index_place held)

theorem Linked.locate_eq (linked : store.Linked) {maxLen : Int}
    (split : Path.components path = front ++ [leaf])
    (short : Path.checkComponents maxLen (front ++ [leaf]) = .ok ()) :
    store.locate maxLen path =
      match store.follow none front with
      | none => .error (.notFound path)
      | some place => .ok (place, leaf) := by
  have parted : Path.components (Path.dropFinalSlash path) = front ++ [leaf] := by
    rw [Path.components_dropFinalSlash, split]
  have root : store.index .dir none = .ok store.rootDirs := rfl
  unfold locate
  simp only [if_neg (Path.dropFinalSlash_ne_root split), parted, List.getLast?_concat,
    List.dropLast_concat, short, linked.descend_eq root]
  cases store.follow none front <;> rfl

/-- What a rename of `front ++ [old]` to `back ++ [new]` is answered with. -/
def renameAnswer (store : Store) (kind : Kind) (source target : String) (front back : List String)
    (old new : String) : Except Fault Unit :=
  match store.follow none front, store.follow none back with
  | none, _ => .error (.notFound (Path.dropFinalSlash source))
  | some _, none => .error (.notFound (Path.dropFinalSlash target))
  | some place, some _ =>
    if front ≠ back then .error (.renameMismatch source target)
    else if store.binding? kind place old = none then .error (.notFound source)
    else
      match store.binding? kind place new, kind with
      | none, _ => .ok ()
      | some taken, .file => .error (.fileExists target (store.shown? .file new taken))
      | some taken, .dir => .error (.dirExists target (store.shown? .dir new taken))

section Answer

variable {kind : Kind} {source target old new : String} {back : List String}

theorem Linked.locatePair_eq (linked : store.Linked)
    (fromChecked : limits.checkPath (Path.dropFinalSlash source) = .ok ())
    (toChecked : limits.checkPath (Path.dropFinalSlash target) = .ok ())
    (fromSplit : Path.components source = front ++ [old])
    (toSplit : Path.components target = back ++ [new])
    (fromShort : Path.checkComponents limits.maxStringLen (front ++ [old]) = .ok ())
    (toShort : Path.checkComponents limits.maxStringLen (back ++ [new]) = .ok ()) :
    store.locatePair limits source target =
      match store.follow none front, store.follow none back with
      | none, _ => .error (.notFound (Path.dropFinalSlash source))
      | some _, none => .error (.notFound (Path.dropFinalSlash target))
      | some place, some _ =>
        if front ≠ back then .error (.renameMismatch source target) else .ok (place, old, new) := by
  rw [← Path.components_dropFinalSlash] at fromSplit toSplit
  unfold locatePair
  simp only [fromChecked, toChecked, linked.locate_eq fromSplit fromShort,
    linked.locate_eq toSplit toShort, bind, Except.bind]
  cases ledFrom : store.follow none front with
  | none => rfl
  | some place =>
    cases ledTo : store.follow none back with
    | none => rfl
    | some other =>
      simp only
      by_cases same : front = back
      · subst same
        cases ledFrom.symm.trans ledTo
        rw [if_pos rfl, if_neg fun ne => ne rfl]
        rfl
      · have apart : place ≠ other := by
          intro together
          exact same (linked.follow_inj (together ▸ ledTo) ledFrom)
        rw [if_neg apart, if_pos same]
        rfl

theorem Intact.result_rename (intact : store.Intact) {capacity : Option Int}
    (uniform : store.Uniform capacity) (bounded : store.Bounded capacity) :
    (store.rename limits kind source target).result =
      (store.planRename limits kind source target).map fun _ => () := by
  rw [rename_eq_after]
  cases planned : store.planRename limits kind source target with
  | error fault => rfl
  | ok plan =>
    obtain ⟨fromTarget, -, ⟨id, held⟩, -⟩ := planRename_eq_ok_iff.mp planned
    rw [Outcome.after_of_ok rfl]
    exact plan.exists_write intact uniform.capped bounded fromTarget.present held

theorem Linked.planRename_map (linked : store.Linked)
    (fromChecked : limits.checkPath (Path.dropFinalSlash source) = .ok ())
    (toChecked : limits.checkPath (Path.dropFinalSlash target) = .ok ())
    (fromSplit : Path.components source = front ++ [old])
    (toSplit : Path.components target = back ++ [new])
    (fromShort : Path.checkComponents limits.maxStringLen (front ++ [old]) = .ok ())
    (toShort : Path.checkComponents limits.maxStringLen (back ++ [new]) = .ok ()) :
    ((store.planRename limits kind source target).map fun _ => ()) =
      store.renameAnswer kind source target front back old new := by
  unfold planRename renameAnswer
  rw [linked.locatePair_eq fromChecked toChecked fromSplit toSplit fromShort toShort]
  cases led : store.follow none front with
  | none => rfl
  | some place =>
    cases store.follow none back with
    | none => rfl
    | some other =>
      by_cases apart : front ≠ back
      · simp only [if_pos apart]
        rfl
      · obtain ⟨index, present⟩ : ∃ index, store.index kind place = .ok index :=
          hasPlace_iff.mp (linked.hasPlace_of_follow led)
        have binding (name : String) : store.binding? kind place name = index.get? name :=
          binding?_of_index present name
        have contains : index.contains old = (index.get? old).isSome := rfl
        simp only [if_neg apart, bind, Except.bind, present, binding, contains]
        cases index.get? old with
        | none => rfl
        | some id =>
          cases taking : index.get? new with
          | none => rfl
          | some taken =>
            obtain ⟨existing, listed⟩ :=
              exists_listing (linked.recorded ((binding new).trans taking)) new
            have shown := listing_eq_ok_iff.mp listed
            simp only [Option.isSome_some, if_true, reduceCtorEq, if_false, listed]
            cases kind <;> simp only [shown] <;> rfl

end Answer

/-- At `place` the name `old` has given way to `new`, which comes last and is bound to the
same id. -/
structure NameMoved (before after : Store) (kind : Kind) (place : Place) (old new : String)
    (id : Int) : Prop where
  parentIndex : ∃ index moved, before.index kind place = .ok index ∧ index.get? old = some id ∧
    after.index kind place = .ok moved ∧
    moved.toList = index.toList.filter (fun binding => decide (binding.1 ≠ old)) ++ [(new, id)]
  otherIndexes : ∀ other elsewhere, (other, elsewhere) ≠ (kind, place) →
    after.index other elsewhere = before.index other elsewhere
  files : after.files = before.files
  dirIds : after.dirs.ids = before.dirs.ids
  otherRecords : ∀ other, some other ≠ place → after.dirs.get? other = before.dirs.get? other
  parentRecord : ∀ parent, some parent = place →
    ∃ record moved, before.dirs.get? parent = some record ∧
    after.index kind place = .ok moved ∧ after.dirs.get? parent = some (record.withIndex moved kind)
  metadata : ∀ other name held, after.listing other name held = before.listing other name held
  counter : after.counter = before.counter
  epoch : after.epoch = before.epoch
  capacity : after.capacity = before.capacity

theorem nameMoved {kind : Kind} {plan : RenamePlan} {id : Int}
    (present : store.index kind plan.place = .ok plan.index)
    (held : plan.index.get? plan.oldName = some id) (free : plan.index.get? plan.newName = none)
    (done : (plan.write kind store).result = .ok ()) :
    NameMoved store (plan.write kind store).store kind plan.place plan.oldName plan.newName id := by
  obtain ⟨_, moved, found, inserted, written⟩ := plan.write_eq_ok done
  cases held.symm.trans found
  have rebound : (store.setIndex kind plan.place moved).index kind plan.place = .ok moved :=
    index_setIndex_self present moved
  rw [written]
  constructor
  case parentIndex =>
    have freeLeft : (plan.index.erase plan.oldName).get? plan.newName = none := by
      rw [Index.get?_erase, free, ite_self]
    refine ⟨plan.index, moved, present, held, rebound, ?_⟩
    rw [Index.toList_of_insert freeLeft inserted, Index.toList_erase]
  case otherIndexes => exact fun other elsewhere ne => index_setIndex_of_ne store ne moved
  case files => exact files_setIndex store kind plan.place moved
  case dirIds => exact ids_setIndex store kind plan.place moved .dir
  case otherRecords =>
    intro other ne
    rw [get?_dirs_setIndex, if_neg fun here => ne here.symm]
  case parentRecord =>
    intro parent here
    obtain ⟨record, recorded⟩ := mem_ids_dir.mp (hasPlace_iff.mpr ⟨_, here ▸ present⟩)
    refine ⟨record, moved, recorded, rebound, ?_⟩
    rw [get?_dirs_setIndex, if_pos here.symm, recorded, Option.map_some]
  case metadata => exact listing_setIndex store kind plan.place moved
  case counter => exact counter_setIndex store kind plan.place moved
  case epoch => exact epoch_setIndex store kind plan.place moved
  case capacity => exact capacity_setIndex store kind plan.place moved

/-- What `front ++ [old]` led to is found under `front ++ [new]` with everything below it, and
nothing else moves. -/
structure SubtreeMoved (before after : Store) (front : List String) (old new : String) : Prop where
  moved : ∀ kind names, kind = .dir ∨ names ≠ [] →
    after.resolve? kind (front ++ new :: names) = before.resolve? kind (front ++ old :: names)
  records : ∀ names id, before.resolve? .dir (front ++ old :: names) = some id →
    after.dirs.get? id = before.dirs.get? id
  gone : ∀ kind names, kind = .dir ∨ names ≠ [] → after.resolve? kind (front ++ old :: names) = none
  namesakes : ∀ name, after.resolve? .file (front ++ [name]) =
    before.resolve? .file (front ++ [name])
  others : ∀ kind names, ¬ front ++ [old] <+: names → ¬ front ++ [new] <+: names →
    after.resolve? kind names = before.resolve? kind names

section Subtree

variable {after : Store} {place : Place} {old new : String} {id : Int} (linked : store.Linked)
  (change : Renames store after .dir place old new id) (led : store.follow none front = some place)
include linked change led

theorem Renames.resolve?_moved {kind : Kind} {names : List String}
    (below : kind = .dir ∨ names ≠ []) :
    after.resolve? kind (front ++ new :: names) = store.resolve? kind (front ++ old :: names) := by
  cases kind with
  | dir =>
    refine Option.ext fun held => ?_
    rw [← follow_eq_some_dir_iff, change.follow_new linked led, follow_eq_some_dir_iff]
  | file =>
    have nonempty : names ≠ [] := below.resolve_left (by simp)
    exact change.resolve?_new linked led nonempty .file

theorem Renames.resolve?_gone {kind : Kind} {names : List String}
    (below : kind = .dir ∨ names ≠ []) :
    after.resolve? kind (front ++ old :: names) = none := by
  cases found : after.resolve? kind (front ++ old :: names) with
  | none => rfl
  | some held =>
    cases kind with
    | dir =>
      have reached := follow_eq_some_dir_iff.mpr found
      rw [change.follow_old linked led] at reached
      cases reached
    | file =>
      obtain ⟨inner, leaf, rfl⟩ :=
        (List.eq_nil_or_concat' names).resolve_left (below.resolve_left (by simp))
      have regroup : front ++ old :: (inner ++ [leaf]) = front ++ old :: inner ++ [leaf] := by simp
      rw [regroup, resolve?_concat, change.follow_old linked led] at found
      cases found

theorem Renames.resolve?_other {kind : Kind} {names : List String}
    (notOld : ¬ front ++ [old] <+: names) (notNew : ¬ front ++ [new] <+: names) :
    after.resolve? kind names = store.resolve? kind names := by
  rcases List.eq_nil_or_concat' names with rfl | ⟨passed, leaf, rfl⟩
  · rfl
  · have extends_ {asked : String} (isPrefix : front ++ [asked] <+: passed) :
        front ++ [asked] <+: passed ++ [leaf] :=
      isPrefix.trans (List.prefix_append passed [leaf])
    rw [resolve?_concat, resolve?_concat,
      change.follow_other linked led (fun isPrefix => notOld (extends_ isPrefix))
        fun isPrefix => notNew (extends_ isPrefix)]
    cases ledParent : store.follow none passed with
    | none => rfl
    | some parent =>
      have same (asked : String) (ne : ¬ front ++ [asked] <+: passed ++ [leaf]) :
          ¬ (kind = .dir ∧ parent = place ∧ leaf = asked) := by
        rintro ⟨-, rfl, rfl⟩
        rw [linked.follow_inj led ledParent] at ne
        exact ne List.prefix_rfl
      rw [Option.bind_some, Option.bind_some, change.bindings, if_neg (same new notNew),
        if_neg (same old notOld)]

theorem Renames.subtreeMoved
    (kept : ∀ other, some other ≠ place → after.dirs.get? other = store.dirs.get? other) :
    SubtreeMoved store after front old new where
  moved _ _ below := change.resolve?_moved linked led below
  records names id found := by
    refine kept id fun here => ?_
    subst here
    have same : front ++ old :: names = front :=
      linked.resolve?_inj (follow_eq_some_dir_iff.mp led) found
    simp at same
  gone _ _ below := change.resolve?_gone linked led below
  namesakes name := by
    rw [resolve?_concat_of_follow (change.follow_front linked led), resolve?_concat_of_follow led,
      change.binding?_of_kind_ne (by simp)]
  others _ _ notOld notNew := change.resolve?_other linked led notOld notNew

end Subtree

theorem Linked.rename_moves (linked : store.Linked) {kind : Kind} {source target old new : String}
    {back : List String} (fromSplit : Path.components source = front ++ [old])
    (toSplit : Path.components target = back ++ [new])
    (done : (store.rename limits kind source target).result = .ok ()) :
    back = front ∧ ∃ place id, store.follow none front = some place ∧
      NameMoved store (store.rename limits kind source target).store kind place old new id ∧
        (kind = .dir → SubtreeMoved store (store.rename limits kind source target).store front
          old new) := by
  rw [rename_eq_after] at done ⊢
  obtain ⟨plan, planned, done, same⟩ := Outcome.exists_plan_of_after done
  rw [same]
  obtain ⟨fromTarget, toTarget, ⟨id, held⟩, free⟩ := planRename_eq_ok_iff.mp planned
  obtain ⟨led, rfl⟩ := fromTarget.of_split fromSplit
  obtain ⟨ledBack, rfl⟩ := toTarget.of_split toSplit
  have moved := nameMoved fromTarget.present held free done
  refine ⟨linked.follow_inj led ledBack, plan.place, id, led, moved, ?_⟩
  rintro rfl
  exact (plan.write_renames fromTarget.present held free done).subtreeMoved linked led
    moved.otherRecords

end Store

variable {σ : Type}

namespace FileSystem

variable {fs : FileSystem σ} {world : World σ} {depth : Nat} {caller : Option String} {kind : Kind}
  {source target : String}

theorem told_rename : fs.told depth (.rename kind source target) world =
    (.ok (), (fs.transact (.rename kind source target) world).2) := by
  unfold told announce
  cases fs.listener with
  | none => rfl
  | some listener =>
    cases (fs.transact (.rename kind source target) world).1 with
    | error fault => rfl
    | ok effect => rfl

theorem perform_rename (copied : world.host.committed.clone = world.host.committed)
    (admitted : fs.turnAway caller (.rename kind source target) world = .ok ()) :
    let outcome := world.host.committed.rename fs.limits kind source target
    let after := fs.perform depth (.call (.mutate caller (.rename kind source target))) world
    after.1 = outcome.result.map (fun _ => .done) ∧
      after.2.host.committed =
        if outcome.result = .ok () then outcome.store else world.host.committed := by
  intro outcome after
  have applied : (Mutation.rename kind source target).apply fs.limits (fs.clock world.ticks)
      world.host.committed.clone = outcome.map fun _ => .done := by
    rw [copied]
    rfl
  have performed : after = ((fs.transact (.rename kind source target) world).1.map Effect.answer,
      (fs.transact (.rename kind source target) world).2) := by
    simp only [after, perform_mutate admitted, told_rename]
    rfl
  rw [performed]
  cases result : outcome.result with
  | error fault =>
    have failed : (outcome.map fun _ => Effect.done).result = .error fault := by
      rw [Outcome.map, result]
      rfl
    rw [← applied] at failed
    rw [transact_of_error failed]
    exact ⟨rfl, rfl⟩
  | ok _ =>
    have done : (outcome.map fun _ => Effect.done).result = .ok .done := by
      rw [Outcome.map, result]
      rfl
    rw [← applied] at done
    rw [transact_of_ok done, applied]
    exact ⟨rfl, rfl⟩

end FileSystem

/-- Renaming a file or a directory. The paths are those of `front ++ [old]` and `back ++ [new]`. -/
theorem rename_moves_name (fs : FileSystem σ) (stepsOnly : fs.StepsOnly) (world : World σ)
    (reachable : fs.Reachable world) (kind : Kind) (source target : String)
    (front back : List String) (old new : String)
    (fromChecked : fs.limits.checkPath (Path.dropFinalSlash source) = .ok ())
    (toChecked : fs.limits.checkPath (Path.dropFinalSlash target) = .ok ())
    (fromSplit : Path.components source = front ++ [old])
    (toSplit : Path.components target = back ++ [new])
    (fromShort : Path.checkComponents fs.limits.maxStringLen (front ++ [old]) = .ok ())
    (toShort : Path.checkComponents fs.limits.maxStringLen (back ++ [new]) = .ok ()) :
    let before := world.host.committed
    let outcome := before.rename fs.limits kind source target
    outcome.result = before.renameAnswer kind source target front back old new ∧
      (∀ place held taken, front = back → before.follow none front = some place →
        before.binding? kind place old = some held → before.binding? kind place new = some taken →
        ∃ existing, before.shown? kind new taken = some existing ∧
          (kind = .file → outcome.result = .error (.fileExists target (some existing))) ∧
          (kind = .dir → outcome.result = .error (.dirExists target (some existing)))) ∧
      (outcome.result = .ok () → back = front ∧ ∃ place id, before.follow none front = some place ∧
        before.NameMoved outcome.store kind place old new id ∧
          (kind = .dir → before.SubtreeMoved outcome.store front old new)) ∧
      ∀ depth caller, fs.turnAway caller (.rename kind source target) world = .ok () →
        let after := fs.perform depth (.call (.mutate caller (.rename kind source target))) world
        after.1 = outcome.result.map (fun _ => .done) ∧
          after.2.host.committed = if outcome.result = .ok () then outcome.store else before := by
  intro before outcome
  have sound := reachable.sound stepsOnly
  have answered : outcome.result = before.renameAnswer kind source target front back old new :=
    (sound.toIntact.result_rename (reachable.uniform stepsOnly) (reachable.bounded stepsOnly)).trans
      (sound.planRename_map fromChecked toChecked fromSplit toSplit fromShort toShort)
  refine ⟨answered, ?_, ?_, 
    fun _ _ admitted => FileSystem.perform_rename (reachable.clone stepsOnly) admitted⟩
  · intro place held taken same led boundOld bound
    subst same
    obtain ⟨existing, listed⟩ := Store.exists_listing (sound.recorded bound) new
    have shown : before.shown? kind new taken = some existing := Store.listing_eq_ok_iff.mp listed
    have refused : outcome.result = _ := answered
    simp only [Store.renameAnswer, led, boundOld, bound] at refused
    refine ⟨existing, shown, ?_, ?_⟩
    · rintro rfl
      exact refused.trans (by simp [shown])
    · rintro rfl
      exact refused.trans (by simp [shown])
  · exact sound.rename_moves fromSplit toSplit

theorem rename_moves_name_populated :
    let added : Step :=
  .call (.mutate none (.createFile "/m" ⟨.items [.text "x"], .int 2, "ref", .int 9, false⟩))
    let world := (FileSystem.roomy.perform 0 added FileSystem.populated).2
    let before := world.host.committed
    let rename (kind : Kind) (source target : String) :=
      before.rename FileSystem.roomy.limits kind source target
    let outcome := rename .dir "/d" "/m/"
    FileSystem.roomy.StepsOnly ∧ FileSystem.roomy.Reachable world ∧ outcome.result = .ok () ∧
      before.SubtreeMoved outcome.store [] "d" "m" ∧
      outcome.store.rootDirs.toList = [("k", 6), ("m", 1)] ∧
      outcome.store.resolve? .file ["m", "e", "g"] = some 4 ∧
      outcome.store.resolve? .file ["d"] = some 5 ∧
      (rename .dir "/d/e" "/e").result = .error (.renameMismatch "/d/e" "/e") ∧
      (rename .dir "/d/e" "/x/e").result = .error (.notFound "/x/e") ∧
      (rename .file "/d" "/m").result =
        .error (.fileExists "/m" (some ⟨"m", 7, false, ["x"], 2, "ref", 9⟩)) ∧
      (rename .dir "/d" "/k").result =
        .error (.dirExists "/k" (some ⟨"k", 7, true, [], 0, "", 0⟩)) := by
  intro added world before rename outcome
  have reachable : FileSystem.roomy.Reachable world :=
    FileSystem.reachable_populated.perform 0 added
  have law (kind : Kind) (source target old new : String) :=
    rename_moves_name FileSystem.roomy FileSystem.stepsOnly_roomy world reachable
      kind source target [] [] old new
  obtain ⟨answered, -, moved, -⟩ :=
    law .dir "/d" "/m/" "d" "m" (by decide +kernel) (by decide +kernel) (by decide +kernel)
      (by decide +kernel) (by decide +kernel) (by decide +kernel)
  have done : outcome.result = .ok () := answered.trans (by decide +kernel)
  obtain ⟨-, place, id, -, -, subtree⟩ := moved done
  obtain ⟨-, taken, -⟩ := law .file "/d" "/m" "d" "m" (by decide +kernel) (by decide +kernel)
    (by decide +kernel) (by decide +kernel) (by decide +kernel) (by decide +kernel)
  obtain ⟨file, shownFile, fileTaken, -⟩ :=
    taken none 5 8 rfl rfl (by decide +kernel) (by decide +kernel)
  obtain ⟨-, taken, -⟩ := law .dir "/d" "/k" "d" "k" (by decide +kernel) (by decide +kernel)
    (by decide +kernel) (by decide +kernel) (by decide +kernel) (by decide +kernel)
  obtain ⟨dir, shownDir, -, dirTaken⟩ :=
    taken none 1 6 rfl rfl (by decide +kernel) (by decide +kernel)
  have isFile : before.shown? .file "m" 8 = some ⟨"m", 7, false, ["x"], 2, "ref", 9⟩ := by
    decide +kernel
  have isDir : before.shown? .dir "k" 6 = some ⟨"k", 7, true, [], 0, "", 0⟩ := by decide +kernel
  cases shownFile.symm.trans isFile
  cases shownDir.symm.trans isDir
  exact ⟨FileSystem.stepsOnly_roomy, reachable, done, subtree rfl, by decide +kernel,
    by decide +kernel, by decide +kernel, by decide +kernel, by decide +kernel, fileTaken rfl,
    dirTaken rfl⟩

end NameTree
