import Mathlib.Data.List.Sort
import NameTree.Operation.Workbench
import NameTree.Proofs.Lookups
import NameTree.Proofs.Malformed
import NameTree.Proofs.Renaming

/-!
Deletions at paths that do not continue each other. What a deletion finds, and so what it answers
and takes out of the store, depends on the entries along its path and below it, and another deletion
leaves these as they are. What both take out can be taken out in either order, and what is left has
the order that it had.
-/

namespace NameTree

theorem Index.erase_comm (index : Index) (name other : String) :
    (index.erase name).erase other = (index.erase other).erase name := by
  simp only [erase, OrderedMap.erase_eq_restrict, OrderedMap.restrict_restrict, Bool.and_comm]

namespace Store

def mapIndex (kind : Kind) (place : Place) (change : Index → Index) (store : Store) : Store :=
  match place, kind with
  | none, .file => { store with rootFiles := change store.rootFiles }
  | none, .dir => { store with rootDirs := change store.rootDirs }
  | some id, .file =>
    { store with dirs := store.dirs.modify id fun record =>
      { record with files := change record.files } }
  | some id, .dir =>
    { store with dirs := store.dirs.modify id fun record =>
      { record with dirs := change record.dirs } }

theorem setIndex_eq_mapIndex {store : Store} {kind : Kind} {place : Place} {index : Index}
    (present : store.index kind place = .ok index) (change : Index → Index) :
    store.setIndex kind place (change index) = store.mapIndex kind place change := by
  cases place with
  | none => cases kind <;> cases present <;> rfl
  | some id =>
    obtain ⟨record, found⟩ := mem_ids_dir.mp (hasPlace_iff.mpr ⟨index, present⟩)
    rw [index_place found] at present
    have held : store.dirs.records.get? id = some record := found
    cases kind <;> cases present <;> simp only [setIndex, mapIndex, Arena.modify,
      OrderedMap.modify, held]

theorem mapIndex_comm {first second : Index → Index}
    (comm : ∀ index, first (second index) = second (first index)) (kind other : Kind)
    (place elsewhere : Place) (store : Store) :
    (store.mapIndex kind place first).mapIndex other elsewhere second =
      (store.mapIndex other elsewhere second).mapIndex kind place first := by
  cases place with
  | none => cases elsewhere <;> cases kind <;> cases other <;> simp only [mapIndex, comm]
  | some id =>
    cases elsewhere with
    | none => cases kind <;> cases other <;> rfl
    | some at_ =>
      have swap {change more : DirRecord → DirRecord}
          (comm : ∀ record, change (more record) = more (change record)) :
              ((store.dirs.modify id change).modify at_ more) =
                (store.dirs.modify at_ more).modify id change := by
        simp only [Arena.modify, OrderedMap.modify_comm comm]
      cases kind <;> cases other <;> simp only [mapIndex] <;> rw [swap] <;> simp [comm]

theorem without_mapIndex (removed : Removed) (kind : Kind) (place : Place) (change : Index → Index)
    (store : Store) :
    (store.mapIndex kind place change).without removed =
      (store.without removed).mapIndex kind place change := by
  cases place <;> cases kind <;>
    simp only [mapIndex, without, Arena.without, Arena.modify, OrderedMap.restrict_modify]

theorem without_comm (removed more : Removed) (store : Store) :
    (store.without removed).without more = (store.without more).without removed := by
  simp only [without, Arena.without_comm _ more.files, Arena.without_comm _ more.dirs]

end Store

/-- What a deletion takes out of a store: a binding and the records that it led to, or nothing. -/
inductive Cut where
  | nothing
  | entry (kind : Kind) (place : Place) (leaf : String) (removed : Removed)

def Cut.apply (cut : Cut) (store : Store) : Store :=
  match cut with
  | nothing => store
  | entry kind place leaf removed => (store.mapIndex kind place (·.erase leaf)).without removed

theorem Cut.apply_comm (cut other : Cut) (store : Store) :
    other.apply (cut.apply store) = cut.apply (other.apply store) := by
  cases cut with
  | nothing => rfl
  | entry kind place leaf removed =>
    cases other with
    | nothing => rfl
    | entry kind' place' leaf' removed' =>
      have names (index : Index) : (index.erase leaf').erase leaf =
          (index.erase leaf).erase leaf' :=
        index.erase_comm leaf' leaf
      simp only [apply]
      rw [← Store.without_mapIndex, Store.mapIndex_comm names, Store.without_comm,
        Store.without_mapIndex]

namespace Store

variable {store other : Store} {limits : Limits} {kind : Kind} {path leaf : String}
  {front way : List String} {removed : Removed}

section Agree

/-- The entries on the way and below its end are the same in both stores. -/
def AgreeAlong (store other : Store) (way : List String) : Prop :=
  ∀ kind names, names <+: way ∨ way <+: names →
    other.resolve? kind names = store.resolve? kind names

theorem follow_congr_of_resolve? {names : List String}
    (same : other.resolve? .dir names = store.resolve? .dir names) :
    other.follow none names = store.follow none names := by
  refine Option.ext fun place => ?_
  cases place with
  | none =>
    constructor <;>
    · intro led
      obtain rfl := eq_nil_of_follow_root led
      rfl
  | some id => rw [follow_eq_some_dir_iff, follow_eq_some_dir_iff, same]

/-- What a deletion at `way` removes, in ascending order: all that the way and its continuations
lead to. -/
structure Takes (store : Store) (kind : Kind) (way : List String) (removed : Removed) : Prop where
  sortedFiles : removed.files.Pairwise (· < ·)
  sortedDirs : removed.dirs.Pairwise (· < ·)
  files : ∀ id, id ∈ removed.files ↔
    ∃ names, (names = [] ↔ kind = .file) ∧ store.resolve? .file (way ++ names) = some id
  dirs : ∀ id, id ∈ removed.dirs ↔ kind = .dir ∧
    ∃ names, store.resolve? .dir (way ++ names) = some id

theorem Takes.eq {more : Removed} (takes : store.Takes kind way removed)
    (again : other.Takes kind way more) (agree : AgreeAlong store other way) : more = removed := by
  have same (kind : Kind) (names : List String) :
      other.resolve? kind (way ++ names) = store.resolve? kind (way ++ names) :=
    agree kind _ (Or.inr (List.prefix_append way names))
  have files : more.files = removed.files := by
    refine again.sortedFiles.eq_of_mem_iff takes.sortedFiles fun id => ?_
    simp only [again.files, takes.files, same]
  have dirs : more.dirs = removed.dirs := by
    refine again.sortedDirs.eq_of_mem_iff takes.sortedDirs fun id => ?_
    simp only [again.dirs, takes.dirs, same]
  cases more
  cases removed
  cases files
  cases dirs
  rfl

end Agree

section Planned

variable {plan : DeletePlan}

theorem unbind_eq_mapIndex (present : store.index kind plan.place = .ok plan.index) :
    plan.unbind kind store = store.mapIndex kind plan.place (·.erase plan.leaf) :=
  setIndex_eq_mapIndex present (·.erase plan.leaf)

theorem takes_writeDir (present : store.index .dir plan.place = .ok plan.index)
    (bound : store.binding? .dir plan.place plan.leaf = some plan.id)
    (led : store.follow none front = some plan.place)
    (done : (plan.writeDir path store).result = .ok removed) :
    store.Takes .dir (front ++ [plan.leaf]) removed := by
  have ledTop : store.follow none (front ++ [plan.leaf]) = some (some plan.id) :=
    follow_concat_eq_some_iff.mpr ⟨plan.place, plan.id, led, bound, rfl⟩
  obtain ⟨filesUnder, dirsUnder⟩ := mem_of_writeDir present bound done
  obtain ⟨-, dirs, searched, inserted⟩ := writeDir_eq_without done
  obtain ⟨sortedFiles, sortedDirs⟩ := pairwise_of_subtree searched
  refine ⟨sortedFiles, inserted ▸ pairwise_insertId sortedDirs, fun id => ?_, fun id => ?_⟩
  · rw [filesUnder, fileUnder_iff_resolve? ledTop]
    simp
  · rw [dirsUnder, under_iff_resolve? ledTop]
    simp

end Planned

def deleteTarget (store : Store) (limits : Limits) (kind : Kind) (path : String)
    (front : List String) (leaf : String) :
    Except Fault (Place × Int) := do
  limits.checkPath (Path.dropFinalSlash path)
  Path.checkComponents limits.maxStringLen (front ++ [leaf])
  match store.follow none front, store.resolve? kind (front ++ [leaf]) with
  | none, _ => .error (.notFound (Path.dropFinalSlash path))
  | some _, none => .error (.notFound path)
  | some place, some id => .ok (place, id)

theorem AgreeAlong.deleteTarget_eq (agree : AgreeAlong store other (front ++ [leaf])) :
    other.deleteTarget limits kind path front leaf =
      store.deleteTarget limits kind path front leaf := by
  have sameFront : other.follow none front = store.follow none front :=
    follow_congr_of_resolve? (agree .dir front (Or.inl (List.prefix_append front [leaf])))
  have sameEnd : other.resolve? kind (front ++ [leaf]) = store.resolve? kind (front ++ [leaf]) :=
    agree kind _ (Or.inl List.prefix_rfl)
  rw [deleteTarget, sameFront, sameEnd, deleteTarget]

theorem Linked.planDelete_map (linked : store.Linked) (limits : Limits) (kind : Kind)
    (split : Path.components path = front ++ [leaf]) :
    ((store.planDelete limits kind path).map fun plan => (plan.place, plan.id)) =
      store.deleteTarget limits kind path front leaf := by
  rw [← Path.components_dropFinalSlash] at split
  unfold deleteTarget
  cases checked : limits.checkPath (Path.dropFinalSlash path) with
  | error fault =>
    rw [planDelete_of_refused checked]
    rfl
  | ok _ =>
    unfold planDelete
    cases short : Path.checkComponents limits.maxStringLen (front ++ [leaf]) with
    | error fault =>
      simp only [bind, Except.bind, checked, locate_of_long split short]
      rfl
    | ok _ =>
      simp only [bind, Except.bind, checked, linked.locate_eq split short]
      cases led : store.follow none front with
      | none => rfl
      | some place =>
        obtain ⟨index, present⟩ : ∃ index, store.index kind place = .ok index :=
          hasPlace_iff.mp (linked.hasPlace_of_follow led)
        simp only [present, resolve?_concat_of_follow led, binding?_of_index present]
        cases index.get? leaf <;> rfl

end Store

def Store.delete (store : Store) (limits : Limits) (kind : Kind) (path : String) : Outcome Effect :=
  (Mutation.deletion kind path).apply limits none store

theorem Mutation.apply_deletion (kind : Kind) (path : String) (limits : Limits)
    (reading : Option Int) (store : Store) :
    (deletion kind path).apply limits reading store = store.delete limits kind path := by
  cases kind <;> rfl

def Removed.effect (removed : Removed) (id : Int) : Kind → Effect
  | .file => .removedFile id
  | .dir => .removedDir removed

namespace Store

variable {store other : Store} {limits : Limits} {kind : Kind} {path leaf : String}
  {front : List String}

theorem delete_of_unplanned {fault : Fault}
    (unplanned : store.planDelete limits kind path = .error fault) :
    store.delete limits kind path = .failed fault store := by
  cases kind with
  | file =>
    simp only [delete, Mutation.deletion, Mutation.apply, deleteFile, unplanned]
    rfl
  | dir =>
    simp only [delete, Mutation.deletion, Mutation.apply, deleteDir, unplanned]
    rfl

theorem Linked.delete_of_planned (linked : store.Linked) {plan : DeletePlan}
    (planned : store.planDelete limits kind path = .ok plan)
    (split : Path.components path = front ++ [leaf]) :
    ∃ removed, store.Takes kind (front ++ [leaf]) removed ∧
      (store.delete limits kind path).result = .ok (removed.effect plan.id kind) ∧
      (store.delete limits kind path).store =
        (Cut.entry kind plan.place leaf removed).apply store := by
  obtain ⟨target, found⟩ := planDelete_eq_ok_iff.mp planned
  obtain ⟨led, rfl⟩ := target.of_split split
  have bound : store.binding? kind plan.place plan.leaf = some plan.id :=
    (target.binding? _).trans found
  have unbound := unbind_eq_mapIndex target.present
  cases kind with
  | file =>
    have written : plan.writeFile store =
        .done plan.id { plan.unbind .file store with files := store.files.erase plan.id } :=
      writeFile_of_mem (linked.recorded bound)
    have resolved : store.resolve? .file (front ++ [plan.leaf]) = some plan.id :=
      (resolve?_concat_of_follow led .file plan.leaf).trans bound
    have sameFiles : (plan.unbind .file store).files = store.files :=
      files_setIndex store .file plan.place _
    simp only [delete, Mutation.deletion, Mutation.apply, deleteFile, planned, written]
    refine ⟨⟨[plan.id], []⟩, ⟨List.pairwise_singleton _ _, .nil, fun id => ?_, fun id => ?_⟩,
      rfl, ?_⟩
    · simp [resolved, eq_comm]
    · simp
    · simp only [Cut.apply, ← unbound, without, Arena.without_nil, sameFiles,
        ← Arena.erase_eq_without]
      rfl
  | dir =>
    obtain ⟨removed, done⟩ :=
      plan.exists_writeDir linked target.present (linked.recorded bound) path
    simp only [delete, Mutation.deletion, Mutation.apply, deleteDir, planned, Outcome.map, done]
    refine ⟨removed, takes_writeDir target.present bound led done, rfl, ?_⟩
    rw [Cut.apply, ← unbound, (writeDir_eq_without done).1]

theorem Linked.exists_cut (linked : store.Linked) (linkedOther : other.Linked) (limits : Limits)
    (kind : Kind) (split : Path.components path = front ++ [leaf])
    (agree : AgreeAlong store other (front ++ [leaf])) :
    (other.delete limits kind path).result = (store.delete limits kind path).result ∧
      ∃ cut : Cut, (store.delete limits kind path).store = cut.apply store ∧
        (other.delete limits kind path).store = cut.apply other := by
  have targeted := linked.planDelete_map limits kind split
  have targetedOther := linkedOther.planDelete_map limits kind split
  rw [agree.deleteTarget_eq] at targetedOther
  cases target : store.deleteTarget limits kind path front leaf with
  | error fault =>
    rw [target] at targeted targetedOther
    rw [delete_of_unplanned (map_eq_error_iff.mp targeted),
      delete_of_unplanned (map_eq_error_iff.mp targetedOther)]
    exact ⟨rfl, .nothing, rfl, rfl⟩
  | ok found =>
    rw [target] at targeted targetedOther
    obtain ⟨plan, planned, rfl⟩ := map_eq_ok_iff.mp targeted
    obtain ⟨plan', planned', same⟩ := map_eq_ok_iff.mp targetedOther
    obtain ⟨samePlace, sameId⟩ := Prod.mk.inj same
    obtain ⟨removed, takes, done, written⟩ := linked.delete_of_planned planned split
    obtain ⟨more, takesMore, doneOther, writtenOther⟩ :=
      linkedOther.delete_of_planned planned' split
    obtain rfl := takes.eq takesMore agree
    rw [samePlace] at writtenOther
    rw [sameId, ← done] at doneOther
    exact ⟨doneOther, .entry kind plan.place leaf more, written, writtenOther⟩

section Frame

variable {before after : Store}

section Bindings

variable {place elsewhere : Place} {name asked : String} {passed : List String}
  (linked : before.Linked) (led : before.follow none front = some place)
  (ledThere : before.follow none passed = some elsewhere)
  (apart : ¬ front ++ [name] <+: passed ++ [asked])
include linked led ledThere apart

theorem Linked.not_here : ¬ (elsewhere = place ∧ asked = name) := by
  rintro ⟨rfl, rfl⟩
  rw [linked.follow_inj led ledThere] at apart
  exact apart List.prefix_rfl

theorem Unbinds.binding?_of_apart {id : Int} (change : Unbinds before after place name id)
    (kind : Kind) : after.binding? kind elsewhere asked = before.binding? kind elsewhere asked := by
  rw [change.bindings, if_neg fun here => linked.not_here led ledThere apart here.2]

theorem Prunes.binding?_of_apart {top : Int} (change : Prunes before after place name top)
    (kind : Kind) : after.binding? kind elsewhere asked = before.binding? kind elsewhere asked := by
  have ledTop : before.follow none (front ++ [name]) = some (some top) :=
    follow_concat_eq_some_iff.mpr ⟨place, top, led, change.found, rfl⟩
  refine Option.ext fun id => ?_
  rw [change.bindings, and_iff_left]
  refine ⟨fun here => linked.not_here led ledThere apart here.2, ?_⟩
  rintro parent rfl under
  obtain ⟨names, below⟩ := (under_iff_resolve? ledTop).mp under
  obtain rfl := linked.resolve?_inj below (follow_eq_some_dir_iff.mp ledThere)
  exact apart ((List.prefix_append _ names).trans (List.prefix_append _ [asked]))

end Bindings

theorem Intact.delete_does (intact : before.Intact) (limits : Limits) (kind : Kind)
    (split : Path.components path = front ++ [leaf]) :
    (before.delete limits kind path).store = before ∨
      (Mutation.deletion kind path).Does limits before (before.delete limits kind path).store := by
  cases planned : before.planDelete limits kind path with
  | error fault =>
    rw [delete_of_unplanned planned]
    exact Or.inl rfl
  | ok plan =>
    obtain ⟨removed, -, done, -⟩ := intact.delete_of_planned planned split
    exact Or.inr (Mutation.does intact done)

theorem Intact.intact_delete (intact : before.Intact) (limits : Limits) (kind : Kind)
    (split : Path.components path = front ++ [leaf]) :
    (before.delete limits kind path).store.Intact := by
  rcases intact.delete_does limits kind split with same | does
  · rwa [same]
  · exact does.intact intact

theorem Intact.resolve?_delete (intact : before.Intact) (limits : Limits) (kind : Kind)
    (split : Path.components path = front ++ [leaf]) {names : List String}
    (apart : ¬ front ++ [leaf] <+: names) (asked : Kind) :
    (before.delete limits kind path).store.resolve? asked names = before.resolve? asked names := by
  rcases intact.delete_does limits kind split with same | does
  · rw [same]
  refine resolve?_congr asked fun passed name isPrefix elsewhere ledThere other => ?_
  have apartThere : ¬ front ++ [leaf] <+: passed ++ [name] :=
    fun below => apart (below.trans isPrefix)
  cases kind with
  | file =>
    cases does with
    | deleteFile target change =>
      obtain ⟨led, rfl⟩ := target.of_split split
      exact change.binding?_of_apart intact.toLinked led ledThere apartThere other
  | dir =>
    cases does with
    | deleteDir target change =>
      obtain ⟨led, rfl⟩ := target.of_split split
      exact change.binding?_of_apart intact.toLinked led ledThere apartThere other

theorem Intact.agreeAlong_delete (intact : before.Intact) (limits : Limits) (kind : Kind)
    (split : Path.components path = front ++ [leaf]) {way : List String}
    (apart : ¬ front ++ [leaf] <+: way) (apart' : ¬ way <+: front ++ [leaf]) :
    AgreeAlong before (before.delete limits kind path).store way := by
  intro asked names comparable
  refine intact.resolve?_delete limits kind split (fun below => ?_) asked
  rcases comparable with above | beyond
  · exact apart (below.trans above)
  · rcases List.prefix_or_prefix_of_prefix below beyond with first | second
    · exact apart first
    · exact apart' second

end Frame

theorem Intact.deletes_commute (intact : store.Intact) (limits : Limits) (kind kind' : Kind)
    {path path' : String} (apart : ¬ Path.components path <+: Path.components path')
    (apart' : ¬ Path.components path' <+: Path.components path) :
    let first := store.delete limits kind path
    let second := store.delete limits kind' path'
    let thenSecond := first.store.delete limits kind' path'
    let thenFirst := second.store.delete limits kind path
    thenFirst.result = first.result ∧ thenSecond.result = second.result ∧
      thenSecond.store = thenFirst.store := by
  intro first second thenSecond thenFirst
  obtain ⟨front, leaf, split⟩ : ∃ front leaf, Path.components path = front ++ [leaf] :=
    (List.eq_nil_or_concat' _).resolve_left fun empty => apart (empty ▸ List.nil_prefix)
  obtain ⟨front', leaf', split'⟩ : ∃ front leaf, Path.components path' = front ++ [leaf] :=
    (List.eq_nil_or_concat' _).resolve_left fun empty => apart' (empty ▸ List.nil_prefix)
  rw [split, split'] at apart apart'
  have agree : AgreeAlong store second.store (front ++ [leaf]) :=
    intact.agreeAlong_delete limits kind' split' apart' apart
  have agree' : AgreeAlong store first.store (front' ++ [leaf']) :=
    intact.agreeAlong_delete limits kind split apart apart'
  obtain ⟨sameFirst, cut, cuts, cutsThen⟩ :=
    intact.exists_cut (intact.intact_delete limits kind' split').toLinked limits kind split agree
  obtain ⟨sameSecond, cut', cuts', cutsThen'⟩ :=
    intact.exists_cut (intact.intact_delete limits kind split).toLinked limits kind' split' agree'
  refine ⟨sameFirst, sameSecond, ?_⟩
  calc
    thenSecond.store = cut'.apply (cut.apply store) := cutsThen'.trans (congrArg cut'.apply cuts)
    _ = cut.apply (cut'.apply store) := cut.apply_comm cut' store
    _ = thenFirst.store := (cutsThen.trans (congrArg cut.apply cuts')).symm

end Store

variable {σ : Type}

/-- Two deletions at paths of which neither continues the other can be made in either order: each
has the answer that it has alone, and the store afterwards is the same, with everything in the
same order. -/
theorem disjoint_deletions_commute (fs : FileSystem σ) (stepsOnly : fs.StepsOnly) (world : World σ)
    (reachable : fs.Reachable world) (limits : Limits) (clock : Clock) (kind other : Kind)
    (path elsewhere : String) (apart : ¬ Path.components path <+: Path.components elsewhere)
    (apart' : ¬ Path.components elsewhere <+: Path.components path) :
    let bench := Workbench.start world.host.committed
    let first : Operation := .mutate (.deletion kind path)
    let second : Operation := .mutate (.deletion other elsewhere)
    let oneWay := bench.run limits clock [first, second]
    let otherWay := bench.run limits clock [second, first]
    oneWay.1 = [(bench.perform limits clock first).1, (bench.perform limits clock second).1] ∧
      otherWay.1 = [(bench.perform limits clock second).1, (bench.perform limits clock first).1] ∧
      oneWay.2.store = otherWay.2.store := by
  intro bench first second oneWay otherWay
  have intact : bench.store.Intact := (reachable.sound stepsOnly).toIntact
  obtain ⟨sameFirst, sameSecond, sameStore⟩ := intact.deletes_commute limits kind other apart apart'
  simp only [oneWay, otherWay, first, second, Workbench.run, Workbench.perform,
    Mutation.apply_deletion]
  exact ⟨by rw [sameSecond], by rw [sameFirst], sameStore⟩

theorem disjoint_deletions_commute_siblings :
    let bench := Workbench.start FileSystem.populated.host.committed
    let first : Operation := .mutate (.deletion .dir "/d/e/")
    let second : Operation := .mutate (.deletion .file "/d/f")
    let oneWay := bench.run FileSystem.roomy.limits (fun _ => some 7) [first, second]
    let otherWay := bench.run FileSystem.roomy.limits (fun _ => some 7) [second, first]
    FileSystem.roomy.StepsOnly ∧ FileSystem.roomy.Reachable FileSystem.populated ∧
      ¬ Path.components "/d/e/" <+: Path.components "/d/f" ∧
        ¬ Path.components "/d/f" <+: Path.components "/d/e/" ∧
      oneWay.1 = [.ok (.effect (.removedDir ⟨[4], [2]⟩)), .ok (.effect (.removedFile 3))] ∧
      otherWay.1 = [.ok (.effect (.removedFile 3)), .ok (.effect (.removedDir ⟨[4], [2]⟩))] ∧
      oneWay.2.store = otherWay.2.store ∧ oneWay.2.store.files.ids = [5, 7] ∧
      oneWay.2.store.dirs.ids = [1, 6] := by
  intro bench first second oneWay otherWay
  have apart : ¬ Path.components "/d/e/" <+: Path.components "/d/f" := by decide +kernel
  have apart' : ¬ Path.components "/d/f" <+: Path.components "/d/e/" := by decide +kernel
  obtain ⟨answers, answers', same⟩ :=
    disjoint_deletions_commute FileSystem.roomy FileSystem.stepsOnly_roomy FileSystem.populated
      FileSystem.reachable_populated FileSystem.roomy.limits (fun _ => some 7) .dir .file "/d/e/"
    "/d/f" apart apart'
  have removesDir : (bench.perform FileSystem.roomy.limits (fun _ => some 7) first).1 =
      .ok (.effect (.removedDir ⟨[4], [2]⟩)) := by decide +kernel
  have removesFile : (bench.perform FileSystem.roomy.limits (fun _ => some 7) second).1 =
      .ok (.effect (.removedFile 3)) := by decide +kernel
  refine ⟨FileSystem.stepsOnly_roomy, FileSystem.reachable_populated, apart, apart', ?_, ?_,
    same, ?_, ?_⟩
  · exact answers.trans (by rw [removesDir, removesFile])
  · exact answers'.trans (by rw [removesDir, removesFile])
  · decide +kernel
  · decide +kernel

end NameTree
