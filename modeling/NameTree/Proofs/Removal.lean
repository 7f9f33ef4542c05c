import NameTree.Proofs.Addressable
import NameTree.Proofs.Restrict

/-!
Deleting a directory removes exactly what its path is a beginning of: the records of all files and
directories below it, and its own. What is left, its order and its bindings are as they were, but
for the one binding of the directory itself.
-/

namespace NameTree

namespace Store

/-- The names lead to the record and no others do. -/
def OnlyWay (store : Store) (kind : Kind) (id : Int) (names : List String) : Prop :=
  ∀ others, store.resolve? kind others = some id ↔ others = names

/-- The directory that `front ++ [leaf]` leads to, bound at `place`, is removed with everything
below it. -/
structure SubtreeRemoved (before after : Store) (front : List String) (leaf : String)
    (place : Place) (removed : Removed) : Prop where
  files : ∀ id, id ∈ removed.files ↔
    ∃ names, front ++ [leaf] <+: names ∧ names ≠ front ++ [leaf] ∧ before.OnlyWay .file id names
  dirs : ∀ id, id ∈ removed.dirs ↔ ∃ names, front ++ [leaf] <+: names ∧ before.OnlyWay .dir id names
  fileRecords : after.files.toList = before.files.toList.filter fun entry =>
    decide (entry.1 ∉ removed.files)
  dirIds : after.dirs.ids = before.dirs.ids.filter fun id => decide (id ∉ removed.dirs)
  dirRecords : ∀ id ∉ removed.dirs, some id ≠ place → after.dirs.get? id = before.dirs.get? id
  parentRecord : ∀ id, some id = place → ∃ record, before.dirs.get? id = some record ∧
    after.dirs.get? id = some { record with dirs := record.dirs.erase leaf }
  parentIndex : ∃ index top, before.index .dir place = .ok index ∧ index.get? leaf = some top ∧
    after.index .dir place = .ok (index.erase leaf) ∧
    (index.erase leaf).toList = index.toList.filter fun binding => decide (binding.1 ≠ leaf)
  otherIndexes : ∀ kind elsewhere, after.HasPlace elsewhere → (kind, elsewhere) ≠ (.dir, place) →
    after.index kind elsewhere = before.index kind elsewhere
  unbound : ∀ kind elsewhere name id, after.binding? kind elsewhere name = some id →
    id ∉ removed.files ∧ id ∉ removed.dirs
  ways : ∀ kind id names, id ∉ removed.ids kind → before.resolve? kind names = some id →
    after.resolve? kind names = some id
  namesake : ∀ id, before.resolve? .file (front ++ [leaf]) = some id → id ∉ removed.files
  counter : after.counter = before.counter
  epoch : after.epoch = before.epoch
  capacity : after.capacity = before.capacity

variable {store : Store} {limits : Limits} {path leaf : String} {front : List String}
  {place : Place} {top : Int} {index : Index}

theorem Linked.onlyWay_iff (linked : store.Linked) {kind : Kind} {id : Int} {names : List String} :
    store.OnlyWay kind id names ↔ store.resolve? kind names = some id := by
  constructor
  · intro only
    exact (only names).mpr rfl
  · intro found others
    constructor
    · intro again
      exact linked.resolve?_inj found again
    · intro same
      rw [same, found]

theorem Linked.not_under_of_binding? (linked : store.Linked) {parent : Int}
    (bound : store.binding? .dir (some parent) leaf = some top) : ¬ store.Under top parent := by
  intro under
  obtain ⟨rank, ranked⟩ := linked.ranked
  have ascends := ranked.le_of_under under
  have descends := ranked bound
  omega

section Delete

variable {plan : DeletePlan} {removed : Removed} (sound : store.Sound)
  (present : store.index .dir plan.place = .ok plan.index)
  (bound : store.binding? .dir plan.place plan.leaf = some plan.id)
  (done : (plan.writeDir path store).result = .ok removed)
include sound present bound done

theorem Sound.mem_removed_iff (led : store.follow none front = some plan.place) :
    (∀ id, id ∈ removed.files ↔
        ∃ names, front ++ [plan.leaf] <+: names ∧ names ≠ front ++ [plan.leaf] ∧
          store.OnlyWay .file id names) ∧
      ∀ id, id ∈ removed.dirs ↔ ∃ names, front ++ [plan.leaf] <+: names ∧
        store.OnlyWay .dir id names := by
  have ledTop : store.follow none (front ++ [plan.leaf]) = some (some plan.id) :=
    follow_concat_eq_some_iff.mpr ⟨plan.place, plan.id, led, bound, rfl⟩
  obtain ⟨filesUnder, dirsUnder⟩ := mem_of_writeDir present bound done
  constructor
  · intro id
    rw [filesUnder, fileUnder_iff_resolve? ledTop]
    constructor
    · intro given
      rcases given with ⟨suffix, nonempty, found⟩
      refine ⟨front ++ [plan.leaf] ++ suffix, List.prefix_append _ _, ?_,
        sound.onlyWay_iff.mpr found⟩
      simpa using nonempty
    · intro given
      rcases given with ⟨names, ⟨suffix, rfl⟩, longer, only⟩
      refine ⟨suffix, ?_, sound.onlyWay_iff.mp only⟩
      intro empty
      rw [empty, List.append_nil] at longer
      exact longer rfl
  · intro id
    rw [dirsUnder, under_iff_resolve? ledTop]
    constructor
    · intro given
      rcases given with ⟨suffix, found⟩
      exact ⟨front ++ [plan.leaf] ++ suffix, List.prefix_append _ _, sound.onlyWay_iff.mpr found⟩
    · intro given
      rcases given with ⟨names, ⟨suffix, rfl⟩, only⟩
      exact ⟨suffix, sound.onlyWay_iff.mp only⟩

theorem Sound.not_mem_removed {kind : Kind} {elsewhere : Place} {name : String} {id : Int}
    (found : (plan.writeDir path store).store.binding? kind elsewhere name = some id) :
    id ∉ removed.files ∧ id ∉ removed.dirs := by
  have prunes := writeDir_prunes present bound done
  obtain ⟨filesUnder, dirsUnder⟩ := mem_of_writeDir present bound done
  have old := ((prunes.bindings kind elsewhere name id).mp found).1
  rw [filesUnder, dirsUnder]
  cases kind with
  | file =>
    refine ⟨prunes.not_fileUnder sound.toLinked found, ?_⟩
    intro under
    exact sound.apart (sound.recorded old) (sound.mem_ids_of_under under (sound.recorded bound))
  | dir =>
    refine ⟨?_, prunes.not_under sound.toLinked found⟩
    intro under
    exact sound.apart (sound.mem_ids_of_fileUnder under) (sound.recorded old)

theorem Sound.place_not_mem_removed : ∀ id ∈ plan.place, id ∉ removed.dirs := by
  intro id here member
  have under : store.Under plan.id id := ((mem_of_writeDir present bound done).2 id).mp member
  rw [here] at bound
  exact sound.not_under_of_binding? bound under

theorem Sound.resolve?_of_not_mem_removed {kind : Kind} {id : Int} {names : List String}
    (kept : id ∉ removed.ids kind) (found : store.resolve? kind names = some id) :
    (plan.writeDir path store).store.resolve? kind names = some id := by
  -- what is left is reached somehow, and every way that is left was there before
  have prunes := writeDir_prunes present bound done
  have fewer {kind : Kind} {place : Place} {name : String} {id : Int}
      (found : (plan.writeDir path store).store.binding? kind place name = some id) :
      store.binding? kind place name = some id :=
    ((prunes.bindings kind place name id).mp found).1
  have held : id ∈ (plan.writeDir path store).store.ids kind := by
    rw [(writeDir_eq_without done).1, mem_ids_without, DeletePlan.unbind, ids_setIndex]
    exact ⟨sound.mem_ids_of_resolve? found, kept⟩
  obtain ⟨others, foundAfter⟩ := (prunes.intact sound.toIntact).exists_resolve? held
  have same : others = names := sound.resolve?_inj found (resolve?_of_fewer fewer foundAfter)
  rw [← same, foundAfter]

theorem Sound.subtreeRemoved (led : store.follow none front = some plan.place) :
    SubtreeRemoved store (plan.writeDir path store).store front plan.leaf plan.place removed := by
  obtain ⟨files, dirs⟩ := sound.mem_removed_iff present bound done led
  have left := sound.place_not_mem_removed present bound done
  have written := (writeDir_eq_without done).1
  have records (id : Int) : (plan.writeDir path store).store.dirs.get? id =
      if id ∈ removed.dirs then none else if plan.place = some id then
        (store.dirs.get? id).map (·.withIndex (plan.index.erase plan.leaf) .dir)
        else store.dirs.get? id := by
    rw [written, without, Arena.get?_without, DeletePlan.unbind, get?_dirs_setIndex]
  constructor
  case files => exact files
  case dirs => exact dirs
  case fileRecords =>
    rw [written, without, DeletePlan.unbind, files_setIndex]
    exact Arena.toList_without removed.files store.files
  case dirIds =>
    have same : (plan.unbind .dir store).dirs.ids = store.dirs.ids :=
      ids_setIndex store .dir plan.place _ .dir
    rw [written, ← same]
    exact Arena.ids_without removed.dirs _
  case dirRecords =>
    intro id kept elsewhere
    rw [records, if_neg kept, if_neg fun here => elsewhere here.symm]
  case parentRecord =>
    intro id here
    obtain ⟨record, held⟩ := mem_ids_dir.mp (hasPlace_iff.mpr ⟨_, here ▸ present⟩)
    refine ⟨record, held, ?_⟩
    have same : plan.index = record.dirs := by
      rw [← here, index_place held] at present
      exact (Except.ok.inj present).symm
    rw [records, if_neg (left id here.symm), if_pos here.symm, held, same]
    rfl
  case parentIndex =>
    refine ⟨plan.index, plan.id, present,
      (binding?_of_index present plan.leaf).symm.trans bound, ?_, plan.index.toList_erase plan.leaf⟩
    rw [written, index_without left]
    exact index_setIndex_self present _
  case otherIndexes =>
    intro kind elsewhere remains ne
    rw [written] at remains ⊢
    rw [index_without (hasPlace_without.mp remains).2]
    exact index_setIndex_of_ne store ne _
  case unbound => exact fun _ _ _ _ found => sound.not_mem_removed present bound done found
  case ways => exact fun _ _ _ kept found =>
    sound.resolve?_of_not_mem_removed present bound done kept found
  case namesake =>
    intro id found member
    obtain ⟨names, -, longer, only⟩ := (files id).mp member
    exact longer ((only _).mp found).symm
  case counter =>
    rw [written]
    exact counter_setIndex store .dir plan.place _
  case epoch =>
    rw [written]
    exact epoch_setIndex store .dir plan.place _
  case capacity =>
    rw [written]
    exact capacity_setIndex store .dir plan.place _

end Delete

theorem exists_planDelete_iff (named : store.Named limits) {kind : Kind} :
    (∃ plan, store.planDelete limits kind path = .ok plan) ↔
      limits.checkPath (Path.dropFinalSlash path) = .ok () ∧ Path.dropFinalSlash path ≠ "/" ∧
        ∃ front leaf place id, Path.components path = front ++ [leaf] ∧
          store.follow none front = some place ∧
          store.binding? kind place leaf = some id := by
  constructor
  · intro given
    rcases given with ⟨plan, planned⟩
    obtain ⟨target, found⟩ := planDelete_eq_ok_iff.mp planned
    obtain ⟨front, led, split, -, -⟩ := target.exists_front
    rw [Path.components_dropFinalSlash] at split
    exact ⟨target.checked, Path.dropFinalSlash_ne_root split, front, plan.leaf, plan.place,
      plan.id, split, led, (target.binding? _).trans found⟩
  · intro given
    rcases given with ⟨checked, -, front, leaf, place, id, split, led, bound⟩
    obtain ⟨index, present⟩ := hasPlace_iff.mp (hasPlace_of_binding? bound)
    have short : Path.checkComponents limits.maxStringLen (front ++ [leaf]) = .ok () := by
      refine Path.checkComponents_eq_ok_iff.mpr fun name member => ?_
      exact (named.of_resolve? (resolve?_concat_eq_some_iff.mpr ⟨place, led, bound⟩) name member).2
    have parted : Path.components (Path.dropFinalSlash path) = front ++ [leaf] := by
      rw [Path.components_dropFinalSlash, split]
    refine ⟨⟨place, leaf, index, id⟩,
      planDelete_eq_ok_iff.mpr ⟨.of_follow checked parted short led present, ?_⟩⟩
    exact (binding?_of_index present leaf).symm.trans bound

theorem Linked.exists_deleteDir_iff (linked : store.Linked) :
    (∃ removed, (store.deleteDir limits path).result = .ok removed) ↔
      ∃ plan, store.planDelete limits .dir path = .ok plan := by
  rw [deleteDir_eq_after]
  constructor
  · intro given
    rcases given with ⟨removed, done⟩
    obtain ⟨plan, planned, -, -⟩ := Outcome.exists_plan_of_after done
    exact ⟨plan, planned⟩
  · intro given
    rcases given with ⟨plan, planned⟩
    obtain ⟨target, found⟩ := planDelete_eq_ok_iff.mp planned
    rw [Outcome.after_of_ok planned]
    exact plan.exists_writeDir linked target.present
      (linked.mem_ids_of_index target.present found) path

end Store

variable {σ : Type}

theorem deleteDir_removes_exactly_subtree (fs : FileSystem σ) (stepsOnly : fs.StepsOnly)
    (world : World σ) (reachable : fs.Reachable world) (path : String) :
    let before := world.host.committed
    let outcome := before.deleteDir fs.limits path
    ((∃ removed, outcome.result = .ok removed) ↔
        fs.limits.checkPath (Path.dropFinalSlash path) = .ok () ∧ Path.dropFinalSlash path ≠ "/" ∧
          ∃ front leaf place top, Path.components path = front ++ [leaf] ∧
            before.follow none front = some place ∧ before.binding? .dir place leaf = some top) ∧
      ∀ removed, outcome.result = .ok removed →
        ∃ front leaf place, Path.components path = front ++ [leaf] ∧
          before.follow none front = some place ∧
          Store.SubtreeRemoved before outcome.store front leaf place removed := by
  intro before outcome
  have sound := reachable.sound stepsOnly
  have named := reachable.named stepsOnly
  refine ⟨sound.exists_deleteDir_iff.trans (Store.exists_planDelete_iff named), ?_⟩
  intro removed done
  have written : outcome = .after (before.planDelete fs.limits .dir path) before
      (·.writeDir path before) :=
    before.deleteDir_eq_after fs.limits path
  rw [written] at done ⊢
  obtain ⟨plan, planned, done, same⟩ := Outcome.exists_plan_of_after done
  obtain ⟨target, found⟩ := Store.planDelete_eq_ok_iff.mp planned
  obtain ⟨front, led, split, -, -⟩ := target.exists_front
  rw [Path.components_dropFinalSlash] at split
  rw [same]
  exact ⟨front, plan.leaf, plan.place, split, led,
    sound.subtreeRemoved target.present ((target.binding? _).trans found) done led⟩

theorem deleteDir_removes_exactly_subtree_populated :
    let before := FileSystem.populated.host.committed
    let outcome := before.deleteDir FileSystem.roomy.limits "/d/"
    FileSystem.roomy.StepsOnly ∧ FileSystem.roomy.Reachable FileSystem.populated ∧
      outcome.result = .ok ⟨[3, 4], [1, 2]⟩ ∧
      (∃ front leaf place, Path.components "/d/" = front ++ [leaf] ∧
        before.follow none front = some place ∧
        Store.SubtreeRemoved before outcome.store front leaf place ⟨[3, 4], [1, 2]⟩) ∧
      outcome.store.resolve? .file ["d"] = some 5 ∧ outcome.store.resolve? .dir ["d"] = none := by
  intro before outcome
  have removes := deleteDir_removes_exactly_subtree FileSystem.roomy FileSystem.stepsOnly_roomy
    FileSystem.populated FileSystem.reachable_populated "/d/"
  have done : outcome.result = .ok ⟨[3, 4], [1, 2]⟩ := by decide +kernel
  refine ⟨FileSystem.stepsOnly_roomy, FileSystem.reachable_populated, done,
    removes.2 _ done, ?_, ?_⟩ <;>
    decide +kernel

end NameTree
