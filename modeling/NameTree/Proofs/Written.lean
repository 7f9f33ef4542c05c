import NameTree.Event
import NameTree.Proofs.Change
import NameTree.Proofs.Restrict
import NameTree.Proofs.Search
import NameTree.Proofs.Success

/-!
What each mutation has done to bindings and records when it succeeds. On an intact store every
success is one of the changes that keep a store intact.
-/

namespace NameTree

variable {store : Store}

namespace Store

theorem dropReplaced_some_eq_ok_iff {id : Int} {cleared : Store} :
    store.dropReplaced (some id) = .ok cleared ↔
      id ∈ store.files.ids ∧ cleared = { store with files := store.files.erase id } := by
  by_cases member : id ∈ store.files.ids
  · simp [dropReplaced, Arena.remove_of_mem member, member, eq_comm]
  · simp [dropReplaced, Arena.remove_of_notMem member, member]

theorem dropReplaced_eq_ok {replaced : Option Int} {cleared : Store}
    (dropped : store.dropReplaced replaced = .ok cleared) :
    cleared = { store with files := cleared.files } ∧
      ∀ id, id ∈ cleared.files.ids ↔ id ∈ store.files.ids ∧ replaced ≠ some id := by
  cases replaced with
  | none =>
    cases dropped
    simp
  | some old =>
    obtain ⟨-, rfl⟩ := dropReplaced_some_eq_ok_iff.mp dropped
    refine ⟨rfl, ?_⟩
    intro id
    rw [Arena.mem_ids_erase, Ne, Ne, Option.some.injEq, eq_comm]

end Store

section Create

theorem FilePlan.write_eq_ok {plan : FilePlan} {reading : Option Int} {id : Int}
    (done : (plan.write reading store).result = .ok id) :
    ∃ now cleared files index, reading = some now ∧ store.dropReplaced plan.replaced = .ok cleared ∧
      id = store.counter + 1 ∧ cleared.files.insert id (plan.draft.stamp now) = .ok files ∧
      plan.index.insert plan.leaf id = .ok index ∧
      (plan.write reading store).store =
        { cleared.advance with files := files }.setIndex .file plan.place index := by
  unfold FilePlan.write at done ⊢
  cases dropped : store.dropReplaced plan.replaced with
  | error fault =>
    simp only [dropped] at done
    cases done
  | ok cleared =>
    have sameCounter : cleared.counter = store.counter := by
      rw [(Store.dropReplaced_eq_ok dropped).1]
    cases reading with
    | none =>
      simp only [dropped] at done
      cases done
    | some now =>
      simp only [dropped] at done ⊢
      cases stored : cleared.advance.files.insert cleared.advance.counter
        (plan.draft.stamp now) with
      | error fault =>
        simp only [stored] at done
        cases done
      | ok files =>
        simp only [stored] at done ⊢
        cases bound : plan.index.insert plan.leaf cleared.advance.counter with
        | error fault =>
          simp only [bound] at done
          cases done
        | ok index =>
          simp only [bound] at done ⊢
          cases done
          refine ⟨now, cleared, files, index, rfl, rfl, ?_, stored, bound, rfl⟩
          simp [Store.advance, sameCounter]

theorem DirPlan.write_eq_ok {plan : DirPlan} {reading : Option Int} {id : Int}
    (apart : plan.place ≠ some ((store.counter : Int) + 1))
    (done : (plan.write reading store).result = .ok id) :
    ∃ now dirs index, reading = some now ∧ id = store.counter + 1 ∧
      store.dirs.insert id (.make now plan.tags store.capacity) = .ok dirs ∧
      plan.index.insert plan.leaf id = .ok index ∧
      (plan.write reading store).store =
        { store.advance with dirs := dirs }.setIndex .dir plan.place index := by
  unfold DirPlan.write at done ⊢
  cases reading with
  | none => cases done
  | some now =>
    simp only at done ⊢
    cases stored : store.advance.dirs.insert store.advance.counter
      (.make now plan.tags store.capacity) with
    | error fault =>
      simp only [stored] at done
      cases done
    | ok dirs =>
      simp only [stored] at done ⊢
      cases bound : plan.index.insert plan.leaf store.advance.counter with
      | error fault =>
        simp only [bound] at done
        cases done
      | ok index =>
        have drawn : (store.advance.counter : Int) = store.counter + 1 := by simp [Store.advance]
        rw [bound, drawn] at done
        rw [drawn] at stored bound ⊢
        simp only [if_neg apart] at done ⊢
        cases done
        exact ⟨now, dirs, index, rfl, rfl, stored, bound, rfl⟩

theorem FilePlan.write_binds {plan : FilePlan} {reading : Option Int} {id : Int}
    (target : store.index .file plan.place = .ok plan.index)
    (replaced : plan.replaced = plan.index.get? plan.leaf)
    (done : (plan.write reading store).result = .ok id) :
    Store.Binds store (plan.write reading store).store .file plan.place plan.leaf := by
  obtain ⟨now, cleared, files, index, -, dropped, drawn, stored, bound, written⟩ :=
    plan.write_eq_ok done
  obtain ⟨sameRest, cleared_ids⟩ := Store.dropReplaced_eq_ok dropped
  have present : { cleared.advance with files := files }.index .file plan.place =
      .ok plan.index := by
    rw [Store.index_withFiles, Store.index_advance, sameRest, Store.index_withFiles]
    exact target
  have counter : (plan.write reading store).store.counter = store.counter + 1 := by
    rw [written, Store.counter_setIndex, sameRest]
    rfl
  refine ⟨Store.hasPlace_iff.mpr ⟨_, target⟩, ?_, ?_, counter⟩
  · intro other elsewhere asked
    rw [counter, written, Store.binding?_setIndex_insert present bound, Store.binding?_withFiles,
      Store.binding?_advance, sameRest, Store.binding?_withFiles, drawn]
    rfl
  · intro other held
    rw [counter, written, Store.ids_setIndex]
    cases other with
    | file =>
      have held_iff : held ∈ files.ids ↔ held = id ∨ held ∈ cleared.files.ids :=
        Arena.mem_ids_of_insert stored
      rw [Store.binding?_of_index target, ← replaced]
      simp only [Store.ids, held_iff, cleared_ids, drawn, true_and, Nat.cast_add, Nat.cast_one, Ne]
    | dir =>
      simp only [Store.ids, reduceCtorEq, false_and, not_false_eq_true, and_true, false_or]
      rw [sameRest]
      rfl

theorem DirPlan.write_binds {plan : DirPlan} {reading : Option Int} {id : Int}
    (intact : store.Intact) (target : store.index .dir plan.place = .ok plan.index)
    (free : plan.index.get? plan.leaf = none) (done : (plan.write reading store).result = .ok id) :
    Store.Binds store (plan.write reading store).store .dir plan.place plan.leaf := by
  have hasPlace : store.HasPlace plan.place := Store.hasPlace_iff.mpr ⟨_, target⟩
  have fresh := intact.not_hasPlace_next
  have apart := intact.place_ne_next hasPlace
  obtain ⟨now, dirs, index, -, drawn, stored, bound, written⟩ := plan.write_eq_ok apart done
  subst drawn
  have present : { store.advance with dirs := dirs }.index .dir plan.place = .ok plan.index := by
    rw [Store.index_withDirs_of_ne store.advance stored apart, Store.index_advance]
    exact target
  have counter : (plan.write reading store).store.counter = store.counter + 1 := by
    rw [written, Store.counter_setIndex]
    rfl
  refine ⟨hasPlace, ?_, ?_, counter⟩
  · intro other elsewhere asked
    rw [counter, written, Store.binding?_setIndex_insert present bound,
      Store.binding?_insertDir store.advance stored, Store.binding?_advance]
    by_cases new : elsewhere = some ((store.counter : Int) + 1)
    · rw [new, Store.binding?_of_absent fresh]
      simp
    · simp [new]
  · intro other held
    rw [counter, written, Store.ids_setIndex]
    cases other with
    | file =>
      simp only [Store.ids, reduceCtorEq, false_and, not_false_eq_true, and_true, false_or]
      rfl
    | dir =>
      have held_iff : held ∈ dirs.ids ↔ held = store.counter + 1 ∨ held ∈ store.dirs.ids :=
        Arena.mem_ids_of_insert stored
      rw [Store.binding?_of_index target, free]
      simp [Store.ids, held_iff]

namespace Store

variable {limits : Limits} {reading : Option Int} {path : String} {id : Int}

theorem createFile_binds {spec : FileSpec}
    (done : (store.createFile limits reading path spec).result = .ok id) :
    id = store.counter + 1 ∧ ∃ place leaf index,
      Destination store limits .file path place leaf index ∧
      Binds store (store.createFile limits reading path spec).store .file place leaf := by
  rw [createFile_eq_after] at done ⊢
  obtain ⟨plan, planned, done, same⟩ := Outcome.exists_plan_of_after done
  rw [same]
  obtain ⟨target, -, replaced, -⟩ := planFile_eq_ok_iff.mp planned
  obtain ⟨_, _, _, _, -, -, drawn, -, -, -⟩ := plan.write_eq_ok done
  exact ⟨drawn, plan.place, plan.leaf, plan.index, target,
    plan.write_binds target.present replaced done⟩

theorem createDir_binds {tags : Tags} (intact : store.Intact)
    (done : (store.createDir limits reading path tags).result = .ok id) :
    ∃ place leaf index, Destination store limits .dir (Path.dropFinalSlash path) place leaf index ∧
      Binds store (store.createDir limits reading path tags).store .dir place leaf := by
  rw [createDir_eq_after] at done ⊢
  obtain ⟨plan, planned, done, same⟩ := Outcome.exists_plan_of_after done
  rw [same]
  obtain ⟨target, -, free⟩ := planDir_eq_ok_iff.mp planned
  exact ⟨plan.place, plan.leaf, plan.index, target,
    plan.write_binds intact target.present free done⟩

theorem mem_ids_of_createDir {tags : Tags}
    (done : (store.createDir limits reading path tags).result = .ok id) :
    id ∈ (store.createDir limits reading path tags).store.ids .dir := by
  rw [createDir_eq_after] at done ⊢
  obtain ⟨plan, -, done, same⟩ := Outcome.exists_plan_of_after done
  rw [same]
  unfold DirPlan.write at done ⊢
  cases reading with
  | none => cases done
  | some now =>
    simp only at done ⊢
    cases stored : store.advance.dirs.insert store.advance.counter
      (.make now plan.tags store.capacity) with
    | error fault =>
      simp only [stored] at done
      cases done
    | ok dirs =>
      have held : (store.advance.counter : Int) ∈ dirs.ids :=
        (Arena.mem_ids_of_insert stored).mpr (Or.inl rfl)
      simp only [stored] at done ⊢
      cases bound : plan.index.insert plan.leaf store.advance.counter with
      | error fault =>
        simp only [bound] at done
        cases done
      | ok index =>
        simp only [bound] at done ⊢
        by_cases own : plan.place = some (store.advance.counter : Int)
        · rw [if_pos own] at done ⊢
          cases done
          exact held
        · rw [if_neg own] at done ⊢
          cases done
          rw [ids_setIndex]
          exact held

end Store

end Create

section Rename

variable {kind : Kind}

theorem RenamePlan.write_eq_ok {plan : RenamePlan} {nothing : Unit}
    (done : (plan.write kind store).result = .ok nothing) :
    ∃ id index, plan.index.get? plan.oldName = some id ∧
      (plan.index.erase plan.oldName).insert plan.newName id = .ok index ∧
      (plan.write kind store).store = store.setIndex kind plan.place index := by
  unfold RenamePlan.write at done ⊢
  cases found : plan.index.get? plan.oldName with
  | none =>
    simp only [found] at done
    cases done
  | some id =>
    simp only [found] at done ⊢
    cases bound : (plan.index.erase plan.oldName).insert plan.newName id with
    | error fault =>
      simp only [bound] at done
      cases done
    | ok index => exact ⟨id, index, rfl, bound, rfl⟩

theorem RenamePlan.write_renames {plan : RenamePlan} {nothing : Unit} {id : Int}
    (present : store.index kind plan.place = .ok plan.index)
    (held : plan.index.get? plan.oldName = some id) (free : plan.index.get? plan.newName = none)
    (done : (plan.write kind store).result = .ok nothing) :
    Store.Renames store (plan.write kind store).store kind plan.place plan.oldName
      plan.newName id := by
  obtain ⟨_, index, found, bound, written⟩ := plan.write_eq_ok done
  cases held.symm.trans found
  have binding (name : String) : store.binding? kind plan.place name = plan.index.get? name :=
    Store.binding?_of_index present name
  refine ⟨(binding _).trans held, (binding _).trans free, ?_, ?_, ?_⟩
  · intro other elsewhere asked
    rw [written, Store.binding?_setIndex present, Index.get?_of_insert bound, Index.get?_erase]
    by_cases here : other = kind ∧ elsewhere = plan.place
    · obtain ⟨rfl, rfl⟩ := here
      simp [binding]
    · have not_new : ¬ (other = kind ∧ elsewhere = plan.place ∧ asked = plan.newName) :=
        fun all => here ⟨all.1, all.2.1⟩
      have not_old : ¬ (other = kind ∧ elsewhere = plan.place ∧ asked = plan.oldName) :=
        fun all => here ⟨all.1, all.2.1⟩
      rw [if_neg here, if_neg not_new, if_neg not_old]
  · intro other
    rw [written, Store.ids_setIndex]
  · rw [written, Store.counter_setIndex]

theorem Store.rename_renames {limits : Limits} {source target : String} {nothing : Unit}
    (done : (store.rename limits kind source target).result = .ok nothing) :
    ∃ place old new index id,
      Destination store limits kind (Path.dropFinalSlash source) place old index ∧
      Destination store limits kind (Path.dropFinalSlash target) place new index ∧
      Renames store (store.rename limits kind source target).store kind place old new id := by
  rw [Store.rename_eq_after] at done ⊢
  obtain ⟨plan, planned, done, same⟩ := Outcome.exists_plan_of_after done
  rw [same]
  obtain ⟨fromTarget, toTarget, ⟨id, held⟩, free⟩ := Store.planRename_eq_ok_iff.mp planned
  exact ⟨plan.place, plan.oldName, plan.newName, plan.index, id, fromTarget, toTarget,
    plan.write_renames fromTarget.present held free done⟩

end Rename

theorem Store.updateEpoch_keeps {epoch : Value} {nothing : Unit}
    (done : (store.updateEpoch epoch).result = .ok nothing) :
    Store.Keeps store (store.updateEpoch epoch).store := by
  rw [Store.updateEpoch_eq_after] at done ⊢
  obtain ⟨number, -, -, same⟩ := Outcome.exists_plan_of_after done
  rw [same]
  refine ⟨?_, ?_, rfl⟩
  · intro kind place name
    cases place <;> cases kind <;> rfl
  · intro kind
    cases kind <;> rfl

section Delete

namespace Store

variable {limits : Limits} {path : String}

theorem writeFile_of_mem {plan : DeletePlan} (member : plan.id ∈ store.files.ids) :
    plan.writeFile store =
      .done plan.id { plan.unbind .file store with files := store.files.erase plan.id } := by
  have same : (plan.unbind .file store).files = store.files :=
    files_setIndex store .file plan.place _
  simp only [DeletePlan.writeFile, same, Arena.remove_of_mem member]

theorem writeFile_eq_ok {plan : DeletePlan} {id : Int}
    (done : (plan.writeFile store).result = .ok id) :
    id = plan.id ∧
      (plan.writeFile store).store =
        { plan.unbind .file store with files := store.files.erase plan.id } := by
  by_cases member : plan.id ∈ store.files.ids
  · rw [writeFile_of_mem member] at done ⊢
    cases done
    exact ⟨rfl, rfl⟩
  · have same : (plan.unbind .file store).files = store.files :=
      files_setIndex store .file plan.place _
    simp only [DeletePlan.writeFile, same, Arena.remove_of_notMem member] at done
    cases done

theorem deleteFile_unbinds {id : Int} (done : (store.deleteFile limits path).result = .ok id) :
    ∃ place name index, Destination store limits .file (Path.dropFinalSlash path) place name index ∧
      Unbinds store (store.deleteFile limits path).store place name id := by
  rw [deleteFile_eq_after] at done ⊢
  obtain ⟨plan, planned, done, same⟩ := Outcome.exists_plan_of_after done
  obtain ⟨target, found⟩ := planDelete_eq_ok_iff.mp planned
  obtain ⟨rfl, written⟩ := writeFile_eq_ok done
  rw [same, written]
  refine ⟨plan.place, plan.leaf, plan.index, target, (target.binding? _).trans found, ?_, ?_, ?_⟩
  · intro other elsewhere asked
    rw [binding?_withFiles, DeletePlan.unbind, binding?_setIndex_erase target.present]
  · intro other held
    cases other with
    | file => simp only [ids, Arena.mem_ids_erase, true_and]
    | dir =>
      have same : (plan.unbind .file store).ids .dir = store.ids .dir := by
        rw [DeletePlan.unbind, ids_setIndex]
      simp only [reduceCtorEq, false_and, not_false_eq_true, and_true, ← same]
      rfl
  · exact counter_setIndex store .file plan.place _

theorem writeDir_eq_without {plan : DeletePlan} {path : String} {removed : Removed}
    (done : (plan.writeDir path store).result = .ok removed) :
    (plan.writeDir path store).store = (plan.unbind .dir store).without removed ∧
      ∃ dirs, (plan.unbind .dir store).subtree plan.id = .ok (removed.files, dirs) ∧
        removed.dirs = insertId plan.id dirs := by
  unfold DeletePlan.writeDir at done ⊢
  cases found : (plan.unbind .dir store).subtree plan.id with
  | error fault =>
    simp only [found] at done
    cases done
  | ok ids =>
    obtain ⟨files, dirs⟩ := ids
    simp only [found] at done ⊢
    rcases droppedFiles : (plan.unbind .dir store).files.drop files with ⟨fault | _, leftFiles⟩
    · simp only [droppedFiles] at done
      cases done
    · simp only [droppedFiles] at done ⊢
      rcases droppedDirs : (plan.unbind .dir store).dirs.drop dirs with ⟨fault | _, leftDirs⟩
      · simp only [droppedDirs] at done
        cases done
      · simp only [droppedDirs] at done ⊢
        cases done
        refine ⟨?_, dirs, rfl, rfl⟩
        have top : ((plan.unbind .dir store).dirs.without dirs).erase plan.id =
            (plan.unbind .dir store).dirs.without (insertId plan.id dirs) := by
          rw [Arena.erase_eq_without, Arena.without_without]
          refine Arena.without_congr fun id => ?_
          rw [List.mem_append, List.mem_singleton, mem_insertId, or_comm]
        rw [Arena.eq_without_of_drop droppedFiles, Arena.eq_without_of_drop droppedDirs,
          top, without]

theorem mem_of_writeDir {plan : DeletePlan} {removed : Removed}
    (present : store.index .dir plan.place = .ok plan.index)
    (bound : store.binding? .dir plan.place plan.leaf = some plan.id)
    (done : (plan.writeDir path store).result = .ok removed) :
    (∀ id, id ∈ removed.files ↔ store.FileUnder plan.id id) ∧
      ∀ id, id ∈ removed.dirs ↔ store.Under plan.id id := by
  -- the search runs when the name is unbound already, and finds what lay there before
  have unbound : ∀ other elsewhere asked, (plan.unbind .dir store).binding? other elsewhere asked =
      if other = .dir ∧ elsewhere = plan.place ∧ asked = plan.leaf then none
      else store.binding? other elsewhere asked :=
    binding?_setIndex_erase present plan.leaf
  obtain ⟨-, dirs, searched, inserted⟩ := writeDir_eq_without done
  constructor
  · intro id
    rw [(mem_of_subtree searched).1, fileUnder_unbound bound unbound]
  · intro id
    rw [inserted, mem_insertId_of_subtree searched, under_unbound bound unbound]

theorem writeDir_prunes {plan : DeletePlan} {removed : Removed}
    (present : store.index .dir plan.place = .ok plan.index)
    (bound : store.binding? .dir plan.place plan.leaf = some plan.id)
    (done : (plan.writeDir path store).result = .ok removed) :
    Prunes store (plan.writeDir path store).store plan.place plan.leaf plan.id := by
  obtain ⟨written, -⟩ := writeDir_eq_without done
  obtain ⟨filesUnder, dirsUnder⟩ := mem_of_writeDir present bound done
  rw [written]
  refine ⟨bound, ?_, ?_, ?_, ?_⟩
  · intro other elsewhere asked id
    have unbound : (plan.unbind .dir store).binding? other elsewhere asked =
        if other = .dir ∧ elsewhere = plan.place ∧ asked = plan.leaf then none
        else store.binding? other elsewhere asked :=
      binding?_setIndex_erase present plan.leaf other elsewhere asked
    simp only [binding?_without, unbound, dirsUnder]
    by_cases here : other = .dir ∧ elsewhere = plan.place ∧ asked = plan.leaf <;> simp [here]
  · intro id
    rw [mem_ids_without, DeletePlan.unbind, ids_setIndex, Removed.ids, filesUnder]
  · intro id
    rw [mem_ids_without, DeletePlan.unbind, ids_setIndex, Removed.ids, dirsUnder]
  · exact counter_setIndex store .dir plan.place _

theorem deleteDir_prunes {removed : Removed}
    (done : (store.deleteDir limits path).result = .ok removed) :
    ∃ place name index top, Destination store limits .dir
      (Path.dropFinalSlash path) place name index ∧
      Prunes store (store.deleteDir limits path).store place name top := by
  rw [deleteDir_eq_after] at done ⊢
  obtain ⟨plan, planned, done, same⟩ := Outcome.exists_plan_of_after done
  rw [same]
  obtain ⟨target, found⟩ := planDelete_eq_ok_iff.mp planned
  have bound : store.binding? .dir plan.place plan.leaf = some plan.id :=
    (target.binding? _).trans found
  exact ⟨plan.place, plan.leaf, plan.index, plan.id, target,
    writeDir_prunes target.present bound done⟩

end Store

end Delete

theorem Mutation.exists_event? {m : Mutation} {limits : Limits} {reading : Option Int}
    {effect : Effect} (done : (m.apply limits reading store).result = .ok effect) :
    ∃ event, m.event? effect (m.apply limits reading store).store = .ok event := by
  cases m with
  | createFile path spec =>
    obtain ⟨id, created, rfl⟩ := map_eq_ok_iff.mp done
    obtain ⟨drawn, place, leaf, index, -, change⟩ := Store.createFile_binds created
    have held : id ∈ (store.createFile limits reading path spec).store.ids .file := by
      rw [change.records, change.counter, drawn]
      exact Or.inl ⟨rfl, rfl⟩
    obtain ⟨record, found⟩ := Store.mem_ids_file.mp held
    exact ⟨_, map_eq_ok_iff.mpr ⟨record, Arena.require_eq_ok_iff.mpr found, rfl⟩⟩
  | createDir path tags =>
    obtain ⟨id, created, rfl⟩ := map_eq_ok_iff.mp done
    obtain ⟨record, found⟩ := Store.mem_ids_dir.mp (Store.mem_ids_of_createDir created)
    exact ⟨_, map_eq_ok_iff.mpr ⟨record, Arena.require_eq_ok_iff.mpr found, rfl⟩⟩
  | rename kind source target => exact ⟨none, rfl⟩
  | deleteFile path => exact ⟨_, rfl⟩
  | deleteDir path => exact ⟨_, rfl⟩
  | updateEpoch epoch => cases epoch <;> exact ⟨_, rfl⟩

/-- What a mutation has done when it succeeded: where its paths led, and the change that it
made there. -/
inductive Mutation.Does (limits : Limits) (before after : Store) : Mutation → Prop where
  | createFile {path : String} {spec : FileSpec} {place : Place} {leaf : String} {index : Index}
    (target : Destination before limits .file path place leaf index)
    (change : Store.Binds before after .file place leaf) :
    Does limits before after (.createFile path spec)
  | createDir {path : String} {tags : Tags} {place : Place} {leaf : String} {index : Index}
    (target : Destination before limits .dir (Path.dropFinalSlash path) place leaf index)
    (change : Store.Binds before after .dir place leaf) :
    Does limits before after (.createDir path tags)
  | rename (kind : Kind) {source target old new : String} {place : Place} {index : Index} {id : Int}
    (fromTarget : Destination before limits kind (Path.dropFinalSlash source) place old index)
    (toTarget : Destination before limits kind (Path.dropFinalSlash target) place new index)
    (change : Store.Renames before after kind place old new id) :
    Does limits before after (.rename kind source target)
  | deleteFile {path : String} {place : Place} {leaf : String} {index : Index} {id : Int}
    (target : Destination before limits .file (Path.dropFinalSlash path) place leaf index)
    (change : Store.Unbinds before after place leaf id) :
    Does limits before after (.deleteFile path)
  | deleteDir {path : String} {place : Place} {leaf : String} {index : Index} {top : Int}
    (target : Destination before limits .dir (Path.dropFinalSlash path) place leaf index)
    (change : Store.Prunes before after place leaf top) : Does limits before after (.deleteDir path)
  | updateEpoch {epoch : Value} (change : Store.Keeps before after) :
    Does limits before after (.updateEpoch epoch)

theorem Mutation.does {m : Mutation} {limits : Limits} {reading : Option Int} {effect : Effect}
    (intact : store.Intact) (done : (m.apply limits reading store).result = .ok effect) :
    m.Does limits store (m.apply limits reading store).store := by
  cases m with
  | createFile path spec =>
    obtain ⟨id, created, -⟩ := map_eq_ok_iff.mp done
    obtain ⟨-, place, leaf, index, target, change⟩ := Store.createFile_binds created
    exact .createFile target change
  | createDir path tags =>
    obtain ⟨id, created, -⟩ := map_eq_ok_iff.mp done
    obtain ⟨place, leaf, index, target, change⟩ := Store.createDir_binds intact created
    exact .createDir target change
  | rename kind source target =>
    obtain ⟨_, renamed, -⟩ := map_eq_ok_iff.mp done
    obtain ⟨place, old, new, index, id, fromTarget, toTarget, change⟩ :=
      Store.rename_renames renamed
    exact .rename kind fromTarget toTarget change
  | deleteFile path =>
    obtain ⟨id, deleted, -⟩ := map_eq_ok_iff.mp done
    obtain ⟨place, leaf, index, target, change⟩ := Store.deleteFile_unbinds deleted
    exact .deleteFile target change
  | deleteDir path =>
    obtain ⟨removed, deleted, -⟩ := map_eq_ok_iff.mp done
    obtain ⟨place, leaf, index, top, target, change⟩ := Store.deleteDir_prunes deleted
    exact .deleteDir target change
  | updateEpoch epoch =>
    obtain ⟨_, updated, -⟩ := map_eq_ok_iff.mp done
    exact .updateEpoch (Store.updateEpoch_keeps updated)

theorem Mutation.Does.change {m : Mutation} {limits : Limits} {before after : Store}
    (does : m.Does limits before after) : Store.Change before after := by
  cases does with
  | createFile target change => exact .binds change
  | createDir target change => exact .binds change
  | rename kind fromTarget toTarget change => exact .renames change
  | deleteFile target change => exact .unbinds change
  | deleteDir target change => exact .prunes change
  | updateEpoch change => exact .keeps change

theorem Mutation.Does.intact {m : Mutation} {limits : Limits} {before after : Store}
    (does : m.Does limits before after) (intact : before.Intact) : after.Intact :=
  does.change.intact intact

theorem Mutation.Does.sound {m : Mutation} {limits : Limits} {before after : Store}
    (does : m.Does limits before after) (sound : before.Sound) : after.Sound :=
  does.change.sound sound

def Mutation.creates : Mutation → Bool
  | .createFile _ _ | .createDir _ _ => true
  | _ => false

theorem Mutation.Does.counter {m : Mutation} {limits : Limits} {before after : Store}
    (does : m.Does limits before after) :
    after.counter = before.counter + if m.creates then 1 else 0 := by
  cases does with
  | createFile _ change | createDir _ change => exact change.counter
  | rename _ _ _ change | deleteFile _ change | deleteDir _ change | updateEpoch change =>
    exact change.counter

theorem Mutation.Does.mem_before {m : Mutation} {limits : Limits} {before after : Store}
    (does : m.Does limits before after) (others : m.creates = false) {kind : Kind} {id : Int}
    (member : id ∈ after.ids kind) : id ∈ before.ids kind := by
  cases does with
  | createFile _ _ | createDir _ _ => cases others
  | rename _ _ _ change => exact change.records kind ▸ member
  | deleteFile _ change => exact ((change.records kind id).mp member).1
  | deleteDir _ change => exact change.mem_before member
  | updateEpoch change => exact change.records kind ▸ member

end NameTree
