import NameTree.Proofs.Written

/-!
A store gives its own capacity to every container that it makes, so containers that had one capacity
at first have it for good, also after an operation that failed half way.
-/

namespace NameTree

theorem Index.capacity_of_insert {index after : Index} {name : String} {id : Int}
    (done : index.insert name id = .ok after) : after.capacity = index.capacity := by
  rw [eq_of_insert done]

section Arena

variable {kind : String} {ρ : Type} {arena after : Arena kind ρ} {id : Int} {record : ρ}

theorem Arena.capacity_of_insert (done : arena.insert id record = .ok after) :
    after.capacity = arena.capacity := by
  rw [eq_of_insert done]

theorem Arena.capacity_of_remove (done : arena.remove id = .ok after) :
    after.capacity = arena.capacity := by
  obtain ⟨-, rfl⟩ := remove_eq_ok_iff.mp done
  rfl

end Arena

/-- Every container of the store has the same capacity. -/
structure Store.Uniform (store : Store) (capacity : Option Int) : Prop where
  own : store.capacity = capacity
  rootFiles : store.rootFiles.capacity = capacity
  rootDirs : store.rootDirs.capacity = capacity
  files : store.files.capacity = capacity
  dirs : store.dirs.capacity = capacity
  children : ∀ {id record}, store.dirs.get? id = some record →
    record.files.capacity = capacity ∧ record.dirs.capacity = capacity

/-- Every container has this capacity, whatever the store would give to a new one. -/
structure Store.Capped (store : Store) (capacity : Option Int) : Prop where
  files : store.files.capacity = capacity
  dirs : store.dirs.capacity = capacity
  index : ∀ {kind place index}, store.index kind place = .ok index → index.capacity = capacity

variable {store : Store} {capacity : Option Int}

namespace Store

instance decidableUniform (store : Store) (capacity : Option Int) :
    Decidable (store.Uniform capacity) :=
  decidable_of_iff (store.capacity = capacity ∧ store.rootFiles.capacity = capacity ∧
    store.rootDirs.capacity = capacity ∧ store.files.capacity = capacity ∧
    store.dirs.capacity = capacity ∧
    ∀ entry ∈ store.dirs.toList, entry.2.files.capacity = capacity ∧
      entry.2.dirs.capacity = capacity) <| by
  constructor
  · intro given
    rcases given with ⟨own, rootFiles, rootDirs, files, dirs, children⟩
    exact ⟨own, rootFiles, rootDirs, files, dirs,
      fun found => children _ (OrderedMap.get?_eq_some_iff.mp found)⟩
  · intro uniform
    exact ⟨uniform.own, uniform.rootFiles, uniform.rootDirs, uniform.files, uniform.dirs,
      fun _ member => uniform.children (OrderedMap.get?_eq_some_iff.mpr member)⟩

theorem uniform_empty (capacity : Option Int) : (empty capacity).Uniform capacity where
  own := rfl
  rootFiles := rfl
  rootDirs := rfl
  files := rfl
  dirs := rfl
  children found := by cases found

namespace Uniform

variable (uniform : store.Uniform capacity)
include uniform

theorem index {kind : Kind} {place : Place} {index : Index}
    (present : store.index kind place = .ok index) :
    index.capacity = capacity := by
  cases place with
  | none =>
    cases kind <;> cases present
    · exact uniform.rootFiles
    · exact uniform.rootDirs
  | some id =>
    obtain ⟨record, found⟩ := mem_ids_dir.mp (hasPlace_iff.mpr ⟨index, present⟩)
    rw [index_place found] at present
    cases kind <;> cases present
    · exact (uniform.children found).1
    · exact (uniform.children found).2

theorem clone : store.clone = store :=
  clone_eq_self_iff.mpr ⟨uniform.files.trans uniform.own.symm, uniform.dirs.trans uniform.own.symm⟩

theorem capped : store.Capped capacity := ⟨uniform.files, uniform.dirs, uniform.index⟩

theorem advance : store.advance.Uniform capacity where
  own := uniform.own
  rootFiles := uniform.rootFiles
  rootDirs := uniform.rootDirs
  files := uniform.files
  dirs := uniform.dirs
  children := uniform.children

theorem withFiles {files : Arena "file" FileRecord} (same : files.capacity = store.files.capacity) :
    { store with files := files }.Uniform capacity where
  own := uniform.own
  rootFiles := uniform.rootFiles
  rootDirs := uniform.rootDirs
  files := same.trans uniform.files
  dirs := uniform.dirs
  children := uniform.children

theorem withDirs {dirs : Arena "dir" DirRecord} (same : dirs.capacity = store.dirs.capacity)
    (children : ∀ {id record}, dirs.get? id = some record →
      record.files.capacity = capacity ∧ record.dirs.capacity = capacity) :
    { store with dirs := dirs }.Uniform capacity where
  own := uniform.own
  rootFiles := uniform.rootFiles
  rootDirs := uniform.rootDirs
  files := uniform.files
  dirs := same.trans uniform.dirs
  children := children

theorem insertDir {dirs : Arena "dir" DirRecord} {id createTs : Int} {tags : List String}
    (inserted : store.dirs.insert id (.make createTs tags capacity) = .ok dirs) :
    { store with dirs := dirs }.Uniform capacity := by
  refine uniform.withDirs (Arena.capacity_of_insert inserted) ?_
  intro other record found
  rw [Arena.get?_of_insert inserted] at found
  split at found
  · cases found
    exact ⟨rfl, rfl⟩
  · exact uniform.children found

theorem eraseDir (id : Int) : { store with dirs := store.dirs.erase id }.Uniform capacity := by
  refine uniform.withDirs rfl ?_
  intro other record found
  rw [Arena.get?_erase] at found
  split at found
  · cases found
  · exact uniform.children found

theorem modifyDir (id : Int) {change : DirRecord → DirRecord}
    (kept : ∀ record, record.files.capacity = capacity ∧ record.dirs.capacity = capacity →
      (change record).files.capacity = capacity ∧ (change record).dirs.capacity = capacity) :
    { store with dirs := store.dirs.modify id change }.Uniform capacity := by
  refine uniform.withDirs rfl ?_
  intro other record found
  rw [Arena.get?_modify] at found
  split at found
  · obtain ⟨old, held, rfl⟩ := Option.map_eq_some_iff.mp found
    exact kept old (uniform.children held)
  · exact uniform.children found

theorem setIndex {index : Index} (capped : index.capacity = capacity) (kind : Kind)
    (place : Place) :
    (store.setIndex kind place index).Uniform capacity := by
  cases place with
  | none =>
    cases kind with
    | file => exact { uniform with rootFiles := capped }
    | dir => exact { uniform with rootDirs := capped }
  | some id =>
    cases kind with
    | file => exact uniform.modifyDir id fun _ held => ⟨capped, held.2⟩
    | dir => exact uniform.modifyDir id fun _ held => ⟨held.1, capped⟩

theorem dropReplaced {replaced : Option Int} {cleared : Store}
    (dropped : store.dropReplaced replaced = .ok cleared) : cleared.Uniform capacity := by
  cases replaced with
  | none =>
    cases dropped
    exact uniform
  | some old =>
    obtain ⟨-, rfl⟩ := dropReplaced_some_eq_ok_iff.mp dropped
    exact uniform.withFiles rfl

end Uniform

end Store

section Keeping

variable (uniform : store.Uniform capacity)
include uniform

theorem FilePlan.uniform_write {plan : FilePlan} (capped : plan.index.capacity = capacity)
    (reading : Option Int) : (plan.write reading store).store.Uniform capacity := by
  unfold write
  split
  · exact uniform
  · rename_i cleared dropped
    have numbered := (uniform.dropReplaced dropped).advance
    cases reading with
    | none => exact numbered
    | some now =>
      dsimp only
      split
      · exact numbered
      · rename_i files stored
        have written := numbered.withFiles (Arena.capacity_of_insert stored)
        split
        · exact written
        · rename_i index bound
          exact written.setIndex ((Index.capacity_of_insert bound).trans capped) .file plan.place

theorem DirPlan.uniform_write {plan : DirPlan} (capped : plan.index.capacity = capacity)
    (reading : Option Int) : (plan.write reading store).store.Uniform capacity := by
  unfold write
  cases reading with
  | none => exact uniform.advance
  | some now =>
    dsimp only
    split
    · exact uniform.advance
    · rename_i dirs stored
      have written := uniform.advance.insertDir (uniform.own ▸ stored)
      split
      · exact written
      · rename_i index bound
        split
        · exact written
        · exact written.setIndex ((Index.capacity_of_insert bound).trans capped) .dir plan.place

theorem RenamePlan.uniform_write {plan : RenamePlan} (capped : plan.index.capacity = capacity)
    (kind : Kind) :
    (plan.write kind store).store.Uniform capacity := by
  have without : (plan.index.erase plan.oldName).capacity = capacity := capped
  unfold write
  dsimp only
  split
  · exact uniform.setIndex without kind plan.place
  · split
    · exact uniform.setIndex without kind plan.place
    · rename_i index bound
      exact uniform.setIndex ((Index.capacity_of_insert bound).trans capped) kind plan.place

theorem DeletePlan.uniform_unbind {plan : DeletePlan} (capped : plan.index.capacity = capacity)
    (kind : Kind) :
    (plan.unbind kind store).Uniform capacity := by
  have without : (plan.index.erase plan.leaf).capacity = capacity := capped
  exact uniform.setIndex without kind plan.place

theorem DeletePlan.uniform_writeFile {plan : DeletePlan} (capped : plan.index.capacity = capacity) :
    (plan.writeFile store).store.Uniform capacity := by
  have unbound := plan.uniform_unbind uniform capped .file
  unfold writeFile
  dsimp only
  split
  · exact unbound
  · rename_i files removed
    exact unbound.withFiles (Arena.capacity_of_remove removed)

theorem DeletePlan.uniform_writeDir {plan : DeletePlan} (capped : plan.index.capacity = capacity)
    (path : String) : (plan.writeDir path store).store.Uniform capacity := by
  have unbound := plan.uniform_unbind uniform capped .dir
  unfold writeDir
  dsimp only
  split
  · exact unbound
  · rename_i files dirs searched
    have emptied := unbound.withFiles (Arena.capacity_drop _ files)
    have bare := emptied.withDirs (Arena.capacity_drop _ dirs) fun found =>
      unbound.children (Arena.get?_of_drop found)
    split
    · rename_i fault leftFiles dropped
      rw [dropped] at emptied
      exact emptied
    · rename_i leftFiles droppedFiles
      rw [droppedFiles] at bare
      split
      · rename_i fault leftDirs dropped
        rw [dropped] at bare
        exact bare
      · rename_i leftDirs droppedDirs
        rw [droppedDirs] at bare
        exact bare.eraseDir plan.id

theorem Plan.Suits.uniform_write {plan : Plan} (suits : plan.Suits store) (reading : Option Int) :
    (plan.write reading store).store.Uniform capacity := by
  cases suits with
  | file present _ => exact FilePlan.uniform_write uniform (uniform.index present) reading
  | dir present => exact DirPlan.uniform_write uniform (uniform.index present) reading
  | rename present _ => exact RenamePlan.uniform_write uniform (uniform.index present) _
  | deleteFile present _ => exact DeletePlan.uniform_writeFile uniform (uniform.index present)
  | deleteDir path present _ =>
    exact DeletePlan.uniform_writeDir uniform (uniform.index present) path
  | epoch number => exact { uniform with }

theorem Mutation.uniform_apply (m : Mutation) (limits : Limits) (reading : Option Int) :
    (m.apply limits reading store).store.Uniform capacity := by
  rw [apply_eq_after]
  cases planned : m.plan limits store with
  | error fault => exact uniform
  | ok plan => exact (suits_of_plan planned).uniform_write uniform reading

end Keeping

end NameTree
