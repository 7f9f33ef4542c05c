import NameTree.Proofs.Addressable
import NameTree.Proofs.Checks

/-!
Nothing gets into a namespace that a check would refuse. Names pass the checks of the path that
binds them, and records those of the arguments that they are made of; writes only move what is there
already.
-/

namespace NameTree

variable {store after : Store} {limits : Limits}

namespace Store

/-- All records, and the epoch, hold what the checks of arguments admit. -/
structure Admitted (store : Store) (limits : Limits) : Prop where
  files : ∀ {id record}, store.files.get? id = some record → limits.AdmitsFile record
  dirs : ∀ {id record}, store.dirs.get? id = some record → limits.AdmitsTags record.tags
  epoch : IsWord store.epoch

theorem admitted_empty (capacity : Option Int) (limits : Limits) :
    (empty capacity).Admitted limits where
  files found := by cases found
  dirs found := by cases found
  epoch := isWord_zero

namespace Admitted

variable (admitted : store.Admitted limits)
include admitted

theorem withFiles {files : Arena "file" FileRecord}
    (kept : ∀ {id record}, files.get? id = some record → limits.AdmitsFile record) :
    { store with files := files }.Admitted limits :=
  { admitted with files := kept }

theorem withDirs {dirs : Arena "dir" DirRecord}
    (kept : ∀ {id record}, dirs.get? id = some record → limits.AdmitsTags record.tags) :
    { store with dirs := dirs }.Admitted limits :=
  { admitted with dirs := kept }

theorem advance : store.advance.Admitted limits := { admitted with }

theorem insertFile {files : Arena "file" FileRecord} {id : Int} {record : FileRecord}
    (inserted : store.files.insert id record = .ok files) (checked : limits.AdmitsFile record) :
    { store with files := files }.Admitted limits := by
  refine admitted.withFiles ?_
  intro other held found
  rw [Arena.get?_of_insert inserted] at found
  split at found
  · cases found
    exact checked
  · exact admitted.files found

theorem insertDir {dirs : Arena "dir" DirRecord} {id : Int} {record : DirRecord}
    (inserted : store.dirs.insert id record = .ok dirs) (checked : limits.AdmitsTags record.tags) :
    { store with dirs := dirs }.Admitted limits := by
  refine admitted.withDirs ?_
  intro other held found
  rw [Arena.get?_of_insert inserted] at found
  split at found
  · cases found
    exact checked
  · exact admitted.dirs found

theorem eraseFile (id : Int) : { store with files := store.files.erase id }.Admitted limits := by
  refine admitted.withFiles ?_
  intro other record found
  rw [Arena.get?_erase] at found
  split at found
  · cases found
  · exact admitted.files found

theorem without (removed : Removed) : (store.without removed).Admitted limits where
  files {id record} found := by
    have kept : (store.files.without removed.files).get? id = some record := found
    rw [Arena.get?_without] at kept
    split at kept
    · cases kept
    · exact admitted.files kept
  dirs {id record} found := by
    have kept : (store.dirs.without removed.dirs).get? id = some record := found
    rw [Arena.get?_without] at kept
    split at kept
    · cases kept
    · exact admitted.dirs kept
  epoch := admitted.epoch

theorem setIndex (kind : Kind) (place : Place) (index : Index) :
    (store.setIndex kind place index).Admitted limits where
  files found := by
    rw [files_setIndex] at found
    exact admitted.files found
  dirs {id record} found := by
    rw [get?_dirs_setIndex] at found
    split at found
    · obtain ⟨old, held, rfl⟩ := Option.map_eq_some_iff.mp found
      rw [DirRecord.tags_withIndex]
      exact admitted.dirs held
    · exact admitted.dirs found
  epoch := by
    rw [epoch_setIndex]
    exact admitted.epoch

theorem dropReplaced {replaced : Option Int} {cleared : Store}
    (dropped : store.dropReplaced replaced = .ok cleared) : cleared.Admitted limits := by
  cases replaced with
  | none =>
    cases dropped
    exact admitted
  | some old =>
    obtain ⟨-, rfl⟩ := dropReplaced_some_eq_ok_iff.mp dropped
    exact admitted.eraseFile old

end Admitted

end Store

section Mutations

variable {reading : Option Int} (admitted : store.Admitted limits)
include admitted

theorem Store.Admitted.createFile {path : String} {spec : FileSpec} {id : Int}
    (done : (store.createFile limits reading path spec).result = .ok id) :
    (store.createFile limits reading path spec).store.Admitted limits := by
  -- the record is the draft with a time, and the draft has passed the checks
  rw [Store.createFile_eq_after] at done ⊢
  obtain ⟨plan, planned, done, same⟩ := Outcome.exists_plan_of_after done
  obtain ⟨-, drafted, -, -⟩ := Store.planFile_eq_ok_iff.mp planned
  obtain ⟨now, cleared, files, index, -, dropped, -, stored, -, written⟩ := plan.write_eq_ok done
  rw [same, written]
  exact ((admitted.dropReplaced dropped).advance.insertFile stored
    (Limits.admitsFile_of_check drafted now)).setIndex .file plan.place index

theorem Store.Admitted.createDir {path : String} {tags : Tags} {id : Int} (intact : store.Intact)
    (done : (store.createDir limits reading path tags).result = .ok id) :
    (store.createDir limits reading path tags).store.Admitted limits := by
  rw [Store.createDir_eq_after] at done ⊢
  obtain ⟨plan, planned, done, same⟩ := Outcome.exists_plan_of_after done
  obtain ⟨target, tagged, -⟩ := Store.planDir_eq_ok_iff.mp planned
  obtain ⟨now, dirs, index, -, -, stored, -, written⟩ :=
    plan.write_eq_ok (intact.place_ne_next target.hasPlace) done
  rw [same, written]
  exact (admitted.advance.insertDir stored (Limits.admitsTags_of_checkTags tagged)).setIndex .dir
    plan.place index

theorem Store.Admitted.rename {kind : Kind} {source target : String} {nothing : Unit}
    (done : (store.rename limits kind source target).result = .ok nothing) :
    (store.rename limits kind source target).store.Admitted limits := by
  rw [Store.rename_eq_after] at done ⊢
  obtain ⟨plan, -, done, same⟩ := Outcome.exists_plan_of_after done
  obtain ⟨id, index, -, -, written⟩ := plan.write_eq_ok done
  rw [same, written]
  exact admitted.setIndex kind plan.place index

theorem Store.Admitted.deleteFile {path : String} {id : Int}
    (done : (store.deleteFile limits path).result = .ok id) :
    (store.deleteFile limits path).store.Admitted limits := by
  rw [Store.deleteFile_eq_after] at done ⊢
  obtain ⟨plan, -, done, same⟩ := Outcome.exists_plan_of_after done
  rw [same, (Store.writeFile_eq_ok done).2]
  have unbound : (plan.unbind .file store).Admitted limits := admitted.setIndex .file plan.place _
  have sameFiles : (plan.unbind .file store).files = store.files :=
    Store.files_setIndex store .file plan.place _
  rw [← sameFiles]
  exact unbound.eraseFile plan.id

theorem Store.Admitted.deleteDir {path : String} {removed : Removed}
    (done : (store.deleteDir limits path).result = .ok removed) :
    (store.deleteDir limits path).store.Admitted limits := by
  rw [Store.deleteDir_eq_after] at done ⊢
  obtain ⟨plan, -, done, same⟩ := Outcome.exists_plan_of_after done
  rw [same, (Store.writeDir_eq_without done).1]
  exact (admitted.setIndex .dir plan.place _).without removed

theorem Store.Admitted.updateEpoch {epoch : Value} {nothing : Unit}
    (done : (store.updateEpoch epoch).result = .ok nothing) :
    (store.updateEpoch epoch).store.Admitted limits := by
  rw [Store.updateEpoch_eq_after] at done ⊢
  obtain ⟨number, checked, -, same⟩ := Outcome.exists_plan_of_after done
  rw [same]
  exact { admitted with epoch := (checkWord_eq_ok_iff.mp checked).2 }

theorem Mutation.admitted_apply {m : Mutation} {effect : Effect} (intact : store.Intact)
    (done : (m.apply limits reading store).result = .ok effect) :
    (m.apply limits reading store).store.Admitted limits := by
  cases m with
  | createFile path spec =>
    obtain ⟨id, created, -⟩ := map_eq_ok_iff.mp done
    exact admitted.createFile created
  | createDir path tags =>
    obtain ⟨id, created, -⟩ := map_eq_ok_iff.mp done
    exact admitted.createDir intact created
  | rename kind source target =>
    obtain ⟨_, renamed, -⟩ := map_eq_ok_iff.mp done
    exact admitted.rename renamed
  | deleteFile path =>
    obtain ⟨id, deleted, -⟩ := map_eq_ok_iff.mp done
    exact admitted.deleteFile deleted
  | deleteDir path =>
    obtain ⟨removed, deleted, -⟩ := map_eq_ok_iff.mp done
    exact admitted.deleteDir deleted
  | updateEpoch epoch =>
    obtain ⟨_, updated, -⟩ := map_eq_ok_iff.mp done
    exact admitted.updateEpoch updated

end Mutations

variable {σ : Type} {fs : FileSystem σ} {world : World σ}

theorem FileSystem.Reachable.admitted (reachable : fs.Reachable world) (stepsOnly : fs.StepsOnly) :
    world.host.committed.Admitted fs.limits :=
  reachable.of_sound stepsOnly
    (fun m _ _ _ sound _ admitted done => m.admitted_apply admitted sound.toIntact done)
      (Store.admitted_empty fs.capacity fs.limits)

theorem committed_passes_checks (fs : FileSystem σ) (stepsOnly : fs.StepsOnly) (world : World σ)
    (reachable : fs.Reachable world) :
    let store := world.host.committed
    (∀ kind place index, store.index kind place = .ok index → ∀ name ∈ index.names,
        name ≠ "" ∧ '/' ∉ name.toList ∧ (Path.byteLength name : Int) ≤ fs.limits.maxStringLen) ∧
      (∀ id record, store.files.get? id = some record → fs.limits.AdmitsFile record) ∧
      (∀ id record, store.dirs.get? id = some record → fs.limits.AdmitsTags record.tags) ∧
      IsWord store.epoch := by
  intro store
  have admitted := reachable.admitted stepsOnly
  refine ⟨?_, fun _ _ found => admitted.files found, fun _ _ found => admitted.dirs found,
    admitted.epoch⟩
  intro kind place index present name member
  obtain ⟨id, bound⟩ := OrderedMap.mem_keys_iff.mp member
  obtain ⟨isName, short⟩ := reachable.named stepsOnly kind place name id
    ((Store.binding?_of_index present name).trans bound)
  exact ⟨isName.1, isName.2, short⟩

/-- A file system in which texts have at most two bytes and there is at most one tag. -/
def FileSystem.terse : FileSystem Notebook :=
  { roomy with limits := ⟨2, 1, some 10, by decide, by decide, by simp⟩ }

theorem FileSystem.stepsOnly_terse : terse.StepsOnly := stepsOnly_roomy

theorem committed_passes_checks_terse :
    let call (m : Mutation) : Step := .call (.mutate none m)
    let steps := [call (.createDir "/d" (.items [.text "ta"])),
      call (.createFile "/d/f" ⟨.items [.text "t"], .int (2 ^ 64 - 1), "re", .int 1, false⟩),
      call (.createFile "/d/g" ⟨.items [.text "t", .text "a"], .int 1, "", .int 0, false⟩),
      call (.updateEpoch (.int (2 ^ 64 - 1))), call (.updateEpoch (.int (2 ^ 64))),
      call (.rename .dir "/d" "/dd"), call (.rename .dir "/dd" "/ddd")]
    let world := (FileSystem.terse.run 0 steps (FileSystem.terse.start ⟨[], 0⟩)).2
    let store := world.host.committed
    FileSystem.terse.StepsOnly ∧ FileSystem.terse.Reachable world ∧ store.epoch = 2 ^ 64 - 1 ∧
      store.rootDirs.names = ["dd"] ∧ store.files.ids = [2] ∧
      (∀ record, store.files.get? 2 = some record → FileSystem.terse.limits.AdmitsFile record) ∧
      IsWord store.epoch := by
  intro call steps world store
  have reachable : FileSystem.terse.Reachable world := FileSystem.terse.reachable_run 0 _ _
  obtain ⟨-, files, -, epoch⟩ :=
    committed_passes_checks FileSystem.terse FileSystem.stepsOnly_terse world reachable
  refine ⟨FileSystem.stepsOnly_terse, reachable, ?_, ?_, ?_, files 2, epoch⟩ <;> decide +kernel

end NameTree
