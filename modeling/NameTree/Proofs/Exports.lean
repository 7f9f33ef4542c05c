import NameTree.Proofs.Search
import NameTree.Proofs.Success

/-!
The export of a directory: it is given whenever the directory is bound, because nothing that it
looks up is missing, and it holds exactly what lies under the directory.
-/

namespace NameTree.Store

/-- The export holds what lies under `top`, by ascending id. -/
structure Exports (store : Store) (top : Int) (content : Export) : Prop where
  dirsAscend : (content.dirs.map DirExport.id).Pairwise (· < ·)
  dirs_iff : ∀ id, id ∈ content.dirs.map DirExport.id ↔ store.Under top id
  filesAscend : (content.files.map FileExport.id).Pairwise (· < ·)
  files_iff : ∀ id, id ∈ content.files.map FileExport.id ↔ store.FileUnder top id

/-- Every entry of the export is the record under its id, and the entries are those under
the top. -/
structure Copied (store : Store) (content : Export) : Prop where
  exports : store.Exports content.top content
  dirs : ∀ entry ∈ content.dirs, ∃ record, store.dirs.get? entry.id = some record ∧
    entry = record.toExport entry.id
  files : ∀ file ∈ content.files, store.files.get? file.id = some file.record

variable {store : Store} {limits : Limits} {path leaf : String} {place : Place}
  {index : Index} {id : Int} {content : Export}

theorem exportFile_eq_ok_iff {file : FileExport} :
    store.exportFile id = .ok file ↔ file.id = id ∧ store.files.get? id = some file.record := by
  rw [exportFile, map_eq_ok_iff]
  simp only [Arena.require_eq_ok_iff]
  constructor
  · rintro ⟨record, found, rfl⟩
    exact ⟨rfl, found⟩
  · rintro ⟨rfl, found⟩
    exact ⟨file.record, found, rfl⟩

theorem exportEntry_eq_ok_iff {entry : DirExport} :
    store.exportEntry id = .ok entry ↔ ∃ record, store.dirs.get? id = some record ∧
      entry = record.toExport id := by
  rw [exportEntry, map_eq_ok_iff]
  refine exists_congr fun record => ?_
  rw [Arena.require_eq_ok_iff, eq_comm (a := entry)]

theorem copied_of_exportDir (exported : store.exportDir limits path = .ok content) :
    store.Copied content ∧ ∃ place leaf index,
      Destination store limits .dir (Path.dropFinalSlash path) place leaf index ∧
      index.get? leaf = some content.top := by
  obtain ⟨_, checked, continued⟩ := bind_eq_ok_iff.mp exported
  obtain ⟨⟨place, leaf⟩, located, continued⟩ := bind_eq_ok_iff.mp continued
  obtain ⟨index, present, continued⟩ := bind_eq_ok_iff.mp continued
  cases bound : index.get? leaf with
  | none =>
    simp only [bound] at continued
    cases continued
  | some top =>
    simp only [bound] at continued
    obtain ⟨_, -, continued⟩ := bind_eq_ok_iff.mp continued
    obtain ⟨⟨fileIds, dirIds⟩, searched, continued⟩ := bind_eq_ok_iff.mp continued
    obtain ⟨files, exportedFiles, continued⟩ := bind_eq_ok_iff.mp continued
    obtain ⟨dirs, exportedDirs, same⟩ := bind_eq_ok_iff.mp continued
    cases same
    obtain ⟨filesUnder, -⟩ := mem_of_subtree searched
    obtain ⟨filesAscend, dirsAscend⟩ := pairwise_of_subtree searched
    obtain ⟨fileKeys, eachFile⟩ :=
      of_mapM (fun shown => (exportFile_eq_ok_iff.mp shown).1) exportedFiles
    obtain ⟨dirKeys, eachDir⟩ : dirs.map DirExport.id = insertId top dirIds ∧
        ∀ entry ∈ dirs, store.exportEntry entry.id = .ok entry := by
      refine of_mapM (fun shown => ?_) exportedDirs
      obtain ⟨_, -, rfl⟩ := exportEntry_eq_ok_iff.mp shown
      rfl
    refine ⟨⟨⟨?_, ?_, ?_, ?_⟩, ?_, ?_⟩, place, leaf, index, ⟨checked, located, present⟩, bound⟩
    · rw [dirKeys]
      exact pairwise_insertId dirsAscend
    · intro id
      rw [dirKeys, mem_insertId_of_subtree searched]
    · rw [fileKeys]
      exact filesAscend
    · intro id
      rw [fileKeys, filesUnder]
    · exact fun entry member => exportEntry_eq_ok_iff.mp (eachDir entry member)
    · exact fun file member => (exportFile_eq_ok_iff.mp (eachFile file member)).2

theorem Linked.exists_exportDir (linked : store.Linked)
    (target : Destination store limits .dir (Path.dropFinalSlash path) place leaf index)
    (bound : index.get? leaf = some id) :
    ∃ content, store.exportDir limits path = .ok content ∧ store.Exports id content := by
  have held : id ∈ store.ids .dir := linked.recorded ((target.binding? leaf).trans bound)
  obtain ⟨record, recorded⟩ := mem_ids_dir.mp held
  obtain ⟨fileIds, dirIds, searched⟩ := linked.exists_subtree held
  obtain ⟨files, exportedFiles, -⟩ : ∃ files, fileIds.mapM store.exportFile = .ok files ∧
      files.map FileExport.id = fileIds.map fun fileId => fileId := by
    refine exists_mapM fun fileId member => ?_
    obtain ⟨file, found⟩ :=
      mem_ids_file.mp (linked.mem_ids_of_fileUnder (((mem_of_subtree searched).1 fileId).mp member))
    exact ⟨⟨fileId, file⟩, exportFile_eq_ok_iff.mpr ⟨rfl, found⟩, rfl⟩
  obtain ⟨dirs, exportedDirs, -⟩ : ∃ dirs, (insertId id dirIds).mapM store.exportEntry = .ok dirs ∧
      dirs.map DirExport.id = (insertId id dirIds).map fun dirId => dirId := by
    refine exists_mapM fun dirId member => ?_
    have under := (mem_insertId_of_subtree searched).mp member
    obtain ⟨dir, found⟩ := mem_ids_dir.mp (linked.mem_ids_of_under under held)
    exact ⟨dir.toExport dirId, exportEntry_eq_ok_iff.mpr ⟨dir, found, rfl⟩, rfl⟩
  have exported : store.exportDir limits path = .ok ⟨id, files, dirs⟩ := by
    unfold exportDir
    simp only [target.checked, target.located, target.present, bound,
      Arena.require_eq_ok_iff.mpr recorded, searched, exportedFiles, exportedDirs, bind,
      Except.bind]
    rfl
  exact ⟨⟨id, files, dirs⟩, exported, (copied_of_exportDir exported).1.exports⟩

end NameTree.Store
