import NameTree.Limits
import NameTree.Store.Resolve
import NameTree.Store.Subtree

/-!
Reading: one entry, the entries of a directory, and the export of a whole subtree.
-/

namespace NameTree

structure FileExport where
  id : Int
  record : FileRecord
  deriving DecidableEq

structure DirExport where
  id : Int
  createTs : Int
  tags : List String
  fileNames : List String
  fileIds : List Int
  dirNames : List String
  dirIds : List Int
  deriving DecidableEq

/-- A flat copy of a subtree, files and directories by ascending id. -/
structure Export where
  top : Int
  files : List FileExport
  dirs : List DirExport
  deriving DecidableEq

def DirRecord.toExport (id : Int) (r : DirRecord) : DirExport :=
  ⟨id, r.createTs, r.tags, r.files.names, r.files.ids, r.dirs.names, r.dirs.ids⟩

namespace Store

/-- A file hides a directory of the same name. -/
def stat (store : Store) (limits : Limits) (path : String) : Except Fault Listing := do
  let trimmed := Path.dropFinalSlash path
  limits.checkPath trimmed
  let (place, leaf) ← store.locate limits.maxStringLen trimmed
  let (files, dirs) ← store.indexes place
  match files.get? leaf with
  | some id => store.listing .file leaf id
  | none =>
    match dirs.get? leaf with
    | some id => store.listing .dir leaf id
    | none => throw (.notFound path)

def listings (store : Store) (kind : Kind) (index : Index) : Except Fault (List Listing) :=
  index.toList.mapM fun binding => store.listing kind binding.1 binding.2

def listDir (store : Store) (limits : Limits) (path : String) : Except Fault (List Listing) := do
  let full := Path.addFinalSlash path
  limits.checkPath full
  let (files, dirs) ← store.children limits.maxStringLen full
  let shownDirs ← store.listings .dir dirs
  let shownFiles ← store.listings .file files
  pure (shownDirs ++ shownFiles)

def exportFile (store : Store) (id : Int) : Except Fault FileExport :=
  (store.files.require id).map (FileExport.mk id)

def exportEntry (store : Store) (id : Int) : Except Fault DirExport :=
  (store.dirs.require id).map (DirRecord.toExport id)

def exportDir (store : Store) (limits : Limits) (path : String) : Except Fault Export := do
  let trimmed := Path.dropFinalSlash path
  limits.checkPath trimmed
  let (place, leaf) ← store.locate limits.maxStringLen trimmed
  let index ← store.index .dir place
  match index.get? leaf with
  | none => throw (.notFound path)
  | some id => do
    let _ ← store.dirs.require id
    let (fileIds, dirIds) ← store.subtree id
    let files ← fileIds.mapM store.exportFile
    let dirs ← (insertId id dirIds).mapM store.exportEntry
    pure ⟨id, files, dirs⟩

end Store
end NameTree
