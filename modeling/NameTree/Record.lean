import NameTree.Text.Quoted

/-!
What the namespace keeps of a file, and the listing under which a file or a directory is shown.
Files and directories are known by integer ids.
-/

namespace NameTree

/-- A directory by its id; `none` is the root, which has no record. -/
abbrev Place := Option Int

structure FileRecord where
  createTs : Int
  tags : List String
  size : Int
  contentRef : String
  expiry : Int
  deriving DecidableEq

structure Listing where
  name : String
  createTs : Int
  isDir : Bool
  tags : List String
  size : Int
  contentRef : String
  expiry : Int
  deriving DecidableEq

namespace FileRecord

def listing (name : String) (r : FileRecord) : Listing :=
  ⟨name, r.createTs, false, r.tags, r.size, r.contentRef, r.expiry⟩

def describe (r : FileRecord) : String :=
  "FileRecord(create_ts=" ++ toString r.createTs ++ ", tags=" ++ Text.quotedTuple r.tags ++
    ", size=" ++ toString r.size ++ ", content_ref=" ++ Text.quoted r.contentRef ++
    ", expiry=" ++ toString r.expiry ++ ")"

end FileRecord

def Listing.fileRecord (l : Listing) : FileRecord :=
  ⟨l.createTs, l.tags, l.size, l.contentRef, l.expiry⟩

end NameTree
