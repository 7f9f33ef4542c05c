import NameTree.Limits
import NameTree.Operation.Outcome
import NameTree.Store.Resolve

/-!
Creating files and directories. All arguments, the path and collisions are checked first, on the
store as it is; the plan that results is then written step by step, and each step can still fail: a
replaced record can be missing, the clock can fail, a container can be full.
-/

namespace NameTree

structure FileSpec where
  tags : Tags
  size : Value
  contentRef : String
  expiry : Value
  overwrite : Bool

structure FileDraft where
  tags : List String
  size : Int
  contentRef : String
  expiry : Int

def FileDraft.stamp (d : FileDraft) (now : Int) : FileRecord :=
  ⟨now, d.tags, d.size, d.contentRef, d.expiry⟩

def FileSpec.check (spec : FileSpec) (limits : Limits) : Except Fault FileDraft := do
  let tags ← limits.checkTags spec.tags
  Path.checkLength "content_ref" limits.maxStringLen spec.contentRef
  let size ← checkWord "size" spec.size
  let expiry ← checkWord "expiry" spec.expiry
  pure ⟨tags, size, spec.contentRef, expiry⟩

/-- A checked file to bind to `leaf` in `index`, the file index at `place`; `replaced` is the file
whose record it drops. -/
structure FilePlan where
  place : Place
  leaf : String
  index : Index
  replaced : Option Int
  draft : FileDraft

structure DirPlan where
  place : Place
  leaf : String
  index : Index
  tags : List String

namespace Store

def planFile (store : Store) (limits : Limits) (path : String) (spec : FileSpec) :
    Except Fault FilePlan := do
  limits.checkPath path
  let draft ← spec.check limits
  let (place, leaf) ← store.locate limits.maxStringLen path
  let index ← store.index .file place
  match index.get? leaf with
  | none => pure ⟨place, leaf, index, none, draft⟩
  | some id =>
    if spec.overwrite then pure ⟨place, leaf, index, some id, draft⟩
    else do
      let existing ← store.listing .file leaf id
      throw (.fileExists path (some existing))

def planDir (store : Store) (limits : Limits) (path : String) (tags : Tags) :
    Except Fault DirPlan := do
  let trimmed := Path.dropFinalSlash path
  limits.checkPath trimmed
  let tags ← limits.checkTags tags
  let (place, leaf) ← store.locate limits.maxStringLen trimmed
  let index ← store.index .dir place
  match index.get? leaf with
  | none => pure ⟨place, leaf, index, tags⟩
  | some id => do
    let existing ← store.listing .dir leaf id
    throw (.dirExists path (some existing))

def dropReplaced (store : Store) : Option Int → Except Fault Store
  | none => .ok store
  | some id =>
    match store.files.remove id with
    | .error fault => .error fault
    | .ok files => .ok { store with files }

end Store

def FilePlan.write (plan : FilePlan) (reading : Option Int) (store : Store) : Outcome Int :=
  match store.dropReplaced plan.replaced with
  | .error fault => .failed fault store
  | .ok cleared =>
    let numbered := cleared.advance
    let id : Int := numbered.counter
    match reading with
    | none => ⟨.error .clockFailed, numbered, 1, []⟩
    | some now =>
      match numbered.files.insert id (plan.draft.stamp now) with
      | .error fault => ⟨.error fault, numbered, 1, []⟩
      | .ok files =>
        let stored := { numbered with files }
        match plan.index.insert plan.leaf id with
        | .error fault => ⟨.error fault, stored, 1, []⟩
        | .ok index => ⟨.ok id, stored.setIndex .file plan.place index, 1, []⟩

/-- As for a file. When the drawn id is that of the parent itself, the new record takes the parent's
place and the binding is lost with the old one. -/
def DirPlan.write (plan : DirPlan) (reading : Option Int) (store : Store) : Outcome Int :=
  let numbered := store.advance
  let id : Int := numbered.counter
  match reading with
  | none => ⟨.error .clockFailed, numbered, 1, []⟩
  | some now =>
    match numbered.dirs.insert id (.make now plan.tags store.capacity) with
    | .error fault => ⟨.error fault, numbered, 1, []⟩
    | .ok dirs =>
      let stored := { numbered with dirs }
      match plan.index.insert plan.leaf id with
      | .error fault => ⟨.error fault, stored, 1, []⟩
      | .ok index =>
        if plan.place = some id then ⟨.ok id, stored, 1, []⟩
        else ⟨.ok id, stored.setIndex .dir plan.place index, 1, []⟩

namespace Store

def createFile (store : Store) (limits : Limits) (reading : Option Int) (path : String)
    (spec : FileSpec) : Outcome Int :=
  match store.planFile limits path spec with
  | .error fault => .failed fault store
  | .ok plan => plan.write reading store

def createDir (store : Store) (limits : Limits) (reading : Option Int) (path : String)
    (tags : Tags) :
    Outcome Int :=
  match store.planDir limits path tags with
  | .error fault => .failed fault store
  | .ok plan => plan.write reading store

end Store
end NameTree
