import NameTree.Limits
import NameTree.Operation.Outcome
import NameTree.Store.Resolve

/-!
Renaming within one directory. The id stays, the name moves to the end of the index.
-/

namespace NameTree

def Kind.existsFault (kind : Kind) (path : String) (existing : Listing) : Fault :=
  match kind with
  | .file => .fileExists path (some existing)
  | .dir => .dirExists path (some existing)

structure RenamePlan where
  place : Place
  index : Index
  oldName : String
  newName : String

namespace Store

def locatePair (store : Store) (limits : Limits) (source target : String) :
    Except Fault (Place × String × String) := do
  let from_ := Path.dropFinalSlash source
  let to_ := Path.dropFinalSlash target
  limits.checkPath from_
  limits.checkPath to_
  let (oldPlace, oldName) ← store.locate limits.maxStringLen from_
  let (newPlace, newName) ← store.locate limits.maxStringLen to_
  if oldPlace = newPlace then pure (oldPlace, oldName, newName)
  else throw (.renameMismatch source target)

def planRename (store : Store) (limits : Limits) (kind : Kind) (source target : String) :
    Except Fault RenamePlan := do
  let (place, oldName, newName) ← store.locatePair limits source target
  let index ← store.index kind place
  if index.contains oldName then
    match index.get? newName with
    | none => pure ⟨place, index, oldName, newName⟩
    | some taken => do
      let existing ← store.listing kind newName taken
      throw (kind.existsFault target existing)
  else throw (.notFound source)

end Store

def RenamePlan.write (plan : RenamePlan) (kind : Kind) (store : Store) : Outcome Unit :=
  let without := plan.index.erase plan.oldName
  match plan.index.get? plan.oldName with
  | none => .failed .assertionFailed (store.setIndex kind plan.place without)
  | some id =>
    match without.insert plan.newName id with
    | .error fault => .failed fault (store.setIndex kind plan.place without)
    | .ok index => .done () (store.setIndex kind plan.place index)

def Store.rename (store : Store) (limits : Limits) (kind : Kind) (source target : String) :
    Outcome Unit :=
  match store.planRename limits kind source target with
  | .error fault => .failed fault store
  | .ok plan => plan.write kind store

end NameTree
