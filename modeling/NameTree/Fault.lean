import NameTree.Record

/-!
Why an operation fails: one constructor per cause, with the wording in `Fault.message`.
-/

namespace NameTree

inductive PathFlaw where
  | empty
  | longerThan (limit : Int)
  | relative
  | emptyComponent
  | noComponents
  | stated (reason : String)
  deriving DecidableEq

def PathFlaw.reason : PathFlaw → String
  | .empty => "empty path"
  | .longerThan limit => "longer than " ++ toString limit ++ " bytes"
  | .relative => "must start with '/'"
  | .emptyComponent => "contains an empty component"
  | .noComponents => "no components"
  | .stated reason => reason

inductive Fault where
  | malformedPath (path : String) (flaw : PathFlaw)
  | rootOperation (path : String)
  | notFound (path : String)
  | fileExists (path : String) (existing : Option Listing)
  | dirExists (path : String) (existing : Option Listing)
  | mismatch (id : Int) (arena : String)
  | cycle (id : Int)
  | tooManyTags (count limit : Int)
  | textTooLong (field : String) (length limit : Int)
  | renameMismatch (source target : String)
  | unauthorized (caller : Option String)
  | capacityExceeded (container : String) (current limit : Int)
  | bareTags (content : String)
  | tagType (typeName : String)
  | numberType (field typeName : String)
  | numberRange (field : String) (number : Int)
  | textLimit (given : Int)
  | tagLimit (given : Int)
  | pathLimit (given : Int)
  | negativeCapacity (given : Int)
  | negativeTimeout (given : String)
  | negativeCounter (given : Int)
  | lockUnavailable
  | clockFailed
  | assertionFailed
  | raised (reason : String)
  | nestedTooDeep
  | endlessWalk (path : String)
  deriving DecidableEq

namespace Fault

def rootReason : String := "operation not permitted on the root"

/-- The kind of failure under which a caller sees the cause. -/
def kind : Fault → String
  | .malformedPath _ _ => "AFSPathError"
  | .rootOperation _ => "AFSRootOperationError"
  | .notFound _ => "AFSPathNotFoundError"
  | .fileExists _ _ => "AFSFileExistsError"
  | .dirExists _ _ => "AFSDirectoryExistsError"
  | .mismatch _ _ => "AFSArenaMismatchError"
  | .cycle _ => "AFSCycleError"
  | .tooManyTags _ _ => "AFSTooManyTagsError"
  | .textTooLong _ _ _ => "AFSStringTooLongError"
  | .renameMismatch _ _ => "AFSRenamePathMismatchError"
  | .unauthorized _ => "AFSUnauthorizedError"
  | .capacityExceeded _ _ _ => "AFSCapacityExceededError"
  | .bareTags _ => "TypeError"
  | .tagType _ => "TypeError"
  | .numberType _ _ => "TypeError"
  | .numberRange _ _ => "ValueError"
  | .textLimit _ => "ValueError"
  | .tagLimit _ => "ValueError"
  | .pathLimit _ => "ValueError"
  | .negativeCapacity _ => "ValueError"
  | .negativeTimeout _ => "ValueError"
  | .negativeCounter _ => "ValueError"
  | .lockUnavailable => "BlockingIOError"
  | .clockFailed => "RuntimeError"
  | .assertionFailed => "AssertionError"
  | .raised _ => "RuntimeError"
  | .nestedTooDeep => "RuntimeError"
  | .endlessWalk _ => "RuntimeError"

def pathMessage (path reason : String) : String :=
  "Invalid path " ++ Text.quoted path ++ ": " ++ reason ++ "."

def message : Fault → String
  | .malformedPath path flaw => pathMessage path flaw.reason
  | .rootOperation path => pathMessage path rootReason
  | .notFound path => "Path not found: '" ++ path ++ "'"
  | .fileExists path _ => "File already exists: '" ++ path ++ "'"
  | .dirExists path _ => "Directory already exists: '" ++ path ++ "'"
  | .mismatch id arena =>
    "Arena mismatch: id " ++ toString id ++ " is not present in the " ++ arena ++ " arena."
  | .cycle id =>
    "Directory id " ++ toString id ++ " reached more than once (cycle or shared child)."
  | .tooManyTags count limit =>
    "Too many tags: " ++ toString count ++ " given, at most " ++ toString limit ++ " allowed."
  | .textTooLong field length limit =>
    "String too long for field " ++ Text.quoted field ++ ": " ++ toString length ++
      " bytes, max " ++ toString limit ++ "."
  | .renameMismatch source target =>
    "Rename paths must share a parent directory: '" ++ source ++ "' -> '" ++ target ++ "'"
  | .unauthorized caller =>
    "Unauthorized operation for caller " ++ Text.quotedOption caller ++ "."
  | .capacityExceeded container current limit =>
    "AFS capacity exceeded for " ++ container ++ ": current " ++ toString current ++
      " entries, limit is " ++ toString limit ++ "."
  | .bareTags content =>
    "tags must be a collection of str, not a bare str: " ++ Text.quoted content
  | .tagType typeName => "tag must be str, not " ++ typeName
  | .numberType field typeName => field ++ " must be an int, got " ++ typeName
  | .numberRange field number => field ++ " out of range: " ++ toString number
  | .textLimit given => "max_string_len must be positive, got " ++ toString given
  | .tagLimit given => "max_tags cannot be negative, got " ++ toString given
  | .pathLimit given => "max_path_len must be positive, got " ++ toString given
  | .negativeCapacity given => "Invalid capacity: " ++ toString given ++ ". Expected None or >= 0."
  | .negativeTimeout given => "Invalid lock_timeout: " ++ given ++ "."
  | .negativeCounter given => "Id counter cannot start below zero: " ++ toString given
  | .lockUnavailable => "Could not acquire namespace lock within timeout."
  | .clockFailed => "clock failed"
  | .assertionFailed => ""
  | .raised reason => reason
  | .nestedTooDeep => "calls from listeners are nested too deeply"
  | .endlessWalk path => "walk does not end below " ++ Text.quoted path

def describe (f : Fault) : String := f.kind ++ "(" ++ Text.quoted f.message ++ ")"

/-- Faults that a question about existence answers with "no": the path is not found or
not admissible. -/
def meansAbsent : Fault → Bool
  | .notFound _ => true
  | .malformedPath _ _ => true
  | .rootOperation _ => true
  | .tooManyTags _ _ => true
  | .textTooLong _ _ _ => true
  | .renameMismatch _ _ => true
  | .numberRange _ _ => true
  | .textLimit _ => true
  | .tagLimit _ => true
  | .pathLimit _ => true
  | .negativeCapacity _ => true
  | .negativeTimeout _ => true
  | .negativeCounter _ => true
  | _ => false

/-- Faults that signal a defect of the store and not an error of the caller. -/
def isInternal : Fault → Bool
  | .mismatch _ _ => true
  | .cycle _ => true
  | .assertionFailed => true
  | _ => false

end Fault

instance decidableEqResult {α : Type} [DecidableEq α] : DecidableEq (Except Fault α)
  | .ok a, .ok b => decidable_of_iff (a = b) (by simp)
  | .error a, .error b => decidable_of_iff (a = b) (by simp)
  | .ok _, .error _ => isFalse (by simp)
  | .error _, .ok _ => isFalse (by simp)

end NameTree
