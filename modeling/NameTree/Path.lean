import NameTree.Fault

/-!
Paths as texts: the final slash, components, byte lengths, and the checks a path has to pass.
-/

namespace NameTree.Path

def endsWithSlash (path : String) : Bool := path.toList.getLast? == some '/'

/-- Drops one final slash; the root stays as it is. -/
def dropFinalSlash (path : String) : String :=
  if path ≠ "/" ∧ endsWithSlash path = true then String.ofList path.toList.dropLast else path

def addFinalSlash (path : String) : String :=
  if endsWithSlash path then path else path ++ "/"

def splitSlash : List Char → List (List Char)
  | [] => [[]]
  | c :: rest =>
    if c = '/' then [] :: splitSlash rest
    else
      match splitSlash rest with
      | [] => [[c]]
      | piece :: pieces => (c :: piece) :: pieces

def components (path : String) : List String :=
  ((splitSlash path.toList).filter (fun piece => !piece.isEmpty)).map String.ofList

def child (dir name : String) : String :=
  String.ofList (dir.toList.reverse.dropWhile (· == '/')).reverse ++ "/" ++ name

def byteLength (text : String) : Nat := text.utf8ByteSize

def hasEmptyComponent : List Char → Bool
  | [] => false
  | c :: rest => (c == '/' && rest.head? == some '/') || hasEmptyComponent rest

/-- The first flaw of a path, in the order in which they are looked for. -/
def flaw? (limit : Int) (path : String) : Option PathFlaw :=
  if path.toList = [] then some .empty
  else if limit < byteLength path then some (.longerThan limit)
  else if path.toList.head? ≠ some '/' then some .relative
  else if hasEmptyComponent path.toList then some .emptyComponent
  else none

def check (limit : Int) (path : String) : Except Fault Unit :=
  match flaw? limit path with
  | some flaw => .error (.malformedPath path flaw)
  | none => .ok ()

def checkLength (field : String) (limit : Int) (text : String) : Except Fault Unit :=
  if limit < byteLength text then .error (.textTooLong field (byteLength text) limit) else .ok ()

def checkComponents (limit : Int) (names : List String) : Except Fault Unit :=
  names.forM (checkLength "path component" limit)

theorem splitSlash_ne_nil (chars : List Char) : splitSlash chars ≠ [] := by
  induction chars with
  | nil => simp [splitSlash]
  | cons c rest ih =>
    by_cases slash : c = '/'
    · simp [splitSlash, slash]
    · simp only [splitSlash, slash, if_false]
      split <;> simp

example : components "/a//b/" = ["a", "b"] := by decide +kernel
example : dropFinalSlash "//" = "/" := by decide +kernel
example : addFinalSlash "" = "/" := by decide +kernel
example : child "/" "a" = "/a" := by decide +kernel
example : child "/d/" "a" = "/d/a" := by decide +kernel

end NameTree.Path
