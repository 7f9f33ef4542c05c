import NameTree.Path
import NameTree.Value

/-!
Limits of a namespace and the checks of arguments against them.
-/

namespace NameTree

def defaultMaxStringLen : Int := 64

def defaultMaxTags : Int := 5

def defaultMaxPathLen : Int := 5 * defaultMaxStringLen

def maxWord : Int := 0xFFFFFFFFFFFFFFFF

structure Limits where
  maxStringLen : Int
  maxTags : Int
  maxPathLen : Option Int
  maxStringLen_pos : 0 < maxStringLen
  maxTags_nonneg : 0 ≤ maxTags
  maxPathLen_pos : ∀ given ∈ maxPathLen, 0 < given

namespace Limits

def default : Limits :=
  ⟨defaultMaxStringLen, defaultMaxTags, none, by decide, by decide, by simp⟩

def make (maxStringLen maxTags : Int) (maxPathLen : Option Int) : Except Fault Limits :=
  if positive : 0 < maxStringLen then
    if nonneg : 0 ≤ maxTags then
      match maxPathLen with
      | none => .ok ⟨maxStringLen, maxTags, none, positive, nonneg, by simp⟩
      | some given =>
        if usable : 0 < given then
          .ok ⟨maxStringLen, maxTags, some given, positive, nonneg, by simpa using usable⟩
        else .error (.pathLimit given)
    else .error (.tagLimit maxTags)
  else .error (.textLimit maxStringLen)

/-- The longest path in bytes: five texts of full length unless it is given. -/
def pathLen (l : Limits) : Int := l.maxPathLen.getD (5 * l.maxStringLen)

theorem pathLen_pos (l : Limits) : 0 < l.pathLen := by
  unfold pathLen
  cases given : l.maxPathLen with
  | none =>
    have positive := l.maxStringLen_pos
    simp only [Option.getD_none]
    omega
  | some length => exact l.maxPathLen_pos length given

def checkPath (l : Limits) (path : String) : Except Fault Unit := Path.check l.pathLen path

theorem checkPath_root (l : Limits) : l.checkPath "/" = .ok () := by
  have positive := l.pathLen_pos
  have single : (Path.byteLength "/" : Int) = 1 := rfl
  have short : ¬ l.pathLen < Path.byteLength "/" := by omega
  simp [checkPath, Path.check, Path.flaw?, Path.hasEmptyComponent, short]

end Limits

def checkTag (maxLen : Int) : Value → Except Fault String
  | .text content => do
    Path.checkLength "tag" maxLen content
    pure content
  | value => .error (.tagType value.typeName)

def checkTags (maxTags maxLen : Int) : Tags → Except Fault (List String)
  | .bare content => .error (.bareTags content)
  | .items values =>
    if maxTags < values.length then .error (.tooManyTags values.length maxTags)
    else values.mapM (checkTag maxLen)

def checkWord (field : String) : Value → Except Fault Int
  | .int number =>
    if number < 0 ∨ maxWord < number then .error (.numberRange field number) else .ok number
  | value => .error (.numberType field value.typeName)

def Limits.checkTags (l : Limits) (tags : Tags) : Except Fault (List String) :=
  NameTree.checkTags l.maxTags l.maxStringLen tags

end NameTree
