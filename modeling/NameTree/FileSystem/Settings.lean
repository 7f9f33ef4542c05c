import NameTree.Decimal.Shortest
import NameTree.Limits

/-!
The settings of a file system, refused when a capacity, a time-out or a limit is out of range.
-/

namespace NameTree

inductive Timeout where
  | whole (seconds : Int)
  | fractional (seconds : Decimal.Binary64)
  deriving DecidableEq

namespace Timeout

def isNegative : Timeout → Bool
  | .whole seconds => decide (seconds < 0)
  | .fractional seconds => seconds.isNegative

def text : Timeout → String
  | .whole seconds => toString seconds
  | .fractional seconds => seconds.text

end Timeout

structure Settings where
  owner : Option String
  capacity : Option Int
  limits : Limits
  capacity_nonneg : ∀ given ∈ capacity, 0 ≤ given

namespace Settings

def checkTimeout : Option Timeout → Except Fault Unit
  | none => .ok ()
  | some given => if given.isNegative then .error (.negativeTimeout given.text) else .ok ()

def make (owner : Option String) (capacity : Option Int) (timeout : Option Timeout)
    (maxStringLen maxTags : Int) (maxPathLen : Option Int) : Except Fault Settings :=
  match capacity with
  | none => do
    checkTimeout timeout
    let limits ← Limits.make maxStringLen maxTags maxPathLen
    pure ⟨owner, none, limits, by simp⟩
  | some given =>
    if usable : 0 ≤ given then do
      checkTimeout timeout
      let limits ← Limits.make maxStringLen maxTags maxPathLen
      pure ⟨owner, some given, limits, by simpa using usable⟩
    else .error (.negativeCapacity given)

end Settings
end NameTree
