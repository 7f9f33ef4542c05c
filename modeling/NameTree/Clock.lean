/-!
Clocks. A clock gives its readings by the number of the call, counted from 0, and `none` for a call
that fails; failed calls count.
-/

namespace NameTree

abbrev Clock := Nat → Option Int

namespace Clock

/-- Starts at `start`, moves by `step` with every call, and fails at the calls in `failing`. -/
def stepping (start step : Int) (failing : List Nat) : Clock := fun call =>
  if call ∈ failing then none else some (start + step * call)

/-- Whole seconds as milliseconds: the fraction of a second is dropped before scaling. -/
def wholeSeconds (nanoseconds : Nat) : Int := (nanoseconds / 1000000000 : Nat) * 1000

def stopped (now : Int) : Clock := fun _ => some now

end Clock
end NameTree
