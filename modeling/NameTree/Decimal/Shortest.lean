/-!
Binary floating point numbers of 64 bits, kept as their bit pattern, and the shortest decimal that
reads back as the same number.

A finite pattern stands for `mantissa * 2 ^ power`. A decimal reads back when it lies in the
interval of reals that round to that value; its ends belong to the interval when the mantissa is
even.
-/

namespace NameTree.Decimal

structure Binary64 where
  bits : UInt64
  deriving DecidableEq

namespace Binary64

def signed (x : Binary64) : Bool := x.bits >>> 63 == 1

def exponentField (x : Binary64) : Nat := ((x.bits >>> 52) &&& 0x7FF).toNat

def fraction (x : Binary64) : Nat := (x.bits &&& 0xFFFFFFFFFFFFF).toNat

def isNaN (x : Binary64) : Bool := x.exponentField == 0x7FF && x.fraction != 0

def isInfinite (x : Binary64) : Bool := x.exponentField == 0x7FF && x.fraction == 0

def mantissa (x : Binary64) : Nat :=
  if x.exponentField = 0 then x.fraction else x.fraction + 0x10000000000000

def power (x : Binary64) : Int := (max x.exponentField 1 : Nat) - 1075

def isZero (x : Binary64) : Bool := x.mantissa == 0

def isNegative (x : Binary64) : Bool := x.signed && !x.isNaN && !x.isZero

end Binary64

/-- Positive decimals `0.d₁d₂… * 10 ^ point`. -/
structure Digits where
  digits : List Char
  point : Int
  deriving DecidableEq

def scaled (num den : Nat) (shift : Int) : Nat × Nat :=
  (num * Nat.pow 10 shift.toNat, den * Nat.pow 10 (-shift).toNat)

/-- The interval of reals that round to `mantissa * 2 ^ power`, in quarters of the last place. -/
structure Interval where
  low : Nat
  middle : Nat
  high : Nat
  closed : Bool

def Binary64.interval (x : Binary64) : Interval where
  low := 4 * x.mantissa - (if x.fraction = 0 ∧ 1 < x.exponentField then 1 else 2)
  middle := 4 * x.mantissa
  high := 4 * x.mantissa + 2
  closed := x.mantissa % 2 == 0

def Interval.holds (i : Interval) (unit candidate : Nat × Nat) : Bool :=
  let value := candidate.1 * unit.2
  let low := i.low * unit.1 * candidate.2
  let high := i.high * unit.1 * candidate.2
  if i.closed then decide (low ≤ value ∧ value ≤ high) else decide (low < value ∧ value < high)

/-- Twice the distance from the value to `candidate`, against the step to the next candidate: the
lower neighbour is nearer, or as near and even. -/
def takesLower (remainder step lower : Nat) : Bool :=
  decide (2 * remainder < step) || (decide (2 * remainder = step) && lower % 2 == 0)

def search (i : Interval) (unit : Nat × Nat) (point : Int) (count : Nat) : Nat → Digits
  | 0 => ⟨Nat.toDigits 10 0, point⟩
  | fuel + 1 =>
    let shift : Int := count - point
    let (num, den) := scaled (i.middle * unit.1) unit.2 shift
    let lower := num / den
    let upper := lower + 1
    let back (c : Nat) : Nat × Nat := scaled c 1 (-shift)
    let lowerHolds := i.holds unit (back lower)
    let upperHolds := i.holds unit (back upper)
    let chosen : Option Nat :=
      if lowerHolds && upperHolds then
        some (if takesLower (num % den) den lower then lower else upper)
      else if lowerHolds then some lower
      else if upperHolds then some upper
      else none
    match chosen with
    | some c =>
      let digits := Nat.toDigits 10 c
      ⟨digits, point + (digits.length - count : Int)⟩
    | none => search i unit point (count + 1) fuel

def dropTrailingZeros (digits : List Char) : List Char :=
  (digits.reverse.dropWhile (· == '0')).reverse

/-- Seventeen digits always identify a number of 64 bits, so seventeen grids are enough. -/
def shortest (x : Binary64) : Digits :=
  let unit := (1 <<< (x.power - 2).toNat, 1 <<< (2 - x.power).toNat)
  let i := x.interval
  let size := (Nat.toDigits 10 (i.middle * unit.1 * Nat.pow 10 400 / unit.2)).length
  let found := search i unit (size - 400) 1 17
  ⟨dropTrailingZeros found.digits, found.point⟩

structure Layout where
  positionalAbove : Int
  positionalUpTo : Int
  exponentWidth : Nat

def natural : Layout := ⟨-4, 16, 2⟩

def Layout.write (layout : Layout) (d : Digits) : List Char :=
  if layout.positionalAbove < d.point ∧ d.point ≤ layout.positionalUpTo then
    if d.point ≤ 0 then '0' :: '.' :: List.replicate (-d.point).toNat '0' ++ d.digits
    else
      let before := d.point.toNat
      if d.digits.length ≤ before then
        d.digits ++ List.replicate (before - d.digits.length) '0' ++ ['.', '0']
      else d.digits.take before ++ '.' :: d.digits.drop before
  else
    let exponent := d.point - 1
    let tail := if d.digits.length ≤ 1 then [] else '.' :: d.digits.drop 1
    d.digits.take 1 ++ tail ++ 'e' :: (if exponent < 0 then '-' else '+') ::
      (Nat.toDigits 10 exponent.natAbs).leftpad layout.exponentWidth '0'

def Binary64.text (x : Binary64) : String :=
  let sign := if x.signed then "-" else ""
  if x.isNaN then "nan"
  else if x.isInfinite then sign ++ "inf"
  else if x.isZero then sign ++ "0.0"
  else sign ++ String.ofList (natural.write (shortest x))

example : Binary64.text ⟨0xBFE0000000000000⟩ = "-0.5" := by decide +kernel
example : Binary64.text ⟨0x3FB999999999999A⟩ = "0.1" := by decide +kernel
example : Binary64.text ⟨0x0000000000000001⟩ = "5e-324" := by decide +kernel
example : Binary64.text ⟨0x4341C37937E08000⟩ = "1e+16" := by decide +kernel

end NameTree.Decimal
