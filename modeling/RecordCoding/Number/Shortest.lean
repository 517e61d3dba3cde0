/-
The fewest decimal digits that read back to a floating-point number.

`shortest` looks for a decimal `digits * 10 ^ exponent` inside the interval of
reals that round to the given number, on the coarsest power-of-ten grid that
has one, and takes the nearer of two. `Tie` says which of two equally near
decimals is taken.

Design notes:

* The interval is measured in quarters of the number's own last place, so its
  ends are whole numbers also below a power of two, where the spacing halves.
* Only the two neighbours of the number on a grid need a look: an interval
  around the number that meets a grid meets it in one of them.
-/
import RecordCoding.Number.Binary

namespace RecordCoding

/-- The decimal `digits * 10 ^ exponent`. -/
structure Decimal where
  digits : Nat
  exponent : Int
  deriving DecidableEq, Repr

/-- Which of two equally near decimals is taken. -/
inductive Tie
  | upward
  | toEven
  deriving DecidableEq, Repr

namespace Decimal

/-- The decimal digits of a natural number. -/
def digitsOf (n : Nat) : List Char := Nat.toDigits 10 n

/-- Number of decimal digits. -/
def length (n : Nat) : Nat := (digitsOf n).length

/-- Drop up to `fuel` trailing zeros. -/
def trim : Nat → Decimal → Decimal
  | 0, d => d
  | fuel + 1, d =>
    if d.digits ≠ 0 ∧ d.digits % 10 = 0 then trim fuel ⟨d.digits / 10, d.exponent + 1⟩ else d

/-- A positive number with the reals that round to it, as multiples of
`unit`, a positive quotient `unitNum / unitDen`. -/
structure Interval where
  low : Nat
  value : Nat
  high : Nat
  closed : Bool
  unitNum : Nat
  unitDen : Nat

namespace Interval

/-- Whether `num / den` units lie in the interval. -/
def holds (i : Interval) (num den : Nat) : Bool :=
  if i.closed then i.low * den ≤ num && num ≤ i.high * den
  else i.low * den < num && num < i.high * den

/-- The decimal on the grid of `10 ^ exponent` that stands for the interval, if
the grid meets it. -/
def onGrid (i : Interval) (tie : Tie) (exponent : Int) : Option Decimal :=
  let gridNum := Nat.pow 10 exponent.toNat * i.unitDen
  let gridDen := Nat.pow 10 (-exponent).toNat * i.unitNum
  let below := i.value * gridDen / gridNum
  let lowFits := i.holds (below * gridNum) gridDen
  let highFits := i.holds ((below + 1) * gridNum) gridDen
  let twice := 2 * i.value * gridDen
  let middle := (2 * below + 1) * gridNum
  let low : Decimal := ⟨below, exponent⟩
  let high : Decimal := ⟨below + 1, exponent⟩
  match lowFits, highFits with
  | false, false => none
  | true, false => some low
  | false, true => some high
  | true, true =>
    if twice < middle then some low
    else if middle < twice then some high
    else match tie with
      | .upward => some high
      | .toEven => if below % 2 = 0 then some low else some high

/-- The first hit among the grids `exponent`, `exponent - 1`, … -/
def search (i : Interval) (tie : Tie) : Nat → Int → Option Decimal
  | 0, _ => none
  | fuel + 1, exponent =>
    match i.onGrid tie exponent with
    | some d => some d
    | none => i.search tie fuel (exponent - 1)

end Interval

/-- The reals that round to a positive finite pattern, in quarters of its last
place. Below a power of two the neighbour is half as far away. -/
def intervalOf (f : BinaryFormat) (pattern : Nat) : Interval :=
  let (significand, scale) := f.parts pattern
  let near := scale ≠ 0 ∧ significand = Nat.pow 2 f.fractionBits
  { low := 4 * significand - if near then 1 else 2
    value := 4 * significand
    high := 4 * significand + 2
    closed := significand % 2 = 0
    unitNum := Nat.pow 2 scale
    unitDen := Nat.pow 2 (f.leastScale + 2) }

/-- Digits of the fraction looked at when the leading digit is located; no
number of a supported format is below `10 ^ -leadingReach`. -/
def leadingReach : Nat := 400

/-- The grid of the leading digit of a positive number. -/
def leadingExponent (i : Interval) : Int :=
  (length (i.value * i.unitNum * Nat.pow 10 leadingReach / i.unitDen) : Int) - 1 - leadingReach

/-- The shortest decimal for a positive finite pattern: the first grid with a
hit wins, of two hits the nearer. Seventeen digits are always enough. -/
def shortest (f : BinaryFormat) (tie : Tie) (pattern : Nat) : Decimal :=
  let i := intervalOf f pattern
  match i.search tie 20 (leadingExponent i) with
  | some d => trim 20 d
  | none => ⟨0, 0⟩

/-- Decimal text without an exponent: digits, zeros as far as the point needs
them, no trailing zeros and no trailing point. -/
def positional (d : Decimal) : List Char :=
  let digits := digitsOf d.digits
  if 0 ≤ d.exponent then digits ++ List.replicate d.exponent.toNat '0'
  else
    let places := (-d.exponent).toNat
    let padded := List.replicate (places + 1 - digits.length) '0' ++ digits
    padded.take (padded.length - places) ++ '.' :: padded.drop (padded.length - places)

end Decimal

end RecordCoding
