/-
Numbers of JSON text.

A double is written in the fewest digits that read back, in positional notation
as long as its decimal exponent stays between -5 and 15 and always with a
point, otherwise with an exponent. A number that is read keeps at most 64 bits
of digits, and its power of ten is applied by one rounded multiplication or
division, or by several where it is far below the range.
-/
import RecordCoding.Number.Shortest
import RecordCoding.Tree.Printed

namespace RecordCoding

namespace Json

/-! ### Writing -/

/-- The text of a positive decimal whose first digit stands for
`10 ^ scientific`. -/
def decimalText (d : Decimal) : List Char :=
  let digits := Decimal.digitsOf d.digits
  let scientific : Int := d.exponent + digits.length - 1
  if -5 ≤ scientific ∧ scientific ≤ 15 then
    Decimal.positional d ++ if 0 ≤ d.exponent then ['.', '0'] else []
  else
    let mantissa :=
      match digits with
      | first :: second :: more => first :: '.' :: second :: more
      | short => short
    let sign := if scientific < 0 then '-' else '+'
    mantissa ++ 'e' :: sign :: Decimal.digitsOf scientific.natAbs

/-- The text of a double: `null` unless it is finite. -/
def doubleText (x : Double) : List Char :=
  if !x.isFinite then "null".toList
  else
    let magnitude :=
      if x.pattern = 0 then "0.0".toList
      else decimalText (Decimal.shortest .double .toEven x.pattern)
    if x.isNegative then '-' :: magnitude else magnitude

/-! ### Reading -/

/-- The largest power of ten that is a finite double. -/
def largestPower : Nat := 308

/-- The pattern of the double nearest to a power of ten. -/
def powerOfTen (k : Nat) : Nat := BinaryFormat.double.nearest (Nat.pow 10 k) 1

/-- The pattern of `pattern * 10 ^ exponent`; none beyond the largest finite
number. Far below the range the number is divided by the largest power until it
is in reach or zero, at most `fuel` times. -/
def scaled : Nat → Nat → Int → Option Nat
  | 0, _, _ => some 0
  | fuel + 1, pattern, exponent =>
    if exponent.natAbs ≤ largestPower then
      if 0 ≤ exponent then
        let p := BinaryFormat.double.product pattern (powerOfTen exponent.toNat)
        if p = BinaryFormat.double.infinity then none else some p
      else some (BinaryFormat.double.quotient pattern (powerOfTen exponent.natAbs))
    else if pattern = 0 then some 0
    else if 0 ≤ exponent then none
    else
      scaled fuel (BinaryFormat.double.quotient pattern (powerOfTen largestPower))
        (exponent + largestPower)

/-- The double `± digits * 10 ^ exponent` as it is read; none beyond the
largest finite number. Three divisions take every number to zero. -/
def readDouble (negative : Bool) (digits : Nat) (exponent : Int) : Option Double :=
  (scaled 6 (BinaryFormat.double.nearest digits 1) exponent).map (Double.ofParts negative)

end Json

end RecordCoding
