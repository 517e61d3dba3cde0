/-
Binary floating-point numbers, kept as bit patterns.

A pattern of a `BinaryFormat` (without its sign bit) is read in units of the
least positive number of the format: `magnitude` is a natural number of such
units, and `nearest` is the inverse, rounding a quotient of naturals to the
nearest pattern, ties to even.

Design notes:

* Equality of `Double` is equality of bits, so a NaN equals itself and the two
  zeros differ.
* Every conversion goes through exact natural-number arithmetic; nothing rests
  on the machine's floating-point unit.
* In units of the least positive number the pattern of a value is
  `scale * 2 ^ fractionBits + significand`, for subnormal and normal numbers
  alike, so a significand that rounds up to the next power of two carries into
  the exponent field by itself.
-/

namespace RecordCoding

/-! ### Formats -/

/-- A binary interchange format: the significant bits, the leading one
included, and the width of the exponent field. -/
structure BinaryFormat where
  precision : Nat
  exponentBits : Nat
  deriving DecidableEq, Repr

namespace BinaryFormat

/-- 32-bit numbers. -/
def single : BinaryFormat := ⟨24, 8⟩

/-- 64-bit numbers. -/
def double : BinaryFormat := ⟨53, 11⟩

/-- Width of the stored fraction. -/
def fractionBits (f : BinaryFormat) : Nat := f.precision - 1

/-- The weight of the sign bit. -/
def signWeight (f : BinaryFormat) : Nat := Nat.pow 2 (f.fractionBits + f.exponentBits)

/-- The pattern of positive infinity; larger ones are NaNs. -/
def infinity (f : BinaryFormat) : Nat :=
  (Nat.pow 2 f.exponentBits - 1) * Nat.pow 2 f.fractionBits

/-- The NaN with only the leading fraction bit set. -/
def quietNaN (f : BinaryFormat) : Nat := f.infinity + Nat.pow 2 (f.fractionBits - 1)

/-- The least positive number is `2 ^ -leastScale`. -/
def leastScale (f : BinaryFormat) : Nat := Nat.pow 2 (f.exponentBits - 1) - 2 + f.fractionBits

/-- Significand and scale of an unsigned finite pattern: it stands for
`significand * 2 ^ scale` units of the least positive number. -/
def parts (f : BinaryFormat) (pattern : Nat) : Nat × Nat :=
  let exponent := pattern / Nat.pow 2 f.fractionBits
  let fraction := pattern % Nat.pow 2 f.fractionBits
  if exponent = 0 then (fraction, 0) else (fraction + Nat.pow 2 f.fractionBits, exponent - 1)

/-- An unsigned finite pattern in units of the least positive number. -/
def magnitude (f : BinaryFormat) (pattern : Nat) : Nat :=
  (f.parts pattern).1 * Nat.pow 2 (f.parts pattern).2

/-- `num / den` rounded to the nearest natural number, ties to even. -/
def roundQuotient (num den : Nat) : Nat :=
  let q := num / den
  let r := num % den
  if 2 * r < den then q
  else if den < 2 * r then q + 1
  else if q % 2 = 0 then q else q + 1

/-- The unsigned pattern nearest to `num / den`, ties to even; infinity when
the quotient is beyond the largest finite number. -/
def nearest (f : BinaryFormat) (num den : Nat) : Nat :=
  let units := num * Nat.pow 2 f.leastScale
  let scale := (units / den).log2 + 1 - f.precision
  min f.infinity
    (scale * Nat.pow 2 f.fractionBits + roundQuotient units (den * Nat.pow 2 scale))

/-- The product of two positive finite patterns, rounded. -/
def product (f : BinaryFormat) (a b : Nat) : Nat :=
  f.nearest (f.magnitude a * f.magnitude b) (Nat.pow 2 (2 * f.leastScale))

/-- The quotient of two positive finite patterns, rounded. -/
def quotient (f : BinaryFormat) (a b : Nat) : Nat := f.nearest (f.magnitude a) (f.magnitude b)

end BinaryFormat

/-! ### Doubles and singles -/

/-- A 64-bit floating-point number. -/
structure Double where
  bits : UInt64
  deriving DecidableEq, Repr

/-- A 32-bit floating-point number. -/
structure Single where
  bits : UInt32
  deriving DecidableEq, Repr

namespace Double

/-- The sign bit. -/
def isNegative (x : Double) : Bool := BinaryFormat.double.signWeight ≤ x.bits.toNat

/-- The pattern without the sign bit. -/
def pattern (x : Double) : Nat := x.bits.toNat % BinaryFormat.double.signWeight

def isNaN (x : Double) : Bool := BinaryFormat.double.infinity < x.pattern

def isInfinite (x : Double) : Bool := x.pattern = BinaryFormat.double.infinity

def isFinite (x : Double) : Bool := x.pattern < BinaryFormat.double.infinity

/-- The double with the given sign and unsigned pattern. -/
def ofParts (negative : Bool) (pattern : Nat) : Double :=
  ⟨UInt64.ofNat (pattern + if negative then BinaryFormat.double.signWeight else 0)⟩

/-- The quiet NaN without payload. -/
def nan : Double := ofParts false BinaryFormat.double.quietNaN

/-- The double nearest to a quotient, ties to even. -/
def ofQuotient (negative : Bool) (num den : Nat) : Double :=
  ofParts negative (BinaryFormat.double.nearest num den)

/-- The double nearest to an integer, ties to even. -/
def ofInt (n : Int) : Double := ofQuotient (n < 0) n.natAbs 1

/-- The magnitude of a finite double in units of the least positive one. -/
def magnitude (x : Double) : Nat := BinaryFormat.double.magnitude x.pattern

end Double

namespace Single

/-- The sign bit. -/
def isNegative (x : Single) : Bool := BinaryFormat.single.signWeight ≤ x.bits.toNat

/-- The pattern without the sign bit. -/
def pattern (x : Single) : Nat := x.bits.toNat % BinaryFormat.single.signWeight

/-- The single with the given sign and unsigned pattern. -/
def ofParts (negative : Bool) (pattern : Nat) : Single :=
  ⟨UInt32.ofNat (pattern + if negative then BinaryFormat.single.signWeight else 0)⟩

/-- The quiet NaN without payload. -/
def nan : Single := ofParts false BinaryFormat.single.quietNaN

end Single

/-! ### Between the two formats -/

/-- Every single is a double. A NaN becomes the quiet one. -/
def Single.toDouble (x : Single) : Double :=
  let f := BinaryFormat.single
  if f.infinity < x.pattern then Double.nan
  else if x.pattern = f.infinity then Double.ofParts x.isNegative BinaryFormat.double.infinity
  else Double.ofQuotient x.isNegative (f.magnitude x.pattern) (Nat.pow 2 f.leastScale)

/-- The nearest single, ties to even. A NaN becomes the quiet one. -/
def Double.toSingle (x : Double) : Single :=
  let f := BinaryFormat.single
  if x.isNaN then Single.nan
  else if x.isInfinite then Single.ofParts x.isNegative f.infinity
  else Single.ofParts x.isNegative (f.nearest x.magnitude (Nat.pow 2 BinaryFormat.double.leastScale))

end RecordCoding
