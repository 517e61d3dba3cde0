/-
The printed form of a value tree, as error messages show it.

Strings and keys are quoted, doubles are written out in the fewest digits that
read back and never with an exponent, and the parts of arrays and objects are
parted by a comma and a space.
-/
import RecordCoding.Number.Shortest
import RecordCoding.Text.Quoted
import RecordCoding.Tree.Basic

namespace RecordCoding

/-- A double in positional decimal notation. Of two equally near shortest
decimals the larger is taken; a whole number has no point. -/
def Double.printed (x : Double) : List Char :=
  if x.isNaN then "NaN".toList
  else
    let magnitude :=
      if x.isInfinite then "inf".toList
      else if x.pattern = 0 then ['0']
      else Decimal.positional (Decimal.shortest .double .upward x.pattern)
    if x.isNegative then '-' :: magnitude else magnitude

/-- An integer in decimal. -/
def printedInt (n : Int) : List Char :=
  if n < 0 then '-' :: Decimal.digitsOf n.natAbs else Decimal.digitsOf n.natAbs

namespace Tree

mutual

/-- The printed form as a list of characters. -/
def chars : Tree → List Char
  | .null => "null".toList
  | .bool b => if b then "true".toList else "false".toList
  | .integer n => printedInt n.toInt
  | .double x => x.printed
  | .text s => Text.quoted s
  | .array items => '[' :: charsOfItems items ++ [']']
  | .object entries => '\x7b' :: charsOfEntries entries ++ ['\x7d']

/-- The elements of an array, parted by commas. -/
def charsOfItems : List Tree → List Char
  | [] => []
  | [t] => chars t
  | t :: rest => chars t ++ ',' :: ' ' :: charsOfItems rest

/-- The entries of an object, parted by commas. -/
def charsOfEntries : List (String × Tree) → List Char
  | [] => []
  | [(k, t)] => Text.quoted k ++ ':' :: ' ' :: chars t
  | (k, t) :: rest => Text.quoted k ++ ':' :: ' ' :: chars t ++ ',' :: ' ' :: charsOfEntries rest

end

/-- The printed form. -/
def printed (t : Tree) : String := String.ofList t.chars

end Tree

end RecordCoding
