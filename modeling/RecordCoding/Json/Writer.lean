/-
Writing a value tree as JSON text, on one line or indented.

Entries keep their order. A string is written as it is apart from the quotation
mark, the backslash and the control characters below the space.
-/
import RecordCoding.Json.Number

namespace RecordCoding

namespace Json

/-- A character as it stands in a JSON string. -/
def escape (c : Char) : List Char :=
  if c = '"' then ['\\', '"']
  else if c = '\\' then ['\\', '\\']
  else if c = '\x08' then ['\\', 'b']
  else if c = '\x0c' then ['\\', 'f']
  else if c = '\n' then ['\\', 'n']
  else if c = '\r' then ['\\', 'r']
  else if c = '\t' then ['\\', 't']
  else if c.toNat < 0x20 then
    ['\\', 'u', '0', '0', Nat.digitChar (c.toNat / 16), Nat.digitChar (c.toNat % 16)]
  else [c]

/-- A JSON string. -/
def stringText (s : String) : List Char := '"' :: s.toList.flatMap escape ++ ['"']

/-- How the parts of arrays and objects are set apart. -/
structure Style where
  /-- What precedes a part at the given depth. -/
  lead : Nat → List Char
  /-- What stands between a key and its value. -/
  colon : List Char

/-- No space at all. -/
def Style.compact : Style := ⟨fun _ => [], [':']⟩

/-- Each part on a line of its own, indented by two spaces for every level. -/
def Style.pretty : Style :=
  ⟨fun depth => '\n' :: List.replicate (2 * depth) ' ', [':', ' ']⟩

mutual

/-- The text of a tree at a depth. -/
def textAt (style : Style) (depth : Nat) : Tree → List Char
  | .null => "null".toList
  | .bool b => if b then "true".toList else "false".toList
  | .integer n => printedInt n.toInt
  | .double x => doubleText x
  | .text s => stringText s
  | .array [] => "[]".toList
  | .array (t :: rest) =>
    '[' :: textOfItems style (depth + 1) (t :: rest) ++ style.lead depth ++ [']']
  | .object [] => ['\x7b', '\x7d']
  | .object (entry :: rest) =>
    '\x7b' :: textOfEntries style (depth + 1) (entry :: rest) ++ style.lead depth ++ ['\x7d']

/-- The elements of an array, each with its lead. -/
def textOfItems (style : Style) (depth : Nat) : List Tree → List Char
  | [] => []
  | [t] => style.lead depth ++ textAt style depth t
  | t :: rest => style.lead depth ++ textAt style depth t ++ ',' :: textOfItems style depth rest

/-- The entries of an object, each with its lead. -/
def textOfEntries (style : Style) (depth : Nat) : List (String × Tree) → List Char
  | [] => []
  | [(k, t)] => style.lead depth ++ stringText k ++ style.colon ++ textAt style depth t
  | (k, t) :: rest =>
    style.lead depth ++ stringText k ++ style.colon ++ textAt style depth t ++
      ',' :: textOfEntries style depth rest

end

/-- A tree as JSON text. -/
def write (style : Style) (t : Tree) : String := String.ofList (textAt style 0 t)

end Json

end RecordCoding
