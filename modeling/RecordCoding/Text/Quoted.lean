/-
Quoted text: a string between quotation marks, with backslash escapes.

`quoted` is the form in which messages and printed trees show a string: every
character that would not be seen as itself is escaped. `literal` is the same
form as a string literal of Rust source, where an escaped NUL must not run into
a digit behind it.

Design notes:

* A character is escaped on its own, so `quoted` is a concatenation of
  `escape`s; only `literal` looks at the character behind.
* An apostrophe stands for itself in both.
-/
import RecordCoding.Text.CharClass

namespace RecordCoding

namespace Text

/-- The hexadecimal digits of a number, in lower case. -/
def hexDigits (n : Nat) : List Char := Nat.toDigits 16 n

/-- A code point in braces, as in `\u` escapes. -/
def codeEscape (c : Char) : List Char :=
  ['\\', 'u', '\x7b'] ++ hexDigits c.toNat ++ ['\x7d']

/-- A character as it stands in quoted text. -/
def escape (c : Char) : List Char :=
  if c = '"' then ['\\', '"']
  else if c = '\\' then ['\\', '\\']
  else if c = '\n' then ['\\', 'n']
  else if c = '\r' then ['\\', 'r']
  else if c = '\t' then ['\\', 't']
  else if c = '\x00' then ['\\', '0']
  else if CharClass.extendsGrapheme c || !CharClass.printable c then codeEscape c
  else [c]

/-- Quoted text. -/
def quoted (s : String) : List Char := '"' :: s.toList.flatMap escape ++ ['"']

/-- The body of a string literal: a NUL before an octal digit is written in
two hexadecimal digits. -/
def literalBody : List Char → List Char
  | [] => []
  | c :: rest =>
    let written :=
      match c, rest with
      | '\x00', d :: _ => if '0' ≤ d && d ≤ '7' then ['\\', 'x', '0', '0'] else escape c
      | _, _ => escape c
    written ++ literalBody rest

/-- A string literal of Rust source with the given content. -/
def literal (s : String) : String := String.ofList ('"' :: literalBody s.toList ++ ['"'])

end Text

end RecordCoding
