/-
Literals of Rust code: where one ends, and what a string literal stands for.

`Literal.end?` finds the end of a literal at the head of a text, whatever its
kind: strings, byte and zero-terminated strings, raw ones, characters, bytes,
numbers with a fraction or an exponent, integers, each with an optional suffix.
`Literal.string?` reads the content of a string literal.

Design notes:

* A function whose name ends in `?` gives the rest of the text, and `none` if
  the text does not open with what it looks for.
* The readers of quoted bodies recurse on fuel, which the length of the text
  bounds, since a body may skip white space behind a backslash.
-/
import RecordCoding.Text.CharClass
import RecordCoding.Code.Token

namespace RecordCoding

namespace Literal

/-! ### Small pieces -/

/-- The rest behind a given beginning. -/
def behind? (start : String) (text : List Char) : Option (List Char) :=
  if start.toList.isPrefixOf text then some (text.drop start.length) else none

/-- The rest behind a name. -/
def name? : List Char → Option (List Char)
  | c :: rest => if CharClass.opensName c then some (rest.dropWhile CharClass.continuesName) else none
  | [] => none

/-- The rest behind a suffix, which may be absent. -/
def suffix (text : List Char) : List Char := (name? text).getD text

/-- Two hexadecimal digits: their value and the rest. -/
def hexPair? : List Char → Option (Nat × List Char)
  | a :: b :: rest => do
    let x ← CharClass.hexValue? a
    let y ← CharClass.hexValue? b
    pure (16 * x + y, rest)
  | _ => none

/-- The digits of a code point up to the closing brace, at most six, with
underscores between them: its value and the rest. -/
def codePoint? (value digits : Nat) : List Char → Option (Nat × List Char)
  | [] => none
  | c :: rest =>
    if c = '_' && digits > 0 then codePoint? value digits rest
    else if c = '\x7d' && digits > 0 then some (value, rest)
    else
      match CharClass.hexValue? c with
      | some d => if digits = 6 then none else codePoint? (16 * value + d) (digits + 1) rest
      | none => none

/-- A code point in braces, which has to be a character. -/
def braced? : List Char → Option (Char × List Char)
  | '\x7b' :: rest => do
    let (n, rest) ← codePoint? 0 0 rest
    if n.isValidChar then pure (Char.ofNat n, rest) else none
  | _ => none

/-! ### Quoted literals -/

/-- What a kind of quoted literal may hold. -/
structure Quotation where
  /-- `\x` escapes are limited to values below 128. -/
  ascii : Bool
  /-- `\u` escapes are allowed. -/
  unicode : Bool
  /-- The NUL character is allowed. -/
  nul : Bool
  /-- Characters beyond 127 are allowed. -/
  wide : Bool

namespace Quotation

def string : Quotation := ⟨true, true, true, true⟩
def bytes : Quotation := ⟨false, false, true, false⟩
def terminated : Quotation := ⟨false, true, false, true⟩

end Quotation

/-- The rest behind an escape other than a line break, without its backslash. -/
def escape? (q : Quotation) : List Char → Option (List Char)
  | 'x' :: rest => do
    let (n, rest) ← hexPair? rest
    if (q.ascii && n ≥ 128) || (!q.nul && n = 0) then none else pure rest
  | 'u' :: rest => do
    let (c, rest) ← if q.unicode then braced? rest else none
    if !q.nul && c = '\x00' then none else pure rest
  | c :: rest =>
    if c = 'n' || c = 'r' || c = 't' || c = '\\' || c = '\'' || c = '"' then some rest
    else if c = '0' && q.nul then some rest
    else none
  | [] => none

/-- The rest behind the white space that a backslash at the end of a line
skips; a carriage return must belong to a line break, and the text must go
on. -/
def skippedLine? : List Char → Option (List Char)
  | '\r' :: '\n' :: rest => skippedLine? rest
  | '\r' :: _ => none
  | c :: rest =>
    if c = ' ' || c = '\t' || c = '\n' then skippedLine? rest else some (c :: rest)
  | [] => none

/-- The rest behind the closing quotation mark. -/
def quotedEnd? (q : Quotation) : Nat → List Char → Option (List Char)
  | 0, _ => none
  | _ + 1, [] => none
  | _ + 1, '"' :: rest => some rest
  | fuel + 1, '\r' :: '\n' :: rest => quotedEnd? q fuel rest
  | _ + 1, '\r' :: _ => none
  | fuel + 1, '\\' :: '\n' :: rest => (skippedLine? rest).bind (quotedEnd? q fuel)
  | fuel + 1, '\\' :: '\r' :: rest => (skippedLine? ('\r' :: rest)).bind (quotedEnd? q fuel)
  | fuel + 1, '\\' :: rest => (escape? q rest).bind (quotedEnd? q fuel)
  | fuel + 1, c :: rest =>
    if (!q.wide && c.toNat ≥ 128) || (!q.nul && c = '\x00') then none else quotedEnd? q fuel rest

/-- The number of marks that open a raw literal, and the rest behind its
quotation mark. -/
def rawOpening? (text : List Char) : Option (Nat × List Char) :=
  let marks := text.takeWhile (· = '#')
  match text.dropWhile (· = '#') with
  | '"' :: rest => if marks.length ≤ 255 then some (marks.length, rest) else none
  | _ => none

/-- The rest behind the end of a raw literal opened with so many marks. -/
def rawEnd? (q : Quotation) (marks : Nat) : List Char → Option (List Char)
  | [] => none
  | '\r' :: '\n' :: rest => rawEnd? q marks rest
  | '\r' :: _ => none
  | c :: rest =>
    if c = '"' && (List.replicate marks '#').isPrefixOf rest then some (rest.drop marks)
    else if (!q.wide && c.toNat ≥ 128) || (!q.nul && c = '\x00') then none
    else rawEnd? q marks rest

/-- The rest behind a quoted literal: cooked behind `cooked`, raw behind
`raw`. -/
def quoted? (q : Quotation) (cooked raw : String) (text : List Char) : Option (List Char) :=
  match behind? cooked text with
  | some rest => (quotedEnd? q (text.length + 1) rest).map suffix
  | none => do
    let rest ← behind? raw text
    let (marks, rest) ← rawOpening? rest
    (rawEnd? q marks rest).map suffix

/-- The rest behind a character or byte between apostrophes. -/
def single? (q : Quotation) (opening : String) (text : List Char) : Option (List Char) := do
  let rest ← behind? opening text
  let rest ←
    match rest with
    | '\\' :: rest => escape? q rest
    | c :: rest => if !q.wide && c.toNat ≥ 128 then none else some rest
    | [] => none
  (behind? "'" rest).map suffix

/-! ### Numbers -/

def isDigit (c : Char) : Bool := '0' ≤ c && c ≤ '9'

/-- The rest behind the suffix of a number, which no letter may follow. -/
def numberEnd? (text : List Char) : Option (List Char) :=
  match suffix text with
  | c :: rest => if CharClass.continuesName c then none else some (c :: rest)
  | [] => some []

/-- The digits and underscores of a fraction or whole number. -/
def digitRun (text : List Char) : List Char := text.dropWhile fun c => isDigit c || c = '_'

/-- The rest behind an exponent without its letter, and whether it has a
digit; two signs make it void. -/
def exponent? (signed valued : Bool) : List Char → Option (List Char)
  | [] => if valued then some [] else none
  | c :: rest =>
    if c = '+' || c = '-' then
      if valued then some (c :: rest) else if signed then none else exponent? true valued rest
    else if isDigit c then exponent? signed true rest
    else if c = '_' then exponent? signed valued rest
    else if valued then some (c :: rest)
    else none

/-- The rest behind the digits of a number with a point or an exponent. -/
def fractionDigits? (text : List Char) : Option (List Char) :=
  match text with
  | c :: _ =>
    if !isDigit c then none
    else
      match digitRun text with
      | '.' :: rest =>
        match rest with
        | d :: _ =>
          if d = '.' || CharClass.opensName d then none
          else
            let rest := digitRun rest
            match rest with
            | e :: more =>
              if e = 'e' || e = 'E' then some ((exponent? false false more).getD rest) else some rest
            | [] => some rest
        | [] => some rest
      | e :: more => if e = 'e' || e = 'E' then exponent? false false more else none
      | [] => none
  | [] => none

def fraction? (text : List Char) : Option (List Char) := (fractionDigits? text).bind numberEnd?

/-- The rest behind the digits of an integer in a base; an underscore may not
come first in base ten, and a decimal digit beyond the base voids it. -/
def integerDigits? (base : Nat) (empty : Bool) : List Char → Option (List Char)
  | [] => if empty then none else some []
  | c :: rest =>
    if isDigit c then
      if c.toNat - 48 ≥ base then none else integerDigits? base false rest
    else if c = '_' then
      if empty && base = 10 then none else integerDigits? base empty rest
    else
      match CharClass.hexValue? c with
      | some d => if d < base then integerDigits? base false rest
        else if empty then none else some (c :: rest)
      | none => if empty then none else some (c :: rest)

def integer? (text : List Char) : Option (List Char) := do
  let rest ←
    match text with
    | '0' :: 'x' :: rest => integerDigits? 16 true rest
    | '0' :: 'o' :: rest => integerDigits? 8 true rest
    | '0' :: 'b' :: rest => integerDigits? 2 true rest
    | _ => integerDigits? 10 true text
  numberEnd? rest

/-- Whether an `e` in front of this opens an exponent: a sign, or digits. -/
def opensExponent (digit : Bool) : List Char → Bool
  | [] => digit
  | c :: rest =>
    if c = '_' then opensExponent digit rest
    else if c = '+' || c = '-' then true
    else if isDigit c then opensExponent true rest
    else digit

/-- The value of the digits of a whole number, whether there is one, and the
rest; a point or an exponent makes it a fraction. -/
def wholeDigits? (base value : Nat) (digit : Bool) : List Char → Option (Nat × Bool × List Char)
  | [] => some (value, digit, [])
  | c :: rest =>
    if c = '_' then wholeDigits? base value digit rest
    else if base = 10 && (c = '.' || ((c = 'e' || c = 'E') && opensExponent false rest)) then none
    else if isDigit c then wholeDigits? base (base * value + (c.toNat - 48)) true rest
    else
      match CharClass.hexValue? c with
      | some d =>
        if base = 16 then wholeDigits? base (base * value + d) true rest
        else some (value, digit, c :: rest)
      | none => some (value, digit, c :: rest)

/-- The value and the suffix of a literal, if it is a whole number. -/
def whole? (text : String) : Option (Nat × String) := do
  let (value, digit, rest) ←
    match text.toList with
    | '0' :: 'x' :: rest => wholeDigits? 16 0 false rest
    | '0' :: 'o' :: rest => wholeDigits? 8 0 false rest
    | '0' :: 'b' :: rest => wholeDigits? 2 0 false rest
    | c :: rest => if isDigit c then wholeDigits? 10 0 false (c :: rest) else none
    | [] => none
  if digit then pure (value, String.ofList rest) else none

/-- Whether a literal is a number with a point or an exponent. -/
def isFraction (text : String) : Bool :=
  match text.toList with
  | c :: _ => isDigit c && (whole? text).isNone
  | [] => false

/-! ### Any literal -/

/-- The rest of a text behind the literal it opens with. -/
def end? (text : List Char) : Option (List Char) :=
  quoted? .string "\"" "r" text
  <|> quoted? .bytes "b\"" "br" text
  <|> quoted? .terminated "c\"" "cr" text
  <|> single? .bytes "b'" text
  <|> single? .string "'" text
  <|> fraction? text
  <|> integer? text

/-! ### The content of a string literal -/

/-- The content of a cooked string up to its quotation mark, and what stands
behind it. -/
def content (acc : List Char) : Nat → List Char → List Char × List Char
  | 0, text => (acc.reverse, text)
  | _ + 1, [] => (acc.reverse, [])
  | _ + 1, '"' :: rest => (acc.reverse, rest)
  | fuel + 1, '\r' :: '\n' :: rest => content ('\n' :: acc) fuel rest
  | fuel + 1, '\\' :: c :: rest =>
    match c with
    | 'n' => content ('\n' :: acc) fuel rest
    | 'r' => content ('\r' :: acc) fuel rest
    | 't' => content ('\t' :: acc) fuel rest
    | '0' => content ('\x00' :: acc) fuel rest
    | 'x' =>
      match hexPair? rest with
      | some (n, rest) => content (Char.ofNat n :: acc) fuel rest
      | none => (acc.reverse, rest)
    | 'u' =>
      match braced? rest with
      | some (d, rest) => content (d :: acc) fuel rest
      | none => (acc.reverse, rest)
    | '\n' => content acc fuel (rest.dropWhile CharClass.blank)
    | '\r' => content acc fuel (rest.dropWhile CharClass.blank)
    | c => content (c :: acc) fuel rest
  | fuel + 1, c :: rest => content (c :: acc) fuel rest

/-- The content and the suffix of a literal token, if it is a plain string,
cooked or raw. -/
def string? (text : String) : Option (String × String) :=
  match text.toList with
  | '"' :: rest =>
    let (inner, suffix) := content [] (rest.length + 1) rest
    some (String.ofList inner, String.ofList suffix)
  | 'r' :: rest => do
    let (marks, body) ← rawOpening? rest
    let after ← rawEnd? .string marks body
    pure (String.ofList (body.take (body.length - after.length - marks - 1)), String.ofList after)
  | _ => none

end Literal

end RecordCoding
