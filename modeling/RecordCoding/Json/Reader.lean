/-
Reading JSON text into a value tree.

Beyond the grammar of JSON, an object must not repeat a key, an integer has to
fit in 64 bits with a sign unless it is so large that it counts as a double, and
arrays and objects nest to a limited depth. A fault has a cause and a place in
the text, counted in bytes.

Design notes:

* The reader works on the characters that are left and counts the bytes it has
  taken; lines and columns are worked out from the count when a fault is shown.
* A fault that a byte shows is placed right behind that byte, whether it was
  taken or only looked at, and even in the middle of a character.
* An entry's value is read before its key is compared with the earlier ones.
-/
import RecordCoding.Json.Number

namespace RecordCoding

namespace Json

/-! ### Faults -/

/-- What is wrong with a text. -/
inductive Cause
  | endInArray
  | endInObject
  | endInString
  | endInValue
  | expectedColon
  | expectedCommaOrBracket
  | expectedCommaOrBrace
  | expectedIdentifier
  | expectedValue
  | invalidEscape
  | invalidNumber
  | numberOutOfRange
  | controlCharacter
  | keyNotString
  | loneSurrogate
  | trailingComma
  | trailingCharacters
  | unfinishedEscape
  | tooDeep
  | integerTooLarge (n : Nat)
  | duplicateKey (key : String)
  deriving DecidableEq, Repr, Inhabited

def Cause.message : Cause → String
  | .endInArray => "EOF while parsing a list"
  | .endInObject => "EOF while parsing an object"
  | .endInString => "EOF while parsing a string"
  | .endInValue => "EOF while parsing a value"
  | .expectedColon => "expected `:`"
  | .expectedCommaOrBracket => "expected `,` or `]`"
  | .expectedCommaOrBrace => "expected `,` or `\x7d`"
  | .expectedIdentifier => "expected ident"
  | .expectedValue => "expected value"
  | .invalidEscape => "invalid escape"
  | .invalidNumber => "invalid number"
  | .numberOutOfRange => "number out of range"
  | .controlCharacter => "control character (\\u0000-\\u001F) found while parsing a string"
  | .keyNotString => "key must be a string"
  | .loneSurrogate => "lone leading surrogate in hex escape"
  | .trailingComma => "trailing comma"
  | .trailingCharacters => "trailing characters"
  | .unfinishedEscape => "unexpected end of hex escape"
  | .tooDeep => "recursion limit exceeded"
  | .integerTooLarge n => s!"integer {n} does not fit in i64"
  | .duplicateKey key => s!"duplicate key '{key}'"

/-- A cause and how many bytes lie before its place. -/
structure Fault where
  cause : Cause
  offset : Nat
  deriving DecidableEq, Repr, Inhabited

/-- Line, from 1, and column, from 0, after the first `offset` bytes. -/
def lineColumn : List Char → Nat → Nat × Nat → Nat × Nat
  | [], _, at_ => at_
  | c :: rest, offset, (line, column) =>
    if offset = 0 then (line, column)
    else if c = '\n' then lineColumn rest (offset - 1) (line + 1, 0)
    else lineColumn rest (offset - c.utf8Size) (line, column + min offset c.utf8Size)

/-! ### Input -/

/-- The characters left and the number of bytes before them. -/
structure Input where
  rest : List Char
  offset : Nat
  deriving Repr, Inhabited

namespace Input

/-- The input after one more character. -/
def skip (i : Input) : Input :=
  match i.rest with
  | [] => i
  | c :: rest => ⟨rest, i.offset + c.utf8Size⟩

/-- A fault right after what was taken. -/
def fault (i : Input) (cause : Cause) : Fault := ⟨cause, i.offset⟩

/-- A fault that the next byte shows, if there is one: it lies behind that byte. -/
def faultAhead (i : Input) (cause : Cause) : Fault :=
  ⟨cause, if i.rest.isEmpty then i.offset else i.offset + 1⟩

/-- The number of bytes left. -/
def bytesLeft (i : Input) : Nat := i.rest.foldl (fun bytes c => bytes + c.utf8Size) 0

end Input

/-- White space of JSON. -/
def isBlank (c : Char) : Bool := c = ' ' || c = '\n' || c = '\t' || c = '\r'

/-- The input after white space. -/
def skipBlanks : List Char → Nat → Input
  | [], offset => ⟨[], offset⟩
  | c :: rest, offset => if isBlank c then skipBlanks rest (offset + 1) else ⟨c :: rest, offset⟩

/-- The input after white space. -/
def Input.trimmed (i : Input) : Input := skipBlanks i.rest i.offset

/-- What reading yields: a result and the input after it. -/
abbrev Step (α : Type) := Except Fault (α × Input)

/-! ### Words and numbers -/

/-- Take the given characters. -/
def readWord : List Char → Input → Step Unit
  | [], i => .ok ((), i)
  | c :: cs, i =>
    match i.rest with
    | [] => .error (i.fault .endInValue)
    | d :: _ => if d = c then readWord cs i.skip else .error (i.faultAhead .expectedIdentifier)

/-- The greatest number of digits' worth that is kept. -/
def digitLimit : Nat := Nat.pow 2 64

/-- The value of a decimal digit. -/
def digitValue (c : Char) : Nat := c.toNat - '0'.toNat

/-- Drop decimal digits. -/
def dropDigits : List Char → Nat → Input
  | [], offset => ⟨[], offset⟩
  | c :: rest, offset => if c.isDigit then dropDigits rest (offset + 1) else ⟨c :: rest, offset⟩

/-- Take digits while the number stays below the limit: the number, how many
digits were taken, the input after them and whether one more digit would have
been too much. -/
def takeDigits (limit : Nat) : List Char → Nat → Nat → Nat → Nat × Nat × Input × Bool
  | [], offset, number, count => (number, count, ⟨[], offset⟩, false)
  | c :: rest, offset, number, count =>
    if c.isDigit then
      if limit ≤ number * 10 + digitValue c then (number, count, ⟨c :: rest, offset⟩, true)
      else takeDigits limit rest (offset + 1) (number * 10 + digitValue c) (count + 1)
    else (number, count, ⟨c :: rest, offset⟩, false)

/-- The double of digits and an exponent, as a tree. -/
def finishDouble (negative : Bool) (digits : Nat) (exponent : Int) (i : Input) : Step Tree :=
  match readDouble negative digits exponent with
  | some x => .ok (.double x, i)
  | none => .error (i.fault .numberOutOfRange)

/-- The limit of a written exponent. -/
def exponentLimit : Nat := Nat.pow 2 31

/-- The exponent of a number, after its `e`. An exponent beyond its limit is a
fault at once, unless the number is zero or the exponent negative. -/
def readExponent (negative : Bool) (digits : Nat) (start : Int) (i : Input) : Step Tree :=
  let (down, i) :=
    match i.rest with
    | '+' :: _ => (false, i.skip)
    | '-' :: _ => (true, i.skip)
    | _ => (false, i)
  match i.rest with
  | [] => .error (i.fault .endInValue)
  | c :: _ =>
    if !c.isDigit then .error (i.faultAhead .invalidNumber)
    else
      let (e, _, i, exceeded) := takeDigits exponentLimit i.rest i.offset 0 0
      if exceeded then
        if digits ≠ 0 ∧ !down then .error (i.faultAhead .numberOutOfRange)
        else .ok (.double (Double.ofParts negative 0), dropDigits i.rest i.offset)
      else finishDouble negative digits (if down then start - e else start + e) i

/-- The end of a number whose fraction has been read. -/
def readTail (negative : Bool) (digits : Nat) (exponent : Int) (i : Input) : Step Tree :=
  match i.rest with
  | 'e' :: _ | 'E' :: _ => readExponent negative digits exponent i.skip
  | _ => finishDouble negative digits exponent i

/-- The fraction of a number, after its point. Digits beyond the limit are
dropped. -/
def readFraction (negative : Bool) (digits : Nat) (exponent : Int) (i : Input) : Step Tree :=
  let (digits, count, i, exceeded) := takeDigits digitLimit i.rest i.offset digits 0
  let exponent := exponent - count
  if exceeded then readTail negative digits exponent (dropDigits i.rest i.offset)
  else if count = 0 then
    if i.rest.isEmpty then .error (i.faultAhead .endInValue)
    else .error (i.faultAhead .invalidNumber)
  else readTail negative digits exponent i

/-- An integer with a sign. Zero and numbers below the range of integers become
doubles if negative. -/
def finishInteger (negative : Bool) (n : Nat) (i : Input) : Step Tree :=
  if negative then
    if n = 0 ∨ Nat.pow 2 63 < n then .ok (.double (Double.ofQuotient true n 1), i)
    else .ok (.integer (Int64.ofInt (-n)), i)
  else if n < Nat.pow 2 63 then .ok (.integer (Int64.ofInt n), i)
  else .error (i.fault (.integerTooLarge n))

/-- What follows the digits before the point. -/
def readNumberTail (negative : Bool) (digits : Nat) (i : Input) : Step Tree :=
  match i.rest with
  | '.' :: _ => readFraction negative digits 0 i.skip
  | 'e' :: _ | 'E' :: _ => readExponent negative digits 0 i.skip
  | _ => finishInteger negative digits i

/-- A number, after its sign. Integers of too many digits count as doubles. -/
def readNumber (negative : Bool) (i : Input) : Step Tree :=
  match i.rest with
  | [] => .error (i.fault .endInValue)
  | '0' :: _ =>
    let after := i.skip
    match after.rest with
    | c :: _ =>
      if c.isDigit then .error (after.faultAhead .invalidNumber)
      else readNumberTail negative 0 after
    | [] => readNumberTail negative 0 after
  | c :: _ =>
    if !c.isDigit then .error (i.faultAhead .invalidNumber)
    else
      let (digits, _, after, exceeded) := takeDigits digitLimit i.rest i.offset 0 0
      if !exceeded then readNumberTail negative digits after
      else
        let finished := dropDigits after.rest after.offset
        let dropped : Int := (finished.offset : Int) - after.offset
        match finished.rest with
        | '.' :: _ => readFraction negative digits dropped finished.skip
        | 'e' :: _ | 'E' :: _ => readExponent negative digits dropped finished.skip
        | _ => finishDouble negative digits dropped finished

/-! ### Strings -/

/-- Four hexadecimal digits. The fault for other characters lies after four
bytes. -/
def readHex (i : Input) : Step Nat :=
  if i.bytesLeft < 4 then .error ⟨.endInString, i.offset + i.bytesLeft⟩
  else
    match i.rest with
    | a :: b :: c :: d :: rest =>
      match CharClass.hexValue? a, CharClass.hexValue? b, CharClass.hexValue? c, CharClass.hexValue? d with
      | some a, some b, some c, some d =>
        .ok (((a * 16 + b) * 16 + c) * 16 + d, ⟨rest, i.offset + 4⟩)
      | _, _, _, _ => .error ⟨.invalidEscape, i.offset + 4⟩
    | _ => .error ⟨.invalidEscape, i.offset + 4⟩

/-- Take one given character of the second half of a pair of escapes. -/
def readPairMark (mark : Char) (i : Input) : Step Unit :=
  match i.rest with
  | [] => .error (i.fault .endInString)
  | c :: _ => if c = mark then .ok ((), i.skip) else .error ⟨.unfinishedEscape, i.offset + 1⟩

/-- A code point in hexadecimal digits, or a pair of surrogates. -/
def readCode (i : Input) : Except Fault (Char × Input) := do
  let (n, i) ← readHex i
  if 0xDC00 ≤ n ∧ n ≤ 0xDFFF then .error (i.fault .loneSurrogate)
  else if n < 0xD800 ∨ 0xDBFF < n then .ok (Char.ofNat n, i)
  else
    let ((), i) ← readPairMark '\\' i
    let ((), i) ← readPairMark 'u' i
    let (m, i) ← readHex i
    if m < 0xDC00 ∨ 0xDFFF < m then .error (i.fault .loneSurrogate)
    else .ok (Char.ofNat ((n - 0xD800) * 0x400 + (m - 0xDC00) + 0x10000), i)

/-- The character of an escape, after its backslash. -/
def readEscape (i : Input) : Step Char :=
  match i.rest with
  | [] => .error (i.fault .endInString)
  | c :: _ =>
    let i := i.skip
    if c = '"' ∨ c = '\\' ∨ c = '/' then .ok (c, i)
    else if c = 'b' then .ok ('\x08', i)
    else if c = 'f' then .ok ('\x0c', i)
    else if c = 'n' then .ok ('\n', i)
    else if c = 'r' then .ok ('\r', i)
    else if c = 't' then .ok ('\t', i)
    else if c = 'u' then readCode i
    else .error ⟨.invalidEscape, i.offset - c.utf8Size + 1⟩

/-- The rest of a string, after its opening quotation mark. `fuel` bounds the
number of characters. -/
def readString : Nat → List Char → Input → Step String
  | 0, _, i => .error (i.fault .endInString)
  | fuel + 1, done, i =>
    match i.rest with
    | [] => .error (i.fault .endInString)
    | '"' :: _ => .ok (String.ofList done.reverse, i.skip)
    | '\\' :: _ =>
      match readEscape i.skip with
      | .error f => .error f
      | .ok (c, i) => readString fuel (c :: done) i
    | c :: _ =>
      if c.toNat < 0x20 then .error (i.faultAhead .controlCharacter)
      else readString fuel (c :: done) i.skip

/-! ### Values -/

/-- Arrays and objects that may stand inside one another. -/
def depthLimit : Nat := 127

/-- Where the fault of a repeated key lies: behind the object's end if it comes
next. -/
def closeAfterFault (i : Input) : Input :=
  match i.trimmed.rest with
  | '\x7d' :: _ => i.trimmed.skip
  | _ => i.trimmed

mutual

/-- A value inside at most `depth` arrays and objects. `fuel` bounds the number
of parts. -/
def readValue : Nat → Nat → Input → Step Tree
  | 0, _, i => .error (i.fault .endInValue)
  | fuel + 1, depth, i =>
    let i := i.trimmed
    match i.rest with
    | [] => .error (i.faultAhead .endInValue)
    | 'n' :: _ => (readWord "ull".toList i.skip).map fun (_, i) => (.null, i)
    | 't' :: _ => (readWord "rue".toList i.skip).map fun (_, i) => (.bool true, i)
    | 'f' :: _ => (readWord "alse".toList i.skip).map fun (_, i) => (.bool false, i)
    | '-' :: _ => readNumber true i.skip
    | '"' :: _ => (readString (i.rest.length + 1) [] i.skip).map fun (s, i) => (.text s, i)
    | '[' :: _ =>
      match depth with
      | 0 => .error (i.faultAhead .tooDeep)
      | depth + 1 =>
        (readItems fuel depth true i.skip).map fun (items, i) => (.array items, i)
    | '\x7b' :: _ =>
      match depth with
      | 0 => .error (i.faultAhead .tooDeep)
      | depth + 1 =>
        (readEntries fuel depth [] i.skip).map fun (entries, i) => (.object entries, i)
    | c :: _ => if c.isDigit then readNumber false i else .error (i.faultAhead .expectedValue)

/-- The elements of an array from here to its end; `first` if none was read. -/
def readItems : Nat → Nat → Bool → Input → Step (List Tree)
  | 0, _, _, i => .error (i.fault .endInArray)
  | fuel + 1, depth, first, i =>
    let i := i.trimmed
    match i.rest with
    | [] => .error (i.faultAhead .endInArray)
    | ']' :: _ => .ok ([], i.skip)
    | c :: _ =>
      let start : Except Fault Input :=
        if first then .ok i
        else if c = ',' then
          let next := i.skip.trimmed
          match next.rest with
          | ']' :: _ => .error (next.faultAhead .trailingComma)
          | _ => .ok next
        else .error (i.faultAhead .expectedCommaOrBracket)
      match start with
      | .error f => .error f
      | .ok i =>
        match readValue fuel depth i with
        | .error f => .error f
        | .ok (t, i) =>
          match readItems fuel depth false i with
          | .error f => .error f
          | .ok (ts, i) => .ok (t :: ts, i)

/-- The entries of an object from here to its end, behind those already read. -/
def readEntries : Nat → Nat → List (String × Tree) → Input → Step (List (String × Tree))
  | 0, _, _, i => .error (i.fault .endInObject)
  | fuel + 1, depth, done, i =>
    let i := i.trimmed
    match i.rest with
    | [] => .error (i.faultAhead .endInObject)
    | '\x7d' :: _ => .ok (done, i.skip)
    | c :: _ =>
      let start : Except Fault Input :=
        if done.isEmpty then
          if c = '"' then .ok i else .error (i.faultAhead .keyNotString)
        else if c = ',' then
          let next := i.skip.trimmed
          match next.rest with
          | '"' :: _ => .ok next
          | '\x7d' :: _ => .error (next.faultAhead .trailingComma)
          | [] => .error (next.faultAhead .endInValue)
          | _ => .error (next.faultAhead .keyNotString)
        else .error (i.faultAhead .expectedCommaOrBrace)
      match start with
      | .error f => .error f
      | .ok i =>
        match readString (i.rest.length + 1) [] i.skip with
        | .error f => .error f
        | .ok (key, i) =>
          let i := i.trimmed
          match i.rest with
          | ':' :: _ =>
            match readValue fuel depth i.skip with
            | .error f => .error f
            | .ok (t, i) =>
              if done.any (·.1 == key) then
                .error ((closeAfterFault i).fault (.duplicateKey key))
              else readEntries fuel depth (done ++ [(key, t)]) i
          | [] => .error (i.faultAhead .endInObject)
          | _ => .error (i.faultAhead .expectedColon)

end

/-- The value at the beginning of a text. -/
def readFirst (text : List Char) : Step Tree := readValue (2 * text.length + 2) depthLimit ⟨text, 0⟩

/-- Nothing but white space may follow a value. -/
def readEnd (i : Input) : Except Fault Unit :=
  if i.trimmed.rest.isEmpty then .ok ()
  else .error (i.trimmed.faultAhead .trailingCharacters)

/-- The tree of a whole text. -/
def read (text : List Char) : Except Fault Tree := do
  let (t, i) ← readFirst text
  readEnd i
  return t

/-- The message of a fault, with its place in the text. -/
def Fault.message (f : Fault) (text : List Char) : String :=
  let (line, column) := lineColumn text f.offset (1, 0)
  s!"{f.cause.message} at line {line} column {column}"

end Json

end RecordCoding
