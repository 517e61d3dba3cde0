/-
From text to token trees.

`TokenTree.scan` scans a whole text before anything of it is read as code. It
fails at the one place where the text is no sequence of tokens: the innermost
bracket that is never closed, a closing bracket without its partner, or the
first character that opens no token.

Design notes:

* A documentation comment stands for the attribute `#[doc = "..."]`; its tokens
  all lie where the comment begins. Other comments are blank.
* The loop recurses on fuel, which the length of the text bounds: every round
  takes at least one character.
-/
import RecordCoding.Text.Quoted
import RecordCoding.Code.Literal

namespace RecordCoding

namespace TokenTree

/-! ### Blanks and comments -/

/-- White space between tokens, direction marks included. -/
def blank (c : Char) : Bool :=
  c = ' ' || ('\t' ≤ c && c ≤ '\r') || CharClass.blank c || c = '\u200e' || c = '\u200f'

/-- The rest of the line, and the text from its line feed on. -/
def restOfLine : List Char → List Char × List Char
  | [] => ([], [])
  | '\n' :: rest => ([], '\n' :: rest)
  | '\r' :: '\n' :: rest => ([], '\n' :: rest)
  | c :: rest =>
    let (line, after) := restOfLine rest
    (c :: line, after)

/-- The rest behind the end of a block comment that is so deep. -/
def commentEnd? : Nat → List Char → Option (List Char)
  | depth, '/' :: '*' :: rest => commentEnd? (depth + 1) rest
  | depth, '*' :: '/' :: rest => if depth ≤ 1 then some rest else commentEnd? (depth - 1) rest
  | depth, _ :: rest => commentEnd? depth rest
  | _, [] => none

/-- Whether a text begins with the given characters. -/
def opens (start : String) (text : List Char) : Bool := start.toList.isPrefixOf text

/-- The rest behind one comment that is no documentation. -/
def comment? (text : List Char) : Option (List Char) :=
  if opens "//" text then
    if (opens "///" text && !opens "////" text) || opens "//!" text then none
    else some (restOfLine text).2
  else if opens "/**/" text then some (text.drop 4)
  else if opens "/*" text then
    if (opens "/**" text && !opens "/***" text) || opens "/*!" text then none
    else commentEnd? 0 text
  else none

/-- The rest behind all white space and comments. -/
def skipBlank : Nat → List Char → List Char
  | 0, text => text
  | _ + 1, [] => []
  | fuel + 1, c :: rest =>
    match comment? (c :: rest) with
    | some after => skipBlank fuel after
    | none => if blank c then skipBlank fuel rest else c :: rest

/-- Whether every carriage return is followed by a line feed. -/
def returnsPaired : List Char → Bool
  | [] => true
  | '\r' :: '\n' :: rest => returnsPaired rest
  | '\r' :: _ => false
  | _ :: rest => returnsPaired rest

/-- A documentation comment: whether it documents what encloses it, its content
and the rest. -/
def documentation? (text : List Char) : Option (Bool × List Char × List Char) := do
  let block (text : List Char) : Option (List Char × List Char) := do
    let rest ← commentEnd? 0 text
    pure ((text.take (text.length - rest.length - 2)).drop 3, rest)
  let (inner, content, rest) ←
    if opens "//!" text then
      let (line, rest) := restOfLine (text.drop 3)
      some (true, line, rest)
    else if opens "/*!" text then (block text).map fun (content, rest) => (true, content, rest)
    else if opens "///" text && !opens "////" text then
      let (line, rest) := restOfLine (text.drop 3)
      some (false, line, rest)
    else if opens "/**" text && !opens "/***" text then
      (block text).map fun (content, rest) => (false, content, rest)
    else none
  if returnsPaired content then pure (inner, content, rest) else none

/-- The attribute a documentation comment stands for. -/
def documentationTokens (inner : Bool) (content : List Char) (l : Location) : List TokenTree :=
  let body :=
    [.ident ⟨"doc", false, l⟩, .punct '=' false l, .literal (Text.literal (String.ofList content)) l]
  [.punct '#' false l] ++ (if inner then [.punct '!' false l] else [])
    ++ [.group .bracket body l l]

/-! ### Single tokens -/

/-- The opening of a quoted literal: where none could be read, no identifier is
read either. -/
def opensQuoted (text : List Char) : Bool :=
  ["r\"", "r#\"", "r##", "b\"", "b'", "br\"", "br#", "c\"", "cr\"", "cr#"].any fun start =>
    opens start text

/-- An identifier without its place, and the rest. The names of paths' first
steps and the underscore cannot be raw. -/
def identifier? (text : List Char) : Option (Bool × String × List Char) :=
  let raw := opens "r#" text
  let body := if raw then text.drop 2 else text
  match Literal.name? body with
  | none => none
  | some rest =>
    let name := String.ofList (body.take (body.length - rest.length))
    if raw && ["_", "super", "self", "Self", "crate"].contains name then none
    else some (raw, name, rest)

/-- The punctuation character at the head of a text; a comment is none. -/
def punctuation? (text : List Char) : Option (Char × List Char) :=
  if opens "//" text || opens "/*" text then none
  else
    match text with
    | c :: rest => if "~!@#$%^&*-=+|;:,<.>/?'".toList.contains c then some (c, rest) else none
    | [] => none

/-- A lifetime behind its apostrophe: its name and the rest. -/
def lifetime? (text : List Char) : Option (String × List Char) := do
  let (raw, name, rest) ← identifier? text
  match rest with
  | '\'' :: _ => none
  | '#' :: _ => if raw then pure () else none
  | _ => pure ()
  pure ((if raw then "'r#" else "'") ++ name, rest)

/-- The text that stands for a fault in other code: it is read as a literal. -/
def faultMark : String := "(/*ERROR*/)"

/-- The token that is no bracket at the head of a text, and the rest. -/
def leaf? (l : Location) (text : List Char) : Option (TokenTree × List Char) :=
  match (Literal.behind? faultMark text).or (Literal.end? text) with
  | some rest => some (.literal (String.ofList (text.take (text.length - rest.length))) l, rest)
  | none =>
    match punctuation? text with
    | some ('\'', rest) => (lifetime? rest).map fun (name, rest) => (.lifetime name l, rest)
    | some (c, rest) => some (.punct c (punctuation? rest).isSome l, rest)
    | none =>
      if opensQuoted text then none
      else (identifier? text).map fun (raw, name, rest) => (.ident ⟨name, raw, l⟩, rest)

/-! ### The whole text -/

/-- A bracket that is open: its place and the tokens in front of it, the last one
first. -/
structure Opened where
  delimiter : Delimiter
  location : Location
  before : List TokenTree

def openingBracket? (c : Char) : Option Delimiter :=
  if c = '(' then some .parenthesis else if c = '[' then some .bracket
  else if c = '\x7b' then some .brace else none

def closingBracket? (c : Char) : Option Delimiter :=
  if c = ')' then some .parenthesis else if c = ']' then some .bracket
  else if c = '\x7d' then some .brace else none

/-- The place where the rest of a text begins. -/
def locationOf (l : Location) (text rest : List Char) : Location :=
  (text.take (text.length - rest.length)).foldl Location.past l

/-- Scan on: the tokens read so far, the last one first, and the brackets that
are open, the innermost first. -/
def scanOn : Nat → Location → List Char → List TokenTree → List Opened →
    Except Location (List TokenTree)
  | 0, l, _, _, _ => .error l
  | fuel + 1, here, text, done, opened =>
    let next := skipBlank (text.length + 1) text
    let l := locationOf here text next
    match documentation? next with
    | some (inner, content, rest) =>
      scanOn fuel (locationOf l next rest) rest
        ((documentationTokens inner content l).reverse ++ done) opened
    | none =>
      match next with
      | [] =>
        match opened with
        | [] => .ok done.reverse
        | o :: _ => .error o.location
      | c :: rest =>
        match (if opens faultMark next then none else openingBracket? c), closingBracket? c with
        | some d, _ => scanOn fuel (l.past c) rest [] (⟨d, l, done⟩ :: opened)
        | none, some d =>
          match opened with
          | [] => .error l
          | o :: outer =>
            if o.delimiter = d then
              scanOn fuel (l.past c) rest (.group d done.reverse o.location l :: o.before) outer
            else .error l
        | none, none =>
          match leaf? l next with
          | some (t, rest) => scanOn fuel (locationOf l next rest) rest (t :: done) opened
          | none => .error l

/-- The tokens of a text that begins at a place, or the place where it is no
sequence of tokens. -/
def scanFrom (l : Location) (text : List Char) : Except Location (List TokenTree) :=
  scanOn (text.length + 1) l text [] []

/-- The tokens of the characters of a text. A byte order mark counts as one
column. -/
def scanChars : List Char → Except Location (List TokenTree)
  | '\ufeff' :: rest => scanFrom ⟨1, 2⟩ rest
  | cs => scanFrom Location.start cs

/-- The tokens of a text. -/
def scan (text : String) : Except Location (List TokenTree) := scanChars text.toList

/-- The tokens of a source file: a byte order mark is no part of it, and neither
is a first line `#!...` other than an inner attribute. -/
def scanFile (text : String) : Except Location (List TokenTree) :=
  let cs := text.toList
  let cs := if opens "\ufeff" cs then cs.drop 1 else cs
  if opens "#!" cs then
    match skipBlank cs.length (cs.drop 2) with
    | '[' :: _ => scanChars cs
    | _ => scanChars (cs.dropWhile (· ≠ '\n'))
  else scanChars cs

end TokenTree

end RecordCoding
