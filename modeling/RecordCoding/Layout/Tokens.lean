/-
The layout of raw tokens, in the call of a macro and in an attribute.

Tokens are split into atoms first: a name, a literal, a group or a single mark,
which remembers whether the next atom joins it. Spaces between atoms are chosen
by a state machine that sees one atom at a time.

Design notes:

* In the call of a macro every space is a place where a line may be broken.
* In an attribute the first level holds plain spaces, and further in a list in
  parentheses puts everything on lines of its own if it has to be broken.
* Reserved words get spaces on both sides, so a call such as `f(x)` is told
  from `if (x)`.
-/
import RecordCoding.Code.Token
import RecordCoding.Layout.Doc

namespace RecordCoding

namespace Layout

open Doc

/-! ### Atoms -/

/-- A piece of raw code for which no smaller one has a place of its own. -/
inductive Atom
  | name (text : String)
  | literal (text : String)
  /-- A mark, and whether the next atom joins it. -/
  | mark (c : Char) (joint : Bool)
  | group (delimiter : Delimiter) (body : List Atom)
  deriving Inhabited

namespace Atom

/-- Whether a character is a mark of its own. -/
def isMark (c : Char) : Bool := "~!@#$%^&*-=+|;:,<.>/?".toList.contains c

/-- Whether a word that is no mark is a literal: it opens with a digit, or a
quotation mark is in it. -/
def isLiteral (word : List Char) : Bool :=
  word.any (fun c => c = '"' || c = '\'' || c = '(')
    || match word with
       | c :: _ => '0' ≤ c && c ≤ '9'
       | [] => false

/-- The atoms of a word: marks, then perhaps a lifetime or a literal. -/
def ofWord : List Char → List Atom
  | [] => []
  | c :: rest =>
    if isMark c then mark c (!rest.isEmpty) :: ofWord rest
    else if c = '\'' && !rest.contains '\'' then [mark c true, name (String.ofList rest)]
    else if isLiteral (c :: rest) then [literal (String.ofList (c :: rest))]
    else [name (String.ofList (c :: rest))]

mutual

/-- The atoms of a token. -/
def ofToken : Token → List Atom
  | .word w => ofWord w.toList
  | .group d body => [group d (ofTokens body)]

/-- The atoms of tokens. -/
def ofTokens : List Token → List Atom
  | [] => []
  | t :: rest => ofToken t ++ ofTokens rest

end

/-- Whether the next atom joins this one. -/
def isJoint : Atom → Bool
  | mark c joint => joint || c = '$'
  | _ => false

end Atom

/-- An opening bracket. -/
def opening : Delimiter → String
  | .parenthesis => "("
  | .bracket => "["
  | .brace => "\x7b"

/-- A closing bracket. -/
def closing : Delimiter → String
  | .parenthesis => ")"
  | .bracket => "]"
  | .brace => "\x7d"

/-! ### Calls of macros -/

/-- The words that a bracket does not follow directly. -/
def spacedWords : List String :=
  ["as", "async", "await", "box", "break", "const", "continue", "crate", "dyn", "else", "enum",
   "extern", "fn", "for", "if", "impl", "in", "let", "loop", "macro", "match", "mod", "move", "mut",
   "pub", "ref", "return", "static", "struct", "trait", "type", "unsafe", "use", "where", "while",
   "yield"]

/-- What the atoms before have been. -/
inductive MacroState
  | start
  | dollar
  | dollarName
  | dollarNameColon
  | dollarGroup
  | dollarGroupMark
  | pound
  | poundMark
  | dot
  | colon
  | doubleColon
  | name
  | nameMark
  | group
  | other
  deriving DecidableEq, Repr

/-- Whether a space goes in front of an atom, and the state behind it. Within
what a macro matches, a dollar opens the name of a fragment. -/
def macroStep (matcher : Bool) (s : MacroState) (a : Atom) : Bool × MacroState :=
  match s, a with
  | .dollar, .name _ => (false, if matcher then .dollarName else .other)
  | .dollarName, .mark ':' false => (false, .dollarNameColon)
  | .dollarNameColon, .name _ => (false, .other)
  | .dollarGroup, .mark '+' false => (false, .other)
  | .dollarGroup, .mark '*' false => (false, .other)
  | .dollarGroup, .mark '?' false => (false, .other)
  | .dollarGroup, .name _ => (false, .dollarGroupMark)
  | .dollarGroup, .literal _ => (false, .dollarGroupMark)
  | .dollarGroup, .mark _ true => (false, .dollarGroup)
  | .dollarGroup, .mark _ false => (false, .dollarGroupMark)
  | .dollarGroupMark, .mark '+' _ => (false, .other)
  | .dollarGroupMark, .mark '*' _ => (false, .other)
  | .pound, .mark '!' _ => (false, .poundMark)
  | .dollar, .group .parenthesis _ => (false, .dollarGroup)
  | .pound, .group .bracket _ => (false, .other)
  | .poundMark, .group .bracket _ => (false, .other)
  | .name, .group .parenthesis _ => (false, .group)
  | .name, .group .bracket _ => (false, .group)
  | .name, .mark '!' false => (false, .nameMark)
  | .nameMark, .group .parenthesis _ => (false, .other)
  | .nameMark, .group .bracket _ => (false, .other)
  | .colon, .mark ':' _ => (false, .doubleColon)
  | _, .group .brace _ => (true, .other)
  | _, .group _ _ => (true, .group)
  | s, .name w =>
    if spacedWords.contains w then (true, .other)
    else (s ≠ .dot && s ≠ .doubleColon, .name)
  | s, .literal w => (s ≠ .dot, if w.endsWith "." then .other else .name)
  | _, .mark ',' _ => (false, .other)
  | _, .mark ';' _ => (false, .other)
  | s, .mark '.' _ =>
    if matcher then (true, .other) else (s ≠ .name && s ≠ .group, .dot)
  | s, .mark ':' true => (s ≠ .name, .colon)
  | _, .mark '$' _ => (true, .dollar)
  | _, .mark '#' _ => (true, .pound)
  | _, .mark _ _ => (true, .other)

/-- The break in front of an atom. -/
def gap (joint spaced : Bool) (a : Atom) : List Doc :=
  if joint then []
  else if spaced then [space]
  else
    match a with
    | .mark '.' _ => [cut]
    | _ => []

mutual

/-- An atom of a macro. -/
def macroAtom (matcher : Bool) : Atom → List Doc
  | .name w => [.text w]
  | .literal w => [.text w]
  | .mark c _ => [.text (String.singleton c)]
  | .group d [] => [.text (opening d ++ closing d)]
  | .group d body =>
    let around := if d = .brace then [space] else []
    .text (opening d) :: around ++ macroAtoms matcher true .start body
      ++ around ++ [.text (closing d)]

/-- Atoms of a macro behind a given state. -/
def macroAtoms (matcher joint : Bool) (s : MacroState) : List Atom → List Doc
  | [] => []
  | a :: rest =>
    let (spaced, next) := macroStep matcher s a
    gap joint spaced a ++ macroAtom matcher a ++ macroAtoms matcher a.isJoint next rest

end

/-- Tokens in a box that is broken wherever a line is full. -/
def macroTokens (matcher : Bool) (tokens : List Token) : Doc :=
  fill 0 (macroAtoms matcher true .start (Atom.ofTokens tokens))

/-- The group of a macro that is called: in braces it has lines of its own. -/
def macroGroup (d : Delimiter) (body : List Token) : List Doc :=
  let line := if d = .brace then newline else cut
  .text ((if d = .brace then " " else "") ++ opening d)
    :: (if body.isEmpty then []
        else [Doc.group step [line, macroTokens false body, line.shifted (-step)]])
    ++ [.text (closing d)]

/-! ### Attributes -/

/-- How the last atom went, while those of an attribute are laid out. -/
inductive AttributeState
  | word
  | mark
  /-- A comma at the end of a list. -/
  | comma
  deriving DecidableEq, Repr

mutual

/-- The atoms of an attribute behind a given state, with spaces of a given
kind. -/
def attributeAtoms (gap : Doc) (state : AttributeState) : List Atom → List Doc × AttributeState
  | [] => ([], state)
  | a :: rest =>
    let (ds, state) := attributeAtom gap state rest.isEmpty a
    let (more, state) := attributeAtoms gap state rest
    (ds ++ more, state)

/-- An atom of an attribute, and whether it is the last of its group. -/
def attributeAtom (gap : Doc) (state : AttributeState) (last : Bool) :
    Atom → List Doc × AttributeState
  | .name w => ((if state = .word then [gap] else []) ++ [.text w], .word)
  | .literal w => ((if state = .word then [gap] else []) ++ [.text w], .word)
  | .mark c _ =>
    let lead := if state = .word && c = '=' then [Doc.text " "] else []
    if c = ',' && last then (lead ++ [listEnd 0], .comma)
    else
      let tail := if c = '=' then [Doc.text " "] else if c = ',' then [gap] else []
      (lead ++ .text (String.singleton c) :: tail, .mark)
  | .group .parenthesis body =>
    let (ds, state) := attributeAtoms space .mark body
    let close := if state = .comma then [] else [cut]
    ([.text "(", group step (shiftedLast (-step) (cut :: ds ++ close)), .text ")"], .mark)
  | .group d body =>
    let (ds, _) := attributeAtoms space .mark body
    (.text (opening d) :: ds ++ [.text (closing d)], .mark)

end

/-- The group of an attribute. -/
def attributeGroup (d : Delimiter) (body : List Token) : List Doc :=
  (attributeAtom (.text " ") .word true (.group d (Atom.ofTokens body))).1

end Layout

end RecordCoding
