/-
Reading token trees: the state of a parser, what it fails with, and the parsers
of single tokens.

A `Parser` takes tokens from the front of a list. Inside brackets it sees only
what they enclose, and "the end" is the closing bracket; at the top the end is
wherever its caller says.

Design notes:

* What is left over inside brackets is no error at once: the first such token is
  remembered and reported only after everything else has been read.
* A failure at the end says so, with one exception: a missing operator is
  reported without it.
* Looking ahead never fails. A parser that chooses between alternatives names
  all of them in the order in which it tried them.
* A parser that was only tried leaves no trace if it fails.
-/
import RecordCoding.Code.Term

namespace RecordCoding

/-- Why a text could not be read. -/
inductive SyntaxCause
  /-- It is no sequence of tokens. -/
  | lexical
  /-- None of these came next. -/
  | expected (options : List String)
  /-- A word that no name may be. -/
  | keyword (word : String)
  /-- Something was left over, at the top or before a closing bracket. -/
  | leftover (inside : Option Delimiter)
  /-- A rule of its own. -/
  | rule (text : String)
  deriving DecidableEq, Repr, Inhabited

/-- A failure to read a text, and where. -/
structure SyntaxError where
  cause : SyntaxCause
  /-- The text, or the brackets, had ended. -/
  atEnd : Bool
  location : Location
  deriving DecidableEq, Repr, Inhabited

namespace Delimiter

/-- The closing bracket. -/
def closing : Delimiter → String
  | parenthesis => ")"
  | bracket => "]"
  | brace => "\x7d"

/-- How a missing group is called. -/
def description : Delimiter → String
  | parenthesis => "parentheses"
  | bracket => "square brackets"
  | brace => "curly braces"

end Delimiter

/-- A word in quotation, as failures show it. -/
def ticked (w : String) : String := "`" ++ w ++ "`"

namespace SyntaxCause

def message : SyntaxCause → String
  | lexical => "cannot parse string into token stream"
  | expected [] => "unexpected token"
  | expected [a] => "expected " ++ a
  | expected [a, b] => "expected " ++ a ++ " or " ++ b
  | expected options => "expected one of: " ++ ", ".intercalate options
  | keyword word => "expected identifier, found keyword " ++ ticked word
  | leftover none => "unexpected token"
  | leftover (some d) => "unexpected token, expected " ++ ticked d.closing
  | rule text => text

end SyntaxCause

/-- The text of a failure. -/
def SyntaxError.message (e : SyntaxError) : String :=
  if e.atEnd then
    match e.cause with
    | .expected [] => "unexpected end of input"
    | cause => "unexpected end of input, " ++ cause.message
  else e.cause.message

/-- What a parser has in front of it. -/
structure ParseState where
  rest : List TokenTree
  /-- Where the end is. -/
  scope : Location
  /-- The first token that was left over inside brackets. -/
  stray : Option SyntaxError

/-- A parser of an `α` from token trees. -/
abbrev Parser (α : Type) := StateT ParseState (Except SyntaxError) α

namespace Parser

/-! ### Looking ahead -/

/-- Whether tokens begin with an operator, whose characters have to be joined. -/
def beginsWith : List Char → List TokenTree → Bool
  | [], _ => true
  | [c], .punct d _ _ :: _ => c = d
  | c :: cs, .punct d joint _ :: rest => c = d && joint && beginsWith cs rest
  | _, _ => false

def isPunct (p : String) (ts : List TokenTree) : Bool := beginsWith p.toList ts

def isKeyword (w : String) : List TokenTree → Bool
  | .ident i :: _ => !i.raw && i.name = w
  | _ => false

/-- The words that are no names. -/
def reserved : List String :=
  ["_", "abstract", "as", "async", "await", "become", "box", "break", "const", "continue", "crate",
   "do", "dyn", "else", "enum", "extern", "false", "final", "fn", "for", "if", "impl", "in", "let",
   "loop", "macro", "match", "mod", "move", "mut", "override", "priv", "pub", "ref", "return",
   "Self", "self", "static", "struct", "super", "trait", "true", "try", "type", "typeof", "unsafe",
   "unsized", "use", "virtual", "where", "while", "yield"]

/-- Whether an identifier may be a name. -/
def isName (i : Ident) : Bool := i.raw || !reserved.contains i.name

/-- A name comes next. -/
def isIdentifier : List TokenTree → Bool
  | .ident i :: _ => isName i
  | _ => false

/-- A name or a reserved word comes next. -/
def isWord : List TokenTree → Bool
  | .ident _ :: _ => true
  | _ => false

def isLifetime : List TokenTree → Bool
  | .lifetime _ _ :: _ => true
  | _ => false

def isGroup (d : Delimiter) : List TokenTree → Bool
  | .group e _ _ _ :: _ => d = e
  | _ => false

/-- Whether the text of a literal is that of a number. -/
def isNumber (text : String) : Bool :=
  match text.toList with
  | c :: _ => '0' ≤ c && c ≤ '9'
  | [] => false

/-- A literal comes next: one token, a truth value or a number behind a minus. -/
def isLiteral : List TokenTree → Bool
  | .literal _ _ :: _ => true
  | .ident i :: _ => !i.raw && (i.name = "true" || i.name = "false")
  | .punct '-' _ _ :: .literal text _ :: _ => isNumber text
  | _ => false

/-- A string literal comes next, cooked or raw. -/
def isText : List TokenTree → Bool
  | .literal text _ :: _ =>
    match text.toList with
    | '"' :: _ => true
    | 'r' :: _ => true
    | _ => false
  | _ => false

/-! ### Failing -/

/-- The place of the next token, or of the end. -/
def here : Parser Location := do
  let s ← get
  match s.rest with
  | t :: _ => pure t.location
  | [] => pure s.scope

/-- The tokens that are left. -/
def ahead : Parser (List TokenTree) := do
  let s ← get
  pure s.rest

/-- Fail at the next token, or at the end. -/
def fail {α : Type} (cause : SyntaxCause) : Parser α := do
  let s ← get
  match s.rest with
  | t :: _ => throw ⟨cause, false, t.location⟩
  | [] => throw ⟨cause, true, s.scope⟩

/-- Fail at a given place. -/
def failAt {α : Type} (cause : SyntaxCause) (l : Location) : Parser α := throw ⟨cause, false, l⟩

/-- Fail because none of these came next. -/
def failExpected {α : Type} (options : List String) : Parser α := fail (.expected options)

/-! ### Single tokens -/

/-- Leave out so many tokens. -/
def skip (n : Nat) : Parser Unit := modify fun s => { s with rest := s.rest.drop n }

/-- An operator. -/
def punct (p : String) : Parser Unit := do
  let s ← get
  if isPunct p s.rest then skip p.length
  else do
    let l ← here
    failAt (.expected [ticked p]) l

/-- An operator that may be absent. -/
def punct? (p : String) : Parser Bool := do
  let s ← get
  if isPunct p s.rest then do skip p.length; pure true else pure false

/-- A reserved word. -/
def keyword (w : String) : Parser Unit := do
  let s ← get
  if isKeyword w s.rest then skip 1 else failExpected [ticked w]

/-- A reserved word that may be absent. -/
def keyword? (w : String) : Parser Bool := do
  let s ← get
  if isKeyword w s.rest then do skip 1; pure true else pure false

/-- A name. -/
def identifier : Parser Ident := do
  let s ← get
  match s.rest with
  | .ident i :: _ =>
    if isName i then do skip 1; pure i else fail (.keyword i.spelled)
  | _ => failExpected ["identifier"]

/-- A name or a reserved word. -/
def word : Parser Ident := do
  let s ← get
  match s.rest with
  | .ident i :: _ => do skip 1; pure i
  | _ => failExpected ["ident"]

/-- A lifetime. -/
def lifetime : Parser String := do
  let s ← get
  match s.rest with
  | .lifetime name _ :: _ => do skip 1; pure name
  | _ => failExpected ["lifetime"]

/-- A literal, with its sign. -/
def literal : Parser Code := do
  let s ← get
  match s.rest with
  | .literal text _ :: _ => do skip 1; pure (.node .literal [.word text])
  | .ident i :: _ =>
    if isLiteral s.rest then do skip 1; pure (.node .literal [.word i.spelled])
    else failExpected ["literal"]
  | .punct _ _ _ :: .literal text _ :: _ =>
    if isLiteral s.rest then do skip 2; pure (.node .literal [.word "-", .word text])
    else failExpected ["literal"]
  | _ => failExpected ["literal"]

/-! ### Groups -/

/-- What one kind of bracket encloses, as raw tokens. -/
def body (d : Delimiter) : Parser (List TokenTree) := do
  let s ← get
  match s.rest with
  | .group e inner _ _ :: rest =>
    if d = e then do set { s with rest := rest }; pure inner else failExpected [d.description]
  | _ => failExpected [d.description]

/-- A group of any kind, as raw tokens. -/
def anyBody : Parser (Delimiter × List TokenTree) := do
  let s ← get
  match s.rest with
  | .group d inner _ _ :: rest => do set { s with rest := rest }; pure (d, inner)
  | _ => failExpected ["delimiter"]

/-- Remember a leftover, unless there was an earlier one. -/
def noteStray (stray : Option SyntaxError) (inside : Option Delimiter) (rest : List TokenTree) :
    Option SyntaxError :=
  match stray, rest with
  | none, t :: _ => some ⟨.leftover inside, false, t.location⟩
  | stray, _ => stray

/-- Read what one kind of bracket encloses. -/
def inside {α : Type} (d : Delimiter) (r : Parser α) : Parser α := do
  let s ← get
  match s.rest with
  | .group e inner _ closing :: rest =>
    if d = e then do
      let (a, t) ← r ⟨inner, closing, s.stray⟩
      set ({ rest, scope := s.scope, stray := noteStray t.stray (some d) t.rest } : ParseState)
      pure a
    else failExpected [d.description]
  | _ => failExpected [d.description]

/-! ### Trying, and keeping tokens -/

/-- A parser that leaves everything in place if it fails. -/
def attempt? {α : Type} (r : Parser α) : Parser (Option α) := fun s =>
  match r s with
  | .error _ => .ok (none, s)
  | .ok (a, s) => .ok (some a, s)

/-- Run a parser, keep its result and put everything back in place. -/
def lookingAhead {α : Type} (r : Parser α) : Parser α := fun s =>
  match r s with
  | .error e => .error e
  | .ok (a, _) => .ok (a, s)

/-- The tokens that were taken since there were some more ahead. -/
def takenSince (before : List TokenTree) : Parser (List Token) := do
  let after ← ahead
  pure (TokenTree.tokens (before.take (before.length - after.length)))

/-- What was taken since there were some more tokens ahead, kept as it is. -/
def verbatimSince (before : List TokenTree) : Parser Code := do
  let tokens ← takenSince before
  pure (.node .verbatim [.raw tokens])

/-! ### Lists -/

/-- Whether nothing is left. -/
def finished : Parser Bool := do
  let s ← get
  pure s.rest.isEmpty

/-- Elements with a separator between them, up to where `stop` holds before an
element or before a separator; whether the last one was followed by a
separator. -/
def separatedUntil {α : Type} (stop : List TokenTree → Bool) (separator : String) (r : Parser α) :
    Nat → Parser (List α × Bool)
  | 0 => pure ([], false)
  | fuel + 1 => do
    if stop (← ahead) then pure ([], false)
    else do
      let a ← r
      if stop (← ahead) then pure ([a], false)
      else do
        punct separator
        let (rest, trailing) ← separatedUntil stop separator r fuel
        pure (a :: rest, trailing || rest.isEmpty)

/-- Elements with commas between them, up to the end. -/
def terminated {α : Type} (r : Parser α) : Parser (List α × Bool) := do
  separatedUntil List.isEmpty "," r ((← ahead).length + 1)

/-- Code with commas between its parts, put together. -/
def withCommas (list : List Code) (trailing : Bool) : List Code :=
  list.intersperse (.word ",") ++ if trailing && !list.isEmpty then [.word ","] else []

/-- Code with commas between its parts, up to the end. -/
def terminatedCode (r : Parser Code) : Parser (List Code) := do
  let (list, trailing) ← terminated r
  pure (withCommas list trailing)

/-- Elements with an optional separator behind each: the list ends where `stop`
holds before an element, or behind an element that no separator follows. -/
def chained {α : Type} (stop : List TokenTree → Bool) (separator : String) (r : Parser α) :
    Nat → Parser (List α × Bool)
  | 0 => pure ([], false)
  | fuel + 1 => do
    if stop (← ahead) then pure ([], false)
    else do
      let a ← r
      if ← punct? separator then do
        let (rest, trailing) ← chained stop separator r fuel
        pure (a :: rest, trailing || rest.isEmpty)
      else pure ([a], false)

/-- Elements up to the end, without separators. -/
def toEnd {α : Type} (r : Parser α) : Nat → Parser (List α)
  | 0 => pure []
  | fuel + 1 => do
    if ← finished then pure []
    else do
      let a ← r
      let rest ← toEnd r fuel
      pure (a :: rest)

/-! ### Running -/

/-- Read all of some tokens whose end is at `scope`. -/
def all {α : Type} (r : Parser α) (scope : Location) (ts : List TokenTree) : Except SyntaxError α :=
  match r ⟨ts, scope, none⟩ with
  | .error e => .error e
  | .ok (a, s) =>
    match noteStray s.stray none s.rest with
    | some e => .error e
    | none => .ok a

end Parser

end RecordCoding
