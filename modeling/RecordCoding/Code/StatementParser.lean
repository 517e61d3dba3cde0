/-
Parsing the statements of a block.

Design notes:

* An expression needs a semicolon behind it unless it ends in a block or nothing
  follows; so does the call of a macro whose brackets are no braces.
* The call of a macro with braces is a statement by itself, unless a dot or a
  question mark goes on with it.
* Whether an item begins is decided on at most three tokens, so a wrong item is a
  failure of that item.
-/
import RecordCoding.Code.ExpressionParser
import RecordCoding.Code.ItemParser

namespace RecordCoding

namespace Code

/-- Whether the last token is a group in braces. -/
def endsWithBraces (c : Code) : Bool :=
  match c.tokens.getLast? with
  | some (.group d _) => d = .brace
  | _ => false

/-- Whether a statement needs a semicolon that it does not have. -/
def needsSemicolon : Code → Bool
  | node .expressionStatement [c, mark] => mark.isAbsent && !c.isBlockLike && !c.bracedCall
  | node .attributed [_, node .macroStatement [c, mark]] => mark.isAbsent && !c.bracedCall
  | node .macroStatement [c, mark] => mark.isAbsent && !c.bracedCall
  | _ => false

end Code

namespace Parser

/-! ### Looking ahead -/

/-- Whether the statement that comes next is an item, the call of a macro
aside. -/
def isItemStatement (ts : List TokenTree) : Bool :=
  let second := ts.drop 1
  let third := ts.drop 2
  let word (w : String) : Bool := isKeyword w ts
  let next (ws : List String) (ts : List TokenTree) : Bool := ws.any fun w => isKeyword w ts
  ["pub", "extern", "use", "fn", "mod", "type", "struct", "enum", "trait", "impl", "macro"].any word
    || (word "crate" && !isPunct "::" second)
    || (word "static" && (isKeyword "mut" second || isIdentifier second))
    || (word "const"
      && !(isGroup .brace second || next ["static", "move"] second || isPunct "|" second
        || (isKeyword "async" second && !next ["unsafe", "extern", "fn"] third)))
    || (word "unsafe" && !isGroup .brace second)
    || (word "async" && next ["unsafe", "extern", "fn"] second)
    || (word "union" && isIdentifier second)
    || (word "auto" && isKeyword "trait" second)
    || (word "default" && next ["unsafe", "impl"] second)

/-- What a call of a macro at the beginning of a statement is. -/
inductive LeadingCall
  /-- It has a name behind its exclamation mark. -/
  | item
  /-- It has braces, and nothing goes on behind them. -/
  | statement
  | neither
  deriving DecidableEq

/-- The call of a macro that the next statement begins with. -/
def leadingCall : Parser LeadingCall := do
  match ← attempt? (lookingAhead (do
      let _ ← plainPath
      ahead)) with
  | none => pure .neither
  | some ts =>
    let second := ts.drop 1
    if !isPunct "!" ts then pure .neither
    else if isIdentifier second || isKeyword "try" second then pure .item
    else if isGroup .brace second && !goesOn (ts.drop 2) then pure .statement
    else pure .neither

/-! ### Statements -/

/-- `;`, if it comes next. -/
def semicolon? : Parser Code := do pure (.optionalWord (← punct? ";") ";")

/-- The call of a macro with braces. -/
def macroStatement : Parser Code := do
  let p ← plainPath
  punct "!"
  let (d, b) ← anyBody
  let mark ← semicolon?
  pure (.node .macroStatement
    [.node .macroCall [.type (.path p), .word "!", .raw [.group d (TokenTree.tokens b)]], mark])

/-- The rest of a binding behind its value: a block for the other case. -/
def otherwise? (inner : Inner) (value : Code) : Parser Code := do
  if !value.endsWithBraces && isKeyword "else" (← ahead) then do
    keyword "else"
    let b ← braces inner
    pure (.node .sequence [.word "else", .node .block [.absent, b]])
  else pure .absent

/-- A binding. -/
def bindingStatement (inner : Inner) : Parser Code := do
  keyword "let"
  let p ← inner.pattern
  let annotation ←
    if ← punct? ":" then do
      let t ← inner.ty true
      pure (Code.node .sequence [.word ":", .type t])
    else pure .absent
  let value ← value? inner
  let otherwise ←
    if value.isAbsent then pure .absent else otherwise? inner value
  punct ";"
  pure (.node .binding [.word "let", p, annotation, value, otherwise, .word ";"])

/-- An expression as a statement behind its attributes. -/
def expressionStatement (inner : Inner) (attributes : List Code) : Parser Code := do
  let c ← statementExpression inner
  let c := Code.withAttributes attributes c
  let mark ← semicolon?
  match c with
  | .node .attributed [as, call@(.node .macroCall _)] =>
    if !mark.isAbsent || call.bracedCall then
      pure (.node .attributed [as, .node .macroStatement [call, mark]])
    else pure (.node .expressionStatement [c, mark])
  | .node .macroCall _ =>
    if !mark.isAbsent || c.bracedCall then pure (.node .macroStatement [c, mark])
    else pure (.node .expressionStatement [c, mark])
  | c => pure (.node .expressionStatement [c, mark])

/-- A statement other than a lone semicolon. -/
def statement (inner : Inner) : Parser Code := do
  let before ← ahead
  let as ← attributes inner
  let codes := as.map Attribute.code
  match ← leadingCall with
  | .statement => do
    let c ← macroStatement
    pure (Code.withAttributes codes c)
  | call => do
    let ts ← ahead
    if isKeyword "let" ts then do
      let c ← bindingStatement inner
      pure (Code.withAttributes codes c)
    else if call = .item || isItemStatement ts then do
      let (_, c) ← itemBehind inner before as
      pure c
    else expressionStatement inner codes

/-- Statements up to the end. -/
def statementsToEnd (inner : Inner) : Nat → Parser (List Code)
  | 0 => pure []
  | fuel + 1 => do
    if ← finished then pure []
    else if ← punct? ";" then do
      let rest ← statementsToEnd inner fuel
      pure (.node .emptyStatement [.word ";"] :: rest)
    else do
      let s ← statement inner
      if s.needsSemicolon && !(← finished) then fail (.rule "unexpected token, expected `;`")
      else do
        let rest ← statementsToEnd inner fuel
        pure (s :: rest)

/-- Statements up to the end. -/
def statements (inner : Inner) : Parser (List Code) := do statementsToEnd inner (← rounds)

end Parser

end RecordCoding
