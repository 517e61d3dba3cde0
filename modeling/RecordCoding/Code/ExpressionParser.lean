/-
Parsing expressions.

An expression is a chain of operands and operators. An operand is an atom with
what may follow it, such as a call or a field, and with operators in front.

Design notes:

* Operators are read by precedence climbing: an operand on the right takes in
  whatever binds tighter than the operator in front of it. Comparisons do not
  chain, and a range is no operand.
* Where a block follows, as behind the condition of an `if`, a path is not taken
  for the beginning of a record: the flag `record` says whether it may be.
* At the place of a statement an expression that ends in a block ends there,
  unless a dot or a question mark goes on with it.
-/
import RecordCoding.Code.PatternParser

namespace RecordCoding

namespace Code

/-- The precedence of the operator of a binary operation. -/
def precedence? : Code → Option Precedence
  | node .binary [_, word operator, _] => some (.ofOperator operator)
  | _ => none

end Code

namespace Parser

/-! ### Looking ahead -/

/-- The binary operator that comes next. -/
def operator? (ts : List TokenTree) : Option (String × Precedence) :=
  Precedence.operators.find? fun o => isPunct o.1 ts

/-- Whether the operator of an assignment comes next. -/
def isAssignment (ts : List TokenTree) : Bool := isPunct "=" ts && !isPunct "=>" ts

/-- How tightly binds what comes next. -/
def nextPrecedence (ts : List TokenTree) : Precedence :=
  match operator? ts with
  | some (_, p) => p
  | none =>
    if isAssignment ts then .assign
    else if isPunct ".." ts then .range
    else if isKeyword "as" ts then .cast
    else .least

/-- Whether a dot comes next that is not one of two. -/
def isDot (ts : List TokenTree) : Bool := isPunct "." ts && !isPunct ".." ts

/-- Whether an expression may begin with what comes next. -/
def isExpressionStart (ts : List TokenTree) : Bool :=
  isWord ts || isGroup .parenthesis ts || isGroup .bracket ts || isGroup .brace ts || isLiteral ts
    || (isPunct "!" ts && !isPunct "!=" ts)
    || (isPunct "-" ts && !isPunct "-=" ts && !isPunct "->" ts)
    || (isPunct "*" ts && !isPunct "*=" ts)
    || (isPunct "|" ts && !isPunct "|=" ts)
    || (isPunct "&" ts && !isPunct "&=" ts)
    || isPunct ".." ts
    || (isPunct "<" ts && !isPunct "<=" ts && !isPunct "<<=" ts)
    || isPunct "::" ts || isLifetime ts || isPunct "#" ts

/-- Whether a range without an end stands in front of this. -/
def endsRange (record : Bool) (ts : List TokenTree) : Bool :=
  ts.isEmpty || isDot ts || isKeyword "as" ts || (!record && isGroup .brace ts)
    || [",", ";", "?", "=>", "=", "+", "/", "%", "^", ">", "<=", "!=", "-=", "*=", "&=", "|=",
        "<<="].any fun p => isPunct p ts

/-- Whether a binder comes next, as in front of a closure. -/
def isBinder (ts : List TokenTree) : Bool :=
  isKeyword "for" ts && isPunct "<" (ts.drop 1)
    && (isLifetime (ts.drop 2) || isPunct ">" (ts.drop 2))

/-- Whether an atom opens a closure. -/
def isClosure (ts : List TokenTree) : Bool :=
  let second := ts.drop 1
  isPunct "|" ts || isKeyword "move" ts || isBinder ts
    || (isKeyword "const" ts && !isGroup .brace second) || isKeyword "static" ts
    || (isKeyword "async" ts && (isPunct "|" second || isKeyword "move" second))

/-! ### Operators -/

/-- What may not follow a cast, by its name. -/
def afterCast? (ts : List TokenTree) : Option String :=
  let second := ts.drop 1
  let third := ts.drop 2
  if isDot ts then
    if isKeyword "await" second then some "`.await`"
    else if isIdentifier second && (isGroup .parenthesis third || isPunct "::" third) then
      some "a method call"
    else some "a field access"
  else if isPunct "?" ts then some "`?`"
  else if isGroup .bracket ts then some "indexing"
  else if isGroup .parenthesis ts then some "a function call"
  else none

/-- A cast behind its `as`. -/
def castBehind (inner : Inner) (operand : Code) : Parser Code := do
  let t ← inner.ty false
  match afterCast? (← ahead) with
  | some what => fail (.rule ("casts cannot be followed by " ++ what))
  | none => pure (.node .cast [operand, .word "as", .type t])

/-- The end of a range behind its dots. -/
def rangeEnd (right : Parser Code) (record closed : Bool) : Parser Code := do
  if !closed && endsRange record (← ahead) then pure .absent else right

/-- Operands and operators, with the operand in front given and the next one read
by `atom`. -/
structure Operations where
  inner : Inner
  /-- Whether a path may open a record. -/
  record : Bool
  /-- An operand with the operators in front of it. -/
  atom : Parser Code

mutual

/-- Go on with operators that bind at least as tightly as given. -/
def operations (o : Operations) : Nat → Code → Nat → Parser Code
  | 0, left, _ => pure left
  | fuel + 1, left, base => do
    let ts ← ahead
    if left.isRange then pure left
    else
      match operator? ts with
      | some (operator, p) =>
        if p.rank < base then pure left
        else if p = .compare && left.precedence? = some .compare then
          fail (.rule "comparison operators cannot be chained")
        else do
          punct operator
          let right ← rightOperand o fuel p
          operations o fuel (.node .binary [left, .word operator, right]) base
      | none =>
        if base ≤ Precedence.assign.rank && isAssignment ts then do
          punct "="
          let right ← rightOperand o fuel .assign
          operations o fuel (.node .assignment [left, .word "=", right]) base
        else if base ≤ Precedence.range.rank && isPunct ".." ts then do
          let (dots, closed) ← rangeDots false
          let end' ← rangeEnd (rightOperand o fuel .range) o.record closed
          operations o fuel (.node .range [left, .word dots, end']) base
        else if base ≤ Precedence.cast.rank && isKeyword "as" ts then do
          keyword "as"
          let c ← castBehind o.inner left
          operations o fuel c base
        else pure left

/-- The operand behind an operator. -/
def rightOperand (o : Operations) : Nat → Precedence → Parser Code
  | 0, _ => o.atom
  | fuel + 1, p => do
    let first ← o.atom
    tighter o fuel first p

/-- Take in what binds tighter than an operator, and what is assigned. -/
def tighter (o : Operations) : Nat → Code → Precedence → Parser Code
  | 0, right, _ => pure right
  | fuel + 1, right, p => do
    let ts ← ahead
    let next := nextPrecedence ts
    if p.rank < next.rank || (next = p && p = .assign) then do
      let more ← operations o fuel right next.rank
      if (← ahead).length = ts.length then pure more else tighter o fuel more p
    else pure right

end

/-- As many rounds as operators ahead can take. -/
def operatorRounds : Parser Nat := do pure (2 * (← ahead).length + 4)

/-! ### What follows an operand -/

/-- The fields that a number with a point stands for, behind a dot: `x.0.1` goes
through two of them. -/
def fieldsOfNumber (l : Location) (base : Code) : List String → Parser Code
  | [] => pure base
  | part :: rest =>
    match Literal.whole? part with
    | none => failAt (.expected ["integer literal"]) l
    | some (n, suffix) =>
      if !suffix.isEmpty then failAt (.rule "expected unsuffixed integer") l
      else if n ≥ Nat.pow 2 32 then failAt (.rule "number too large to fit in target type") l
      else fieldsOfNumber l (.node .field [base, .word ".", .word (Nat.repr n)]) rest

/-- A number with a point behind a dot, if there is one: the fields, and whether
a further member has to follow. -/
def numberFields? (base : Code) : Parser (Option (Code × Bool)) := do
  match ← ahead with
  | .literal text l :: _ =>
    if Literal.isFraction text then do
      skip 1
      let open' := text.endsWith "."
      let parts := (text.splitOn ".").filter (!·.isEmpty)
      let c ← fieldsOfNumber l base parts
      pure (some (c, open'))
    else pure none
  | .punct '-' _ l :: .literal text _ :: _ =>
    if Literal.isFraction text then
      match (text.splitOn ".").head?.bind Literal.whole? with
      | some (_, "") => failAt (.rule "invalid digit found in string") l
      | some _ => failAt (.rule "expected unsuffixed integer") l
      | none => failAt (.expected ["integer literal"]) l
    else pure none
  | _ => pure none

/-- The member of a value behind a dot: a field, the call of a method, or
`await`. -/
def memberOf (inner : Inner) (base : Code) : Parser Code := do
  if ← keyword? "await" then pure (.node .await [base, .word ".", .word "await"])
  else do
    let (name, named) ← member
    let turbofish ←
      if named && isPunct "::" (← ahead) then do
        let list ← angleArguments inner
        pure (some (Code.arguments list))
      else pure none
    if turbofish.isSome || (named && isGroup .parenthesis (← ahead)) then do
      let parts ← inside .parenthesis (terminatedCode (inner.expression true))
      pure
        (.node .methodCall
          [base, .word ".", name, .ofOption turbofish, .group .parenthesis parts])
    else pure (.node .field [base, .word ".", name])

/-- Calls, indices, members and question marks behind an operand. -/
def trailing (inner : Inner) : Nat → Code → Parser Code
  | 0, c => pure c
  | fuel + 1, c => do
    let ts ← ahead
    if isGroup .parenthesis ts then do
      let parts ← inside .parenthesis (terminatedCode (inner.expression true))
      trailing inner fuel (.node .call [c, .group .parenthesis parts])
    else if isDot ts && !c.isRange then do
      punct "."
      match ← numberFields? c with
      | some (c, false) => trailing inner fuel c
      | some (c, true) => trailing inner fuel (← memberOf inner c)
      | none => trailing inner fuel (← memberOf inner c)
    else if isGroup .bracket ts then do
      let i ← inside .bracket (inner.expression true)
      trailing inner fuel (.node .index [c, .group .bracket [i]])
    else if isPunct "?" ts && !c.isRange then do
      punct "?"
      trailing inner fuel (.node .propagation [c, .word "?"])
    else pure c

/-! ### Atoms in brackets, and paths -/

/-- A field of a record. -/
def initializer (inner : Inner) : Parser Code := do
  let as ← attributesCode inner
  let (name, named) ← member
  if isPunct ":" (← ahead) || !named then do
    punct ":"
    let value ← inner.expression true
    pure (.node .initializer [.node .sequence as, name, .word ":", value])
  else pure (.node .initializer [.node .sequence as, name])

/-- The fields of a record up to the end; nothing follows what the others are
taken from. -/
def initializers (inner : Inner) : Nat → Parser (List Code)
  | 0 => pure []
  | fuel + 1 => do
    if ← finished then pure []
    else if ← punct? ".." then do
      let base ← if ← finished then pure .absent else inner.expression true
      pure [.node .remainder [.word "..", base]]
    else do
      let f ← initializer inner
      if ← finished then pure [f]
      else do
        punct ","
        let rest ← initializers inner fuel
        pure (f :: .word "," :: rest)

/-- A path, the call of a macro, or a record. -/
def pathAtom (inner : Inner) (record : Bool) : Parser Code := do
  let t ← qualifiedPath inner true
  let ts ← ahead
  let call :=
    match t with
    | .path p => isPunct "!" ts && !isPunct "!=" ts && p.bare
    | _ => false
  if call then do
    punct "!"
    let (d, b) ← anyBody
    pure (.node .macroCall [.type t, .word "!", .raw [.group d (TokenTree.tokens b)]])
  else if record && isGroup .brace ts then do
    let fields ← inside .brace (do initializers inner (← rounds))
    pure (.node .record [.type t, .group .brace fields])
  else pure (.node .path [.type t])

/-- An expression in parentheses, or a tuple. -/
def parenthesizedAtom (inner : Inner) : Parser Code := do
  let parts ← inside .parenthesis (terminatedCode (inner.expression true))
  match parts with
  | [_] => pure (.node .parenthesized [.group .parenthesis parts])
  | _ => pure (.node .tuple [.group .parenthesis parts])

/-- An array, or an element and how often it is repeated. -/
def arrayAtom (inner : Inner) : Parser Code :=
  inside .bracket do
    if ← finished then pure (.node .array [.group .bracket []])
    else do
      let first ← inner.expression true
      let ts ← ahead
      if ts.isEmpty then pure (.node .array [.group .bracket [first]])
      else if isPunct "," ts then do
        punct ","
        let rest ← terminatedCode (inner.expression true)
        pure (.node .array [.group .bracket (first :: .word "," :: rest)])
      else if isPunct ";" ts then do
        punct ";"
        let n ← inner.expression true
        pure (.node .repetition [.group .bracket [first, .word ";", n]])
      else failExpected [ticked ",", ticked ";"]

/-! ### Atoms that are blocks -/

/-- A label, if there is one. -/
def label? : Parser Code := do
  if isLifetime (← ahead) then do
    let l ← lifetime
    punct ":"
    pure (.node .sequence [.word l, .word ":"])
  else pure .absent

/-- An `if` with the `else` parts behind it. -/
def conditional (inner : Inner) : Nat → Parser Code
  | 0 => fail (.rule "expected an expression")
  | fuel + 1 => do
    keyword "if"
    let condition ← inner.expression false
    let then' ← braces inner
    if ← keyword? "else" then do
      let ts ← ahead
      if isKeyword "if" ts then do
        let next ← conditional inner fuel
        pure (.node .conditional [.word "if", condition, then', .word "else", next])
      else if isGroup .brace ts then do
        let last ← braces inner
        pure
          (.node .conditional
            [.word "if", condition, then', .word "else", .node .block [.absent, last]])
      else failExpected [ticked "if", Delimiter.brace.description]
    else pure (.node .conditional [.word "if", condition, then', .absent, .absent])

/-- A `while` behind its label. -/
def whileLoop (inner : Inner) (label : Code) : Parser Code := do
  keyword "while"
  let condition ← inner.expression false
  let b ← attributedBraces inner
  pure (.node .whileLoop [label, .word "while", condition, b])

/-- A `for` behind its label. -/
def forLoop (inner : Inner) (label : Code) : Parser Code := do
  keyword "for"
  let p ← patterns inner
  keyword "in"
  let source ← inner.expression false
  let b ← attributedBraces inner
  pure (.node .forLoop [label, .word "for", p, .word "in", source, b])

/-- A `loop` behind its label. -/
def endlessLoop (inner : Inner) (label : Code) : Parser Code := do
  keyword "loop"
  let b ← attributedBraces inner
  pure (.node .loop [label, .word "loop", b])

/-- A loop or a block behind its label. -/
def labelled (inner : Inner) : Parser Code := do
  let label ← label?
  let ts ← ahead
  if isKeyword "while" ts then whileLoop inner label
  else if isKeyword "for" ts then forLoop inner label
  else if isKeyword "loop" ts then endlessLoop inner label
  else if isGroup .brace ts then do
    let b ← attributedBraces inner
    pure (.node .block [label, b])
  else fail (.rule "expected loop or block expression")

/-- A block behind a word, with attributes of its own. -/
def markedBlock (inner : Inner) (construct : Construct) (mark : String) : Parser Code := do
  keyword mark
  let b ← attributedBraces inner
  pure (.node construct [.word mark, b])

/-- A `try` block. -/
def tryBlock (inner : Inner) : Parser Code := do
  keyword "try"
  let b ← braces inner
  pure (.node .tryBlock [.word "try", b])

/-- An `async` block. -/
def asyncBlock (inner : Inner) : Parser Code := do
  keyword "async"
  let moved ← keyword? "move"
  let b ← braces inner
  pure (.node .asyncBlock [.word "async", .optionalWord moved "move", b])

/-! ### Other atoms -/

/-- A parameter of a closure. -/
def closureParameter (inner : Inner) : Parser Code := do
  let as ← attributesCode inner
  let p ← inner.pattern
  if ← punct? ":" then do
    let t ← inner.ty true
    pure (Code.withAttributes as (.node .typedPattern [p, .word ":", .type t]))
  else pure (Code.withAttributes as p)

/-- A closure. -/
def closure (inner : Inner) (record : Bool) : Parser Code := do
  let binder ← binder? inner
  let const ← keyword? "const"
  let static ← keyword? "static"
  let async ← keyword? "async"
  let moved ← keyword? "move"
  let marks :=
    [(const, "const"), (static, "static"), (async, "async"), (moved, "move")].filter (·.1)
  punct "|"
  let (list, trailing) ← separatedUntil (isPunct "|") "," (closureParameter inner) (← rounds)
  punct "|"
  let head :=
    [.ofOption (binder.map .binder), .node .sequence (marks.map fun m => .word m.2), .word "|",
      .node .sequence (withCommas list trailing), .word "|"]
  if ← punct? "->" then do
    let t ← inner.ty true
    let b ← braces inner
    pure (.node .closure
      (head ++ [.node .sequence [.word "->", .type t], .node .block [.absent, b]]))
  else do
    let body ← inner.expression record
    pure (.node .closure (head ++ [.absent, body]))

/-- A `break` with its label and its value. A labelled loop as the value has to
stand in parentheses. -/
def breakAtom (inner : Inner) (record : Bool) : Parser Code := do
  keyword "break"
  let ts ← ahead
  let l ← here
  if isLifetime ts && isPunct ":" (ts.drop 1) then do
    let _ ← inner.expression true
    failAt (.rule "parentheses required") l
  else do
    let label ← if isLifetime ts then .word <$> lifetime else pure .absent
    let ts ← ahead
    let value ←
      if isExpressionStart ts && (record || !isGroup .brace ts) then inner.expression true
      else pure .absent
    pure (.node .break [.word "break", label, value])

/-- A word with an optional value, as `return`. -/
def valued (inner : Inner) (construct : Construct) (mark : String) : Parser Code := do
  keyword mark
  let value ← if isExpressionStart (← ahead) then inner.expression true else pure .absent
  pure (.node construct [.word mark, value])

/-- `let pattern = value` as a condition. -/
def condition (inner : Inner) (record : Bool) : Parser Code := do
  keyword "let"
  let p ← patterns inner
  punct "="
  let value ← inner.operand record .binds
  pure (.node .condition [.word "let", p, .word "=", value])

/-- The arm of a `match`; a comma is needed behind it unless it ends with a block
or is the last. -/
def arm (inner : Inner) : Parser Code := do
  let as ← attributesCode inner
  let p ← patterns inner
  let guard ←
    if ← keyword? "if" then do
      let g ← inner.expression true
      pure (Code.node .sequence [.word "if", g])
    else pure .absent
  punct "=>"
  let body ← inner.statementExpression
  let comma ←
    if !body.isBlockLike && !(← finished) then do
      punct ","
      pure true
    else punct? ","
  pure
    (.node .arm
      [.node .sequence as, p, guard, .word "=>", body, .optionalWord comma ","])

/-- A `match`. -/
def choice (inner : Inner) : Parser Code := do
  keyword "match"
  let subject ← inner.expression false
  let parts ← inside .brace do
    let as ← innerAttributes inner
    let arms ← toEnd (arm inner) (← rounds)
    pure (as.map Attribute.code ++ arms)
  pure (.node .choice [.word "match", subject, .group .brace parts])

/-- An operand without what may follow it. -/
def atom (inner : Inner) (record : Bool) : Parser Code := do
  let ts ← ahead
  let second := ts.drop 1
  if isLiteral ts then literal
  else if isKeyword "async" ts
      && (isGroup .brace second || (isKeyword "move" second && isGroup .brace (ts.drop 2))) then
    asyncBlock inner
  else if isKeyword "try" ts && isGroup .brace second then tryBlock inner
  else if isClosure ts then closure inner record
  else if isBuiltin ts then do
    builtin
    verbatimSince ts
  else if isPathStart ts || isPunct "::" ts || isPunct "<" ts
      || (isKeyword "try" ts && (isPunct "!" second || isPunct "::" second)) then
    pathAtom inner record
  else if isGroup .parenthesis ts then parenthesizedAtom inner
  else if isKeyword "break" ts then breakAtom inner record
  else if isKeyword "continue" ts then do
    skip 1
    let label ← if isLifetime (← ahead) then .word <$> lifetime else pure .absent
    pure (.node .continue [.word "continue", label])
  else if isKeyword "return" ts then valued inner .return "return"
  else if isKeyword "become" ts then do
    skip 1
    let _ ← inner.expression true
    verbatimSince ts
  else if isGroup .bracket ts then arrayAtom inner
  else if isKeyword "let" ts then condition inner record
  else if isKeyword "if" ts then do conditional inner (← rounds)
  else if isKeyword "while" ts then whileLoop inner .absent
  else if isKeyword "for" ts then forLoop inner .absent
  else if isKeyword "loop" ts then endlessLoop inner .absent
  else if isKeyword "match" ts then choice inner
  else if isKeyword "yield" ts then valued inner .yield "yield"
  else if isKeyword "unsafe" ts then markedBlock inner .unsafeBlock "unsafe"
  else if isKeyword "const" ts then markedBlock inner .constBlock "const"
  else if isGroup .brace ts then do
    let b ← attributedBraces inner
    pure (.node .block [.absent, b])
  else if isPunct ".." ts then do
    let (dots, closed) ← rangeDots false
    let end' ← rangeEnd (inner.operand record .range) record closed
    pure (.node .range [.absent, .word dots, end'])
  else if isKeyword "_" ts then do
    skip 1
    pure (.node .wildcard [.word "_"])
  else if isLifetime ts then labelled inner
  else fail (.rule "expected an expression")

/-! ### Operands and expressions -/

/-- An operand behind its attributes, which go to the whole of it. -/
def attributedOperand (before : List TokenTree) (attributes : List Code) (r : Parser Code) :
    Parser Code := do
  let l ← here
  let c ← r
  if attributes.isEmpty then pure c
  else if c.construct? = some .verbatim then verbatimSince before
  else if c.isRange then
    failAt (.rule "attributes are not allowed on range expressions starting with `..`") l
  else pure (Code.withAttributes attributes c)

/-- An operand with the operators in front of it. -/
def operandWith (inner : Inner) (record : Bool) : Nat → Parser Code
  | 0 => fail (.rule "expected an expression")
  | fuel + 1 => do
    let before ← ahead
    let as ← attributesCode inner
    let ts ← ahead
    if isPunct "&" ts then do
      punct "&"
      let ts ← ahead
      if isKeyword "raw" ts && (isKeyword "mut" (ts.drop 1) || isKeyword "const" (ts.drop 1)) then do
        skip 1
        let w ← word
        let c ← operandWith inner record fuel
        pure (Code.withAttributes as
          (.node .rawReference [.word "&", .word "raw", .word w.name, c]))
      else do
        let mutable ← keyword? "mut"
        let c ← operandWith inner record fuel
        pure (Code.withAttributes as
          (.node .reference [.word "&", .optionalWord mutable "mut", c]))
    else
      match ["*", "!", "-"].find? fun p => isPunct p ts with
      | some p => do
        punct p
        let c ← operandWith inner record fuel
        pure (Code.withAttributes as (.node .unary [.word p, c]))
      | none =>
        attributedOperand before as do
          let c ← atom inner record
          trailing inner (← rounds) c

/-- The operands and operators of an expression. -/
def operationsOf (inner : Inner) (record : Bool) : Operations :=
  ⟨inner, record, do operandWith inner record (← rounds)⟩

/-- Whether an expression goes on behind what is a statement by itself. -/
def goesOn (ts : List TokenTree) : Bool := isDot ts || isPunct "?" ts

/-- An expression at the place of a statement or behind the arrow of an arm. -/
def statementExpression (inner : Inner) : Parser Code := do
  let as ← attributesCode inner
  let ts ← ahead
  let o := operationsOf inner true
  let c ←
    if isKeyword "if" ts then do conditional inner (← rounds)
    else if isKeyword "while" ts then whileLoop inner .absent
    else if isKeyword "for" ts && !isBinder ts then forLoop inner .absent
    else if isKeyword "loop" ts then endlessLoop inner .absent
    else if isKeyword "match" ts then choice inner
    else if isKeyword "try" ts && isGroup .brace (ts.drop 1) then tryBlock inner
    else if isKeyword "unsafe" ts then markedBlock inner .unsafeBlock "unsafe"
    else if isKeyword "const" ts && isGroup .brace (ts.drop 1) then
      markedBlock inner .constBlock "const"
    else if isGroup .brace ts then do
      let b ← attributedBraces inner
      pure (.node .block [.absent, b])
    else if isLifetime ts then labelled inner
    else o.atom
  let further (c : Code) : Parser Code := do
    operations o (← operatorRounds) (Code.withAttributes as c) Precedence.least.rank
  if !c.isBlockLike then further c
  else if goesOn (← ahead) then do further (← trailing inner (← rounds) c)
  else pure (Code.withAttributes as c)

/-- An expression; the flag allows a path with fields in braces. -/
def expression (inner : Inner) (record : Bool) : Parser Code := do
  let o := operationsOf inner record
  let first ← o.atom
  operations o (← operatorRounds) first Precedence.least.rank

/-- An operand with what binds tighter than the operator in front of it. -/
def operand (inner : Inner) (record : Bool) (p : Precedence) : Parser Code := do
  rightOperand (operationsOf inner record) (← operatorRounds) p

end Parser

end RecordCoding
