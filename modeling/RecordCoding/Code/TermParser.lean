/-
Parsing types, paths, bounds, generic parameters and attributes.

All code can hold all other code, so each parser takes an `Inner`: the parsers
for what lies one level further in. The knot is tied in `RecordCoding.Code.Parse`;
a level is spent only behind a token, so as many levels as there are tokens are
enough.

Design notes:

* Alternatives are tried in a fixed order, and a failure names them in that
  order.
* Places differ in which bounds they allow: `use<...>` belongs to `impl` types,
  and the word `const` in front of a trait to bounds that a compiler may check.
-/
import RecordCoding.Code.Item

namespace RecordCoding

/-- The parsers for what lies one level further in. -/
structure Inner where
  /-- A type; the flag allows bounds behind a `+`. -/
  ty : Bool → Parser Ty
  /-- A bound; the flags allow `use<...>`, and `const` in front of a trait. -/
  bound : Bool → Bool → Parser Bound
  /-- An expression; the flag allows a path with fields in braces. -/
  expression : Bool → Parser Code
  /-- An operand with what binds tighter than the operator in front of it. -/
  operand : Bool → Precedence → Parser Code
  /-- An expression at the place of a statement or behind the arrow of an arm. -/
  statementExpression : Parser Code
  /-- A pattern without alternatives. -/
  pattern : Parser Code
  /-- Statements up to the end. -/
  statements : Parser (List Code)
  /-- An item, and its code. -/
  item : Parser (Item × Code)

namespace Parser

/-- As many rounds as a loop over the tokens ahead can take. -/
def rounds : Parser Nat := do pure ((← ahead).length + 1)

/-! ### Plain paths -/

/-- A word that may open a path although it is reserved. -/
def isPathWord (ts : List TokenTree) : Bool :=
  isKeyword "super" ts || isKeyword "self" ts || isKeyword "Self" ts || isKeyword "crate" ts

/-- A path opens with what comes next, up to its first step. -/
def isPathStart (ts : List TokenTree) : Bool := isIdentifier ts || isPathWord ts

/-- A path without arguments. -/
def plainPath : Parser Path := do
  let leading ← punct? "::"
  let rec steps : Nat → Parser (List Ident × Bool)
    | 0 => pure ([], false)
    | fuel + 1 => do
      if isPathStart (← ahead) then do
        let i ← word
        if ← punct? "::" then do
          let (rest, open') ← steps fuel
          pure (i :: rest, open' || rest.isEmpty)
        else pure ([i], false)
      else pure ([], false)
  let (names, open') ← steps (← rounds)
  if names.isEmpty then do
    let _ ← identifier
    pure default
  else if open' then fail (.rule "expected path segment after `::`")
  else pure (.plain leading names)

/-! ### Attributes and blocks -/

/-- A literal that nothing stands behind. -/
def wholeLiteral : Parser Code := do
  let c ← literal
  if ← finished then pure c else failExpected []

/-- What follows the path of an attribute. -/
def attributeContent (inner : Inner) : Parser AttributeContent := do
  let s ← get
  match s.rest with
  | .group d inside _ closing :: rest => do
    set { s with rest := rest }
    pure (.list d inside closing)
  | ts =>
    if isPunct "=" ts && !isPunct "==" ts && !isPunct "=>" ts then do
      let l ← here
      punct "="
      let ts ← ahead
      match ← attempt? wholeLiteral with
      | some c => pure (.value l c)
      | none =>
        if isPunct "#" ts && isGroup .bracket (ts.drop 1) then
          fail (.rule "unexpected attribute inside of attribute")
        else .value l <$> inner.expression true
    else pure .none

/-- The attribute in the brackets behind a `#`, or behind `#!`. -/
def oneAttribute (inner : Inner) (enclosing : Bool) : Parser Attribute := do
  let l ← here
  punct "#"
  if enclosing then punct "!"
  inside .bracket do
    let ts ← ahead
    let p ←
      if isKeyword "unsafe" ts then do
        let i ← word
        pure (Path.plain false [i])
      else plainPath
    let content ← attributeContent inner
    pure ⟨l, enclosing, p, content⟩

/-- Attributes of what follows. -/
def attributes (inner : Inner) : Parser (List Attribute) := do
  let rec loop : Nat → Parser (List Attribute)
    | 0 => pure []
    | fuel + 1 => do
      if isPunct "#" (← ahead) then do
        let a ← oneAttribute inner false
        let rest ← loop fuel
        pure (a :: rest)
      else pure []
  loop (← rounds)

/-- Attributes of what follows, as code. -/
def attributesCode (inner : Inner) : Parser (List Code) := do
  pure ((← attributes inner).map Attribute.code)

/-- Attributes of what encloses them. -/
def innerAttributes (inner : Inner) : Parser (List Attribute) := do
  let rec loop : Nat → Parser (List Attribute)
    | 0 => pure []
    | fuel + 1 => do
      let ts ← ahead
      if isPunct "#" ts && isPunct "!" (ts.drop 1) then do
        let a ← oneAttribute inner true
        let rest ← loop fuel
        pure (a :: rest)
      else pure []
  loop (← rounds)

/-- Statements in braces. -/
def braces (inner : Inner) : Parser Code := do
  let parts ← inside .brace inner.statements
  pure (.group .brace parts)

/-- Statements in braces, behind attributes of what the braces belong to. -/
def attributedBraces (inner : Inner) : Parser Code := do
  let parts ← inside .brace do
    let as ← innerAttributes inner
    let statements ← inner.statements
    pure (as.map Attribute.code ++ statements)
  pure (.group .brace parts)

/-! ### Paths -/

/-- Whether a constant comes next as a generic argument. -/
def isConstantArgument (ts : List TokenTree) : Bool := isLiteral ts || isGroup .brace ts

/-- What may be a literal, a name or a block as a generic argument. -/
def constantArgument (inner : Inner) : Parser Code := do
  let ts ← ahead
  if isLiteral ts then literal
  else if isIdentifier ts then .ofName <$> identifier
  else if isGroup .brace ts then do
    let b ← attributedBraces inner
    pure (.node .block [.absent, b])
  else failExpected []

/-- Bounds with an optional `+` behind each, up to where `stop` holds. -/
def boundList (inner : Inner) (stop : List TokenTree → Bool) : Parser (List Bound × Bool) := do
  chained stop "+" (inner.bound false true) (← rounds)

/-- Bounds with a `+` between them, up to where `stop` holds. -/
def boundsUntil (inner : Inner) (const : Bool) (stop : List TokenTree → Bool) :
    Parser (List Bound × Bool) := do
  separatedUntil stop "+" (inner.bound false const) (← rounds)

/-- A generic argument. -/
def argument (inner : Inner) : Parser Argument := do
  let ts ← ahead
  if isLifetime ts && !isPunct "+" (ts.drop 1) then .lifetime <$> lifetime
  else if isConstantArgument ts then .constant <$> constantArgument inner
  else do
    let t ← inner.ty true
    match t with
    | .path (.mk false [name]) => do
      if ← punct? "=" then do
        if isConstantArgument (← ahead) then .associatedConstant name <$> constantArgument inner
        else .associatedType name <$> inner.ty true
      else if ← punct? ":" then do
        let (bounds, trailing) ← boundList inner fun ts => isPunct "," ts || isPunct ">" ts
        pure (.constraint name bounds trailing)
      else pure (.type t)
    | t => pure (.type t)

/-- Arguments in angle brackets. -/
def angleArguments (inner : Inner) : Parser Arguments := do
  let marked ← punct? "::"
  punct "<"
  let (arguments, trailing) ← separatedUntil (isPunct ">") "," (argument inner) (← rounds)
  punct ">"
  pure (.angle marked arguments trailing)

/-- A step of a path; within an expression, arguments need `::` in front. -/
def segment (inner : Inner) (marked : Bool) : Parser Segment := do
  let ts ← ahead
  if isKeyword "super" ts || isKeyword "self" ts || isKeyword "crate" ts || isKeyword "try" ts then
    do pure (.mk (← word) .none)
  else do
    let name ← if isKeyword "Self" ts then word else identifier
    let ts ← ahead
    if (!marked && isPunct "<" ts && !isPunct "<=" ts && !isPunct "<<=" ts)
        || (isPunct "::" ts && isPunct "<" (ts.drop 2)) then
      .mk name <$> angleArguments inner
    else pure (.mk name .none)

/-- The further steps of a path. -/
def furtherSteps (inner : Inner) (marked : Bool) : Nat → Parser (List Segment)
  | 0 => pure []
  | fuel + 1 => do
    let ts ← ahead
    if isPunct "::" ts && !isGroup .parenthesis (ts.drop 2) then do
      punct "::"
      let s ← segment inner marked
      let rest ← furtherSteps inner marked fuel
      pure (s :: rest)
    else pure []

/-- A path. -/
def path (inner : Inner) (marked : Bool) : Parser Path := do
  let leading ← punct? "::"
  let first ← segment inner marked
  let rest ← furtherSteps inner marked (← rounds)
  pure (.mk leading (first :: rest))

/-- The steps of a qualified path behind its `::`. -/
def stepsBehind (inner : Inner) (marked : Bool) : Nat → Parser (List Segment)
  | 0 => pure []
  | fuel + 1 => do
    let s ← segment inner marked
    if ← punct? "::" then do
      let rest ← stepsBehind inner marked fuel
      pure (s :: rest)
    else pure [s]

/-- A path, perhaps qualified by a type. -/
def qualifiedPath (inner : Inner) (marked : Bool) : Parser Ty := do
  if ← punct? "<" then do
    let subject ← inner.ty true
    let through ← if ← keyword? "as" then some <$> path inner false else pure none
    punct ">"
    punct "::"
    let rest ← stepsBehind inner marked (← rounds)
    pure (.qualified subject through rest)
  else .path <$> path inner marked

/-! ### Generic parameters -/

/-- A lifetime parameter behind its attributes. -/
def lifetimeParam (attributes : List Code) : Parser GenericParam := do
  let name ← lifetime
  if ← punct? ":" then do
    let (outlives, trailing) ←
      chained (fun ts => ts.isEmpty || isPunct "," ts || isPunct ">" ts) "+" lifetime (← rounds)
    pure (.lifetime attributes name outlives trailing)
  else pure (.lifetime attributes name [] false)

/-- A type parameter behind its attributes. -/
def typeParam (inner : Inner) (attributes : List Code) : Parser GenericParam := do
  let name ← identifier
  let stop (ts : List TokenTree) : Bool :=
    ts.isEmpty || isPunct "," ts || isPunct ">" ts || isPunct "=" ts
  let (bounds, trailing) ← if ← punct? ":" then boundList inner stop else pure ([], false)
  let fallback ← if ← punct? "=" then some <$> inner.ty true else pure none
  pure (.type attributes name bounds trailing fallback)

/-- A constant parameter behind its attributes. -/
def constantParam (inner : Inner) (attributes : List Code) : Parser GenericParam := do
  keyword "const"
  let name ← identifier
  punct ":"
  let t ← inner.ty true
  let fallback ← if ← punct? "=" then some <$> constantArgument inner else pure none
  pure (.constant attributes name t fallback)

/-- A parameter of a binder. -/
def binderParam (inner : Inner) : Parser GenericParam := do
  let as ← attributesCode inner
  let ts ← ahead
  if isIdentifier ts then typeParam inner as
  else if isLifetime ts then lifetimeParam as
  else if isKeyword "const" ts then constantParam inner as
  else failExpected ["identifier", "lifetime", ticked "const"]

/-- A binder `for<...>`, if there is one. -/
def binder? (inner : Inner) : Parser (Option Binder) := do
  if ← keyword? "for" then do
    punct "<"
    let (params, trailing) ← separatedUntil (isPunct ">") "," (binderParam inner) (← rounds)
    punct ">"
    pure (some (.mk params trailing))
  else pure none

/-- A parameter of a declaration, which may be named by an underscore. -/
def genericParam (inner : Inner) : Parser GenericParam := do
  let as ← attributesCode inner
  let ts ← ahead
  if isLifetime ts then lifetimeParam as
  else if isIdentifier ts then typeParam inner as
  else if isKeyword "const" ts then constantParam inner as
  else if isKeyword "_" ts then do
    let name ← word
    pure (.type as name [] false none)
  else failExpected ["lifetime", "identifier", ticked "const"]

/-- The parameters of a declaration, if there are any. -/
def genericParams (inner : Inner) : Parser (List GenericParam × Bool) := do
  if ← punct? "<" then do
    let list ← separatedUntil (isPunct ">") "," (genericParam inner) (← rounds)
    punct ">"
    pure list
  else pure ([], false)

/-! ### Bounds -/

/-- The result of a function, if an arrow comes next. -/
def result? (inner : Inner) (plus : Bool) : Parser (Option Ty) := do
  if ← punct? "->" then some <$> inner.ty plus else pure none

/-- The parameters and the result of a function trait. -/
def functionArguments (inner : Inner) : Parser Arguments := do
  let (parameters, trailing) ← inside .parenthesis (terminated (inner.ty true))
  let result ← result? inner false
  pure (.function parameters trailing result)

/-- Whether the arguments of a function trait come next. -/
def isFunctionArguments (ts : List TokenTree) : Bool :=
  isGroup .parenthesis ts || (isPunct "::" ts && isGroup .parenthesis (ts.drop 2))

/-- The path of a trait; a last step without arguments may go on with those of a
function trait. -/
def traitPath (inner : Inner) : Parser Path := do
  let p ← path inner false
  match p.segments.reverse with
  | .mk name arguments :: before => do
    if arguments.isEmpty && isFunctionArguments (← ahead) then do
      let _ ← punct? "::"
      let arguments ← functionArguments inner
      pure (.mk p.leading (before.reverse ++ [.mk name arguments]))
    else pure p
  | [] => pure p

/-- `const` or `[const]` in front of a trait: whether it is there. -/
def constMark (allowed : Bool) : Parser Bool := do
  let ts ← ahead
  let l ← here
  if isGroup .bracket ts then do
    inside .bracket (keyword "const")
    if allowed then pure true else failAt (.rule "`[const]` is not allowed here") l
  else if ← keyword? "const" then
    if allowed then pure true else failAt (.rule "`const` is not allowed here") l
  else pure false

/-- A bound that is a trait; `none` if it is one that a compiler may check, which
is kept as its tokens. -/
def traitBound? (inner : Inner) (parenthesized const : Bool) : Parser (Option Bound) := do
  let before ← binder? inner
  let checked ← constMark const
  let l ← here
  let relaxed ← punct? "?"
  let binder ← if before.isNone && relaxed then binder? inner else pure before
  let p ← traitPath inner
  if binder.isSome && relaxed then
    failAt (.rule "`for<...>` binder not allowed with `?` trait polarity modifier") l
  else if checked then pure none
  else pure (some (.trait parenthesized binder relaxed p))

/-- `use<...>`. -/
def captures : Parser Bound := do
  keyword "use"
  punct "<"
  let rec names : Nat → Parser (List String × Bool)
    | 0 => pure ([], false)
    | fuel + 1 => do
      let ts ← ahead
      if isLifetime ts || isIdentifier ts || isKeyword "Self" ts then do
        let name ← if isLifetime ts then lifetime else Ident.spelled <$> word
        if ← punct? "," then do
          let (rest, trailing) ← names fuel
          pure (name :: rest, trailing || rest.isEmpty)
        else if isPunct ">" (← ahead) then pure ([name], false)
        else failExpected [ticked ",", ticked ">"]
      else if isPunct ">" ts then pure ([], false)
      else failExpected ["lifetime", "identifier", ticked ">"]
  let (list, trailing) ← names (← rounds)
  punct ">"
  pure (.captures list trailing)

/-- A bound; the flags allow `use<...>`, and `const` in front of a trait. -/
def bound (inner : Inner) (hidden const : Bool) : Parser Bound := do
  let ts ← ahead
  let l ← here
  if isLifetime ts then .lifetime <$> lifetime
  else if isKeyword "use" ts then do
    let b ← captures
    if hidden then pure b
    else failAt (.rule "`use<...>` precise capturing syntax is not allowed here") l
  else do
    let b ←
      if isGroup .parenthesis ts then inside .parenthesis (traitBound? inner true const)
      else traitBound? inner false const
    match b with
    | some b => pure b
    | none => .verbatim <$> takenSince ts

/-- Whether a further bound may follow a `+`. -/
def isBoundStart (const : Bool) (ts : List TokenTree) : Bool :=
  isWord ts || isPunct "::" ts || isPunct "?" ts || isLifetime ts || isGroup .parenthesis ts
    || (const && isGroup .bracket ts)

/-- Bounds behind the first one, each behind a `+`, as far as they go. -/
def furtherBounds (inner : Inner) (hidden const : Bool) : Nat → Parser (List Bound × Bool)
  | 0 => pure ([], false)
  | fuel + 1 => do
    if ← punct? "+" then do
      if isBoundStart const (← ahead) then do
        let b ← bound inner hidden const
        let (rest, trailing) ← furtherBounds inner hidden const fuel
        pure (b :: rest, trailing)
      else pure ([], true)
    else pure ([], false)

/-- Whether a bound is a trait. -/
def isTrait : Bound → Bool
  | .lifetime _ => false
  | .captures _ _ => false
  | _ => true

/-- The bounds of a trait object or an `impl` type that stands at `start`; one
of them has to be a trait. -/
def traitBounds (inner : Inner) (plus hidden : Bool) (start : Location) (failure : String) :
    Parser (List Bound × Bool) := do
  let first ← bound inner hidden hidden
  let (rest, trailing) ←
    if plus then furtherBounds inner hidden hidden (← rounds) else pure ([], false)
  if (first :: rest).any isTrait then pure (first :: rest, trailing)
  else failAt (.rule failure) start

/-- The bounds of a trait object, `dyn` not included. -/
def objectBounds (inner : Inner) (plus : Bool) (start : Location) : Parser (List Bound × Bool) :=
  traitBounds inner plus false start "at least one trait is required for an object type"

/-! ### Types -/

/-- A parameter of a function pointer behind its attributes. The first one may be
`self`, and `mut self` is kept as its tokens. -/
def parameter (inner : Inner) (first : Bool) (attributes : List Code) : Parser Parameter := do
  let before ← ahead
  let changing := first && isKeyword "mut" before && isKeyword "self" (before.drop 1)
  if changing then keyword "mut"
  let ts ← ahead
  let named :=
    (isIdentifier ts || isKeyword "_" ts || (first && isKeyword "self" ts))
      && isPunct ":" (ts.drop 1) && !isPunct "::" (ts.drop 1)
  let name ←
    if named then do
      let name ← word
      punct ":"
      pure (some name)
    else pure none
  let ts ← ahead
  if first && !(named && isKeyword "self" (before.drop (if changing then 1 else 0)))
      && isKeyword "mut" ts && isKeyword "self" (ts.drop 1) then do
    skip 2
    pure (.mk attributes none (.verbatim (← takenSince before)))
  else if changing && name.isNone then do
    keyword "self"
    pure (.mk attributes none (.verbatim (← takenSince before)))
  else do
    let t ← inner.ty true
    if changing then pure (.mk attributes none (.verbatim (← takenSince before)))
    else pure (.mk attributes name t)

/-- Whether what stands for further arguments comes next. -/
def isVariadic (ts : List TokenTree) : Bool :=
  isPunct "..." ts
    || ((isIdentifier ts || isKeyword "_" ts) && isPunct ":" (ts.drop 1) && isPunct "..." (ts.drop 2))

/-- What stands for further arguments, and an optional comma. -/
def variadicParameter (attributes : List Code) : Parser (Parameter × Bool) := do
  let name ←
    if isWord (← ahead) then do
      let name ← word
      punct ":"
      pure (some name)
    else pure none
  punct "..."
  let comma ← punct? ","
  pure (.mk attributes name .variadic, comma)

/-- The parameters of a function pointer; nothing follows a variadic one. -/
def parameters (inner : Inner) (first : Bool) : Nat → Parser (List Parameter × Bool)
  | 0 => pure ([], false)
  | fuel + 1 => do
    if ← finished then pure ([], false)
    else do
      let as ← attributesCode inner
      if isVariadic (← ahead) then do
        let (p, comma) ← variadicParameter as
        pure ([p], comma)
      else do
        let p ← parameter inner first as
        if ← finished then pure ([p], false)
        else do
          punct ","
          let (rest, trailing) ← parameters inner false fuel
          pure (p :: rest, trailing || rest.isEmpty)

/-- The words in front of the parentheses of a function pointer: `unsafe`,
`extern` with a name, `fn`. -/
def functionQualifiers : Parser (List String) := do
  let unsafety ← keyword? "unsafe"
  let abi ←
    if ← keyword? "extern" then do
      match ← ahead with
      | .literal text _ :: rest =>
        if isText (.literal text Location.start :: rest) then do
          skip 1
          pure ["extern", text]
        else pure ["extern"]
      | _ => pure ["extern"]
    else pure []
  keyword "fn"
  pure ((if unsafety then ["unsafe"] else []) ++ abi ++ ["fn"])

/-- A function pointer behind its binder. -/
def functionPointer (inner : Inner) (binder : Option Binder) : Parser Ty := do
  let qualifiers ← functionQualifiers
  let (list, trailing) ← inside .parenthesis (do parameters inner true (← rounds))
  let result ← result? inner false
  pure (.function binder qualifiers list trailing result)

/-- What the first type in parentheses becomes as a bound, if a `+` follows. -/
def parenthesizedBound? : Ty → Option Bound
  | .path p => some (.trait true none false p)
  | .object false [.trait _ binder relaxed p] false => some (.trait true binder relaxed p)
  | .object false [b] false => some b
  | _ => none

/-- What stands in parentheses at the place of a type: a tuple, a bound or a
type; whether bounds may follow. -/
def parenthesizedContent (inner : Inner) : Parser (Ty × Bool) := do
  let ts ← ahead
  if ts.isEmpty then pure (.tuple [] false, false)
  else if isLifetime ts then do
    let (bounds, trailing) ← objectBounds inner true (← here)
    pure (.paren (.object false bounds trailing), false)
  else if isPunct "?" ts then do
    match ← traitBound? inner true false with
    | some b => pure (.object false [b] false, true)
    | none => failExpected []
  else do
    let first ← inner.ty true
    if ← punct? "," then do
      let (rest, trailing) ← terminated (inner.ty true)
      pure (.tuple (first :: rest) (trailing || rest.isEmpty), false)
    else pure (.paren first, true)

/-- Bounds that each stand behind a `+`. -/
def addedBounds (inner : Inner) : Nat → Parser (List Bound)
  | 0 => pure []
  | fuel + 1 => do
    if ← punct? "+" then do
      let b ← inner.bound false false
      let rest ← addedBounds inner fuel
      pure (b :: rest)
    else pure []

/-- A type in parentheses, with the bounds that may follow it. -/
def parenthesizedType (inner : Inner) (plus : Bool) : Parser Ty := do
  let (t, extensible) ← inside .parenthesis (parenthesizedContent inner)
  let extended (b : Bound) : Parser Ty := do
    let rest ← addedBounds inner (← rounds)
    pure (.object false (b :: rest) false)
  match t, extensible with
  | .object false [b] _, true => extended b
  | .paren first, true =>
    if plus && isPunct "+" (← ahead) then
      match parenthesizedBound? first with
      | some b => extended b
      | none => pure t
    else pure t
  | t, _ => pure t

/-- A type that opens with a path. -/
def pathType (inner : Inner) (plus : Bool) (binder : Option Binder) : Parser Ty := do
  let t ← qualifiedPath inner false
  match t with
  | .path p => do
    let ts ← ahead
    if isPunct "!" ts && !isPunct "!=" ts && p.bare then do
      punct "!"
      let (d, b) ← anyBody
      pure (.call p d (TokenTree.tokens b))
    else if binder.isSome || (plus && isPunct "+" ts) then do
      let (rest, trailing) ←
        if plus then furtherBounds inner false false (← rounds) else pure ([], false)
      pure (.object false (.trait false binder false p :: rest) trailing)
    else pure (.path p)
  | t => pure t

/-- Whether what a compiler provides comes next, as in `builtin # name(...)`. -/
def isBuiltin (ts : List TokenTree) : Bool := isKeyword "builtin" ts && isPunct "#" (ts.drop 1)

/-- Leave out what a compiler provides. -/
def builtin : Parser Unit := do
  keyword "builtin"
  punct "#"
  let _ ← identifier
  let _ ← body .parenthesis

/-- A trait object from its `dyn` on. -/
def objectType (inner : Inner) (plus : Bool) : Parser Ty := do
  let before ← ahead
  let start ← here
  keyword "dyn"
  let star ← punct? "*"
  let (bounds, trailing) ← objectBounds inner plus start
  if star then .verbatim <$> takenSince before else pure (.object true bounds trailing)

/-- A pointer from its `*` on. -/
def pointerType (inner : Inner) : Parser Ty := do
  punct "*"
  if ← keyword? "const" then .pointer false <$> inner.ty false
  else if ← keyword? "mut" then .pointer true <$> inner.ty false
  else failExpected [ticked "const", ticked "mut"]

/-- A reference from its `&` on. -/
def referenceType (inner : Inner) : Parser Ty := do
  punct "&"
  let l ← if isLifetime (← ahead) then some <$> lifetime else pure none
  let mutable ← keyword? "mut"
  .reference l mutable <$> inner.ty false

/-- The alternatives for a type, as failures name them. -/
def typeAlternatives : List String :=
  [ticked "for", Delimiter.parenthesis.description, ticked "fn", ticked "unsafe", ticked "extern",
   "identifier", ticked "::", ticked "<", ticked "dyn", Delimiter.bracket.description, ticked "*",
   ticked "&", ticked "!", ticked "impl", ticked "_", "lifetime"]

/-- The alternatives for a type behind a binder. -/
def boundTypeAlternatives : List String :=
  ["identifier", ticked "fn", ticked "unsafe", ticked "extern", ticked "super", ticked "self",
   ticked "Self", ticked "crate"]

def isFunctionStart (ts : List TokenTree) : Bool :=
  isKeyword "fn" ts || isKeyword "unsafe" ts || isKeyword "extern" ts

/-- A type; the flag allows bounds behind a `+`. -/
def ty (inner : Inner) (plus : Bool) : Parser Ty := do
  let before ← ahead
  let binder ← binder? inner
  let ts ← ahead
  if binder.isSome && !isFunctionStart ts && !isPathStart ts then failExpected boundTypeAlternatives
  else if isGroup .parenthesis ts then parenthesizedType inner plus
  else if isFunctionStart ts then functionPointer inner binder
  else if isBuiltin ts then do
    builtin
    .verbatim <$> takenSince before
  else if isPathStart ts || isPunct "::" ts || isPunct "<" ts then pathType inner plus binder
  else if isKeyword "dyn" ts then objectType inner plus
  else if isGroup .bracket ts then
    inside .bracket do
      let element ← inner.ty true
      if ← punct? ";" then .array element <$> inner.expression true else pure (.slice element)
  else if isPunct "*" ts then pointerType inner
  else if isPunct "&" ts then referenceType inner
  else if isPunct "!" ts && !isPunct "=" ts then do
    punct "!"
    pure .never
  else if isKeyword "impl" ts then do
    let start ← here
    keyword "impl"
    let (bounds, trailing) ← traitBounds inner plus true start "at least one trait must be specified"
    pure (.implementor bounds trailing)
  else if isKeyword "_" ts then do
    keyword "_"
    pure .infer
  else if isLifetime ts then do
    let (bounds, trailing) ← objectBounds inner true (← here)
    pure (.object false bounds trailing)
  else failExpected typeAlternatives

end Parser

end RecordCoding
