/-
Parsing items: functions, imports, constants, traits, implementations, modules
and whatever else may stand in a file or in a block.

Design notes:

* An item that has no meaning, such as a function without a body, is parsed all
  the same and then kept as its tokens, attributes included.
* An item with a visibility cannot be the call of a macro, so the alternatives
  named in a failure depend on it. A word that only looked like the beginning of
  an item is not named among them.
* Attributes that a trait holds inside its braces are its own.
-/
import RecordCoding.Code.DeclarationParser

namespace RecordCoding

namespace Parser

/-! ### Looking ahead -/

/-- Behind the words that may qualify a function comes `fn`; among them may be
`safe` within a foreign block. -/
def isSignature (foreignItem : Bool) (ts : List TokenTree) : Bool :=
  let after (w : String) (ts : List TokenTree) : List TokenTree :=
    if isKeyword w ts then ts.drop 1 else ts
  let ts := after "async" (after "const" ts)
  let ts := if foreignItem && isKeyword "safe" ts then ts.drop 1 else after "unsafe" ts
  let ts :=
    if isKeyword "extern" ts then (if isText (ts.drop 1) then ts.drop 2 else ts.drop 1) else ts
  isKeyword "fn" ts

/-- Whether the call of a macro may begin here. -/
def isMacroStart (ts : List TokenTree) : Bool :=
  isIdentifier ts || isKeyword "self" ts || isKeyword "super" ts || isKeyword "crate" ts
    || isPunct "::" ts

/-- Fail because no item begins here, naming those words that could. -/
def failItem {α : Type} (words : List String) (callable : Bool) : Parser α := do
  let ts ← ahead
  let calls := if callable then ["identifier"] ++ ["self", "super", "crate", "::"].map ticked else []
  failExpected ((words.filter fun w => !isKeyword w ts).map ticked ++ calls)

/-! ### Functions -/

/-- `self` as a parameter, and where it stands. -/
def receiver (inner : Inner) : Parser (Code × Location) := do
  let reference ← punct? "&"
  let l ← if reference && isLifetime (← ahead) then .word <$> lifetime else pure .absent
  let mutable ← keyword? "mut"
  let place ← here
  keyword "self"
  let t ←
    if !reference && (← punct? ":") then do
      let t ← inner.ty true
      pure (Code.node .sequence [.word ":", .type t])
    else pure .absent
  let parts :=
    [if reference then Code.node .sequence [.word "&", l] else .absent,
      .optionalWord mutable "mut", .word "self", t]
  pure (.node .receiver parts, place)

/-- What kind a parameter of a function is. -/
inductive ParameterKind
  /-- `self`, and where it stands. -/
  | receiver (location : Location)
  | typed
  /-- What stands for further arguments. -/
  | variadic

/-- A parameter of a function behind its attributes. An older form has a type
alone. -/
def functionParameter (inner : Inner) : Parser (Code × ParameterKind) := do
  let ts ← ahead
  if ← punct? "..." then pure (.type .variadic, .variadic)
  else
    match ← attempt? (receiver inner) with
    | some (c, l) => pure (c, .receiver l)
    | none => do
      if isIdentifier ts && isPunct "<" (ts.drop 1) then do
        let t ← inner.ty true
        pure
          (.node .typedPattern [.node .wildcard [.word "_"], .word ":", .type t], .typed)
      else do
        let p ← inner.pattern
        punct ":"
        if ← punct? "..." then
          pure (.node .typedPattern [p, .word ":", .type .variadic], .variadic)
        else do
          let t ← inner.ty true
          pure (.node .typedPattern [p, .word ":", .type t], .typed)

/-- The parameters of a function up to the end, given whether there was a
receiver and whether there was any parameter before. Nothing follows a variadic
one. -/
def functionParameters (inner : Inner) (received any : Bool) : Nat → Parser (List Code)
  | 0 => pure []
  | fuel + 1 => do
    if ← finished then pure []
    else do
      let as ← attributesCode inner
      let (c, kind) ← functionParameter inner
      let c := Code.withAttributes as c
      let further (received : Bool) : Parser (List Code) := do
        if ← finished then pure [c]
        else do
          punct ","
          let rest ← functionParameters inner received true fuel
          pure (c :: .word "," :: rest)
      match kind with
      | .variadic =>
        if ← finished then pure [c]
        else do
          punct ","
          pure [c, .word ","]
      | .receiver l =>
        if received then failAt (.rule "unexpected second method receiver") l
        else if any then failAt (.rule "unexpected method receiver") l
        else further true
      | .typed => further received

/-- `extern` with a name, if it comes next. -/
def abi? : Parser Code := do
  if ← keyword? "extern" then
    match ← ahead with
    | .literal text l :: _ =>
      if isText [.literal text l] then do
        skip 1
        pure (.node .sequence [.word "extern", .word text])
      else pure (.node .sequence [.word "extern"])
    | _ => pure (.node .sequence [.word "extern"])
  else pure .absent

/-- A signature: words, `fn`, name, parameters, arguments, result, conditions. -/
def signature (inner : Inner) (foreignItem : Bool) : Parser (List Code) := do
  let const ← keyword? "const"
  let async ← keyword? "async"
  let safe ← if foreignItem then keyword? "safe" else pure false
  let unsafety ← if safe then pure false else keyword? "unsafe"
  let abi ← abi?
  keyword "fn"
  let name ← identifier
  let (params, trailing) ← genericParams inner
  let list ← inside .parenthesis (do functionParameters inner false false (← rounds))
  let result ← result? inner true
  let conditions ← whereClause? inner
  let words :=
    [(const, "const"), (async, "async"), (safe, "safe"), (unsafety, "unsafe")].filter (·.1)
  let resultCode : Code :=
    match result with
    | some t => .node .sequence [.word "->", .type t]
    | none => .absent
  pure
    [.node .sequence (words.map (fun w => Code.word w.2) ++ [abi]), .word "fn", .word name.spelled,
      .generics params trailing, .group .parenthesis list, resultCode,
      (generics (params, trailing) conditions).conditions]

/-- The beginning of an item: attributes and visibility. -/
def headCode (as : List Attribute) (v : Visibility) : List Code :=
  [.node .sequence (as.map Attribute.code), v.code]

/-- A function behind its visibility. -/
def functionItem (inner : Inner) (before : List TokenTree) (as : List Attribute) (v : Visibility) :
    Parser Code := do
  let parts ← signature inner false
  if ← punct? ";" then verbatimSince before
  else do
    let b ← attributedBraces inner
    pure (.node .function (headCode as v ++ .absent :: parts ++ [b]))

/-! ### Imports -/

/-- A tree of imported names, in which a name may begin with `::` if `root`
says so; `none` if one does. -/
def importTree (root : Bool) : Nat → Parser (Option Code)
  | 0 => failExpected []
  | fuel + 1 => do
    let ts ← ahead
    if isIdentifier ts || isKeyword "self" ts || isKeyword "super" ts || isKeyword "crate" ts
        || isKeyword "try" ts then do
      let name ← word
      if ← punct? "::" then do
        let rest ← importTree false fuel
        pure (rest.map fun c => .node .importTree [.word name.spelled, .word "::", c])
      else if ← keyword? "as" then do
        let ts ← ahead
        if isIdentifier ts || isKeyword "_" ts then do
          let other ← word
          pure
            (some (.node .importTree [.word name.spelled, .word "as", .word other.spelled]))
        else failExpected ["identifier", "underscore"]
      else pure (some (.node .importTree [.word name.spelled]))
    else if ← punct? "*" then pure (some (.node .importTree [.word "*"]))
    else if isGroup .brace ts then do
      let tree : Parser (Option Code) := do
        let rooted ← if root then punct? "::" else pure false
        let c ← importTree (root && !rooted) fuel
        pure (if rooted then none else c)
      let (list, trailing) ← inside .brace (terminated tree)
      let trees := list.filterMap id
      if trees.length < list.length then pure none
      else pure (some (.node .importTree [.group .brace (withCommas trees trailing)]))
    else
      failExpected
        ["identifier", ticked "self", ticked "super", ticked "crate", ticked "try", ticked "*",
          Delimiter.brace.description]

/-- An import behind its visibility. -/
def importItem (before : List TokenTree) (as : List Attribute) (v : Visibility) :
    Parser Code := do
  keyword "use"
  let leading ← punct? "::"
  let tree ← importTree (!leading) (TokenTree.sizeList (← ahead) + 1)
  punct ";"
  match tree with
  | some c =>
    pure (.node .importItem
      (headCode as v ++ [.word "use", .optionalWord leading "::", c, .word ";"]))
  | none => verbatimSince before

/-- An imported crate behind its visibility. -/
def crateItem (as : List Attribute) (v : Visibility) : Parser Code := do
  keyword "extern"
  keyword "crate"
  let name ← if isKeyword "self" (← ahead) then word else identifier
  let other ←
    if ← keyword? "as" then do
      let other ← if isKeyword "_" (← ahead) then word else identifier
      pure (Code.node .sequence [.word "as", .word other.spelled])
    else pure .absent
  punct ";"
  pure (.node .crateItem
    (headCode as v ++ [.word "extern", .word "crate", .word name.spelled, other, .word ";"]))

/-! ### Constants, statics and aliases -/

/-- `=` and a value, if they come next. -/
def value? (inner : Inner) : Parser Code := do
  if ← punct? "=" then do
    let e ← inner.expression true
    pure (.node .sequence [.word "=", e])
  else pure .absent

/-- The rest of a constant behind its name, given what stands up to the name. It
may not have parameters or conditions, and a value unless `open'` says so; with
another one its tokens are kept. -/
def constantBehind (inner : Inner) (before : List TokenTree) (open' : Bool) (head : List Code) :
    Parser Code := do
  let parameterized := isPunct "<" (← ahead)
  let _ ← genericParams inner
  punct ":"
  let t ← inner.ty true
  let value ← value? inner
  let conditions ← whereClause? inner
  punct ";"
  if parameterized || conditions.isSome || (value.isAbsent && !open') then verbatimSince before
  else pure (.node .constantItem (head ++ [.word ":", .type t, value, .word ";"]))

/-- A constant behind its visibility and `default`. -/
def constantItem (inner : Inner) (before : List TokenTree) (head : List Code) : Parser Code := do
  keyword "const"
  let ts ← ahead
  if isIdentifier ts || isKeyword "_" ts then do
    let name ← word
    constantBehind inner before false (head ++ [.word "const", .word name.spelled])
  else failExpected ["identifier", ticked "_"]

/-- A static variable behind its visibility; without a type or a value its tokens
are kept. -/
def staticItem (inner : Inner) (before : List TokenTree) (as : List Attribute) (v : Visibility) :
    Parser Code := do
  keyword "static"
  let mutable ← keyword? "mut"
  let name ← identifier
  if ← punct? "=" then do
    let _ ← inner.expression true
    punct ";"
    verbatimSince before
  else do
    punct ":"
    let t ← inner.ty true
    if ← punct? ";" then verbatimSince before
    else do
      punct "="
      let e ← inner.expression true
      punct ";"
      pure (.node .staticItem
        (headCode as v ++
          [.word "static", .optionalWord mutable "mut", .word name.spelled, .word ":", .type t,
            .node .sequence [.word "=", e], .word ";"]))

/-- Where an alias of a type may have its conditions. -/
inductive ConditionPlace
  | front
  | behind
  | both
  deriving DecidableEq

/-- What an alias of a type consists of. -/
structure AliasParts where
  head : List Code
  /-- A colon stands behind the parameters. -/
  bounded : Bool
  bounds : Code
  conditions : Option (List Predicate × Bool)
  definition : Option Ty

/-- An alias of a type from its `type` on, given what stands in front. -/
def aliasParts (inner : Inner) (place : ConditionPlace) (head : List Code) : Parser AliasParts := do
  keyword "type"
  let name ← identifier
  let (params, trailing) ← genericParams inner
  let bounded ← punct? ":"
  let bounds ←
    if bounded then do
      let stop (ts : List TokenTree) : Bool :=
        isKeyword "where" ts || isPunct "=" ts || isPunct ";" ts
      let (list, plus) ← boundsUntil inner true stop
      pure (if list.isEmpty then .absent else .node .sequence [.word ":", .bounds list plus])
    else pure .absent
  let front ← if place = .behind then pure none else whereClause? inner
  let definition ← if ← punct? "=" then some <$> inner.ty true else pure none
  let conditions ←
    if place = .front || front.isSome then pure front else whereClause? inner
  punct ";"
  pure
    ⟨head ++ [.word "type", .word name.spelled, .generics params trailing], bounded, bounds,
      conditions, definition⟩

namespace AliasParts

/-- The definition as code. -/
def definitionCode (p : AliasParts) : Code :=
  match p.definition with
  | some t => .node .sequence [.word "=", .type t]
  | none => .absent

/-- The conditions as code. -/
def conditionsCode (p : AliasParts) : Code :=
  match p.conditions with
  | some (predicates, trailing) => .conditions predicates trailing
  | none => .absent

/-- An alias with its conditions behind the definition. -/
def closed (p : AliasParts) : Code :=
  .node .aliasItem
    (p.head ++ [p.bounds, .absent, p.definitionCode, p.conditionsCode, .word ";"])

end AliasParts

/-- An alias of a type behind its visibility. -/
def aliasItem (inner : Inner) (before : List TokenTree) (as : List Attribute) (v : Visibility) :
    Parser Code := do
  let p ← aliasParts inner .front (headCode as v ++ [.absent])
  if p.bounded || p.definition.isNone then verbatimSince before
  else
    pure (.node .aliasItem
      (p.head ++ [.absent, p.conditionsCode, p.definitionCode, .absent, .word ";"]))

/-! ### Macros -/

/-- The call of a macro; a name behind the exclamation mark is for items of a
file only. -/
def macroItem (as : List Attribute) (named : Bool) : Parser Code := do
  let p ← plainPath
  punct "!"
  let ts ← ahead
  let name ←
    if named && (isIdentifier ts || isKeyword "try" ts) then do
      let i ← word
      pure (Code.word i.spelled)
    else pure .absent
  let (d, b) ← anyBody
  if d = .brace then pure () else punct ";"
  pure (.node .macroItem
    [.node .sequence (as.map Attribute.code), .type (.path p), .word "!", name,
      .raw [.group d (TokenTree.tokens b)], .optionalWord (d ≠ .brace) ";"])

/-- The rest of a declared macro from its `macro` on. -/
def macroRest : Parser Unit := do
  keyword "macro"
  let _ ← identifier
  let ts ← ahead
  if isGroup .parenthesis ts then do
    skip 1
    let _ ← body .brace
  else if isGroup .brace ts then skip 1
  else failExpected [Delimiter.parenthesis.description, Delimiter.brace.description]

/-! ### Traits -/

/-- An item of a trait. -/
def itemOfTrait (inner : Inner) : Parser Code := do
  let before ← ahead
  let as ← attributes inner
  let v ← visibility
  let default' ← keyword? "default"
  let plain := v.isInherited && !default'
  let finish (c : Code) : Parser Code := if plain then pure c else verbatimSince before
  let head := headCode as .inherited ++ [.absent]
  let method : Parser Code := do
    let parts ← signature inner false
    let ts ← ahead
    if isGroup .brace ts then do
      let b ← attributedBraces inner
      pure (.node .function (head ++ parts ++ [b]))
    else if ← punct? ";" then pure (.node .function (head ++ parts ++ [.word ";"]))
    else failExpected [Delimiter.brace.description, ticked ";"]
  let ts ← ahead
  if isSignature false ts then do finish (← method)
  else if isKeyword "const" ts then do
    let second := ts.drop 1
    if isIdentifier second || isKeyword "_" second then do
      keyword "const"
      let name ← word
      finish (← constantBehind inner before true (head ++ [.word "const", .word name.spelled]))
    else if ["async", "unsafe", "extern", "fn"].any fun w => isKeyword w second then do
      finish (← method)
    else do
      keyword "const"
      failExpected
        (["identifier"] ++ ["_", "async", "unsafe", "extern", "fn"].map ticked)
  else if isKeyword "type" ts then do
    let p ← aliasParts inner .behind head
    finish p.closed
  else if plain && isMacroStart ts then macroItem as false
  else failItem ["fn", "const", "type"] plain

/-- Items in braces behind attributes of what encloses them: those attributes,
and the code. -/
def itemsInBraces (inner : Inner) (r : Parser Code) : Parser (List Attribute × Code) :=
  inside .brace do
    let as ← innerAttributes inner
    let list ← toEnd r (← rounds)
    pure (as, .group .brace (as.map Attribute.code ++ list))

/-- A trait behind its visibility and the words in front of it; an alias is no
declaration of a type. -/
def traitItem (inner : Inner) (as : List Attribute) (v : Visibility) (words : List String) :
    Parser (Item × Code) := do
  keyword "trait"
  let name ← identifier
  let (params, trailing) ← genericParams inner
  let ts ← ahead
  let head (words : List Code) : List Code :=
    headCode as v ++ words ++ [.word "trait", .word name.spelled, .generics params trailing]
  if !words.isEmpty || isGroup .brace ts || isPunct ":" ts || isKeyword "where" ts then do
    let bounds ←
      if ← punct? ":" then do
        let stop (ts : List TokenTree) : Bool := isKeyword "where" ts || isGroup .brace ts
        let (list, plus) ← boundsUntil inner true stop
        pure (if list.isEmpty then .absent else Code.node .sequence [.word ":", .bounds list plus])
      else pure .absent
    let g := generics (params, trailing) (← whereClause? inner)
    let (own, content) ← itemsInBraces inner (itemOfTrait inner)
    pure
      (.type ⟨as ++ own, v, name, g, .trait⟩,
        .node .traitItem
          (head [.node .sequence (words.map .word)] ++ [bounds, g.conditions, content]))
  else if ← punct? "=" then do
    let stop (ts : List TokenTree) : Bool := isKeyword "where" ts || isPunct ";" ts
    let (list, plus) ← boundsUntil inner false stop
    let g := generics (params, trailing) (← whereClause? inner)
    punct ";"
    pure
      (.other,
        .node .traitAlias
          (head [] ++ [.word "=", .bounds list plus, g.conditions, .word ";"]))
  else failExpected [Delimiter.brace.description, ticked ":", ticked "where", ticked "="]

/-! ### Implementations -/

/-- An item of an implementation. -/
def itemOfImplementation (inner : Inner) : Parser Code := do
  let before ← ahead
  let as ← attributes inner
  let v ← visibility
  let ts ← ahead
  let default' := isKeyword "default" ts && !isPunct "!" (ts.drop 1)
  if default' then skip 1
  let head := headCode as v ++ [.optionalWord default' "default"]
  let ts ← ahead
  let callable := v.isInherited && !default'
  if isSignature false ts then do
    let parts ← signature inner false
    if ← punct? ";" then verbatimSince before
    else do
      let b ← attributedBraces inner
      pure (.node .function (head ++ parts ++ [b]))
  else if isKeyword "const" ts then constantItem inner before head
  else if isKeyword "type" ts then do
    let p ← aliasParts inner .behind head
    if p.bounded || p.definition.isNone then verbatimSince before else pure p.closed
  else if callable && isMacroStart ts then macroItem as false
  else failItem ((if default' then [] else ["default"]) ++ ["fn", "const", "type"]) callable

/-- Whether `<` behind `impl` opens parameters, and not a qualified path. -/
def opensParameters (ts : List TokenTree) : Bool :=
  let second := ts.drop 1
  let third := ts.drop 2
  isPunct "<" ts
    && (isPunct ">" second || isPunct "#" second || isKeyword "const" second
      || ((isIdentifier second || isLifetime second)
        && (isPunct ">" third || isPunct "," third || isPunct "=" third
          || (isPunct ":" third && !isPunct "::" third))))

/-- An implementation behind its visibility. -/
def implementation (inner : Inner) (before : List TokenTree) (as : List Attribute)
    (v : Visibility) : Parser Code := do
  let default' ← keyword? "default"
  let unsafety ← keyword? "unsafe"
  keyword "impl"
  let params ← if opensParameters (← ahead) then genericParams inner else pure ([], false)
  let ts ← ahead
  let const := isKeyword "const" ts || (isPunct "?" ts && isKeyword "const" (ts.drop 1))
  if const then do
    let _ ← punct? "?"
    keyword "const"
  let ts ← ahead
  let start ← here
  let negative := isPunct "!" ts && !isGroup .brace (ts.drop 1)
  if negative then punct "!"
  let first ← inner.ty true
  let ofTrait ← keyword? "for"
  let subject ←
    if ofTrait then inner.ty true
    else if negative then failAt (.rule "inherent impls cannot be negative") start
    else pure first
  let conditions ← whereClause? inner
  let (_, content) ← itemsInBraces inner (itemOfImplementation inner)
  let named :=
    match first with
    | .path _ => true
    | _ => false
  if !v.isInherited || const || (ofTrait && !named) then verbatimSince before
  else
    let words := [(default', "default"), (unsafety, "unsafe")].filter (·.1)
    let through :=
      if ofTrait then
        Code.node .sequence [.optionalWord negative "!", .type first, .word "for"]
      else .absent
    pure (.node .implementation
      [.node .sequence (as.map Attribute.code), .node .sequence (words.map fun w => .word w.2),
        .word "impl", .generics params.1 params.2, through, .type subject,
        (generics params conditions).conditions, content])

/-! ### Foreign blocks -/

/-- An item of a foreign block. -/
def foreignItem (inner : Inner) : Parser Code := do
  let before ← ahead
  let as ← attributes inner
  let v ← visibility
  let ts ← ahead
  if isSignature true ts then do
    let qualifiers := ts.takeWhile fun t => !isKeyword "fn" [t]
    let safe := qualifiers.any fun t => isKeyword "safe" [t]
    let parts ← signature inner true
    if isGroup .brace (← ahead) then do
      let _ ← attributedBraces inner
      verbatimSince before
    else do
      punct ";"
      if safe then verbatimSince before
      else pure (.node .function (headCode as v ++ .absent :: parts ++ [.word ";"]))
  else if isKeyword "static" ts
      || ((isKeyword "unsafe" ts || isKeyword "safe" ts) && isKeyword "static" (ts.drop 1)) then do
    let qualified := !isKeyword "static" ts
    if qualified then skip 1
    keyword "static"
    let mutable ← keyword? "mut"
    let name ← identifier
    punct ":"
    let t ← inner.ty true
    let value ← value? inner
    punct ";"
    if qualified || !value.isAbsent then verbatimSince before
    else
      pure (.node .staticItem
        (headCode as v ++
          [.word "static", .optionalWord mutable "mut", .word name.spelled, .word ":", .type t,
            .absent, .word ";"]))
  else if isKeyword "type" ts then do
    let p ← aliasParts inner .both (headCode as v ++ [.absent])
    if p.bounded || p.definition.isSome then verbatimSince before else pure p.closed
  else if v.isInherited && isMacroStart ts then macroItem as false
  else failItem ["fn", "static", "type"] v.isInherited

/-- A foreign block from its `unsafe` or `extern` on. -/
def foreignBlock (inner : Inner) (as : List Attribute) : Parser Code := do
  let unsafety ← keyword? "unsafe"
  if !isKeyword "extern" (← ahead) then keyword "extern"
  let abi ← abi?
  let (_, content) ← itemsInBraces inner (foreignItem inner)
  pure (.node .foreignBlock
    [.node .sequence (as.map Attribute.code), .optionalWord unsafety "unsafe", abi, content])

/-! ### Modules -/

/-- A module behind its visibility. -/
def moduleItem (inner : Inner) (as : List Attribute) (v : Visibility) : Parser (Item × Code) := do
  let unsafety ← keyword? "unsafe"
  keyword "mod"
  let name ← if isKeyword "try" (← ahead) then word else identifier
  let head :=
    headCode as v ++ [.optionalWord unsafety "unsafe", .word "mod", .word name.spelled]
  if ← punct? ";" then
    pure (.module name none, .node .moduleItem (head ++ [.word ";"]))
  else if isGroup .brace (← ahead) then
    inside .brace do
      let own ← innerAttributes inner
      let items ← toEnd inner.item (← rounds)
      let content := Code.group .brace (own.map Attribute.code ++ items.map (·.2))
      pure (.module name (some (items.map (·.1))), .node .moduleItem (head ++ [content]))
  else failExpected [ticked ";", Delimiter.brace.description]

/-! ### Items -/

/-- The words that items begin with, in the order in which they are tried. -/
def itemWords : List String :=
  ["fn", "extern", "use", "static", "const", "unsafe", "mod", "type", "struct", "enum", "union",
   "trait", "auto", "impl", "default", "macro"]

/-- An item behind its attributes, given what was ahead in front of them. -/
def itemBehind (inner : Inner) (before : List TokenTree) (as : List Attribute) :
    Parser (Item × Code) := do
  let start ← here
  let v ← visibility
  let ts ← ahead
  let second := ts.drop 1
  let other (r : Parser Code) : Parser (Item × Code) := do
    let c ← r
    pure (.other, c)
  let declared : Parser (Item × Code) := do
    let (t, c) ← typeItem inner as v
    pure (.type t, c)
  let foreign' : Parser (Item × Code) := do
    if v.isInherited then other (foreignBlock inner as)
    else failAt (.expected [ticked "extern"]) start
  let autoTrait (ts : List TokenTree) : Bool := isKeyword "auto" ts && isKeyword "trait" (ts.drop 1)
  if isSignature false ts then other (functionItem inner before as v)
  else if isKeyword "extern" ts then
    if isKeyword "crate" second then other (crateItem as v)
    else if isGroup .brace second then foreign'
    else if isText second then
      if isGroup .brace (ts.drop 2) then foreign'
      else do
        skip 2
        failExpected [Delimiter.brace.description]
    else do
      skip 1
      failExpected [ticked "crate", Delimiter.brace.description, "string literal"]
  else if isKeyword "use" ts then other (importItem before as v)
  else if isKeyword "static" ts then other (staticItem inner before as v)
  else if isKeyword "const" ts then
    other (constantItem inner before (headCode as v ++ [.absent]))
  else if isKeyword "unsafe" ts then
    if isKeyword "trait" second then do
      skip 1
      traitItem inner as v ["unsafe"]
    else if autoTrait second then do
      skip 2
      traitItem inner as v ["unsafe", "auto"]
    else if isKeyword "impl" second then other (implementation inner before as v)
    else if isKeyword "extern" second then foreign'
    else if isKeyword "mod" second then moduleItem inner as v
    else do
      skip 1
      failItem ["trait", "auto", "impl", "extern", "mod"] false
  else if isKeyword "mod" ts then moduleItem inner as v
  else if isKeyword "type" ts then other (aliasItem inner before as v)
  else if isKeyword "struct" ts || isKeyword "enum" ts
      || (isKeyword "union" ts && isIdentifier second) then
    declared
  else if isKeyword "trait" ts then traitItem inner as v []
  else if autoTrait ts then do
    skip 1
    traitItem inner as v ["auto"]
  else if isKeyword "impl" ts || (isKeyword "default" ts && !isPunct "!" second) then
    other (implementation inner before as v)
  else if isKeyword "macro" ts then
    other do
      macroRest
      verbatimSince before
  else if v.isInherited && isMacroStart ts then other (macroItem as true)
  else failItem itemWords v.isInherited

/-- An item, and its code. -/
def item (inner : Inner) : Parser (Item × Code) := do
  let before ← ahead
  let as ← attributes inner
  itemBehind inner before as

/-- The items of a file. -/
def file (inner : Inner) : Parser (List Item) := do
  let _ ← innerAttributes inner
  let items ← toEnd (item inner) (← rounds)
  pure (items.map (·.1))

end Parser

end RecordCoding
