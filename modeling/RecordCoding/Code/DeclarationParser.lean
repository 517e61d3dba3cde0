/-
Parsing declarations of types: who may see them, their parameters and conditions,
their fields and variants.

Design notes:

* Whatever is parsed comes with its code, since a declaration may stand among
  the statements of a block.
* The visibility of a variant is read and then forgotten.
-/
import RecordCoding.Code.TermParser

namespace RecordCoding

namespace Parser

/-! ### Visibility and conditions -/

/-- Who may see an item. -/
def visibility : Parser Visibility := do
  if ← keyword? "pub" then do
    match ← ahead with
    | .group .parenthesis [.ident i] _ _ :: _ => do
      if isKeyword "crate" [.ident i] || isKeyword "self" [.ident i] || isKeyword "super" [.ident i]
      then do
        skip 1
        pure (.near i.name)
      else if isKeyword "in" [.ident i] then
        inside .parenthesis do
          skip 1
          .within <$> plainPath
      else pure .everyone
    | .group .parenthesis (.ident i :: _) _ _ :: _ =>
      if isKeyword "in" [.ident i] then
        inside .parenthesis do
          skip 1
          .within <$> plainPath
      else pure .everyone
    | _ => pure .everyone
  else pure .inherited

/-- Where the conditions of a `where` clause end. -/
def endsPredicates (ts : List TokenTree) : Bool :=
  ts.isEmpty || isGroup .brace ts || isPunct "," ts || isPunct ";" ts
    || (isPunct ":" ts && !isPunct "::" ts) || isPunct "=" ts

/-- A condition. -/
def predicate (inner : Inner) : Parser Predicate := do
  let ts ← ahead
  if isLifetime ts && isPunct ":" (ts.drop 1) then do
    let name ← lifetime
    punct ":"
    let (outlives, trailing) ←
      chained (fun ts => endsPredicates ts || isPunct ":" ts) "+" lifetime (← rounds)
    pure (.lifetime name outlives trailing)
  else do
    let binder ← binder? inner
    let subject ← inner.ty true
    punct ":"
    let (bounds, trailing) ← boundList inner endsPredicates
    pure (.type binder subject bounds trailing)

/-- A `where` clause, if there is one. -/
def whereClause? (inner : Inner) : Parser (Option (List Predicate × Bool)) := do
  if ← keyword? "where" then do
    let list ← chained endsPredicates "," (predicate inner) (← rounds)
    pure (some list)
  else pure none

/-- Parameters and conditions put together. -/
def generics (params : List GenericParam × Bool) (conditions : Option (List Predicate × Bool)) :
    Generics :=
  let (predicates, trailing) := conditions.getD ([], false)
  ⟨params.1, params.2, predicates, trailing⟩

/-! ### Fields and variants -/

/-- A declared field as code, given its name and the colon. -/
def fieldCode (attributes : List Attribute) (v : Visibility) (name : Code) (t : Ty) : Code :=
  .node .fieldItem [.node .sequence (attributes.map Attribute.code), v.code, name, .type t]

/-- Fields in braces, and their code. The nesting of anonymous types bounds the
fuel. -/
def namedFields (inner : Inner) : Nat → Parser (List NamedField × Code)
  | 0 => failExpected []
  | fuel + 1 => do
    let field : Parser (NamedField × Code) := do
      let as ← attributes inner
      let v ← visibility
      let anonymous := isKeyword "_" (← ahead)
      let name ← if anonymous then word else identifier
      punct ":"
      let ts ← ahead
      let t ←
        if anonymous
            && (isKeyword "struct" ts || (isKeyword "union" ts && isGroup .brace (ts.drop 1)))
        then do
          let _ ← word
          let _ ← namedFields inner fuel
          pure (.verbatim (TokenTree.tokens (ts.take 2)))
        else inner.ty true
      let named := Code.node .sequence [.word name.spelled, .word ":"]
      pure (⟨as, name, t⟩, fieldCode as v named t)
    let (list, trailing) ← inside .brace (terminated field)
    pure (list.map (·.1), .group .brace (withCommas (list.map (·.2)) trailing))

/-- Fields in braces, however deep their anonymous types are. -/
def fieldsInBraces (inner : Inner) : Parser (List NamedField × Code) := do
  namedFields inner (TokenTree.sizeList (← ahead) + 1)

/-- Fields without names. -/
def unnamedFields (inner : Inner) : Parser Code := do
  let field : Parser Code := do
    let as ← attributes inner
    let v ← visibility
    let t ← inner.ty true
    pure (fieldCode as v .absent t)
  let parts ← inside .parenthesis (terminatedCode field)
  pure (.group .parenthesis parts)

/-- A variant of an enumeration. -/
def variant (inner : Inner) : Parser Code := do
  let as ← attributesCode inner
  let _ ← visibility
  let name ← identifier
  let ts ← ahead
  let fields ←
    if isGroup .brace ts then do
      let (_, c) ← fieldsInBraces inner
      pure c
    else if isGroup .parenthesis ts then unnamedFields inner
    else pure .absent
  let value ←
    if ← punct? "=" then do
      let e ← inner.expression true
      pure (Code.node .sequence [.word "=", e])
    else pure .absent
  pure (.node .variantItem [.node .sequence as, .word name.spelled, fields, value])

/-! ### Declarations -/

/-- What follows the parameters of a struct: its conditions, its body, and the
code of its fields, of conditions behind them and of the semicolon. -/
def structBody (inner : Inner) :
    Parser (Option (List Predicate × Bool) × TypeBody × Code × Bool) := do
  let whereWord := ticked "where"
  let conditions ← whereClause? inner
  let ts ← ahead
  if conditions.isNone && isGroup .parenthesis ts then do
    let fields ← unnamedFields inner
    let conditions ← whereClause? inner
    if ← punct? ";" then pure (conditions, .tuple, fields, true)
    else failExpected ((if conditions.isNone then [whereWord] else []) ++ [ticked ";"])
  else if isGroup .brace ts then do
    let (fields, c) ← fieldsInBraces inner
    pure (conditions, .record fields, c, false)
  else if ← punct? ";" then pure (conditions, .unit, .absent, true)
  else
    failExpected
      ((if conditions.isNone then [whereWord, Delimiter.parenthesis.description] else [])
        ++ [Delimiter.brace.description, ticked ";"])

/-- A struct, an enumeration or a union behind its visibility, and its code. -/
def typeItem (inner : Inner) (as : List Attribute) (v : Visibility) :
    Parser (TypeItem × Code) := do
  let kind ← word
  let name ← identifier
  let params ← genericParams inner
  let head :=
    [Code.node .sequence (as.map Attribute.code), v.code, .word kind.name, .word name.spelled,
      .generics params.1 params.2]
  match kind.name with
  | "struct" => do
    let (conditions, b, fields, closed) ← structBody inner
    let g := generics params conditions
    let parts :=
      if closed then [.absent, fields, g.conditions, .word ";"]
      else [g.conditions, fields, .absent, .absent]
    pure (⟨as, v, name, g, b⟩, .node .recordItem (head ++ parts))
  | "enum" => do
    let g := generics params (← whereClause? inner)
    let variants ← inside .brace (terminatedCode (variant inner))
    pure
      (⟨as, v, name, g, .enumeration⟩,
        .node .enumerationItem (head ++ [g.conditions, .group .brace variants]))
  | _ => do
    let g := generics params (← whereClause? inner)
    let (_, fields) ← fieldsInBraces inner
    pure
      (⟨as, v, name, g, .union⟩,
        .node .recordItem (head ++ [g.conditions, fields, .absent, .absent]))

/-- A declaration with its attributes and nothing else. -/
def declaration (inner : Inner) : Parser TypeItem := do
  let as ← attributes inner
  let v ← visibility
  let ts ← ahead
  if isKeyword "struct" ts || isKeyword "enum" ts || isKeyword "union" ts then do
    let (t, _) ← typeItem inner as v
    pure t
  else failExpected [ticked "struct", ticked "enum", ticked "union"]

end Parser

end RecordCoding
