/-
Parsing patterns.

A pattern is read either alone or as alternatives with `|` between them; in
lists and in the arms of a `match` alternatives are allowed, in parameters and
behind `@` they are not.

Design notes:

* `...` in a range pattern is an old form of `..=` and is read as such.
* A range without a start or without an end must not stand bare in a slice
  pattern, so such a node remembers where its dots are.
-/
import RecordCoding.Code.Literal
import RecordCoding.Code.TermParser

namespace RecordCoding

namespace Parser

/-! ### Alternatives -/

/-- Whether another alternative follows. -/
def isAlternative (ts : List TokenTree) : Bool :=
  isPunct "|" ts && !isPunct "||" ts && !isPunct "|=" ts

/-- The further alternatives of a pattern, each behind its `|`. -/
def furtherAlternatives (r : Parser Code) : Nat → Parser (List Code)
  | 0 => pure []
  | fuel + 1 => do
    if isAlternative (← ahead) then do
      punct "|"
      let c ← r
      let rest ← furtherAlternatives r fuel
      pure (.word "|" :: c :: rest)
    else pure []

/-- A pattern that may have alternatives, the first perhaps behind a `|`. -/
def patterns (inner : Inner) : Parser Code := do
  let leading ← punct? "|"
  let first ← inner.pattern
  let rest ← furtherAlternatives inner.pattern (← rounds)
  if leading || !rest.isEmpty then
    pure (.node .alternatives (.optionalWord leading "|" :: first :: rest))
  else pure first

/-! ### Ranges -/

/-- The dots of a range: as they are printed, and whether the end is included. -/
def rangeDots (obsolete : Bool) : Parser (String × Bool) := do
  let ts ← ahead
  if isPunct "..=" ts then do
    punct "..="
    pure ("..=", true)
  else if isPunct "..." ts then
    if obsolete then do
      punct "..."
      pure ("..=", true)
    else failExpected [ticked "..="]
  else do
    punct ".."
    pure ("..", false)

/-- The start or the end of a range pattern, unless what follows a pattern comes
next. -/
def rangeBound? (inner : Inner) : Parser (Option Code) := do
  let ts ← ahead
  if ts.isEmpty || isPunct "|" ts || isPunct "=" ts || (isPunct ":" ts && !isPunct "::" ts)
      || isPunct "," ts || isPunct ";" ts || isKeyword "if" ts then pure none
  else if isLiteral ts then some <$> literal
  else if isPathStart ts || isPunct "::" ts || isPunct "<" ts then do
    let t ← qualifiedPath inner true
    pure (some (.node .path [.type t]))
  else if isKeyword "const" ts then do
    keyword "const"
    let b ← attributedBraces inner
    pure (some (.node .constBlock [.word "const", b]))
  else
    failExpected
      ["literal", "identifier", ticked "::", ticked "<", ticked "self", ticked "Self",
        ticked "super", ticked "crate", ticked "const"]

/-- A range pattern from its dots on. -/
def rangeBehind (inner : Inner) (start : Code) : Parser Code := do
  let l ← here
  let (dots, closed) ← rangeDots true
  match ← rangeBound? inner with
  | some e => pure (.node .range [start, .word dots, e])
  | none =>
    if closed then fail (.rule "expected range upper bound")
    else pure (.node (.openRange l) [start, .word dots, .absent])

/-- A pattern that opens with dots: a range without a start, or the rest of a
list. -/
def leadingDots (inner : Inner) : Parser Code := do
  let l ← here
  let (dots, closed) ← rangeDots false
  match ← rangeBound? inner with
  | some e => pure (.node (.openRange l) [.absent, .word dots, e])
  | none =>
    if closed then fail (.rule "expected range upper bound")
    else pure (.node .restPattern [.word dots])

/-- A constant as a pattern, or a range that starts with it. -/
def literalOrRange (inner : Inner) : Parser Code := do
  match ← rangeBound? inner with
  | none => failExpected ["literal"]
  | some start => if isPunct ".." (← ahead) then rangeBehind inner start else pure start

/-! ### Members -/

/-- A position as a member: a number without a suffix that is not too large,
printed in base ten. -/
def position (negative : Bool) (value : Nat) (suffix : String) : Parser Code := do
  let l ← here
  if !suffix.isEmpty then failAt (.rule "expected unsuffixed integer") l
  else if negative then failAt (.rule "invalid digit found in string") l
  else if value ≥ Nat.pow 2 32 then failAt (.rule "number too large to fit in target type") l
  else do
    skip 1
    pure (.word (Nat.repr value))

/-- The whole number that comes next, and whether a minus stands in front. -/
def wholeNumber? : List TokenTree → Option (Bool × Nat × String)
  | .literal text _ :: _ => (Literal.whole? text).map fun (n, suffix) => (false, n, suffix)
  | .punct '-' _ _ :: .literal text _ :: _ =>
    (Literal.whole? text).map fun (n, suffix) => (true, n, suffix)
  | _ => none

/-- The member of a value: a name or a position, and whether it is a name. -/
def member : Parser (Code × Bool) := do
  let ts ← ahead
  if isIdentifier ts then do
    let i ← identifier
    pure (.word i.spelled, true)
  else
    match wholeNumber? ts with
    | some (negative, value, suffix) => do
      let c ← position negative value suffix
      pure (c, false)
    | none => failExpected ["identifier", "integer"]

/-! ### Patterns -/

/-- A name with what may stand around it. -/
def namePattern (inner : Inner) : Parser Code := do
  let byReference ← keyword? "ref"
  let mutable ← keyword? "mut"
  let name ← if isKeyword "self" (← ahead) then word else identifier
  let (mark, sub) ←
    if ← punct? "@" then do
      let sub ← inner.pattern
      pure (Code.word "@", sub)
    else pure (.absent, .absent)
  pure
    (.node .namePattern
      [.optionalWord byReference "ref", .optionalWord mutable "mut", .word name.spelled, mark, sub])

/-- A field of a record pattern behind its attributes. -/
def fieldPattern (inner : Inner) (attributes : List Code) : Parser Code := do
  let before ← ahead
  let boxed ← keyword? "box"
  let byReference ← keyword? "ref"
  let mutable ← keyword? "mut"
  let plain := !boxed && !byReference && !mutable
  let (name, named) ←
    if plain then member
    else do
      let i ← identifier
      pure (.word i.spelled, true)
  let as := Code.node .sequence attributes
  if (plain && isPunct ":" (← ahead)) || !named then do
    punct ":"
    let p ← patterns inner
    pure (.node .fieldPattern [as, name, .word ":", p])
  else if boxed then do
    let p ← verbatimSince before
    pure (.node .fieldPattern [as, p])
  else
    pure
      (.node .fieldPattern
        [as,
          .node .namePattern
            [.optionalWord byReference "ref", .optionalWord mutable "mut", name, .absent, .absent]])

/-- The fields of a record pattern up to the end; nothing follows `..`. -/
def fieldPatterns (inner : Inner) : Nat → Parser (List Code)
  | 0 => pure []
  | fuel + 1 => do
    if ← finished then pure []
    else do
      let as ← attributesCode inner
      if ← punct? ".." then
        pure [Code.withAttributes as (.node .restPattern [.word ".."])]
      else do
        let f ← fieldPattern inner as
        if ← finished then pure [f]
        else do
          punct ","
          let rest ← fieldPatterns inner fuel
          pure (f :: .word "," :: rest)

/-- A pattern that opens with a path. -/
def pathPattern (inner : Inner) : Parser Code := do
  let t ← qualifiedPath inner true
  let ts ← ahead
  let call :=
    match t with
    | .path p => isPunct "!" ts && !isPunct "!=" ts && p.bare
    | _ => false
  if call then do
    punct "!"
    let (d, b) ← anyBody
    pure (.node .macroCall [.type t, .word "!", .raw [.group d (TokenTree.tokens b)]])
  else if isGroup .brace ts then do
    let fields ← inside .brace (do fieldPatterns inner (← rounds))
    pure (.node .recordPattern [.type t, .group .brace fields])
  else if isGroup .parenthesis ts then do
    let parts ← inside .parenthesis (terminatedCode (patterns inner))
    pure (.node .tupleRecordPattern [.type t, .group .parenthesis parts])
  else if isPunct ".." ts then rangeBehind inner (.node .path [.type t])
  else pure (.node .path [.type t])

/-- Patterns in parentheses: a single one without a comma is no tuple, unless it
is the rest of a list. -/
def parenthesizedPattern (inner : Inner) : Parser Code := do
  let parts ← inside .parenthesis (terminatedCode (patterns inner))
  match parts with
  | [c] =>
    if c.construct? = some .restPattern then pure (.node .tuplePattern [.group .parenthesis parts])
    else pure (.node .parenthesizedPattern [.group .parenthesis parts])
  | _ => pure (.node .tuplePattern [.group .parenthesis parts])

/-- Patterns in square brackets. -/
def slicePattern (inner : Inner) : Parser Code := do
  let element : Parser Code := do
    let c ← patterns inner
    match c with
    | .node (.openRange l) _ =>
      failAt (.rule "range pattern is not allowed unparenthesized inside slice pattern") l
    | c => pure c
  let parts ← inside .bracket (terminatedCode element)
  pure (.node .slicePattern [.group .bracket parts])

/-- The alternatives for a pattern, as failures name them. -/
def patternAlternatives (dots : Bool) : List String :=
  ["identifier", ticked "::", ticked "<", ticked "_", "literal", ticked "const", ticked "ref",
    ticked "mut", ticked "&", Delimiter.parenthesis.description, Delimiter.bracket.description]
    ++ (if dots then [] else [ticked ".."]) ++ [ticked "const"]

/-- Whether a pattern opens with a path: a name does if it goes on like one. -/
def isPathPattern (ts : List TokenTree) : Bool :=
  let second := ts.drop 1
  (isIdentifier ts
      && (isPunct "::" second || isPunct "!" second || isGroup .brace second
        || isGroup .parenthesis second || isPunct ".." second))
    || (isKeyword "self" ts && isPunct "::" second)
    || isPunct "::" ts || isPunct "<" ts || isKeyword "Self" ts || isKeyword "super" ts
    || isKeyword "crate" ts

/-- A pattern without alternatives. -/
def pattern (inner : Inner) : Parser Code := do
  let ts ← ahead
  if isPathPattern ts then pathPattern inner
  else if isKeyword "_" ts then do
    skip 1
    pure (.node .wildcard [.word "_"])
  else if isKeyword "box" ts then do
    skip 1
    let _ ← inner.pattern
    verbatimSince ts
  else if isPunct "-" ts || isLiteral ts || isKeyword "const" ts then literalOrRange inner
  else if isKeyword "ref" ts || isKeyword "mut" ts || isKeyword "self" ts || isIdentifier ts then
    namePattern inner
  else if isPunct "&" ts then do
    punct "&"
    let mutable ← keyword? "mut"
    let c ← inner.pattern
    pure (.node .referencePattern [.word "&", .optionalWord mutable "mut", c])
  else if isGroup .parenthesis ts then parenthesizedPattern inner
  else if isGroup .bracket ts then slicePattern inner
  else if isPunct ".." ts && !isPunct "..." ts then leadingDots inner
  else failExpected (patternAlternatives (isPunct ".." ts))

end Parser

end RecordCoding
