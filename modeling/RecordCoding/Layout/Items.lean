/-
The layout of items that stand among statements.

An item is a head, a body in braces or a semicolon, and a line break. The parts of
a body have lines of their own, and so have the conditions in front of it.

Design notes:

* The items of a trait, of an implementation and of a foreign block are laid out
  as others are.
* The rules of a declared macro are laid out by what each matches and what it
  stands for.
-/
import RecordCoding.Layout.Statements

namespace RecordCoding

namespace Layout

open Doc

namespace Nested

/-! ### Pieces -/

/-- A visibility with the space behind it. -/
def seenBy : Code → List Doc
  | .node .visibility [_, .group _ [.word "in", .type (.path p)]] =>
    let near := ["self", "super", "crate"].any p.isName
    .text (if near then "pub(" else "pub(in ") :: plainPath p ++ [.text ") "]
  | .node .visibility [_, .group _ [.word w]] => [.text s!"pub({w}) "]
  | .node .visibility _ => [.text "pub "]
  | _ => []

/-- The parameters of a declaration. -/
def parameters (n : Nested) : Code → List Doc
  | .generics params _ => genericsWith n.code params
  | _ => []

/-- The conditions of a declaration. -/
def predicates : Code → List Predicate
  | .conditions list _ => list
  | _ => []

/-- The bounds behind a colon or an equals sign. -/
def boundList (n : Nested) : Code → List (List Doc)
  | .node .sequence [_, .bounds list _] => boundsWith n.code list
  | .bounds list _ => boundsWith n.code list
  | _ => []

/-- An equals sign and a value, if there is one. -/
def given (n : Nested) : Code → List Doc
  | .node .sequence [_, .type t] => .text " = " :: Doc.bound :: n.ty t
  | .node .sequence [_, c] => .text " = " :: Doc.bound :: n.code c
  | _ => []

/-- `extern` with its name and a space behind it. -/
def abi : Code → List Doc
  | .node .sequence [_, .word name] => [.text ("extern " ++ name ++ " ")]
  | .node .sequence _ => [.text "extern "]
  | _ => []

/-- The words in front of something. -/
def wordsBefore : Code → List Doc
  | .node .sequence ws => ws.flatMap fun c => if c.construct?.isSome then abi c else marks [c]
  | c => marks [c]

/-- A body in braces that goes on with the box of its head: the closing brace
stands behind the box. -/
def bodyOf (n : Nested) (parts : List Code) : List Doc :=
  let lines := parts.flatMap fun c =>
    if c.construct? = some .attributeMark then oneAttribute n.code c
    else if c.construct?.isSome && isStatement c then n.statement c
    else n.item c
  .text "\x7b" :: shiftedLast (-step) (newlineUnlessLast :: lines)
where
  /-- Whether a part of a body is a statement rather than an item. -/
  isStatement (c : Code) : Bool :=
    match c.construct? with
    | some .attributed | some .binding | some .expressionStatement | some .macroStatement
    | some .emptyStatement => true
    | _ => false

/-- A head with a body in braces behind its conditions. -/
def withBody (n : Nested) (head : List Doc) (conditions : Code) (parts : List Code) : List Doc :=
  [group step (head ++ whereBody n.code (predicates conditions) ++ n.bodyOf parts), .text "\x7d",
    newline]

/-- A head with a semicolon behind its conditions. -/
def withoutBody (n : Nested) (head : List Doc) (conditions : Code) : List Doc :=
  [group step (head ++ whereEnd n.code (predicates conditions)), newline]

/-! ### Functions -/

/-- A parameter of a function. -/
def functionParameter (n : Nested) : Code → List Doc
  | .node .attributed [as, c] => n.outer as ++ plain c
  | c => plain c
where
  plain : Code → List Doc
    | .node .receiver [reference, mutable, _, t] =>
      (match reference with
        | .node .sequence [_, .word l] => [.text ("&" ++ l ++ " ")]
        | .node .sequence _ => [.text "&"]
        | _ => [])
        ++ marks [mutable] ++ .text "self"
        :: match t with
           | .node .sequence [_, .type t] => .text ": " :: n.ty t
           | _ => []
    | .type t => n.ty t
    | c => n.pattern c

/-- Whether a parameter of a function stands for further arguments. -/
def isOpen (c : Code) : Bool :=
  match c.bare with
  | .type .variadic => true
  | .node .typedPattern [_, _, .type .variadic] => true
  | _ => false

/-- A signature without its conditions. -/
def signature (n : Nested) (words name params arguments result : Code) : List Doc :=
  let list :=
    match arguments with
    | .group _ parts => Code.elements parts
    | _ => []
  let docs := list.map n.functionParameter
  let content :=
    if (list.getLast?.map isOpen).getD false then openList docs else commaSeparated 0 docs
  let back :=
    match result with
    | .node .sequence [_, .type t] => .text " -> " :: n.ty t
    | _ => []
  wordsBefore words
    ++ .text ("fn " ++ Token.textOf name.tokens)
    :: n.parameters params
    ++ .text "(" :: Doc.bound :: group 0 (shiftedLast (-step) (cut :: content)) :: .text ")"
    :: [group (-step) back]

/-! ### Imports -/

/-- Whether an imported tree ends in a list. -/
def endsInList : Code → Bool
  | .node .importTree [_, .word "::", c] => endsInList c
  | .node .importTree [.group _ _] => true
  | _ => false

/-- What an import names. -/
def importTree (n : Nested) : Code → List Doc
  | .node .importTree [.word name, .word "::", c] => .text (name ++ "::") :: n.item c
  | .node .importTree [.word name, _, .word other] => [.text (name ++ " as " ++ other)]
  | .node .importTree [.word name] => [.text name]
  | .node .importTree [.group _ parts] =>
    let rec content : List Code → List Doc
      | [] => []
      | [c] => n.item c
      | c :: rest =>
        n.item c ++ .text "," :: (if endsInList c then newline else space) :: content rest
    [.text "\x7b",
      group step [cut, fill 0 (content (Code.elements parts)), (listEnd 0).shifted (-step)],
      .text "\x7d"]
  | _ => []

/-! ### Declarations -/

/-- A declared field. -/
def field (n : Nested) : Code → List Doc
  | .node .fieldItem [as, v, name, .type t] =>
    n.outer as ++ seenBy v
      ++ (match name with
          | .node .sequence [.word w, _] => [.text (w ++ ": ")]
          | _ => [])
      ++ n.ty t
  | _ => []

/-- Fields in parentheses. -/
def tupleFields (n : Nested) (parts : List Code) : List Doc :=
  Doc.list "(" ")" ((Code.elements parts).map n.field)

/-- Parts with a comma and a line each. -/
def commaLines (list : List (List Doc)) : List Doc := list.flatMap fun ds => ds ++ [.text ",", newline]

/-- A variant. -/
def variant (n : Nested) : Code → List Doc
  | .node .variantItem [as, .word name, fields, value] =>
    n.outer as ++ .text name
      :: (match fields with
          | .group .brace parts =>
            [.text " \x7b",
              group step
                (shiftedLast (-step)
                  (space :: commaSeparated 1 ((Code.elements parts).map n.field))),
              .text "\x7d"]
          | .group _ parts => [group step (n.tupleFields parts)]
          | _ => [])
      ++ match value with
         | .node .sequence [_, c] => .text " = " :: n.code c
         | _ => []
  | _ => []

/-- Lines in braces that go on with the box of a head. -/
def linesOf (lines : List Doc) : List Doc :=
  .text "\x7b" :: shiftedLast (-step) (newlineUnlessLast :: lines)

/-! ### Macros -/

/-- The rules of a declared macro. -/
def macroRules : List Token → List Doc
  | .group d matcher :: .word "=>" :: .group _ body :: rest =>
    let inside (line : Doc) (matching : Bool) (ts : List Token) : List Doc :=
      if ts.isEmpty then []
      else [group step [line, macroTokens matching ts, line.shifted (-step)]]
    .text (opening d) :: inside cut true matcher
      ++ .text (closing d) :: .text " =>" :: .text " \x7b" :: Doc.bound :: inside newline false body
      ++ .text "\x7d" :: .text ";" :: newline :: macroRules rest
  | .word ";" :: rest => macroRules rest
  | _ => []

/-- The call of a macro as an item. -/
def macroItem (p : Path) (name : Code) (d : Delimiter) (body : List Token) : List Doc :=
  match name with
  | .word w =>
    if p.isName "macro_rules" then
      [.text ("macro_rules! " ++ w ++ " \x7b"),
        group step (shiftedLast (-step) (newlineUnlessLast :: macroRules body)), .text "\x7d"]
    else plainPath p ++ .text ("! " ++ w) :: macroGroup d body
  | _ => plainPath p ++ .text "!" :: macroGroup d body

/-! ### Items -/

/-- A head in front of a name. -/
def headOf (v : Code) (words : List Code) (name : Code) : List Doc :=
  seenBy v ++ marks words ++ [.text (Token.textOf name.tokens)]

/-- An item with the line break behind it. -/
def ofItem (n : Nested) : Code → List Doc
  | .node .function [as, v, default', words, _, name, params, arguments, result, conditions, b] =>
    let head := seenBy v ++ marks [default'] ++ n.signature words name params arguments result
    n.outer as
      ++ match b with
         | .group _ parts => n.withBody head conditions parts
         | _ => n.withoutBody head conditions
  | .node .staticItem [as, v, word, mutable, name, _, .type t, value, _] =>
    n.outer as
      ++ [group 0
            (headOf v [word, mutable] name ++ .text ": " :: n.ty t ++ n.given value
              ++ [.text ";"]),
          newline]
  | .node .constantItem [as, v, default', word, name, _, .type t, value, _] =>
    n.outer as
      ++ [group 0
            (headOf v [default', word] name ++ .text ": " :: n.ty t ++ n.given value
              ++ [.text ";"]),
          newline]
  | .node .importItem [as, v, _, leading, tree, _] =>
    n.outer as ++ seenBy v ++ .text ("use " ++ if leading.isAbsent then "" else "::")
      :: n.item tree ++ [.text ";", newline]
  | c@(.node .importTree _) => n.importTree c
  | .node .crateItem [as, v, _, _, .word name, other, _] =>
    let renamed :=
      match other with
      | .node .sequence [_, .word w] => " as " ++ w
      | _ => ""
    n.outer as ++ seenBy v ++ [.text ("extern crate " ++ name ++ renamed ++ ";"), newline]
  | .node .foreignBlock [as, unsafety, name, .group _ parts] =>
    n.outer as ++ [group step (marks [unsafety] ++ abi name ++ n.bodyOf parts), .text "\x7d", newline]
  | .node .aliasItem [as, v, default', word, name, params, bounds, front, definition, behind, _] =>
    let head := headOf v [default', word] name ++ n.parameters params
    let value :=
      match definition with
      | .node .sequence [_, .type t] => [Doc.text "= ", Doc.bound, fill (-step) (n.ty t)]
      | _ => []
    let content :=
      if behind.isAbsent && !front.isAbsent then
        head ++ whereDefinition n.code (predicates front) ++ value ++ [.text ";"]
      else
        head ++ plusSeparated ": " (n.boundList bounds)
          ++ (if value.isEmpty then [] else .text " " :: value)
          ++ whereDefinitionEnd n.code (predicates behind)
    n.outer as ++ [group step content, newline]
  | .node .recordItem [as, v, word, name, params, conditions, fields, behind, _] =>
    let head := headOf v [word] name ++ n.parameters params
    n.outer as
      ++ match fields with
         | .group .brace parts =>
           [group step
             (head ++ whereBody n.code (predicates conditions)
               ++ linesOf (commaLines ((Code.elements parts).map n.field))),
             .text "\x7d", newline]
         | .group _ parts => n.withoutBody (head ++ n.tupleFields parts) behind
         | _ => n.withoutBody head behind
  | .node .enumerationItem [as, v, word, name, params, conditions, .group _ parts] =>
    n.outer as
      ++ [group step
            (headOf v [word] name ++ n.parameters params
              ++ whereBody n.code (predicates conditions)
              ++ linesOf (commaLines ((Code.elements parts).map n.variant))),
          .text "\x7d", newline]
  | .node .traitItem [as, v, words, word, name, params, bounds, conditions, .group _ parts] =>
    let head :=
      seenBy v ++ wordsBefore words ++ headOf .absent [word] name ++ n.parameters params
        ++ match n.boundList bounds with
           | [] => []
           | list => .text ": " :: joined " + " list
    n.outer as ++ n.withBody head conditions parts
  | .node .traitAlias [as, v, word, name, params, _, bounds, conditions, _] =>
    n.outer as
      ++ n.withoutBody
          (headOf v [word] name ++ n.parameters params ++ .text " = " :: Doc.bound
            :: plusSeparated "" (n.boundList bounds))
          conditions
  | .node .implementation [as, words, _, params, through, .type t, conditions, .group _ parts] =>
    let ofTrait :=
      match through with
      | .node .sequence [mark, .type trait, _] =>
        (if mark.isAbsent then [] else [Doc.text "!"]) ++ n.ty trait ++ [space, .text "for "]
      | _ => []
    let head :=
      [fill (-step)
        (group step (wordsBefore words ++ .text "impl" :: n.parameters params) :: .text " "
          :: ofTrait ++ n.ty t)]
    n.outer as ++ n.withBody head conditions parts
  | .node .macroItem [as, .type (.path p), _, name, .raw [.group d body], _] =>
    n.outer as ++ macroItem p name d body
      ++ (if d = .brace then [] else [.text ";"]) ++ [newline]
  | .node .moduleItem [as, v, unsafety, word, name, b] =>
    let head := headOf v [unsafety, word] name
    n.outer as
      ++ match b with
         | .group _ parts => [group step (head ++ .text " " :: n.bodyOf parts), .text "\x7d", newline]
         | _ => [group step (head ++ [.text ";"]), newline]
  | c => [.text (Token.textOf c.tokens), newline]

end Nested

end Layout

end RecordCoding
