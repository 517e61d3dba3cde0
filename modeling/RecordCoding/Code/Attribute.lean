/-
Attributes: `#[path]`, `#[path = value]` and `#[path(...)]`.

The content of a list is kept as raw tokens, since its meaning is that of
whoever the attribute addresses; what addresses this library is read in
`RecordCoding.Synthesis.Settings`. A value is an expression.
-/
import RecordCoding.Code.Term
import RecordCoding.Code.Parser

namespace RecordCoding

/-- What follows the path of an attribute. -/
inductive AttributeContent
  | none
  /-- A list in brackets of any kind, and where it closes. -/
  | list (delimiter : Delimiter) (body : List TokenTree) (closing : Location)
  /-- A value, and where the equals sign stands. -/
  | value (equals : Location) (value : Code)
  deriving Inhabited

/-- An attribute of what follows it, or of what encloses it. -/
structure Attribute where
  /-- Where its `#` stands. -/
  location : Location
  /-- It is written `#![...]` and belongs to what encloses it. -/
  inner : Bool
  /-- The path, whose steps have no arguments. -/
  path : Path
  content : AttributeContent
  deriving Inhabited

namespace Path

/-- Whether a path is one plain name without a leading `::`. -/
def isName (name : String) (p : Path) : Bool :=
  match p with
  | .mk false [.mk i .none] => i.spelled == name
  | _ => false

/-- The steps of a path as they are written, with `::` between them. -/
def spelled (p : Path) : String :=
  (if p.leading then "::" else "") ++ "::".intercalate (p.segments.map (·.name.spelled))

end Path

namespace Attribute

/-- An attribute as code. -/
def code (a : Attribute) : Code :=
  let content :=
    match a.content with
    | .none => []
    | .list d body _ => [.raw [.group d (TokenTree.tokens body)]]
    | .value _ v => [.word "=", v]
  .node .attributeMark
    [.word "#", .optionalWord a.inner "!", .group .bracket (.type (.path a.path) :: content)]

end Attribute

end RecordCoding
