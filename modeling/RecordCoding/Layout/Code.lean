/-
The layout of code, and of types with code in them.

`Nested.ofDepth` closes the circle between the layouts of types, expressions,
patterns, statements and items, each of which takes those for what lies one level
further in.
-/
import RecordCoding.Layout.Items

namespace RecordCoding

namespace Layout

namespace Nested

/-- The layouts for so many levels. -/
def ofDepth : Nat → Nested
  | 0 =>
    { expression := fun _ _ => []
      subject := fun _ _ => []
      otherwise := fun _ => []
      pattern := fun _ => []
      statement := fun _ => []
      item := fun _ => [] }
  | depth + 1 =>
    let below := ofDepth depth
    { expression := ofExpression below
      subject := ofSubject below
      otherwise := ofOtherwise below
      pattern := ofPattern below
      statement := ofStatement below
      item := ofItem below }

end Nested

/-- The layout of code. Of three levels at least one takes a token of its own. -/
def code (c : Code) : List Doc := (Nested.ofDepth (3 * Token.count c.tokens + 3)).code c

/-- The layout of a path as a type. -/
def path (p : Path) : List Doc := pathWith code .type p

/-- A visibility with the space behind it. -/
def visibility (v : Visibility) : List Doc := visibilityWith code v

/-- The parameters behind `impl`. -/
def implParams (generics : Generics) : List Doc :=
  genericsWith code (generics.params.map GenericParam.withoutDefault)

/-- The name of a parameter. -/
def paramName : GenericParam → List Doc
  | .lifetime _ name _ _ => [.text name]
  | .type _ name _ _ _ => [.text name.spelled]
  | .constant _ name _ _ => [.text name.spelled]

/-- The parameters as arguments of the type. -/
def paramArguments (generics : Generics) : List Doc :=
  if generics.params.isEmpty then [] else Doc.list "<" ">" (generics.printed.map paramName)

/-- The conditions in front of a body. -/
def whereClause (generics : Generics) : List Doc := whereBody code generics.predicates

end Layout

end RecordCoding
