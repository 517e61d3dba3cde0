/-
Items of a source file: type declarations with their generics, modules, and
whatever else there is.

Of a type declaration everything is kept that a generated member may show. Of
other items only their presence matters here; whoever reads one also has its
code.

Design notes:

* A list of generic parameters has three printed forms: as written, as the list
  behind `impl` (defaults dropped), and as the arguments of the type (names
  only). All of them put the lifetimes first.
-/
import RecordCoding.Code.Attribute

namespace RecordCoding

/-- Who may see an item. -/
inductive Visibility
  | inherited
  | everyone
  /-- `pub(crate)`, `pub(self)` or `pub(super)`. -/
  | near (word : String)
  /-- `pub(in a::b)`. -/
  | within (p : Path)
  deriving Inhabited

namespace Visibility

/-- A visibility as code. -/
def code : Visibility → Code
  | inherited => .absent
  | everyone => .node .visibility [.word "pub"]
  | near word => .node .visibility [.word "pub", .group .parenthesis [.word word]]
  | within p =>
    .node .visibility [.word "pub", .group .parenthesis [.word "in", .type (.path p)]]

/-- The tokens of a visibility. -/
def tokens (v : Visibility) : List Token := v.code.tokens

def isInherited : Visibility → Bool
  | inherited => true
  | _ => false

end Visibility

namespace GenericParam

/-- A parameter without its default. -/
def withoutDefault : GenericParam → GenericParam
  | type attributes name bounds trailing _ => type attributes name bounds trailing none
  | constant attributes name t _ => constant attributes name t none
  | param => param

/-- The name of a parameter, as an argument. -/
def argumentTokens : GenericParam → List Token
  | lifetime _ name _ _ => [.word name]
  | type _ name _ _ _ => [Token.ident name]
  | constant _ name _ _ => [Token.ident name]

/-- A type parameter with one more bound; any other parameter as it is. -/
def bounded (b : Bound) : GenericParam → GenericParam
  | type attributes name bounds _ fallback => type attributes name (bounds ++ [b]) false fallback
  | param => param

end GenericParam

/-- The generic parameters of a declaration and the conditions on them. -/
structure Generics where
  params : List GenericParam
  /-- A comma stands behind the last parameter. -/
  trailing : Bool
  predicates : List Predicate
  /-- A comma stands behind the last condition. -/
  predicatesTrailing : Bool
  deriving Inhabited

namespace Generics

/-- No parameters and no conditions. -/
def none : Generics := ⟨[], false, [], false⟩

/-- A list of parameters in angle brackets; nothing for an empty one. -/
def listTokens (generics : Generics) (f : GenericParam → List Token) : List Token :=
  if generics.params.isEmpty then []
  else angleTokens generics.trailing (generics.params.map fun p => (p.isLifetime, f p))

/-- The parameters as they were written. -/
def tokens (generics : Generics) : List Token := generics.listTokens GenericParam.tokens

/-- The parameters as they stand behind `impl`. -/
def implTokens (generics : Generics) : List Token :=
  generics.listTokens fun p => p.withoutDefault.tokens

/-- The parameters as arguments of the type. -/
def argumentTokens (generics : Generics) : List Token :=
  generics.listTokens GenericParam.argumentTokens

/-- The conditions as code. -/
def conditions (generics : Generics) : Code :=
  .conditions generics.predicates generics.predicatesTrailing

/-- The conditions; nothing where there are none. -/
def whereTokens (generics : Generics) : List Token := generics.conditions.tokens

/-- The generics with one more bound on every type parameter. -/
def bounded (generics : Generics) (b : Bound) : Generics :=
  { generics with params := generics.params.map (GenericParam.bounded b) }

/-- The parameters in the order in which they are printed. -/
def printed (generics : Generics) : List GenericParam :=
  generics.params.filter (·.isLifetime) ++ generics.params.filter (!·.isLifetime)

end Generics

/-- A named field. -/
structure NamedField where
  attributes : List Attribute
  name : Ident
  type : Ty
  deriving Inhabited

/-- What a type declaration consists of. -/
inductive TypeBody
  /-- A struct with named fields. -/
  | record (fields : List NamedField)
  | tuple
  | unit
  | enumeration
  | union
  | trait
  deriving Inhabited

/-- A declaration of a type. -/
structure TypeItem where
  attributes : List Attribute
  visibility : Visibility
  name : Ident
  generics : Generics
  body : TypeBody
  deriving Inhabited

/-- An item of a source file. -/
inductive Item
  | type (t : TypeItem)
  /-- A module, with its content if it is written in place. -/
  | module (name : Ident) (content : Option (List Item))
  | other
  deriving Inhabited

end RecordCoding
