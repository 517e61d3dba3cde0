/-
Declarations, as far as members are made from them.

`Declaration.ofItem` reads the attributes of a record and its fields. Every other
kind of type keeps its attributes unread: it is turned away as a whole.
-/
import RecordCoding.Synthesis.Diagnostic
import RecordCoding.Synthesis.Settings
import RecordCoding.Synthesis.Shape

namespace RecordCoding

/-- What sort of type is declared. -/
inductive DeclarationKind
  /-- A struct with named fields, the only sort that gets members. -/
  | record
  | tupleStruct
  | unitStruct
  | enumeration
  | union
  | trait
  deriving DecidableEq, Repr, Inhabited

namespace DeclarationKind

def description : DeclarationKind → String
  | record => "struct with named fields"
  | tupleStruct => "tuple struct"
  | unitStruct => "unit struct"
  | enumeration => "enum"
  | union => "union"
  | trait => "trait"

/-- The kind of a type with a given body. -/
def ofBody : TypeBody → DeclarationKind
  | .record _ => record
  | .tuple => tupleStruct
  | .unit => unitStruct
  | .enumeration => enumeration
  | .union => union
  | .trait => trait

end DeclarationKind

/-- A named field of a record. -/
structure FieldDeclaration where
  name : Ident
  type : TypeExpression
  /-- The field is not marked to be skipped. -/
  stored : Bool
  deriving Inhabited

/-- A declaration with its settings. -/
structure Declaration where
  name : Ident
  kind : DeclarationKind
  visibility : Visibility
  generics : Generics
  settings : RecordSettings
  /-- The fields in order; none for a type that is no record. -/
  fields : List FieldDeclaration
  /-- Where diagnostics about the whole declaration point. -/
  location : Location
  deriving Inhabited

namespace FieldDeclaration

/-- A field with its settings. -/
def ofField (f : NamedField) : Except SyntaxError FieldDeclaration :=
  match FieldSettings.ofAttributes f.attributes with
  | .error e => .error e
  | .ok settings => .ok ⟨f.name, TypeExpression.ofType f.type, !settings.skip⟩

/-- Fields with their settings, or the failure of the first that has one. -/
def ofFields : List NamedField → Except SyntaxError (List FieldDeclaration)
  | [] => .ok []
  | f :: rest =>
    match ofField f with
    | .error e => .error e
    | .ok d =>
      match ofFields rest with
      | .error e => .error e
      | .ok ds => .ok (d :: ds)

end FieldDeclaration

namespace Declaration

/-- The settings and fields of a type. -/
def contentOf (t : TypeItem) : Except SyntaxError (RecordSettings × List FieldDeclaration) :=
  match t.body with
  | .record fields =>
    match RecordSettings.ofAttributes t.attributes with
    | .error e => .error e
    | .ok settings =>
      match FieldDeclaration.ofFields fields with
      | .error e => .error e
      | .ok ds => .ok (settings, ds)
  | _ => .ok (.initial, [])

/-- The declaration a type item makes. -/
def ofItem (t : TypeItem) : Except Diagnostic Declaration :=
  match contentOf t with
  | .error e => .error (.ofSyntaxError e)
  | .ok (settings, fields) =>
    .ok ⟨t.name, .ofBody t.body, t.visibility, t.generics, settings, fields, t.name.location⟩

end Declaration

end RecordCoding
