/-
Diagnostics: what there is to say about a declaration.

A diagnostic is a cause and a place; its kind, its severity and its text follow
from the cause.
-/
import RecordCoding.Text.Quoted
import RecordCoding.Code.Parser

namespace RecordCoding

/-- The kinds of diagnostics. -/
inductive DiagnosticKind
  | unsupportedDeclarationKind
  | unrecognizedFieldShape
  | invalidAttribute
  | nestedDeclaration
  deriving DecidableEq, Repr, Inhabited

namespace DiagnosticKind

/-- The stable identifier of a kind. -/
def id : DiagnosticKind → String
  | unsupportedDeclarationKind => "codable::unsupported_declaration_kind"
  | unrecognizedFieldShape => "codable::unrecognized_field_shape"
  | invalidAttribute => "codable::invalid_attribute"
  | nestedDeclaration => "codable::nested_declaration"

end DiagnosticKind

inductive Severity
  | error
  | warning
  deriving DecidableEq, Repr, Inhabited

namespace Severity

def name : Severity → String
  | error => "error"
  | warning => "warning"

end Severity

/-- What a diagnostic reports. -/
inductive DiagnosticCause
  /-- The declaration is no struct with named fields. -/
  | unsupportedDeclaration
  /-- A stored field of a strict record has no supported shape. -/
  | unrecognizedShape (field : String)
  /-- A stored field without a supported shape was left out. -/
  | skippedField (field : String)
  | invalidAttribute (e : SyntaxError)
  /-- A record stands inside a module that is written in place. -/
  | nested (record module : String)
  deriving DecidableEq, Repr, Inhabited

structure Diagnostic where
  cause : DiagnosticCause
  location : Location
  deriving DecidableEq, Repr, Inhabited

namespace Diagnostic

def kind (d : Diagnostic) : DiagnosticKind :=
  match d.cause with
  | .unsupportedDeclaration => .unsupportedDeclarationKind
  | .unrecognizedShape _ => .unrecognizedFieldShape
  | .skippedField _ => .unrecognizedFieldShape
  | .invalidAttribute _ => .invalidAttribute
  | .nested _ _ => .nestedDeclaration

def severity (d : Diagnostic) : Severity :=
  match d.cause with
  | .skippedField _ => .warning
  | .nested _ _ => .warning
  | _ => .error

def isError (d : Diagnostic) : Bool := d.severity = .error

def message (d : Diagnostic) : String :=
  match d.cause with
  | .unsupportedDeclaration => "`Codable` can only be applied to a struct with named fields"
  | .unrecognizedShape field =>
    s!"field {ticked field} must be " ++ ticked "T" ++ ", " ++ ticked "Option<T>" ++ ", "
      ++ ticked "Vec<T>" ++ " or " ++ ticked "Option<Vec<T>>" ++ " for a plain type " ++ ticked "T"
      ++ ", or be marked " ++ ticked "#[codable(skip)]"
  | .skippedField field =>
    s!"field {ticked field} has no supported shape and is left out of encoding; it is set to "
      ++ ticked "Default::default()" ++ " when decoding"
  | .invalidAttribute e => e.message
  | .nested record module =>
    s!"{ticked record} is declared inside inline module {ticked module}; nothing was generated "
      ++ "for it, use " ++ ticked "#[derive(Codable)]" ++ " or move it to its own file"

/-- The code that makes a compiler report a diagnostic. -/
def compileError (d : Diagnostic) : List Token :=
  Token.words ["::", "core", "::", "compile_error", "!"]
    ++ [.group .brace [.word (Text.literal d.message)]]

/-- A failure in an attribute, at its place. -/
def ofSyntaxError (e : SyntaxError) : Diagnostic := ⟨.invalidAttribute e, e.location⟩

end Diagnostic

end RecordCoding
