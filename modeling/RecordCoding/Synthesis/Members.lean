/-
The members generated for a record: its key enumeration, and how it is read and
written.

`Members` holds them as data: the keys, one statement for each keyed field in
either direction, one initializer for each field. `Members.tokens` is the code
they stand for. `Declaration.members` makes them, or says why there are none.

Design notes:

* A field is keyed when it is stored and has a supported shape. Keys, statements
  and initializers are all drawn from the one list of classified fields.
* A value that was read is bound to a name made from the position of its field
  among all fields, so no name of a field can capture it.
* Every occurrence of the runtime library goes through `runtimeTokens`.
-/
import RecordCoding.Number.Shortest
import RecordCoding.Synthesis.Declaration

namespace RecordCoding

/-- A field with its shape. -/
structure ClassifiedField where
  name : Ident
  shape : FieldShape
  stored : Bool
  deriving Inhabited

namespace ClassifiedField

/-- Whether the field has a key, and a statement in either direction. -/
def keyed (f : ClassifiedField) : Bool := f.stored && f.shape.recognized

/-- Whether the field is left out although it is not marked to be. -/
def leftOut (f : ClassifiedField) : Bool := f.stored && !f.shape.recognized

/-- A declared field with its shape. -/
def ofField (f : FieldDeclaration) : ClassifiedField := ⟨f.name, .of f.type, f.stored⟩

/-- The fields with their shapes; in strict mode the first that would be left
out is an error. -/
def ofFields (strict : Bool) (fields : List FieldDeclaration) :
    Except Diagnostic (List ClassifiedField) :=
  let classified := fields.map ofField
  match classified.find? leftOut with
  | some f => if strict then .error ⟨.unrecognizedShape f.name.name, f.name.location⟩ else .ok classified
  | none => .ok classified

end ClassifiedField

/-! ### Keys -/

/-- The keys of a record, one for each keyed field in order. -/
structure KeyRegistry where
  /-- The name of the record. -/
  record : String
  /-- The name of the enumeration. -/
  enumeration : Ident
  /-- The variants, named like the fields. -/
  keys : List Ident
  deriving Inhabited

namespace KeyRegistry

/-- The keys of a record with the given fields. -/
def build (record : Ident) (fields : List ClassifiedField) : KeyRegistry :=
  ⟨record.name, .plain (record.name ++ "CodingKeys"), (fields.filter (·.keyed)).map (·.name)⟩

/-- The text of every key, in order. -/
def names (r : KeyRegistry) : List String := r.keys.map (·.name)

/-- The path of a variant. -/
def keyTokens (r : KeyRegistry) (key : Ident) : List Token :=
  [Token.ident r.enumeration, .word "::", Token.ident key]

/-- The documentation of the enumeration. -/
def documentation (r : KeyRegistry) : String := s!" Coding keys generated for {ticked r.record}."

end KeyRegistry

/-- A member of the runtime library. -/
def runtimeTokens (runtime : Path) (name : String) : List Token :=
  runtime.tokens ++ [.word "::", .word name]

namespace KeyRegistry

/-- The enumeration and its implementation of the trait for keys. -/
def tokens (r : KeyRegistry) (visibility : Visibility) (runtime : Path) : List Token :=
  let variant (key : Ident) : List Token := [.word "Self", .word "::", Token.ident key]
  let arm (key : Ident) : List Token :=
    variant key ++ [.word "=>", .word (Text.literal key.name), .word ","]
  let text := Token.words ["&", "'static", "str"]
  let derived := ["Clone", "Copy", "Debug", "PartialEq", "Eq", "Hash"].map fun w => [Token.word w]
  [.word "#", .group .bracket [.word "doc", .word "=", .word (Text.literal r.documentation)],
    .word "#", .group .bracket [.word "allow", .group .parenthesis [.word "non_camel_case_types"]],
    .word "#", .group .bracket
      [.word "derive", .group .parenthesis (Token.joined (.word ",") derived)]]
  ++ visibility.tokens
  ++ [.word "enum", Token.ident r.enumeration,
      .group .brace (Token.joined (.word ",") (r.keys.map fun k => [Token.ident k]))]
  ++ .word "impl" :: runtimeTokens runtime "CodingKey"
  ++ [.word "for", Token.ident r.enumeration,
      .group .brace
        (Token.words ["const", "ALL", ":", "&", "'static"]
        ++ [.group .bracket [.word "Self"], .word "=", .word "&",
            .group .bracket (Token.joined (.word ",") (r.keys.map variant)), .word ";",
            .word "fn", .word "string_value", .group .parenthesis [.word "self"], .word "->"]
        ++ text
        ++ [.group .brace [.word "match", .word "self", .group .brace (r.keys.flatMap arm)]])]

end KeyRegistry

/-! ### Statements -/

/-- `let binding = container.operation::<T>(Keys::field)?;` -/
structure DecodeStatement where
  /-- The position of the field among all fields. -/
  position : Nat
  rule : DecodeRule
  type : DecodedType
  key : Ident
  deriving Inhabited

/-- `container.encode(&self.field, Keys::field)?;` -/
structure EncodeStatement where
  field : Ident
  deriving Inhabited

/-- A field of the record that is put together: from the value read for the field
at a position, or from its default. -/
structure Initializer where
  field : Ident
  source : Option Nat
  deriving Inhabited

/-- The name a value that was read is bound to. -/
def bindingName (position : Nat) : String := "__field" ++ String.ofList (Decimal.digitsOf position)

namespace DecodeStatement

/-- The statement for the field at a position, if it is keyed. -/
def ofField (position : Nat) (f : ClassifiedField) : Option DecodeStatement :=
  if f.keyed then f.shape.rule.map fun (rule, type) => ⟨position, rule, type, f.name⟩ else none

/-- The statements for fields from a position on. -/
def ofFields (position : Nat) : List ClassifiedField → List DecodeStatement
  | [] => []
  | f :: rest => (ofField position f).toList ++ ofFields (position + 1) rest

def tokens (keys : KeyRegistry) (container : Ident) (s : DecodeStatement) : List Token :=
  [.word "let", .word (bindingName s.position), .word "=", Token.ident container, .word ".",
    .word s.rule.operation, .word "::", .word "<"]
  ++ s.type.tokens
  ++ [.word ">", .group .parenthesis (keys.keyTokens s.key), .word "?", .word ";"]

end DecodeStatement

namespace EncodeStatement

/-- The statement for a field, if it is keyed. -/
def ofField (f : ClassifiedField) : Option EncodeStatement :=
  if f.keyed then some ⟨f.name⟩ else none

def tokens (keys : KeyRegistry) (container : Ident) (s : EncodeStatement) : List Token :=
  [Token.ident container, .word ".", .word "encode",
    .group .parenthesis
      ([.word "&", .word "self", .word ".", Token.ident s.field, .word ","] ++ keys.keyTokens s.field),
    .word "?", .word ";"]

end EncodeStatement

namespace Initializer

/-- The initializers of fields from a position on. -/
def ofFields (position : Nat) : List ClassifiedField → List Initializer
  | [] => []
  | f :: rest =>
    ⟨f.name, if f.keyed then some position else none⟩ :: ofFields (position + 1) rest

/-- The code of the value of a field that was not read. -/
def defaultTokens : List Token :=
  Token.words ["::", "core", "::", "default", "::", "Default", "::", "default"]
    ++ [.group .parenthesis []]

def tokens (i : Initializer) : List Token :=
  [Token.ident i.field, .word ":"]
    ++ match i.source with
       | some position => [.word (bindingName position)]
       | none => defaultTokens

end Initializer

/-! ### Members -/

/-- What is generated for a record. -/
structure Members where
  name : Ident
  visibility : Visibility
  generics : Generics
  runtime : Path
  /-- Every field with its shape, in order. -/
  fields : List ClassifiedField
  registry : KeyRegistry
  decoding : List DecodeStatement
  initializers : List Initializer
  encoding : List EncodeStatement
  deriving Inhabited

namespace Members

/-- The names that generated code uses for what it is given and opens. -/
def decoderName : String := "__decoder"
def encoderName : String := "__encoder"
def container : Ident := .plain "__container"

/-- A trait of the runtime library as a bound. -/
def runtimeBound (runtime : Path) (name : String) : Bound :=
  .trait false none false (.mk runtime.leading (runtime.segments ++ [.mk (.plain name) .none]))

/-- The generics of an implementation: every type parameter carries the trait. -/
def boundedGenerics (m : Members) (name : String) : Generics :=
  m.generics.bounded (runtimeBound m.runtime name)

/-- The head of an implementation of a trait of the runtime library. -/
def headTokens (m : Members) (name : String) : List Token :=
  let generics := m.boundedGenerics name
  .word "impl" :: generics.implTokens ++ runtimeTokens m.runtime name
    ++ [.word "for", Token.ident m.name] ++ generics.argumentTokens ++ generics.whereTokens

/-- The type of a result with an error of the runtime library. -/
def resultTokens (m : Members) (value : List Token) (error : String) : List Token :=
  Token.words ["::", "core", "::", "result", "::", "Result", "<"] ++ value ++ [.word ","]
    ++ runtimeTokens m.runtime error ++ [.word ">"]

/-- Success with a value. -/
def okTokens (value : List Token) : List Token :=
  Token.words ["::", "core", "::", "result", "::", "Result", "::", "Ok"]
    ++ [.group .parenthesis value]

/-- The key enumeration and its implementation. -/
def keysTokens (m : Members) : List Token := m.registry.tokens m.visibility m.runtime

/-- The implementation that reads a record. -/
def decodeTokens (m : Members) : List Token :=
  let parameter :=
    [.word decoderName, .word ":", .word "&"] ++ runtimeTokens m.runtime "Decoder"
      ++ Token.words ["<", "'_", ">"]
  let body :=
    [.word "let", Token.ident container, .word "=", .word decoderName, .word ".", .word "container",
      .word "::", .word "<", Token.ident m.registry.enumeration, .word ">", .group .parenthesis [],
      .word "?", .word ";"]
    ++ m.decoding.flatMap (DecodeStatement.tokens m.registry container)
    ++ okTokens
        [.word "Self", .group .brace (Token.joined (.word ",") (m.initializers.map Initializer.tokens))]
  m.headTokens "Decodable"
    ++ [.group .brace
        ([.word "fn", .word "decode", .group .parenthesis parameter, .word "->"]
          ++ m.resultTokens [.word "Self"] "DecodeError" ++ [.group .brace body])]

/-- The implementation that writes a record. Its container changes only if there
is something to write. -/
def encodeTokens (m : Members) : List Token :=
  let parameters :=
    Token.words ["&", "self", ",", encoderName, ":", "&", "mut"] ++ runtimeTokens m.runtime "Encoder"
  let body :=
    .word "let" :: (if m.encoding.isEmpty then [] else [.word "mut"])
    ++ [Token.ident container, .word "=", .word encoderName, .word ".", .word "container",
      .word "::", .word "<", Token.ident m.registry.enumeration, .word ">", .group .parenthesis [],
      .word ";"]
    ++ m.encoding.flatMap (EncodeStatement.tokens m.registry container)
    ++ okTokens [.group .parenthesis []]
  m.headTokens "Encodable"
    ++ [.group .brace
        ([.word "fn", .word "encode", .group .parenthesis parameters, .word "->"]
          ++ m.resultTokens [.group .parenthesis []] "EncodeError" ++ [.group .brace body])]

/-- All generated code of a record. -/
def tokens (m : Members) : List Token := m.keysTokens ++ m.decodeTokens ++ m.encodeTokens

/-- The members of a declaration with the given fields. -/
def build (d : Declaration) (fields : List ClassifiedField) : Members where
  name := d.name
  visibility := d.visibility
  generics := d.generics
  runtime := d.settings.runtime
  fields := fields
  registry := .build d.name fields
  decoding := DecodeStatement.ofFields 0 fields
  initializers := Initializer.ofFields 0 fields
  encoding := fields.filterMap EncodeStatement.ofField

end Members

namespace Declaration

/-- The fields to make members for: a declaration of any other kind than a record
is turned away. -/
def validFields (d : Declaration) : Except Diagnostic (List FieldDeclaration) :=
  if d.kind = .record then .ok d.fields else .error ⟨.unsupportedDeclaration, d.location⟩

/-- The members of a declaration, all of them or none. -/
def members (d : Declaration) : Except Diagnostic Members :=
  match d.validFields with
  | .error e => .error e
  | .ok fields =>
    match ClassifiedField.ofFields d.settings.strict fields with
    | .error e => .error e
    | .ok classified => .ok (.build d classified)

end Declaration

namespace TypeItem

/-- The members of a declaration that has been parsed. -/
def members (t : TypeItem) : Except Diagnostic Members :=
  match Declaration.ofItem t with
  | .error e => .error e
  | .ok d => d.members

/-- The code that a declaration is expanded to: its members, or what makes a
compiler report why there are none. -/
def expandedTokens (t : TypeItem) : List Token :=
  match t.members with
  | .ok m => m.tokens
  | .error e => e.compileError

end TypeItem

end RecordCoding
