/-
The layout of generated members, and of a whole generated file.

Each record gives four items: the key enumeration, its implementation of the
trait for keys, and the implementations that read and write the record.
-/
import RecordCoding.Layout.Code
import RecordCoding.Synthesis.Expansion

namespace RecordCoding

namespace Layout

open Doc

/-! ### Pieces of items -/

/-- The body of an item or a function: what it holds in braces, each part with
the line break behind it. -/
def body (parts : List Doc) : List Doc :=
  .text "\x7b" :: shiftedLast (-step) (newlineUnlessLast :: parts)

/-- An item: a head, a body and the line break behind it. -/
def item (head : List Doc) (parts : List Doc) : List Doc :=
  [group step (head ++ body parts), .text "\x7d", newline]

/-- An implementation of a trait of the runtime library. -/
def implementation (generics : Generics) (runtime : Path) (trait : String) (subject : List Doc)
    (parts : List Doc) : List Doc :=
  let head :=
    [fill (-step)
      (group step (.text "impl" :: implParams generics) :: .text " " :: path runtime
        ++ .text ("::" ++ trait) :: space :: .text "for " :: subject)]
  item (head ++ whereClause generics) parts

/-- A function with its parameters, its result and its statements. -/
def function (name : String) (parameters : List (List Doc)) (result : List Doc) (parts : List Doc) :
    List Doc :=
  let head :=
    [.text s!"fn {name}(", Doc.bound, listBox 0 parameters, .text ")",
      group (-step) (.text " -> " :: result), .text " "]
  item head parts

/-- A statement with the line break behind it. -/
def statement (ds : List Doc) : List Doc := [fill 0 ds, newline]

/-- A binding of a value to a name. -/
def letStatement (pattern : String) (value : List Doc) : List Doc :=
  statement (.text s!"let {pattern} = " :: Doc.bound :: value ++ [.text ";"])

/-- A name on its own, as what a method is called on. -/
def receiver (name : String) : Doc := group (-step) [.text name]

/-- The call of a method, with generic arguments, arguments, and what stands
behind it. -/
def methodCall (subject method : String) (generic : List (List Doc)) (arguments : List (List Doc))
    (behind : String) : List Doc :=
  [group step
    ([receiver subject, cut, .text ("." ++ method)]
      ++ (if generic.isEmpty then [] else Doc.list "::<" ">" generic)
      ++ [group 0 (Doc.list "(" ")" arguments), .text behind])]

/-- A reference to a field of what a method is called on. -/
def fieldReference (field : Ident) : List Doc :=
  [.text "&", group step [receiver "self", cut, .text ("." ++ field.spelled)]]

/-- The path of a key. -/
def keyPath (keys : KeyRegistry) (key : Ident) : List Doc :=
  [.text (keys.enumeration.spelled ++ "::" ++ key.spelled)]

/-! ### Keys -/

/-- The variant of a key, within the enumeration. -/
def variant (key : Ident) : String := "Self::" ++ key.spelled

/-- The arm that gives a key its text: in braces where it needs a line of its
own. -/
def arm (key : Ident) : Doc :=
  let opening := Doc.break { Break.ofBlank 0 with before := "\x7b" }
  let closing :=
    Doc.break { Break.ofBlank 0 with offset := -step, after := "\x7d", unbroken := "," }
  fill 0
    [.text (variant key ++ " => "), Doc.bound,
      group step [opening, .text (Text.literal key.name), closing]]

/-- The choice between the keys of what a function is given. -/
def choice (keys : List Ident) : List Doc :=
  [fill 0
    [.text "match ", group 0 [.text "self "], .text "\x7b", Doc.bound,
      group step (shiftedLast (-step) (newlineUnlessLast :: keys.flatMap fun k => [arm k, newline])),
      .text "\x7d"]]

/-- The enumeration of the keys. -/
def keyEnumeration (m : Members) : List Doc :=
  let head :=
    visibility m.visibility ++ [.text ("enum " ++ m.registry.enumeration.spelled ++ " ")]
  documentationLine m.registry.documentation
    ++ [.text "#[allow(non_camel_case_types)]", space,
      .text "#[derive(Clone, Copy, Debug, PartialEq, Eq, Hash)]", space]
    ++ item head (m.registry.keys.flatMap fun k => [.text (k.spelled ++ ","), newline])

/-- The implementation of the trait for keys. -/
def keyImplementation (m : Members) : List Doc :=
  let keys := m.registry.keys
  let all :=
    if keys.isEmpty then [Doc.text "[]"]
    else Doc.list "[" "]" (keys.map fun k => [.text (variant k)])
  let constant :=
    [group 0
      (.text "const ALL: &'static [Self] = " :: Doc.bound :: .text "&" :: all ++ [.text ";"]),
      newline]
  implementation .none m.runtime "CodingKey" [.text m.registry.enumeration.spelled]
    (constant
      ++ function "string_value" [[.text "self"]] [.text "&'static str"]
          (statement (choice keys)))

/-! ### Reading and writing -/

/-- The type of the record. -/
def subject (m : Members) : List Doc := .text m.name.spelled :: paramArguments m.generics

/-- The type of a result with an error of the runtime library. -/
def resultType (m : Members) (value : List Doc) (error : String) : List Doc :=
  .text "::core::result::Result"
    :: Doc.list "<" ">" [value, path m.runtime ++ [.text ("::" ++ error)]]

/-- The type a field is read at. -/
def decodedType : DecodedType → List Doc
  | .plain p => path p
  | .sequence p => .text "::std::vec::Vec" :: Doc.list "<" ">" [path p]

/-- What opens the container of the record. -/
def containerCall (m : Members) (coder behind : String) : List Doc :=
  methodCall coder "container" [[.text m.registry.enumeration.spelled]] [] behind

/-- The statement that reads a field. -/
def decodeStatement (m : Members) (s : DecodeStatement) : List Doc :=
  letStatement (bindingName s.position)
    (methodCall Members.container.spelled s.rule.operation [decodedType s.type]
      [keyPath m.registry s.key] "?")

/-- The record put together from what was read. -/
def recordLiteral (initializers : List Initializer) : Doc :=
  let initializer (i : Initializer) : List Doc :=
    let value :=
      match i.source with
      | some position => bindingName position
      | none => "::core::default::Default::default()"
    [.text (i.field.spelled ++ ": "), fill 0 [.text value]]
  groupWithin 34 step
    (fill (-step) [.text "Self"] :: .text " \x7b"
      :: shiftedLast (-step) (spaceUnlessLast :: commaSeparated 1 (initializers.map initializer)))

/-- The implementation that reads a record. -/
def decodeImplementation (m : Members) : List Doc :=
  let parameter :=
    .text (Members.decoderName ++ ": &") :: path m.runtime ++ .text "::Decoder"
      :: Doc.list "<" ">" [[.text "'_"]]
  implementation (m.boundedGenerics "Decodable") m.runtime "Decodable" (subject m)
    (function "decode" [parameter] (resultType m [.text "Self"] "DecodeError")
      (letStatement Members.container.spelled (containerCall m Members.decoderName "?")
        ++ m.decoding.flatMap (decodeStatement m)
        ++ statement
            [.text "::core::result::Result::Ok(", recordLiteral m.initializers, .text "\x7d)"]))

/-- The implementation that writes a record. -/
def encodeImplementation (m : Members) : List Doc :=
  let container := Members.container.spelled
  let encode (s : EncodeStatement) : List Doc :=
    statement
      (methodCall container "encode" [] [fieldReference s.field, keyPath m.registry s.field] "?"
        ++ [.text ";"])
  let encoder := .text (Members.encoderName ++ ": &mut ") :: path m.runtime ++ [.text "::Encoder"]
  implementation (m.boundedGenerics "Encodable") m.runtime "Encodable" (subject m)
    (function "encode" [[.text "&self"], encoder] (resultType m [.text "()"] "EncodeError")
      (letStatement ((if m.encoding.isEmpty then "" else "mut ") ++ container)
          (containerCall m Members.encoderName "")
        ++ m.encoding.flatMap encode
        ++ statement [.text "::core::result::Result::Ok(())"]))

/-- The items of a record. -/
def members (m : Members) : List Doc :=
  keyEnumeration m ++ keyImplementation m ++ decodeImplementation m ++ encodeImplementation m

end Layout

namespace Expansion

/-- The first line of every generated file. -/
def header : String := "// @generated by codable-codegen. Do not edit by hand.\n"

/-- A generated file. -/
def source (e : Expansion) : String :=
  if e.members.isEmpty then header
  else header ++ "\n" ++ (Layout.Doc.group 0 (e.members.flatMap Layout.members)).pretty

end Expansion

end RecordCoding
