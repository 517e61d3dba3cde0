/-
The settings that `#[codable(...)]` attributes give to a record and its fields.

The attributes of a declaration are first read as one list of entries, in order,
whatever lists they were written in. `RecordSettings.ofAttributes` and
`FieldSettings.ofAttributes` go through the entries and stop at the first that
does not belong.

Design notes:

* Reading an entry can fail; the failure is itself the last entry of its list,
  so that an earlier entry that does not belong is reported first.
* The value of `crate` is read with its entry, but a failure in it matters only
  to whoever accepts the entry.
-/
import RecordCoding.Code.Parse

namespace RecordCoding

/-- What an entry of a `#[codable(...)]` list asks for. -/
inductive Request
  | strict
  /-- `crate = "..."` with the path in the text, or why there is none. -/
  | runtime (path : Except SyntaxError Path)
  | skip
  | unknown

/-- An entry of a `#[codable(...)]` list. -/
inductive Entry
  | asked (request : Request) (location : Location)
  /-- The list goes on with something that is no entry. -/
  | malformed (e : SyntaxError)

namespace Entry

/-! ### Reading the entries of a list -/

/-- The path that opens an entry: any words, with `::` between them, and where
it begins. -/
def path : Parser (Path × Location) := do
  let l ← Parser.here
  let leading ← Parser.punct? "::"
  let ts ← Parser.ahead
  if !Parser.isWord ts then
    if ts.isEmpty then Parser.fail (.rule "expected nested attribute")
    else if Parser.isLiteral ts then
      Parser.fail (.rule "unexpected literal in nested attribute, expected ident")
    else Parser.fail (.rule "unexpected token in nested attribute, expected ident")
  else do
    let first ← Parser.word
    let rec further : Nat → Parser (List Ident)
      | 0 => pure []
      | fuel + 1 => do
        if ← Parser.punct? "::" then do
          let i ← Parser.word
          let rest ← further fuel
          pure (i :: rest)
        else pure []
    let rest ← further (← Parser.rounds)
    pure (.plain leading (first :: rest), l)

/-- The path in the text of a literal; a failure is placed at the literal. -/
def pathInText (literal : String) (l : Location) : Except SyntaxError Path :=
  match Literal.string? literal with
  | none => .error ⟨.rule "expected string literal", false, l⟩
  | some (content, suffix) =>
    match TokenTree.scan content with
    | .error at' => .error ⟨.lexical, false, at'⟩
    | .ok ts =>
      let moved := TokenTree.movedListTo l (l.ofLast literal.toList) ts
      match (Parser.path (Inner.of moved) false).all l moved with
      | .error e => .error e
      | .ok p =>
        if suffix.isEmpty then .ok p
        else
          .error ⟨.rule s!"unexpected suffix {ticked suffix} on string literal", false, l⟩

/-- The value of `crate`: an equals sign and a string literal. -/
def runtimePath (inner : Inner) : Parser Path := do
  Parser.punct "="
  let l ← Parser.here
  let value ← inner.expression true
  match value.literal? with
  | some literal => pathInText literal l
  | none => Parser.failAt (.rule "expected string literal") l

/-- What a path asks for, without its value. -/
def requestOf (p : Path) : Request :=
  if p.isName "strict" then .strict
  else if p.isName "skip" then .skip
  else .unknown

/-- The end of a list: what was left over inside brackets is reported here. -/
def leftover (s : ParseState) : List Entry := (s.stray.map malformed).toList

/-- The entries from a state on. -/
def listFrom (inner : Inner) : Nat → ParseState → List Entry
  | 0, _ => []
  | fuel + 1, s =>
    match path s with
    | .error e => [malformed e]
    | .ok ((p, l), s) =>
      if p.isName "crate" then
        match runtimePath inner s with
        | .error e => [asked (.runtime (.error e)) l]
        | .ok (p, s) => asked (.runtime (.ok p)) l :: more s fuel
      else asked (requestOf p) l :: more s fuel
where
  /-- What follows an entry: the end, or a comma and further entries. -/
  more (s : ParseState) (fuel : Nat) : List Entry :=
    if s.rest.isEmpty then leftover s
    else
      match Parser.punct "," s with
      | .error e => [malformed e]
      | .ok (_, s) => if s.rest.isEmpty then leftover s else listFrom inner fuel s

/-- The entries of an attribute; none if it is not for this library. -/
def ofAttribute (a : Attribute) : List Entry :=
  if a.path.isName "codable" then
    match a.content with
    | .none =>
      let l := match a.path.segments with
        | s :: _ => s.name.location
        | [] => a.location
      [malformed
        ⟨.rule s!"expected attribute arguments in parentheses: #[{a.path.spelled}(...)]", false, l⟩]
    | .value equals _ =>
      [malformed ⟨.rule s!"expected parentheses: #[{a.path.spelled}(...)]", false, equals⟩]
    | .list _ body closing =>
      if body.isEmpty then [] else listFrom (Inner.of body) (body.length + 1) ⟨body, closing, none⟩
  else []

/-- The entries of all attributes, in order. -/
def ofAttributes (as : List Attribute) : List Entry := as.flatMap ofAttribute

end Entry

/-- What a record asks for. -/
structure RecordSettings where
  /-- A field without a supported shape is an error. -/
  strict : Bool
  /-- The path of the runtime library in generated code. -/
  runtime : Path
  deriving Inhabited

namespace RecordSettings

/-- The runtime path of a record that names none. -/
def defaultRuntime : Path := .plain true [.plain "codable"]

def initial : RecordSettings := ⟨false, defaultRuntime⟩

/-- The settings after one more entry. -/
def add (settings : RecordSettings) : Entry → Except SyntaxError RecordSettings
  | .asked .strict _ => .ok { settings with strict := true }
  | .asked (.runtime (.ok p)) _ => .ok { settings with runtime := p }
  | .asked (.runtime (.error e)) _ => .error e
  | .asked .skip l => .error ⟨.rule ("`skip` is a field attribute"), false, l⟩
  | .asked .unknown l => .error ⟨.rule "unknown codable attribute", false, l⟩
  | .malformed e => .error e

/-- The settings that entries give. -/
def ofEntries (entries : List Entry) : Except SyntaxError RecordSettings :=
  entries.foldlM add initial

/-- The settings that the attributes of a record give. -/
def ofAttributes (as : List Attribute) : Except SyntaxError RecordSettings :=
  ofEntries (Entry.ofAttributes as)

end RecordSettings

/-- What a field asks for. -/
structure FieldSettings where
  /-- The field is never written, and set to its default when read. -/
  skip : Bool
  deriving DecidableEq, Repr, Inhabited

namespace FieldSettings

/-- The settings after one more entry. -/
def add (_ : FieldSettings) : Entry → Except SyntaxError FieldSettings
  | .asked .skip _ => .ok ⟨true⟩
  | .asked _ l => .error ⟨.rule "unknown codable field attribute", false, l⟩
  | .malformed e => .error e

/-- The settings that entries give. -/
def ofEntries (entries : List Entry) : Except SyntaxError FieldSettings :=
  entries.foldlM add ⟨false⟩

/-- The settings that the attributes of a field give. -/
def ofAttributes (as : List Attribute) : Except SyntaxError FieldSettings :=
  ofEntries (Entry.ofAttributes as)

end FieldSettings

end RecordCoding
