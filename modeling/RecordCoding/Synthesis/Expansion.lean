/-
Expanding a source file: which declarations are selected, and what each of them
contributes.

The declarations of a file are its type items, those inside modules written in
place included. A selected one contributes its members, or a diagnostic; no
declaration changes what another contributes.

Design notes:

* Records inside modules are only reported: what is generated for a file stands
  at its top, where the types of such a record may have no name.
* What is generated is parsed before it counts as code: names and paths are copied
  to places with another grammar. A record whose members are no code ends the run.
* What is logged on the way is a list of events, computed from the same
  declarations as the members.
-/
import RecordCoding.Synthesis.Members

namespace RecordCoding

/-- What is asked of an expansion. -/
structure ExpansionOptions where
  /-- The types to expand; if there are none, those that derive. -/
  types : List String
  /-- Every record is strict. -/
  strict : Bool
  /-- The path of the runtime library in place of that of the records. -/
  runtime : Option String
  deriving Inhabited

namespace ExpansionOptions

/-- All declarations that derive, as they are. -/
def initial : ExpansionOptions := ⟨[], false, none⟩

end ExpansionOptions

/-- Why a file was not expanded. -/
inductive ExpansionError
  | unreadable (e : SyntaxError)
  | typeNotFound (name : String)
  | invalidRuntime (text : String)
  /-- The code generated for a record is no code. -/
  | unparsable (record : String) (detail : String)
  deriving DecidableEq, Repr, Inhabited

namespace ExpansionError

def message : ExpansionError → String
  | unreadable e =>
    s!"failed to parse source at {e.location.line}:{e.location.column}: {e.message}"
  | typeNotFound name => "type '" ++ name ++ "' not found in source"
  | invalidRuntime text => "invalid crate path '" ++ text ++ "'"
  | unparsable record detail => "generated members for '" ++ record ++ "' do not parse: " ++ detail

end ExpansionError

/-! ### Candidates -/

/-- A type declaration of a file. -/
structure Candidate where
  item : TypeItem
  /-- The names of the modules around it, outermost first. -/
  modules : List String
  deriving Inhabited

namespace Candidate

mutual

/-- The type declarations in an item inside some modules. -/
def ofItem (modules : List String) : Item → List Candidate
  | .type t => [⟨t, modules⟩]
  | .module name content => ofContent (modules ++ [name.spelled]) content
  | .other => []

/-- The type declarations in the content of a module. -/
def ofContent (modules : List String) : Option (List Item) → List Candidate
  | none => []
  | some items => ofItems modules items

/-- The type declarations in items inside some modules, in the order of the
text. -/
def ofItems (modules : List String) : List Item → List Candidate
  | [] => []
  | i :: rest => ofItem modules i ++ ofItems modules rest

end

/-- The path of the modules around a declaration, if there are any. -/
def moduleLabel (c : Candidate) : Option String :=
  if c.modules.isEmpty then none else some ("::".intercalate c.modules)

/-- The name of a declaration as it is written. -/
def name (c : Candidate) : String := c.item.name.spelled

end Candidate

namespace Attribute

/-- The paths that a `derive` attribute lists. -/
def derivedPaths (a : Attribute) : List Path :=
  match a.content with
  | .list _ body closing =>
    if a.path.isName "derive" then
      let inner := Inner.of body
      let r : Parser (List Path × Bool) :=
        Parser.terminated (Parser.path inner false)
      match r.all closing body with
      | .ok (paths, _) => paths
      | .error _ => []
    else []
  | _ => []

/-- Whether an attribute derives the members made here. -/
def derivesMembers (a : Attribute) : Bool :=
  a.derivedPaths.any fun p =>
    match p.segments.getLast? with
    | some s => s.name.spelled == "Codable"
    | none => false

end Attribute

namespace Candidate

/-- The attribute that derives members, if there is one. -/
def derive? (c : Candidate) : Option Attribute := c.item.attributes.find? (·.derivesMembers)

/-- Whether the options ask for a declaration. -/
def selected (options : ExpansionOptions) (c : Candidate) : Bool :=
  if options.types.isEmpty then c.derive?.isSome else options.types.contains c.name

/-- A declaration with the settings of the options put over its own. -/
def declaration (options : ExpansionOptions) (runtime : Option Path) (c : Candidate) :
    Except Diagnostic Declaration :=
  (Declaration.ofItem c.item).map fun d =>
    { d with
      location := (c.derive?.map (·.location)).getD d.location
      settings := ⟨d.settings.strict || options.strict, runtime.getD d.settings.runtime⟩ }

/-- The members of a declaration under the options. -/
def members (options : ExpansionOptions) (runtime : Option Path) (c : Candidate) :
    Except Diagnostic Members :=
  match c.declaration options runtime with
  | .error d => .error d
  | .ok d => d.members

end Candidate

/-! ### Contributions -/

/-- What one selected declaration adds to an expansion. -/
inductive Contribution
  | diagnostic (d : Diagnostic)
  | members (m : Members)
  deriving Inhabited

namespace Candidate

/-- What a selected declaration contributes. -/
def contribution (options : ExpansionOptions) (runtime : Option Path) (c : Candidate) :
    Contribution :=
  match c.moduleLabel with
  | some label => .diagnostic ⟨.nested c.item.name.name label, c.item.name.location⟩
  | none =>
    match c.members options runtime with
    | .ok m => .members m
    | .error d => .diagnostic d

end Candidate

namespace Members

/-- The warnings for the fields that were left out. -/
def warnings (m : Members) : List Diagnostic :=
  (m.fields.filter (·.leftOut)).map fun f => ⟨.skippedField f.name.name, f.name.location⟩

end Members

/-! ### Expansions -/

/-- What was generated for a file, and what there is to say about it. -/
structure Expansion where
  /-- The names of the records that got members, in order. -/
  generated : List String
  diagnostics : List Diagnostic
  members : List Members
  deriving Inhabited

namespace Expansion

def empty : Expansion := ⟨[], [], []⟩

/-- Two expansions one after the other. -/
def append (a b : Expansion) : Expansion :=
  ⟨a.generated ++ b.generated, a.diagnostics ++ b.diagnostics, a.members ++ b.members⟩

instance : Append Expansion := ⟨append⟩

/-- Whether any diagnostic is an error. -/
def hasErrors (e : Expansion) : Bool := e.diagnostics.any (·.isError)

/-- The tokens of everything generated. -/
def tokens (e : Expansion) : List Token := e.members.flatMap (·.tokens)

/-- The expansion of one selected declaration, whose members have to be code. -/
def ofCandidate (options : ExpansionOptions) (runtime : Option Path) (c : Candidate) :
    Except ExpansionError Expansion :=
  match c.contribution options runtime with
  | .diagnostic d => .ok ⟨[], [d], []⟩
  | .members m =>
    match Item.parseTokens m.tokens with
    | .error e => .error (.unparsable c.name e.message)
    | .ok _ => .ok ⟨[c.name], m.warnings, [m]⟩

/-- The expansion of selected declarations, one after the other. -/
def ofCandidates (options : ExpansionOptions) (runtime : Option Path) :
    List Candidate → Except ExpansionError Expansion
  | [] => .ok empty
  | c :: rest =>
    match ofCandidate options runtime c with
    | .error e => .error e
    | .ok a =>
      match ofCandidates options runtime rest with
      | .error e => .error e
      | .ok b => .ok (a ++ b)

/-- The expansion of the items of a file. -/
def ofItems (options : ExpansionOptions) (runtime : Option Path) (items : List Item) :
    Except ExpansionError Expansion :=
  let candidates := Candidate.ofItems [] items
  match ofCandidates options runtime (candidates.filter (·.selected options)) with
  | .error e => .error e
  | .ok expansion =>
    match options.types.find? fun name => !(candidates.map (·.name)).contains name with
    | some name => .error (.typeNotFound name)
    | none => .ok expansion

/-- The path that the options put in place of those of the records. -/
def runtimeOf (options : ExpansionOptions) : Except ExpansionError (Option Path) :=
  match options.runtime with
  | none => .ok none
  | some text =>
    match Path.parse text with
    | .ok p => .ok (some p)
    | .error _ => .error (.invalidRuntime text)

/-- The expansion of a source text. -/
def ofSource (options : ExpansionOptions) (source : String) : Except ExpansionError Expansion :=
  match Item.parseFile source with
  | .error e => .error (.unreadable e)
  | .ok items =>
    match runtimeOf options with
    | .error e => .error e
    | .ok runtime => ofItems options runtime items

end Expansion

/-! ### Events -/

/-- Something that is logged during an expansion. -/
inductive Event
  | classified (field : String)
  | leavingOut (field : String)
  | synthesized (record : String) (fields keys : Nat)
  | rejecting (record : String) (kind : DeclarationKind)
  | skipping (record module : String)
  | generated (record : String)
  | failed (record : String) (d : Diagnostic)
  deriving Inhabited

namespace Event

/-- Whether an event is a warning; the others are for debugging. -/
def isWarning : Event → Bool
  | leavingOut _ => true
  | skipping _ _ => true
  | _ => false

/-- The part of the program that an event comes from. -/
def target : Event → String
  | classified _ => "codable_synth::classify"
  | leavingOut _ => "codable_synth::classify"
  | synthesized _ _ _ => "codable_synth"
  | rejecting _ _ => "codable_synth::diagnostic"
  | skipping _ _ => "codable_synth::codegen"
  | generated _ => "codable_synth::codegen"
  | failed _ _ => "codable_synth::codegen"

/-- The names and values of an event, its text under `message`. -/
def fields : Event → List (String × String)
  | classified field => [("message", "classified field"), ("field", field)]
  | leavingOut field =>
    [("message", "field type has no supported shape, leaving it out of encoding"), ("field", field)]
  | synthesized record fields keys =>
    [("message", "synthesized codable members"), ("record", record), ("fields", toString fields),
      ("keys", toString keys)]
  | rejecting record kind =>
    [("message", "rejecting unsupported declaration"), ("record", record),
      ("kind", kind.description)]
  | skipping record module =>
    [("message", "skipping record in inline module"), ("record", record), ("module", module)]
  | generated record => [("message", "generated members"), ("record", record)]
  | failed record d =>
    [("message", "synthesis failed"), ("record", record), ("error", d.message)]

/-- The events of classifying fields, which strict mode ends at the first that
would be left out. -/
def ofFields (strict : Bool) : List ClassifiedField → List Event
  | [] => []
  | f :: rest =>
    let name := f.name.spelled
    if f.leftOut then
      if strict then [classified name] else classified name :: leavingOut name :: ofFields strict rest
    else classified name :: ofFields strict rest

/-- The events of making members for a declaration. -/
def ofDeclaration (d : Declaration) : List Event :=
  match d.validFields with
  | .error _ => [rejecting d.name.spelled d.kind]
  | .ok fields =>
    ofFields d.settings.strict (fields.map .ofField)
      ++ match d.members with
         | .ok m => [synthesized d.name.spelled m.fields.length m.registry.keys.length]
         | .error _ => []

/-- The events of a selected declaration. -/
def ofCandidate (options : ExpansionOptions) (runtime : Option Path) (c : Candidate) : List Event :=
  match c.moduleLabel with
  | some label => [skipping c.name label]
  | none =>
    match c.declaration options runtime with
    | .error d => [failed c.name d]
    | .ok declared =>
      ofDeclaration declared
        ++ match declared.members with
           | .ok _ => [generated c.name]
           | .error d => [failed c.name d]

/-- The events of selected declarations, up to one whose code does not parse. -/
def ofCandidates (options : ExpansionOptions) (runtime : Option Path) :
    List Candidate → List Event
  | [] => []
  | c :: rest =>
    ofCandidate options runtime c
      ++ match Expansion.ofCandidate options runtime c with
         | .ok _ => ofCandidates options runtime rest
         | .error _ => []

/-- The events of the expansion of a source text. -/
def ofSource (options : ExpansionOptions) (source : String) : List Event :=
  match Item.parseFile source, Expansion.runtimeOf options with
  | .ok items, .ok runtime =>
    ofCandidates options runtime ((Candidate.ofItems [] items).filter (·.selected options))
  | _, _ => []

end Event

end RecordCoding
