/-
What a declaration is expanded to, whatever is wrong with it.

`TypeItem.faults` lists all that keeps a declaration from its members, in the order
in which it counts: a declaration that is no record; then the entries that a record
does not accept, then those that a field does not accept, field by field; and last,
if the record is strict, the stored fields without a supported shape.

* `RecordSettings.ofEntries_eq`, `FieldDeclaration.ofFields_eq` — the settings of a
  record and its fields, or the first fault in them;
* `TypeItem.members_eq` — members, or the first fault of all;
* `Declaration.Speaks.own_of_reporting` — members call no macro that reports, unless
  the declaration does;
* `TypeItem.expanded_or_reported` — all of the members, or one report.
-/
import RecordCoding.Proofs.Faults
import RecordCoding.Proofs.Synthesis.Vocabulary

namespace RecordCoding

/-! ### Entries -/

namespace Entry

/-- Why a record does not accept an entry. -/
def recordFault? : Entry → Option SyntaxError
  | asked .strict _ => none
  | asked (.runtime (.ok _)) _ => none
  | asked (.runtime (.error e)) _ => some e
  | asked .skip l => some ⟨.rule "`skip` is a field attribute", false, l⟩
  | asked .unknown l => some ⟨.rule "unknown codable attribute", false, l⟩
  | malformed e => some e

/-- Why a field does not accept an entry. -/
def fieldFault? : Entry → Option SyntaxError
  | asked .skip _ => none
  | asked _ l => some ⟨.rule "unknown codable field attribute", false, l⟩
  | malformed e => some e

/-- Whether an entry asks for a strict record. -/
def asksStrict : Entry → Bool
  | asked .strict _ => true
  | _ => false

/-- Whether an entry asks for a field to be skipped. -/
def asksSkip : Entry → Bool
  | asked .skip _ => true
  | _ => false

/-- The path of the runtime library that an entry asks for. -/
def runtime? : Entry → Option Path
  | asked (.runtime (.ok p)) _ => some p
  | _ => none

end Entry

namespace RecordSettings

/-- What entries ask of a record: the last path of the runtime library counts. -/
def askedBy (settings : RecordSettings) (entries : List Entry) : RecordSettings :=
  ⟨settings.strict || entries.any (·.asksStrict),
    (entries.filterMap Entry.runtime?).getLastD settings.runtime⟩

theorem askedBy_nil (settings : RecordSettings) : settings.askedBy [] = settings :=
  congrArg (RecordSettings.mk · _) (Bool.or_false _)

theorem askedBy_cons (settings : RecordSettings) (e : Entry) (rest : List Entry) :
    settings.askedBy (e :: rest) = (settings.askedBy [e]).askedBy rest := by
  rcases hruntime : e.runtime? with _ | p <;>
    simp only [askedBy, List.any_cons, List.any_nil, Bool.or_false, Bool.or_assoc, List.filterMap_cons,
      hruntime, List.filterMap_nil, List.getLastD_cons, List.getLastD_nil]

theorem add_eq (settings : RecordSettings) (e : Entry) :
    settings.add e = unlessFaults e.recordFault?.toList (settings.askedBy [e]) := by
  rcases e with ⟨_ | (err | p) | _ | _, l⟩ | err
  case asked.strict =>
    exact congrArg (Except.ok <| RecordSettings.mk · settings.runtime) (Bool.or_true _).symm
  case asked.runtime.ok =>
    exact congrArg (Except.ok <| RecordSettings.mk · p) (Bool.or_false _).symm
  -- Every other entry is a fault.
  all_goals rfl

/-- The settings that a record gets, or its first fault. -/
theorem ofEntries_eq (entries : List Entry) :
    ofEntries entries
      = unlessFaults (entries.filterMap Entry.recordFault?) (initial.askedBy entries) :=
  foldlM_eq_unlessFaults askedBy_nil askedBy_cons add_eq entries initial

end RecordSettings

namespace FieldSettings

/-- What entries ask of a field. -/
def askedBy (settings : FieldSettings) (entries : List Entry) : FieldSettings :=
  ⟨settings.skip || entries.any (·.asksSkip)⟩

theorem askedBy_nil (settings : FieldSettings) : settings.askedBy [] = settings :=
  congrArg FieldSettings.mk (Bool.or_false _)

theorem askedBy_cons (settings : FieldSettings) (e : Entry) (rest : List Entry) :
    settings.askedBy (e :: rest) = (settings.askedBy [e]).askedBy rest := by
  simp only [askedBy, List.any_cons, List.any_nil, Bool.or_false, Bool.or_assoc]

theorem add_eq (settings : FieldSettings) (e : Entry) :
    settings.add e = unlessFaults e.fieldFault?.toList (settings.askedBy [e]) := by
  rcases e with ⟨_ | path | _ | _, l⟩ | err
  case asked.skip => exact congrArg (Except.ok ∘ FieldSettings.mk) (Bool.or_true _).symm
  all_goals rfl

/-- The settings that a field gets, or its first fault. -/
theorem ofEntries_eq (entries : List Entry) :
    ofEntries entries
      = unlessFaults (entries.filterMap Entry.fieldFault?) (askedBy ⟨false⟩ entries) :=
  foldlM_eq_unlessFaults askedBy_nil askedBy_cons add_eq entries ⟨false⟩

end FieldSettings

/-! ### Fields -/

namespace NamedField

/-- What is wrong with the entries of a field. -/
def faults (f : NamedField) : List SyntaxError :=
  (Entry.ofAttributes f.attributes).filterMap Entry.fieldFault?

/-- The field that is declared. -/
def declared (f : NamedField) : FieldDeclaration :=
  ⟨f.name, .ofType f.type, !(Entry.ofAttributes f.attributes).any (·.asksSkip)⟩

end NamedField

theorem FieldDeclaration.ofField_eq (f : NamedField) :
    ofField f = unlessFaults f.faults f.declared := by
  rw [ofField, FieldSettings.ofAttributes, FieldSettings.ofEntries_eq, ← NamedField.faults]
  rcases f.faults with _ | ⟨e, more⟩ <;> rfl

/-- The fields that are declared, or the first fault over all of them in order. -/
theorem FieldDeclaration.ofFields_eq (fields : List NamedField) :
    ofFields fields = unlessFaults (fields.flatMap (·.faults)) (fields.map (·.declared)) := by
  induction fields with
  | nil => rfl
  | cons f rest ih =>
    rw [ofFields, ofField_eq, ih, List.flatMap_cons]
    generalize rest.flatMap (·.faults) = later
    rcases f.faults with _ | ⟨e, more⟩
    · rcases later with _ | ⟨e, more⟩ <;> rfl
    · rfl

/-- Classified fields, or in strict mode the first that would be left out. -/
theorem ClassifiedField.ofFields_eq (strict : Bool) (fields : List FieldDeclaration) :
    ofFields strict fields
      = unlessFaults
          (((fields.map ofField).filter fun f => strict && f.leftOut).map fun f =>
            ⟨.unrecognizedShape f.name.name, f.name.location⟩)
          (fields.map ofField) := by
  rw [ofFields]
  simp only [← List.head?_filter]
  cases strict with
  | false =>
    simp only [Bool.false_and, List.filter_false, List.map_nil]
    rcases ((fields.map ofField).filter leftOut).head? with _ | f <;> rfl
  | true =>
    simp only [Bool.true_and]
    rcases (fields.map ofField).filter leftOut with _ | ⟨f, more⟩ <;> rfl

/-! ### Declarations -/

/-- The stored fields whose shapes a declaration does not accept: none if it is not
strict. -/
def Declaration.shapeFaults (d : Declaration) : List Diagnostic :=
  if d.settings.strict then
    d.leftOutFields.map fun f => ⟨.unrecognizedShape f.name.name, f.name.location⟩
  else []

/-- The members of a record, or the first of its shapes that is not accepted. -/
theorem Declaration.members_eq_unlessFaults {d : Declaration} (h : d.kind = .record) :
    d.members = unlessFaults d.shapeFaults d.built := by
  rw [members_of_record h, ClassifiedField.ofFields_eq, List.filter_map, List.map_map,
    unlessFaults_map, shapeFaults]
  cases d.settings.strict with
  | false =>
    simp only [Bool.false_and, Function.comp_def, List.filter_false, List.map_nil]
    rfl
  | true => rfl

namespace TypeItem

/-- The entries of the attributes of a declaration. -/
def entries (t : TypeItem) : List Entry := Entry.ofAttributes t.attributes

/-- The named fields of a record. -/
def namedFields (t : TypeItem) : List NamedField :=
  match t.body with
  | .record fields => fields
  | _ => []

/-- The declaration that members are made for. -/
def declared (t : TypeItem) : Declaration where
  name := t.name
  kind := .ofBody t.body
  visibility := t.visibility
  generics := t.generics
  settings := RecordSettings.initial.askedBy t.entries
  fields := t.namedFields.map (·.declared)
  location := t.name.location

/-- The stored fields whose shapes a record does not accept: none if it is not
strict. -/
def shapeFaults (t : TypeItem) : List Diagnostic :=
  if t.entries.any (·.asksStrict) then
    t.declared.leftOutFields.map fun f => ⟨.unrecognizedShape f.name.name, f.name.location⟩
  else []

/-- All that keeps a declaration from its members, in the order in which it counts. -/
def faults (t : TypeItem) : List Diagnostic :=
  match t.body with
  | .record fields =>
    (t.entries.filterMap Entry.recordFault?).map .ofSyntaxError
      ++ (fields.flatMap (·.faults)).map .ofSyntaxError
      ++ t.shapeFaults
  | _ => [⟨.unsupportedDeclaration, t.name.location⟩]

theorem members_declared_of_record {t : TypeItem} (h : t.declared.kind = .record) :
    t.declared.members = unlessFaults t.shapeFaults t.declared.built := by
  have hstrict : t.declared.settings.strict = t.entries.any (·.asksStrict) := Bool.false_or _
  have hfaults : t.declared.shapeFaults = t.shapeFaults := by
    rw [Declaration.shapeFaults, hstrict]
    rfl
  rw [Declaration.members_eq_unlessFaults h, hfaults]

/-- The settings and fields of a record, or the first fault in its attributes and
those of its fields. -/
theorem contentOf_eq {t : TypeItem} {fields : List NamedField} (h : t.body = .record fields) :
    Declaration.contentOf t
      = unlessFaults (t.entries.filterMap Entry.recordFault? ++ fields.flatMap (·.faults))
          (t.declared.settings, t.declared.fields) := by
  have hfields : t.declared.fields = fields.map (·.declared) := by rw [declared, namedFields, h]
  simp only [Declaration.contentOf, h, RecordSettings.ofAttributes, RecordSettings.ofEntries_eq,
    FieldDeclaration.ofFields_eq, hfields]
  rw [← entries]
  -- The first fault of a field counts only if there is none in the attributes.
  generalize fields.flatMap (·.faults) = later
  rcases t.entries.filterMap Entry.recordFault? with _ | ⟨e, more⟩
  · rcases later with _ | ⟨e, more⟩ <;> rfl
  · rfl

/-- Members, or the first of all faults. -/
theorem members_eq (t : TypeItem) : t.members = unlessFaults t.faults t.declared.built := by
  by_cases hrecord : ∃ fields, t.body = .record fields
  · obtain ⟨fields, hbody⟩ := hrecord
    have hkind : t.declared.kind = .record := by rw [declared, hbody, DeclarationKind.ofBody]
    rw [faults, hbody, members, Declaration.ofItem, contentOf_eq hbody]
    simp only [← List.map_append, hbody]
    rcases t.entries.filterMap Entry.recordFault? ++ fields.flatMap (·.faults) with _ | ⟨e, more⟩
    · rw [List.map_nil, List.nil_append, ← members_declared_of_record hkind]
      simp only [unlessFaults]
      rw [declared, hbody]
    · rfl
  -- Every other type is turned away before its attributes are read.
  · rcases hbody : t.body with fields | _ | _ | _ | _ | _
    case record => exact absurd ⟨fields, hbody⟩ hrecord
    all_goals
      simp only [faults, hbody, members, Declaration.ofItem, Declaration.contentOf]
      exact Declaration.members_of_ne_record (by simp [DeclarationKind.ofBody])

end TypeItem

/-! ### The code of a report -/

/-- The words that call the macro with which a compiler is made to report. -/
def reportingWords : List String := ["compile_error", "!"]

/-- No word that members are given reports: only a declaration's own code may. -/
theorem Declaration.Speaks.own_of_reporting {d : Declaration} {w : String} (h : d.Speaks w)
    (hw : w ∈ reportingWords) : w ∈ Token.leavesOf d.ownTokens := by
  have hends : ∀ w ∈ reportingWords,
      w.toList.head? ∉ [some '"', some '_'] ∧ w.toList.getLast? ≠ some 's' := by decide
  have hfixed : ∀ w ∈ reportingWords, w ∉ fixedWords := by decide
  obtain ⟨hfirst, hlast⟩ := hends w hw
  exact h.own_of_unmade (hfixed w hw) hfirst hlast

namespace TypeItem

open Token

/-- The code that is written in a declaration, as far as members may take it over,
and the path of the runtime library. -/
def ownTokens (t : TypeItem) : List Token :=
  Token.ident t.name :: t.visibility.tokens ++ t.generics.params.flatMap GenericParam.tokens
    ++ t.generics.whereTokens ++ t.declared.settings.runtime.tokens
    ++ t.namedFields.flatMap fun f => Token.ident f.name :: f.type.tokens

/-- What members take over of the type of a field stands in the type. -/
theorem all_ownTokens_declared {P : String → Prop} {t : TypeItem} (h : All P t.ownTokens) :
    All P t.declared.ownTokens := by
  rw [ownTokens, all_append, all_flatMap] at h
  obtain ⟨hdeclaration, hfields⟩ := h
  rw [Declaration.ownTokens, all_append, all_flatMap]
  refine ⟨hdeclaration, fun d hd => ?_⟩
  obtain ⟨f, hf, rfl⟩ := List.mem_map.mp hd
  obtain ⟨hname, htype⟩ := all_ident.mp (hfields f hf)
  refine all_ident.mpr ⟨hname, ?_⟩
  rcases hpath : (FieldShape.of f.declared.type).element? with _ | p
  · exact all_nil
  · exact (TypeExpression.allPaths_ofType f.type htype).element hpath

/-- **A declaration is expanded to all of its members, or to a report of its first
fault and nothing else.** -/
theorem expanded_or_reported (t : TypeItem) :
    (∃ e, t.faults.head? = some e ∧ t.members = .error e ∧
      t.expandedTokens = words ["::", "core", "::", "compile_error", "!"]
        ++ [.group .brace [.word (Text.literal e.message)]]) ∨
    (t.faults = [] ∧ t.members = .ok t.declared.built ∧
      t.expandedTokens = t.declared.built.keysTokens ++ t.declared.built.decodeTokens
        ++ t.declared.built.encodeTokens ∧
      ∀ w ∈ reportingWords, w ∈ leavesOf t.expandedTokens → w ∈ leavesOf t.ownTokens) := by
  have hmembers := t.members_eq
  rcases hfaults : t.faults with _ | ⟨e, more⟩ <;> rw [hfaults] at hmembers
  · have hexpanded : t.expandedTokens = t.declared.built.tokens := by
      rw [expandedTokens, hmembers]
      rfl
    refine .inr ⟨rfl, hmembers, hexpanded, fun w hw hin => ?_⟩
    rw [hexpanded] at hin
    have hown := (t.declared.all_members w hin).own_of_reporting hw
    exact all_ownTokens_declared (fun _ h => h) w hown
  · refine .inl ⟨e, rfl, hmembers, ?_⟩
    rw [expandedTokens, hmembers]
    rfl

end TypeItem

/-! ### Everything wrong at once -/

namespace FaultyRecord

open MixedFile

/-- A strict record that is to be skipped, with a field without a shape before one
that is to be strict. -/
def item : TypeItem :=
  derived "Faulty"
    [listed "codable" [.ident (.plain "strict")], listed "codable" [.ident (.plain "skip")]]
    (.record (fields
      ++ [⟨[listed "codable" [.ident (.plain "strict")]], .plain "cache", .tuple [] false⟩]))

example : item.faults.map (·.cause)
    = [.invalidAttribute ⟨.rule ("`skip` is a field attribute"), false, .start⟩,
      .invalidAttribute ⟨.rule "unknown codable field attribute", false, .start⟩,
      .unrecognizedShape "lookup", .unrecognizedShape "cache"] := by cbv

end FaultyRecord

end RecordCoding
