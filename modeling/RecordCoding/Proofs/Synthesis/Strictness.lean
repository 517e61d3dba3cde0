/-
What strict mode changes in the members of a record: nothing.

A strict record is turned away if a stored field has no supported shape, and has
the members of the lenient record if not.  Neither makes any use of a field
without a shape beyond its default, so it may as well be marked to be skipped:

* `Declaration.keyedFields_skipping` — marked or not, such a field is not keyed;
* `Declaration.built_skipping` — and the members stay as they are;
* `Declaration.strict_only_rejects` — lenient and strict, marked and unmarked.
-/
import RecordCoding.Proofs.Synthesis.Precedence

namespace RecordCoding

/-! ### Marking fields -/

namespace FieldDeclaration

/-- Whether the field is stored although it has no supported shape. -/
def leftOut (f : FieldDeclaration) : Bool := f.stored && !(FieldShape.of f.type).recognized

/-- The field, marked to be skipped if it is chosen and would be left out. -/
def skippedIf (chosen : Bool) (f : FieldDeclaration) : FieldDeclaration :=
  if chosen && f.leftOut then { f with stored := false } else f

variable (chosen : Bool) (f : FieldDeclaration)

theorem name_skippedIf : (f.skippedIf chosen).name = f.name := by
  unfold skippedIf
  split <;> rfl

/-- A field is either left out or keyed, never both. -/
theorem skippedIf_of_keyed (h : f.keyed) : f.skippedIf chosen = f := by
  obtain ⟨-, hshape⟩ : f.stored = true ∧ (FieldShape.of f.type).recognized = true := by
    simpa [keyed] using h
  rw [skippedIf, if_neg]
  intro hleft
  have hout : f.leftOut := (Bool.and_eq_true_iff.mp hleft).2
  rw [leftOut, hshape] at hout
  exact absurd hout (by simp)

theorem keyed_skippedIf : (f.skippedIf chosen).keyed = f.keyed := by
  by_cases hkeyed : f.keyed
  · rw [skippedIf_of_keyed chosen f hkeyed]
  · unfold skippedIf
    split
    -- What is marked is not stored any more, hence not keyed either.
    · rw [Bool.not_eq_true] at hkeyed
      exact hkeyed.symm
    · rfl

theorem leftOut_skippedIf_true : (f.skippedIf true).leftOut = false := by
  rw [skippedIf, Bool.true_and]
  by_cases hleft : f.leftOut
  · rw [if_pos hleft]
    rfl
  · rw [if_neg hleft]
    exact Bool.not_eq_true _ ▸ hleft

end FieldDeclaration

namespace Declaration

/-- The declaration with strict mode on or off. -/
def withStrict (strict : Bool) (d : Declaration) : Declaration :=
  { d with settings := { d.settings with strict := strict } }

/-- The declaration with those of its left out fields marked to be skipped whose
positions are chosen. -/
def skipping (chosen : Nat → Bool) (d : Declaration) : Declaration :=
  { d with fields := d.fields.zipIdx.map fun fi => fi.1.skippedIf (chosen fi.2) }

variable (chosen : Nat → Bool) (d : Declaration)

/-- Marking fields moves none of them. -/
theorem zipIdx_skipping :
    (d.skipping chosen).fields.zipIdx
      = d.fields.zipIdx.map fun fi => (fi.1.skippedIf (chosen fi.2), fi.2) := by
  have hfrom : ∀ (fields : List FieldDeclaration) (n : Nat),
      ((fields.zipIdx n).map fun fi => fi.1.skippedIf (chosen fi.2)).zipIdx n
        = (fields.zipIdx n).map fun fi => (fi.1.skippedIf (chosen fi.2), fi.2) := by
    intro fields
    induction fields with
    | nil => exact fun _ => rfl
    | cons f rest ih =>
      intro n
      rw [List.zipIdx_cons, List.map_cons, List.map_cons, List.zipIdx_cons, ih (n + 1)]
  exact hfrom d.fields 0

theorem keyedFields_skipping : (d.skipping chosen).keyedFields = d.keyedFields := by
  have hkeyed : ∀ fi : FieldDeclaration × Nat,
      (fi.1.skippedIf (chosen fi.2)).keyed = fi.1.keyed :=
    fun fi => fi.1.keyed_skippedIf (chosen fi.2)
  rw [keyedFields, keyedFields, zipIdx_skipping, List.filter_map]
  simp only [Function.comp_def, hkeyed]
  refine (List.map_congr_left fun fi hfi => ?_).trans (List.map_id _)
  have hsame := fi.1.skippedIf_of_keyed (chosen fi.2) (List.mem_filter.mp hfi).2
  rw [hsame]
  rfl

end Declaration

/-! ### The same code -/

/-- What is asked of a statement that reads a field leaves no choice. -/
theorem ReadsField.leftUnique : Relator.LeftUnique ReadsField := by
  rintro ⟨position, rule, type, key⟩ ⟨position', rule', type', key'⟩ fi
  rintro ⟨hposition, hkey, hrule⟩ ⟨hposition', hkey', hrule'⟩
  have hsame : (rule, type) = (rule', type') := Option.some.inj (hrule.symm.trans hrule')
  obtain ⟨rfl, rfl⟩ := Prod.mk.inj hsame
  obtain rfl : position = position' := hposition.trans hposition'.symm
  obtain rfl : key = key' := hkey.trans hkey'.symm
  rfl

/-- The same code in all three members, token for token. -/
structure Members.SameCode (m n : Members) : Prop where
  keys : m.keysTokens = n.keysTokens
  decode : m.decodeTokens = n.decodeTokens
  encode : m.encodeTokens = n.encodeTokens

namespace Declaration

variable (chosen : Nat → Bool) (d : Declaration)

theorem registry_skipping : (d.skipping chosen).built.registry = d.built.registry := by
  have hkeys : (d.skipping chosen).built.registry.keys = d.built.registry.keys := by
    rw [keys_built, keys_built, keyedFields_skipping]
  exact congrArg (KeyRegistry.mk d.name.name (.plain (d.name.name ++ "CodingKeys"))) hkeys

theorem decoding_skipping : (d.skipping chosen).built.decoding = d.built.decoding := by
  have hmarked := (d.skipping chosen).decoding_built
  rw [keyedFields_skipping] at hmarked
  exact List.left_unique_forall₂' ReadsField.leftUnique hmarked d.decoding_built

theorem initializers_skipping :
    (d.skipping chosen).built.initializers = d.built.initializers := by
  rw [initializers_built, initializers_built, zipIdx_skipping, List.map_map]
  refine List.map_congr_left fun fi _ => ?_
  rw [Function.comp_apply, FieldDeclaration.name_skippedIf, FieldDeclaration.keyed_skippedIf]

theorem encoding_skipping : (d.skipping chosen).built.encoding = d.built.encoding := by
  rw [encoding_built, encoding_built, keyedFields_skipping]

/-- Marking fields that are left out changes nothing in the members but the marks. -/
theorem built_skipping :
    (d.skipping chosen).built
      = { d.built with fields := (d.skipping chosen).fields.map ClassifiedField.ofField } := by
  have hregistry := d.registry_skipping chosen
  have hdecoding := d.decoding_skipping chosen
  have hinitializers := d.initializers_skipping chosen
  have hencoding := d.encoding_skipping chosen
  calc (d.skipping chosen).built
    _ = { d.built with
          fields := (d.skipping chosen).fields.map ClassifiedField.ofField
          registry := (d.skipping chosen).built.registry
          decoding := (d.skipping chosen).built.decoding
          initializers := (d.skipping chosen).built.initializers
          encoding := (d.skipping chosen).built.encoding } := rfl
    _ = _ := by rw [hregistry, hdecoding, hinitializers, hencoding]

/-- The code of the members does not show which fields are marked. -/
theorem sameCode_skipping : (d.skipping chosen).built.SameCode d.built := by
  rw [built_skipping]
  exact ⟨rfl, rfl, rfl⟩

/-! ### Strict and lenient -/

variable {d}

theorem members_lenient (h : d.kind = .record) :
    (d.withStrict false).members = .ok d.built :=
  members_eq_unlessFaults (d := d.withStrict false) h

/-- A strict record has the members of a lenient one, or the first of the fields that
are left out is at fault. -/
theorem members_strict (h : d.kind = .record) :
    (d.withStrict true).members
      = unlessFaults
          (d.leftOutFields.map fun f => ⟨.unrecognizedShape f.name.name, f.name.location⟩)
          d.built :=
  members_eq_unlessFaults (d := d.withStrict true) h

theorem leftOutFields_eq_nil_iff :
    d.leftOutFields = [] ↔ ∀ f ∈ d.fields, f.stored → (FieldShape.of f.type).recognized := by
  rw [leftOutFields, List.filter_eq_nil_iff]
  refine forall₂_congr fun f _ => ?_
  simp

theorem leftOutFields_skipping_all : (d.skipping fun _ => true).leftOutFields = [] := by
  rw [leftOutFields, List.filter_eq_nil_iff]
  intro f hf
  obtain ⟨fi, -, rfl⟩ := List.mem_map.mp hf
  rw [← FieldDeclaration.leftOut, FieldDeclaration.leftOut_skippedIf_true]
  exact Bool.false_ne_true

theorem members_strict_ok_iff (h : d.kind = .record) {m : Members} :
    (d.withStrict true).members = .ok m ↔ d.leftOutFields = [] ∧ m = d.built := by
  rw [members_strict h, unlessFaults_eq_ok_iff, List.map_eq_nil_iff, eq_comm (a := d.built)]

/-- What keeps a strict record from its members is the first of the fields that are
left out. -/
theorem exists_first_of_members_strict (h : d.kind = .record) {e : Diagnostic}
    (he : (d.withStrict true).members = .error e) :
    ∃ before f after, d.fields = before ++ f :: after ∧ f.leftOut ∧
      (∀ g ∈ before, ¬ g.leftOut) ∧ e = ⟨.unrecognizedShape f.name.name, f.name.location⟩ := by
  rw [members_strict h, unlessFaults_eq_error_iff, List.head?_map, Option.map_eq_some_iff] at he
  obtain ⟨f, hfirst, rfl⟩ := he
  obtain ⟨more, hleft⟩ := List.head?_eq_some_iff.mp hfirst
  -- What a filter keeps first splits the list at it.
  obtain ⟨before, after, hfields, hbefore, hf, -⟩ := List.filter_eq_cons_iff.mp hleft
  exact ⟨before, f, after, hfields, hf, hbefore, rfl⟩

/-- **Strict mode only rejects, it never changes what is generated.**  The fields
it rejects may be marked to be skipped, any of them or all. -/
theorem strict_only_rejects (h : d.kind = .record) :
    ∃ m, (d.withStrict false).members = .ok m ∧
      ((∃ n, (d.withStrict true).members = .ok n) ↔
        ∀ f ∈ d.fields, f.stored → (FieldShape.of f.type).recognized) ∧
      (∀ n, (d.withStrict true).members = .ok n → n.SameCode m) ∧
      (∀ e, (d.withStrict true).members = .error e →
        ∃ before f after, d.fields = before ++ f :: after ∧
          (f.stored ∧ ¬ (FieldShape.of f.type).recognized) ∧
          (∀ g ∈ before, g.stored → (FieldShape.of g.type).recognized) ∧
          e.kind = .unrecognizedFieldShape ∧ e.severity = .error ∧
          e.cause = .unrecognizedShape f.name.name ∧ e.location = f.name.location) ∧
      (∀ chosen, ∃ n, ((d.skipping chosen).withStrict false).members = .ok n ∧ n.SameCode m) ∧
      ∃ n, ((d.skipping fun _ => true).withStrict true).members = .ok n ∧ n.SameCode m := by
  have hskipping : ∀ chosen, (d.skipping chosen).kind = .record := fun _ => h
  refine ⟨d.built, members_lenient h, ?accepts, ?same, ?rejects, ?some, ?all⟩
  case accepts =>
    rw [← leftOutFields_eq_nil_iff]
    constructor
    · rintro ⟨n, hn⟩
      exact ((members_strict_ok_iff h).mp hn).1
    · intro hnone
      exact ⟨d.built, (members_strict_ok_iff h).mpr ⟨hnone, rfl⟩⟩
  case same =>
    intro n hn
    obtain ⟨-, rfl⟩ := (members_strict_ok_iff h).mp hn
    exact ⟨rfl, rfl, rfl⟩
  case rejects =>
    intro e he
    obtain ⟨before, f, after, hfields, hf, hbefore, rfl⟩ := exists_first_of_members_strict h he
    have hbefore : ∀ g ∈ before, g.stored → (FieldShape.of g.type).recognized := by
      intro g hg hstored
      simpa [FieldDeclaration.leftOut, hstored] using hbefore g hg
    have hf : f.stored ∧ ¬ (FieldShape.of f.type).recognized := by
      simpa [FieldDeclaration.leftOut] using hf
    exact ⟨before, f, after, hfields, hf, hbefore, rfl, rfl, rfl, rfl⟩
  case some =>
    intro chosen
    exact ⟨_, members_lenient (hskipping chosen), d.sameCode_skipping chosen⟩
  case all =>
    have hstrict := (members_strict_ok_iff (hskipping _)).mpr ⟨d.leftOutFields_skipping_all, rfl⟩
    exact ⟨_, hstrict, d.sameCode_skipping _⟩

end Declaration

/-! ### Two fields without a shape -/

namespace Interleaved

/-- A second field without a shape, after all others. -/
def patchy : Declaration :=
  { declaration with
    fields := declaration.fields ++ [⟨.plain "index", .other (.tuple [] false), true⟩] }

/-- Strict mode names the first of the two; marking the other one is not enough for
it, and marking both is. -/
theorem patchy_strict :
    ∃ m, (patchy.withStrict false).members = .ok m ∧
      (∃ e, (patchy.withStrict true).members = .error e ∧ e.cause = .unrecognizedShape "lookup") ∧
      (∃ n, ((patchy.skipping (· == 5)).withStrict false).members = .ok n ∧ n.SameCode m) ∧
      (∃ e, ((patchy.skipping (· == 5)).withStrict true).members = .error e) ∧
      ∃ n, ((patchy.skipping fun _ => true).withStrict true).members = .ok n ∧ n.SameCode m := by
  have hrecord : patchy.kind = .record := rfl
  obtain ⟨m, hlenient, -, -, -, hsome, hall⟩ := Declaration.strict_only_rejects hrecord
  exact ⟨m, hlenient, ⟨_, rfl, rfl⟩, hsome (· == 5), ⟨_, rfl⟩, hall⟩

end Interleaved

end RecordCoding
