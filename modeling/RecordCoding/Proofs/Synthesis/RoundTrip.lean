/-
Generated members read back what they write.

`Members.decode_encode_build`: take any list of fields whose keyed names are
distinct, whatever the shapes and whichever are left out, and codecs that round
trip.  The members generated for the fields then write a record exactly if every
keyed field can be written, and read it back with the defaults in all other
fields.

Design notes: encoding does not look at the shape of a field, while decoding
chooses one of two operations and one of two types by it.
`DecodeStatement.readAs_of_written` is where the two meet.
-/
import RecordCoding.Proofs.Synthesis.Statements

namespace RecordCoding

variable {V : Path → Type} {O : Type} {codecs : ∀ p, Codec (V p)}

/-- The operation that a shape chooses reads what a value of that shape wrote. -/
theorem DecodeStatement.readAs_of_written {s : DecodeStatement} {v : FieldValue V O}
    (hrule : v.shape.rule = some (s.rule, s.type)) (hsound : v.shape.Sound codecs)
    {k : KeyedDecoder} {key : String} {t : Tree} (hlookup : k.entries.lookup key = some t)
    (hwritten : v.makerD codecs (k.path.key key) = .ok t) :
    s.readAs codecs key k = .ok v := by
  obtain ⟨position, rule, type, field⟩ := s
  -- The rule is that of the shape, so it asks for the codec that the value was written by.
  cases v with
  | scalar p x =>
    obtain ⟨rfl, rfl⟩ := Prod.mk.inj (Option.some.inj hrule)
    have hread : (codecs p).decode ⟨t, k.path.key key⟩ = .ok x := hsound x _ t hwritten
    simp only [readAs, KeyedDecoder.decode_of_lookup hlookup, hread, Except.map]
  | optionalScalar p x =>
    obtain ⟨rfl, rfl⟩ := Prod.mk.inj (Option.some.inj hrule)
    have hread : (codecs p).option.decode ⟨t, k.path.key key⟩ = .ok x :=
      hsound.1.option hsound.2 x _ t hwritten
    simp only [readAs, KeyedDecoder.decodeIfPresent_of_lookup hlookup, hread, Except.map]
  | sequence p xs =>
    obtain ⟨rfl, rfl⟩ := Prod.mk.inj (Option.some.inj hrule)
    have hread : (codecs p).list.decode ⟨t, k.path.key key⟩ = .ok xs :=
      Codec.RoundTrips.list hsound xs _ t hwritten
    simp only [readAs, KeyedDecoder.decode_of_lookup hlookup, hread, Except.map]
  | optionalSequence p xs =>
    obtain ⟨rfl, rfl⟩ := Prod.mk.inj (Option.some.inj hrule)
    have hread : (codecs p).list.option.decode ⟨t, k.path.key key⟩ = .ok xs :=
      (Codec.RoundTrips.list hsound).option Codec.list_neverNull xs _ t hwritten
    simp only [readAs, KeyedDecoder.decodeIfPresent_of_lookup hlookup, hread, Except.map]
  | other x => exact absurd hrule (by simp [FieldValue.shape, FieldShape.rule])

/-- **Generated members round trip.** -/
theorem Members.decode_encode_build (d : Declaration) {fields : List ClassifiedField}
    (hnodup : ((fields.filter (·.keyed)).map (·.name.name)).Nodup)
    (hsound : ∀ f ∈ fields, f.keyed → f.shape.Sound codecs)
    (self initial : RecordValue V O)
    (hself : ∀ f ∈ fields, f.keyed → (self f.name.name).shape = f.shape) (path : CodingPath) :
    ∃ w, (Members.build d fields).encode codecs self (.fresh path) = some w ∧
      ((∃ t, writtenTree w = .ok t) ↔
        ∀ f ∈ fields, f.keyed → (self f.name.name).Encodes codecs (path.key f.name.name)) ∧
      ∀ t, writtenTree w = .ok t →
        (Members.build d fields).decode codecs initial ⟨t, path⟩
          = some (.ok (fields.map fun f =>
              (f.name, if f.keyed then self f.name.name else initial f.name.name))) := by
  have hkeys : (((fields.filter (·.keyed)).map fun f =>
      (f.name.name, (self f.name.name).makerD codecs)).map (·.1)).Nodup := by
    rw [List.map_map]
    exact hnodup
  refine ⟨_, encode_build d hself (.fresh path), ?_, ?_⟩
  -- The keys are distinct, so only a value can fail.
  · rw [Encoder.putAll_fresh_succeeds_iff hkeys, List.forall_mem_map]
    have hencodes : ∀ f ∈ fields, f.keyed → ((self f.name.name).Encodes codecs (path.key f.name.name)
        ↔ ∃ t, (self f.name.name).makerD codecs (path.key f.name.name) = .ok t) :=
      fun f hf hkeyed => FieldValue.encodes_iff_of_recognized
        (FieldValue.recognized_of_keyed hkeyed (hself f hf hkeyed)) _
    constructor
    · intro h f hf hkeyed
      exact (hencodes f hf hkeyed).mpr (h f (List.mem_filter.mpr ⟨hf, hkeyed⟩))
    · intro h f hf
      obtain ⟨hmem, hkeyed⟩ := List.mem_filter.mp hf
      exact (hencodes f hmem hkeyed).mp (h f hmem hkeyed)
  -- Each statement of the decoding reads the entry that the write under its key left.
  · intro t ht
    obtain ⟨-, entries, -, rfl⟩ := Encoder.writtenTree_putAll_fresh.mp ht
    refine decode_build d fun s hs => ?_
    obtain ⟨f, hmem, hkeyed, hkey, hrule⟩ := DecodeStatement.mem_decoding_iff.mp hs
    have hf : f ∈ fields := List.fst_mem_of_mem_zipIdx hmem
    obtain ⟨tree, htree, hlookup⟩ := Encoder.lookup_of_putAll_fresh ht
      (List.mem_map.mpr ⟨f, List.mem_filter.mpr ⟨hf, hkeyed⟩, rfl⟩)
    rw [hkey]
    refine DecodeStatement.readAs_of_written ?_ ?_ hlookup htree
    · rw [hself f hf hkeyed, hrule]
    · rw [hself f hf hkeyed]
      exact hsound f hf hkeyed

/-! ### Members of every shape -/

namespace MixedRecord

/-- Texts, written as they are. -/
def textCodec : Codec String where
  encode x e := (.ok (), e.write (.text x))
  decode d :=
    match d.tree with
    | .text x => .ok x
    | _ => .error (d.mismatch "string")

theorem textCodec_roundTrips : textCodec.RoundTrips := by
  intro x p t ht
  obtain rfl := Except.ok.inj ht
  rfl

theorem textCodec_neverNull : textCodec.NeverNull := by
  intro x p t ht
  obtain rfl := Except.ok.inj ht
  rfl

def text : Path := .plain false [.plain "String"]

/-- Keyed fields of the four shapes, one of them with a raw name, around a field
that is skipped and one without a shape. -/
def fields : List ClassifiedField :=
  [⟨.plain "tags", .sequence text, true⟩,
    ⟨.plain "secret", .scalar text, false⟩,
    ⟨.ofSpelling "r#type", .optionalScalar text, true⟩,
    ⟨.plain "lookup", .unrecognized, true⟩,
    ⟨.plain "aliases", .optionalSequence text, true⟩,
    ⟨.plain "name", .scalar text, true⟩]

def self : RecordValue (fun _ => String) Nat
  | "tags" => .sequence text ["a", "b"]
  | "secret" => .scalar text "hidden"
  | "type" => .optionalScalar text none
  | "aliases" => .optionalSequence text (some [])
  | "name" => .scalar text "x"
  | _ => .other 7

def initial : RecordValue (fun _ => String) Nat
  | "secret" => .scalar text ""
  | _ => .other 0

/-- The record is written, and read back but for what is left out. -/
theorem decode_encode_fields :
    ((fields.filter (·.keyed)).map (·.name.name)).Nodup ∧
      (∀ f ∈ fields, f.keyed → f.shape.Sound fun _ => textCodec) ∧
      (∀ f ∈ fields, f.keyed → (self f.name.name).shape = f.shape) ∧
      ∃ w t, (Members.build default fields).encode (fun _ => textCodec) self (.fresh .root) = some w ∧
        writtenTree w = .ok t ∧
        (Members.build default fields).decode (fun _ => textCodec) initial ⟨t, .root⟩
          = some (.ok
            [(.plain "tags", .sequence text ["a", "b"]), (.plain "secret", .scalar text ""),
              (.ofSpelling "r#type", .optionalScalar text none), (.plain "lookup", .other 0),
              (.plain "aliases", .optionalSequence text (some [])),
              (.plain "name", .scalar text "x")]) := by
  have hnodup : ((fields.filter (·.keyed)).map (·.name.name)).Nodup := by decide
  have hsound : ∀ f ∈ fields, f.keyed → f.shape.Sound fun _ => textCodec := by
    intro f hf _
    cases hshape : f.shape with
    | optionalScalar p => exact ⟨textCodec_roundTrips, textCodec_neverNull⟩
    | unrecognized => trivial
    | _ => exact textCodec_roundTrips
  have hself : ∀ f ∈ fields, f.keyed → (self f.name.name).shape = f.shape := by
    simp only [fields, List.forall_mem_cons]
    exact ⟨fun _ => rfl, fun h => absurd h (by decide), fun _ => rfl,
      fun h => absurd h (by decide), fun _ => rfl, fun _ => rfl, by simp⟩
  have hencodes : ∀ f ∈ fields, f.keyed →
      (self f.name.name).Encodes (fun _ => textCodec) (CodingPath.root.key f.name.name) := by
    simp only [fields, List.forall_mem_cons]
    exact ⟨fun _ => ⟨_, rfl, _, rfl⟩, fun h => absurd h (by decide), fun _ => ⟨_, rfl, _, rfl⟩,
      fun h => absurd h (by decide), fun _ => ⟨_, rfl, _, rfl⟩, fun _ => ⟨_, rfl, _, rfl⟩, by simp⟩
  obtain ⟨w, hw, hwritten, hread⟩ :=
    Members.decode_encode_build default hnodup hsound self initial hself .root
  obtain ⟨t, ht⟩ := hwritten.mpr hencodes
  exact ⟨hnodup, hsound, hself, w, t, hw, ht, hread t ht⟩

end MixedRecord

end RecordCoding
