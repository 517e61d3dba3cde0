/-
A coding path is pure context.

`Codec.Placeless` says that a codec does under every path what it does at the root:
a tree is read as the same value, a value is written with the same effect on its
encoder, and an error is the same but for the path in front of its own.

* `Codec.ofType_placeless`, `Routines.codec_placeless` — so it is with described
  types that do not look around, and with code of a type's own that asks for no path;
* `Codec.Placeless.option`, `Codec.Placeless.list` — and with optional values and
  lists of such types;
* `Members.decode_under`, `Members.encode_under`, `Members.codec_placeless` — and with
  the members that are generated for a record over such types;
* `path_is_context` — all of it.

Design notes: the lemmas speak of any two roots, the results of a path and the root.
`Codec.placeless_iff` leads from the ones to the others.
-/
import RecordCoding.Proofs.Routines
import RecordCoding.Proofs.Writing.UniqueKeys

namespace RecordCoding

variable {α : Type} {c : Codec α}

/-! ### Codecs -/

namespace Codec

/-- What a codec does under a path is what it does at the root, the path being put
in front of the paths of errors. -/
structure Placeless (c : Codec α) : Prop where
  decode : ∀ (tree : Tree) (p : CodingPath),
    c.decode ⟨tree, p⟩ = (c.decode ⟨tree, .root⟩).mapError (·.under p)
  encode : ∀ (x : α) (e : Encoder) (p : CodingPath),
    c.encode x { e with path := p } = Written.under (c.encode x { e with path := .root }) p

end Codec

theorem Decoder.root_under (tree : Tree) (p : CodingPath) :
    Decoder.under ⟨tree, .root⟩ p = ⟨tree, p⟩ :=
  congrArg (Decoder.mk tree) (CodingPath.root_under p)

theorem Encoder.root_under (e : Encoder) (p : CodingPath) :
    Encoder.under { e with path := .root } p = { e with path := p } :=
  congrArg (Encoder.mk · e.single e.entries) (CodingPath.root_under p)

theorem CodingPath.under_under (p outer further : CodingPath) :
    (p.under outer).under further = p.under (outer.under further) := by
  simp [under]

theorem DecodeError.under_under (err : DecodeError) (outer further : CodingPath) :
    (err.under outer).under further = err.under (outer.under further) := by
  cases err <;> simp only [under, mapPath, CodingPath.under_under]

theorem EncodeError.under_under (err : EncodeError) (outer further : CodingPath) :
    (err.under outer).under further = err.under (outer.under further) := by
  cases err <;> simp only [under, mapPath, CodingPath.under_under]

theorem Written.under_under (w : Written) (outer further : CodingPath) :
    Written.under (Written.under w outer) further = Written.under w (outer.under further) := by
  obtain ⟨r, e⟩ := w
  have hencoder : (e.under outer).under further = e.under (outer.under further) := by
    simp only [Encoder.under, CodingPath.under_under]
  rcases r with err | u
  · simp only [under, Except.mapError, EncodeError.under_under, hencoder]
  · simp only [under, Except.mapError, hencoder]

namespace Codec

/-- It is the same to compare a path with the root and one root with another. -/
theorem placeless_iff :
    c.Placeless ↔ (∀ tree, SameEverywhere c.decode tree) ∧
      ∀ x (e : Encoder) outer, c.encode x (e.under outer) = Written.under (c.encode x e) outer := by
  constructor
  · intro h
    constructor
    · intro tree p outer
      rw [h.decode tree p, h.decode tree (p.under outer)]
      rcases c.decode ⟨tree, .root⟩ with err | a
      · simp only [Except.mapError, DecodeError.under_under]
      · rfl
    · intro x e outer
      have hunder := h.encode x e (e.path.under outer)
      have hhere := h.encode x e e.path
      rw [show c.encode x e = c.encode x { e with path := e.path } from rfl, hhere,
        Written.under_under]
      exact hunder
  · rintro ⟨hdecode, hencode⟩
    constructor
    · intro tree p
      have hroot := hdecode tree .root p
      rwa [CodingPath.root_under] at hroot
    · intro x e p
      have hroot := hencode x { e with path := .root } p
      rwa [Encoder.root_under] at hroot

theorem ofType_placeless {s : Schema} {t : DataType} (h : t.Sightless s) :
    (ofType s t).Placeless :=
  placeless_iff.mpr ⟨fun _ => decode_sameEverywhere h, fun d e outer => (d.writing s t).run_under outer e⟩

namespace Placeless

theorem sameEverywhere (h : c.Placeless) (tree : Tree) : SameEverywhere c.decode tree :=
  (placeless_iff.mp h).1 tree

/-- An entry is read alike under every root. -/
theorem entry_under (h : c.Placeless) (key : String) (k : KeyedDecoder) (outer : CodingPath) :
    (k.under outer).decode key c.decode = (k.decode key c.decode).mapError (·.under outer) :=
  KeyedDecoder.decode_under outer fun child _ => h.sameEverywhere child

theorem entryIfPresent_under (h : c.Placeless) (key : String) (k : KeyedDecoder)
    (outer : CodingPath) :
    (k.under outer).decodeIfPresent key c.decode
      = (k.decodeIfPresent key c.decode).mapError (·.under outer) :=
  KeyedDecoder.decodeIfPresent_under outer fun child _ => h.sameEverywhere child

theorem encode_under (h : c.Placeless) (x : α) (e : Encoder) (outer : CodingPath) :
    c.encode x (e.under outer) = Written.under (c.encode x e) outer :=
  (placeless_iff.mp h).2 x e outer

theorem alike_treeAt (h : c.Placeless) (x : α) : TreeMaker.Alike (c.treeAt x) :=
  alike_madeBy (h.encode_under x)

theorem treeAt (h : c.Placeless) (x : α) (p : CodingPath) :
    c.treeAt x p = (c.treeAt x .root).mapError (·.under p) := by
  have hroot := h.alike_treeAt x .root p
  rwa [CodingPath.root_under] at hroot

theorem option (h : c.Placeless) : c.option.Placeless := by
  refine placeless_iff.mpr ⟨fun tree p outer => ?_, fun x e outer => ?_⟩
  · show (if tree.isNull then .ok none else (c.decode ⟨tree, p.under outer⟩).map some)
      = Except.mapError _ (if tree.isNull then .ok none else (c.decode ⟨tree, p⟩).map some)
    by_cases hnull : tree.isNull
    · rw [if_pos hnull, if_pos hnull]
      rfl
    · rw [if_neg hnull, if_neg hnull]
      exact (h.sameEverywhere tree).map some p outer
  · cases x with
    | none => rfl
    | some x => exact h.encode_under x e outer

end Placeless

/-- A list is written as what is made for each element. -/
theorem encode_list (xs : List α) (e : Encoder) :
    c.list.encode xs e = e.writeEach (xs.map c.treeAt) := by
  have htrees : ∀ (p : CodingPath) (index : Nat),
      c.treesOf xs p index = makeEach (xs.map c.treeAt) p index := by
    intro p index
    induction xs generalizing index with
    | nil => rfl
    | cons x rest ih =>
      rw [treesOf, List.map_cons, makeEach, ih]
      rcases c.treeAt x (p.index index) with _ | t
      · rfl
      · rcases makeEach (rest.map c.treeAt) p (index + 1) with _ | ts <;> rfl
  rcases hmade : makeEach (xs.map c.treeAt) e.path 0 with _ | ts
  · simp only [list, Encoder.writeEach, htrees, hmade]
  · simp only [list, Encoder.writeEach, htrees, hmade]

theorem Placeless.list (h : c.Placeless) : c.list.Placeless := by
  refine placeless_iff.mpr ⟨fun tree => ?_, fun xs e outer => ?_⟩
  · exact SameEverywhere.elements fun _ _ item _ => h.sameEverywhere item
  · rw [encode_list, encode_list]
    refine e.writeEach_under (fun make hmake => ?_) outer
    obtain ⟨x, -, rfl⟩ := List.mem_map.mp hmake
    exact h.alike_treeAt x

end Codec

/-- Code of a type's own is that of a codec without a place. -/
theorem Routines.codec_placeless (r : Routines α) : r.codec.Placeless :=
  Codec.placeless_iff.mpr
    ⟨fun tree p outer => ReadingRoutine.run_unmet_under (r.read tree).run_under ⟨tree, p⟩ outer,
      fun x => WritingRoutine.run_unmet_under (r.write x).run_under⟩

/-! ### Generated members -/

theorem Encoder.putAll_under {writes : List (String × TreeMaker)}
    (h : ∀ w ∈ writes, TreeMaker.Alike w.2) (e : Encoder) (outer : CodingPath) :
    (e.under outer).putAll writes = Written.under (e.putAll writes) outer := by
  induction writes generalizing e with
  | nil => rfl
  | cons w rest ih =>
    obtain ⟨hfirst, hrest⟩ := List.forall_mem_cons.mp h
    have hput := e.putWith_under outer w.1 (hfirst · outer)
    rw [putAll, putAll, hput]
    rcases e.putWith w.1 w.2 with ⟨err | ⟨⟩, e'⟩
    · rfl
    · exact ih hrest e'

section

variable {V : Path → Type} {O : Type} {codecs : ∀ p, Codec (V p)}

/-- A field is made alike everywhere if the types it is built from are. -/
theorem FieldValue.alike_maker (hcodecs : ∀ p, (codecs p).Placeless) {v : FieldValue V O}
    {make : TreeMaker} (hmake : v.maker codecs = some make) : TreeMaker.Alike make := by
  cases v with
  | scalar p x =>
    obtain rfl := Option.some.inj hmake
    exact (hcodecs p).alike_treeAt x
  | optionalScalar p x =>
    obtain rfl := Option.some.inj hmake
    exact (hcodecs p).option.alike_treeAt x
  | sequence p xs =>
    obtain rfl := Option.some.inj hmake
    exact (hcodecs p).list.alike_treeAt xs
  | optionalSequence p xs =>
    obtain rfl := Option.some.inj hmake
    exact (hcodecs p).list.option.alike_treeAt xs
  | other x => exact absurd hmake (by simp [maker])

theorem Members.encode_under (hcodecs : ∀ p, (codecs p).Placeless) (m : Members)
    (self : RecordValue V O) (e : Encoder) (outer : CodingPath) :
    m.encode codecs self (e.under outer)
      = (m.encode codecs self e).map (Written.under · outer) := by
  rw [encode, encode]
  rcases hwrites : m.encoding.mapM (EncodeStatement.write m.registry codecs self) with _ | writes
  · rfl
  · refine congrArg some (Encoder.putAll_under (fun w hw => ?_) e.opened outer)
    obtain ⟨s, -, hs⟩ := exists_of_mem_mapM hwrites hw
    obtain ⟨text, -, hs⟩ := Option.bind_eq_some_iff.mp hs
    obtain ⟨make, hmake, hs⟩ := Option.bind_eq_some_iff.mp hs
    obtain rfl := Option.some.inj hs
    exact FieldValue.alike_maker hcodecs hmake

/-- A statement of the decoding reads alike everywhere. -/
theorem DecodeStatement.readAs_under (hcodecs : ∀ p, (codecs p).Placeless) (s : DecodeStatement)
    (text : String) (k : KeyedDecoder) (outer : CodingPath) :
    s.readAs codecs text (k.under outer) (O := O)
      = (s.readAs codecs text k).mapError (·.under outer) := by
  obtain ⟨position, rule, type, key⟩ := s
  -- The rule chooses the operation and the type chooses the codec; neither sees the path.
  cases rule with
  | required =>
    cases type with
    | plain p => simp only [readAs, (hcodecs p).entry_under, mapError_map]
    | sequence p => simp only [readAs, (hcodecs p).list.entry_under, mapError_map]
  | ifPresent =>
    cases type with
    | plain p => simp only [readAs, (hcodecs p).entryIfPresent_under, mapError_map]
    | sequence p => simp only [readAs, (hcodecs p).list.entryIfPresent_under, mapError_map]

theorem bindAll_under {bindings : List (Binding V O)}
    (h : ∀ b ∈ bindings, ∀ (k : KeyedDecoder) (outer : CodingPath),
      b.2 (k.under outer) = (b.2 k).mapError (·.under outer))
    (k : KeyedDecoder) (outer : CodingPath) (locals : List (String × FieldValue V O)) :
    bindAll (k.under outer) bindings locals
      = (bindAll k bindings locals).mapError (·.under outer) := by
  induction bindings generalizing locals with
  | nil => rfl
  | cons b rest ih =>
    obtain ⟨hfirst, hrest⟩ := List.forall_mem_cons.mp h
    rw [bindAll, bindAll, hfirst]
    rcases b.2 k with err | v
    · rfl
    · exact ih hrest _

theorem Members.decode_under (hcodecs : ∀ p, (codecs p).Placeless) (m : Members)
    (initial : RecordValue V O) (d : Decoder) (outer : CodingPath) :
    m.decode codecs initial (d.under outer)
      = (m.decode codecs initial d).map (Except.mapError (·.under outer)) := by
  rw [decode, decode]
  rcases hbindings : m.decoding.mapM (DecodeStatement.binding m.registry codecs (O := O)) with _ | bindings
  · rfl
  · -- Every statement names a key, so the statements are read one after the other.
    have hreads : ∀ b ∈ bindings, ∀ (k : KeyedDecoder) (outer : CodingPath),
        b.2 (k.under outer) = (b.2 k).mapError (·.under outer) := by
      intro b hb
      obtain ⟨s, -, hs⟩ := exists_of_mem_mapM hbindings hb
      obtain ⟨text, -, rfl⟩ := Option.map_eq_some_iff.mp hs
      exact s.readAs_under hcodecs text
    obtain ⟨tree, p⟩ := d
    cases tree with
    | object entries =>
      have hlocals : bindAll ⟨entries, p.under outer⟩ bindings []
          = (bindAll ⟨entries, p⟩ bindings []).mapError (·.under outer) :=
        bindAll_under hreads ⟨entries, p⟩ outer []
      simp only [Option.bind_eq_bind, Option.bind_some, Decoder.container, Decoder.under, hlocals]
      rcases bindAll ⟨entries, p⟩ bindings [] with err | locals
      · rfl
      · simp only [Except.mapError]
        rcases m.initializers.mapM (Initializer.value initial locals) with _ | fields <;> rfl
    | _ => rfl

/-- Generated members as the codec of a record; members that are no code do nothing. -/
def Members.codec (m : Members) (codecs : ∀ p, Codec (V p)) (initial : RecordValue V O) :
    Codec (RecordValue V O) where
  encode self e := (m.encode codecs self e).getD (.ok (), e)
  decode d :=
    ((m.decode codecs initial d).getD (.error (d.failure "no code"))).map fun fields name =>
      ((fields.find? (·.1.name == name)).map (·.2)).getD (initial name)

theorem Members.codec_placeless (hcodecs : ∀ p, (codecs p).Placeless) (m : Members)
    (initial : RecordValue V O) : (m.codec codecs initial).Placeless := by
  refine Codec.placeless_iff.mpr ⟨fun tree => ?_, fun self e outer => ?_⟩
  · refine SameEverywhere.map (fun p outer => ?_) _
    have hdecode := m.decode_under hcodecs initial ⟨tree, p⟩ outer
    rw [show Decoder.mk tree (p.under outer) = Decoder.under ⟨tree, p⟩ outer from rfl, hdecode]
    rcases m.decode codecs initial ⟨tree, p⟩ with _ | r <;> rfl
  · show (m.encode codecs self (e.under outer)).getD _ = _
    rw [m.encode_under hcodecs]
    show _ = Written.under ((m.encode codecs self e).getD (.ok (), e)) outer
    rcases m.encode codecs self e with _ | w <;> rfl

end

/-! ### Everywhere as at the root -/

/-- **A coding path is pure context.**  Described types that do not look around, types
with code of their own that asks for no path, and optional values and lists of such
types are read and written under every path as they are at the root; so are records
of generated members over such types.  Values, trees, and what an encoder holds are
the same, and an error differs in nothing but the path in front of its own. -/
theorem path_is_context :
    (∀ (s : Schema) (t : DataType), t.Sightless s → (Codec.ofType s t).Placeless) ∧
      (∀ (α : Type) (r : Routines α), r.codec.Placeless) ∧
      (∀ (α : Type) (c : Codec α), c.Placeless →
        c.option.Placeless ∧ c.list.Placeless ∧
          ∀ x p, c.treeAt x p = (c.treeAt x .root).mapError (·.under p)) ∧
      ∀ (V : Path → Type) (O : Type) (codecs : ∀ q, Codec (V q)),
        (∀ q, (codecs q).Placeless) → ∀ (m : Members) (initial : RecordValue V O),
          (m.codec codecs initial).Placeless ∧
            ∀ p : CodingPath,
              (∀ tree, m.decode codecs initial ⟨tree, p⟩
                = (m.decode codecs initial ⟨tree, .root⟩).map (Except.mapError (·.under p))) ∧
              ∀ (self : RecordValue V O) (e : Encoder),
                m.encode codecs self { e with path := p }
                  = (m.encode codecs self { e with path := .root }).map (Written.under · p) := by
  refine ⟨fun s t h => Codec.ofType_placeless h, fun α r => r.codec_placeless,
    fun α c h => ⟨h.option, h.list, h.treeAt⟩,
    fun V O codecs hcodecs m initial => ⟨m.codec_placeless hcodecs initial, fun p => ⟨?_, ?_⟩⟩⟩
  · intro tree
    rw [← m.decode_under hcodecs, Decoder.root_under]
  · intro self e
    rw [← m.encode_under hcodecs, Encoder.root_under]

/-! ### Code that recovers from failures -/

namespace Wary

/-- Bytes in an array. -/
def bytes : DataType := .list (.integer .u8)

theorem sightless_bytes : bytes.Sightless [] := by
  have hclosed : ∀ t ∈ [bytes, .integer .u8], ∀ u ∈ t.next [], u ∈ [bytes, .integer .u8] := by
    simp [bytes, DataType.next]
  intro u hu
  have hmem := hu.mem_of_closed hclosed (List.mem_cons_self ..)
  simp only [List.mem_cons, List.not_mem_nil, or_false] at hmem
  rcases hmem with rfl | rfl <;> rfl

/-- Reads an array, or else the entry of an object, and raises the more telling one
of two failures.  Writes its key twice, and raises the second failure if there is an
entry by then. -/
def code : Routines Datum where
  read _ :=
    .andThen (.type [] bytes sightless_bytes) .done fun _ =>
      .andThen (.access (.entry "bytes") fun _ => .type [] bytes sightless_bytes) .done fun
        | .outOfRange _ _ _ => .raise 0
        | _ => .raise 1
  write d :=
    .andThen (.put "bytes" (.ask (d.writing [] bytes)))
      (.andThen (.put "bytes" .done) .done fun _ => .count fun n => if n = 1 then .raise 0 else .done)
      fun _ => .raise 0

/-- Somewhere in a document. -/
def place : CodingPath := ⟨[.key "a", .index 3]⟩

/-- A byte too large, in the entry of the second element. -/
def document : Tree :=
  .array [.array [.integer 1], .object [("bytes", .array [.integer 1, .integer 300])]]

def part : Path := .plain false [.plain "Part"]

/-- A list of such values and an optional one. -/
def fields : List ClassifiedField :=
  [⟨.plain "parts", .sequence part, true⟩, ⟨.plain "spare", .optionalScalar part, true⟩]

def parcel : RecordValue (fun _ => Datum) Unit
  | "parts" => .sequence part []
  | _ => .optionalScalar part (some (.list [.integer 7]))

/-- The failures of the code, of its lists, of records over it and of lists of those,
here and at the root. -/
theorem failures_placed :
    (bytes.Sightless [] ∧ (Codec.ofType [] bytes).Placeless) ∧
      (code.codec.Placeless ∧ code.codec.list.Placeless ∧
        code.codec.list.decode ⟨document, place⟩
          = (code.codec.list.decode ⟨document, .root⟩).mapError (·.under place) ∧
        code.codec.list.decode ⟨document, .root⟩
          = .error (.outOfRange "300" "u8" ⟨[.index 1, .key "bytes", .index 1]⟩) ∧
        code.codec.treeAt (.list [.integer 7]) place
          = .error (.duplicateKey "bytes" place)) ∧
      ((Members.build default fields).codec (fun _ => code.codec) parcel).list.Placeless ∧
      (Members.build default fields).decode (fun _ => code.codec) parcel
          ⟨.object [("parts", document)], place⟩
        = some (.error (.outOfRange "300" "u8"
            ⟨[.key "a", .index 3, .key "parts", .index 1, .key "bytes", .index 1]⟩)) ∧
      (Members.build default fields).encode (fun _ => code.codec) parcel
          ⟨place, none, some [("x", .null)]⟩
        = some (.error (.duplicateKey "bytes" (place.key "spare")),
            ⟨place, none, some [("x", .null), ("parts", .array [])]⟩) := by
  obtain ⟨htypes, hcode, hclosed, hmembers⟩ := path_is_context
  obtain ⟨-, hlist, htreeAt⟩ := hclosed Datum code.codec (hcode Datum code)
  obtain ⟨hrecord, hplaced⟩ := hmembers (fun _ => Datum) Unit (fun _ => code.codec)
    (fun _ => hcode Datum code) (Members.build default fields) parcel
  obtain ⟨hdecode, hencode⟩ := hplaced place
  refine ⟨⟨sightless_bytes, htypes [] bytes sightless_bytes⟩,
    ⟨hcode Datum code, hlist, hlist.decode document place, by rfl, ?_⟩,
    (hclosed _ _ hrecord).2.1, ?_, ?_⟩
  · rw [htreeAt]
    rfl
  · rw [hdecode]
    rfl
  · rw [hencode parcel ⟨place, none, some [("x", .null)]⟩]
    rfl

end Wary

end RecordCoding
