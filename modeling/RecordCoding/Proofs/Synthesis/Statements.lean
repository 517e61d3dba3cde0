/-
How the keys, statements and initializers of one record fit together.

All of them are drawn from one list of fields:

* `textOf?_build` — the key of a keyed field stands for the name of that field;
* `bindingName_injective`, `positions_nodup` — every statement of the decoding
  has a local of its own;
* `mem_decoding_iff` — there is a statement for each keyed field, at its
  position, with the operation and the type of its shape;
* `encode_build`, `decode_build` — what the members do, field by field.

Design notes: a list of fields is taken together with the positions of its
fields (`zipIdx`), since a statement and an initializer meet in a position.
-/
import Mathlib.Data.List.Nodup
import RecordCoding.Proofs.Synthesis.Meaning

namespace RecordCoding

/-! ### Lists of partial results -/

theorem mapM_eq_some_map {α β : Type} {f : α → Option β} {g : α → β} {l : List α}
    (h : ∀ x ∈ l, f x = some (g x)) : l.mapM f = some (l.map g) := by
  induction l with
  | nil => rfl
  | cons x rest ih =>
    have hx : f x = some (g x) := h x (List.mem_cons_self ..)
    have hrest := ih fun y hy => h y (List.mem_cons_of_mem _ hy)
    rw [List.mapM_cons, hx, hrest]
    rfl

/-! ### Locals -/

theorem bindingName_injective : Function.Injective bindingName := by
  intro i j h
  have hlist := congrArg String.toList h
  simp only [bindingName, String.toList_append, String.toList_ofList] at hlist
  have hdigits : Nat.toDigits 10 i = Nat.toDigits 10 j := List.append_cancel_left hlist
  rw [← Nat.ofDigitChars_ten_toDigits (n := i), hdigits, Nat.ofDigitChars_ten_toDigits]

/-! ### Keys -/

/-- A keyed field's own name is the text of its key. -/
theorem KeyRegistry.textOf?_build (record : Ident) {fields : List ClassifiedField}
    {f : ClassifiedField} (hf : f ∈ fields) (hkeyed : f.keyed) :
    (KeyRegistry.build record fields).textOf? f.name = some f.name.name := by
  have hmem : f.name ∈ (KeyRegistry.build record fields).keys :=
    List.mem_map.mpr ⟨f, List.mem_filter.mpr ⟨hf, hkeyed⟩, rfl⟩
  rw [textOf?]
  rcases hfind : (KeyRegistry.build record fields).keys.find? (·.name == f.name.name) with _ | key
  · exact absurd (beq_self_eq_true f.name.name) (List.find?_eq_none.mp hfind f.name hmem)
  · have hname := List.find?_some hfind
    rw [hfind, Option.map_some, beq_iff_eq.mp hname]

/-! ### Statements of the decoding -/

namespace DecodeStatement

theorem ofFields_eq_filterMap (n : Nat) (fields : List ClassifiedField) :
    ofFields n fields = (fields.zipIdx n).filterMap fun fi => ofField fi.2 fi.1 := by
  induction fields generalizing n with
  | nil => rfl
  | cons f rest ih =>
    rw [ofFields, ih, List.zipIdx_cons, List.filterMap_cons]
    cases ofField n f <;> rfl

theorem ofField_eq_some_iff {n : Nat} {f : ClassifiedField} {s : DecodeStatement} :
    ofField n f = some s ↔
      f.keyed ∧ s.position = n ∧ s.key = f.name ∧ f.shape.rule = some (s.rule, s.type) := by
  obtain ⟨position, rule, type, key⟩ := s
  rw [ofField]
  by_cases hkeyed : f.keyed
  · rw [if_pos hkeyed]
    rcases f.shape.rule with _ | ⟨r, t⟩
    · simp
    · simp only [Option.map_some, Option.some.injEq, DecodeStatement.mk.injEq, Prod.mk.injEq]
      constructor
      · rintro ⟨rfl, rfl, rfl, rfl⟩
        exact ⟨hkeyed, rfl, rfl, rfl, rfl⟩
      · rintro ⟨-, rfl, rfl, rfl, rfl⟩
        exact ⟨rfl, rfl, rfl, rfl⟩
  · simp [hkeyed]

/-- There is a statement for each keyed field, at the position of the field. -/
theorem mem_decoding_iff {fields : List ClassifiedField} {s : DecodeStatement} :
    s ∈ ofFields 0 fields ↔
      ∃ f, (f, s.position) ∈ fields.zipIdx ∧ f.keyed ∧ s.key = f.name ∧
        f.shape.rule = some (s.rule, s.type) := by
  rw [ofFields_eq_filterMap, List.mem_filterMap]
  constructor
  · rintro ⟨⟨f, i⟩, hmem, hs⟩
    obtain ⟨hkeyed, rfl, hkey, hrule⟩ := ofField_eq_some_iff.mp hs
    exact ⟨f, hmem, hkeyed, hkey, hrule⟩
  · rintro ⟨f, hmem, hkeyed, hkey, hrule⟩
    exact ⟨(f, s.position), hmem, ofField_eq_some_iff.mpr ⟨hkeyed, rfl, hkey, hrule⟩⟩

/-- The positions of statements are among those of the fields, in order. -/
theorem positions_sublist (n : Nat) (fields : List ClassifiedField) :
    ((ofFields n fields).map (·.position)).Sublist (List.range' n fields.length) := by
  induction fields generalizing n with
  | nil => exact List.Sublist.slnil
  | cons f rest ih =>
    rw [ofFields, List.length_cons, List.range'_succ]
    rcases hs : ofField n f with _ | s
    · exact (ih (n + 1)).cons n
    · obtain ⟨-, hposition, -⟩ := ofField_eq_some_iff.mp hs
      rw [Option.toList_some, List.singleton_append, List.map_cons, hposition]
      exact (ih (n + 1)).cons_cons n

theorem positions_nodup (n : Nat) (fields : List ClassifiedField) :
    ((ofFields n fields).map (·.position)).Nodup :=
  (List.nodup_range' ..).sublist (positions_sublist n fields)

theorem bindingNames_nodup (n : Nat) (fields : List ClassifiedField) :
    ((ofFields n fields).map fun s => bindingName s.position).Nodup := by
  have hnames := (positions_nodup n fields).map bindingName_injective
  rw [List.map_map] at hnames
  exact hnames

end DecodeStatement

variable {V : Path → Type} {O : Type} {codecs : ∀ p, Codec (V p)}

/-! ### Writing field by field -/

namespace FieldValue

/-- What a value makes of its path, if its type has a shape. -/
def makerD (codecs : ∀ p, Codec (V p)) (v : FieldValue V O) : TreeMaker :=
  (v.maker codecs).getD fun _ => .ok .null

variable {v : FieldValue V O}

theorem maker_of_recognized (h : v.shape.recognized) : v.maker codecs = some (v.makerD codecs) := by
  cases v with
  | other x => exact absurd h (by simp [shape, FieldShape.recognized])
  | _ => rfl

theorem encodes_iff_of_recognized (h : v.shape.recognized) (path : CodingPath) :
    v.Encodes codecs path ↔ ∃ t, v.makerD codecs path = .ok t := by
  rw [Encodes, maker_of_recognized h]
  simp

end FieldValue

theorem FieldShape.exists_rule {shape : FieldShape} (h : shape.recognized) :
    ∃ rule, shape.rule = some rule := by
  cases shape with
  | unrecognized => exact absurd h (by simp [FieldShape.recognized])
  | _ => exact ⟨_, rfl⟩

theorem ClassifiedField.recognized_of_keyed {f : ClassifiedField} (h : f.keyed) :
    f.shape.recognized :=
  (Bool.and_eq_true_iff.mp h).2

/-- A value of a keyed field's type has a codec. -/
theorem FieldValue.recognized_of_keyed {v : FieldValue V O} {f : ClassifiedField} (h : f.keyed)
    (hshape : v.shape = f.shape) : v.shape.recognized := by
  rw [hshape]
  exact ClassifiedField.recognized_of_keyed h

theorem EncodeStatement.filterMap_ofField (fields : List ClassifiedField) :
    fields.filterMap ofField = (fields.filter (·.keyed)).map fun f => ⟨f.name⟩ := by
  induction fields with
  | nil => rfl
  | cons f rest ih =>
    rw [List.filterMap_cons, List.filter_cons, ofField]
    by_cases hkeyed : f.keyed
    · rw [if_pos hkeyed, if_pos hkeyed, ih, List.map_cons]
    · rw [if_neg hkeyed, if_neg hkeyed, ih]

/-- The encoding writes every keyed field under its name, in order. -/
theorem Members.encode_build {self : RecordValue V O} (d : Declaration)
    {fields : List ClassifiedField}
    (hself : ∀ f ∈ fields, f.keyed → (self f.name.name).shape = f.shape) (e : Encoder) :
    (Members.build d fields).encode codecs self e
      = some (e.opened.putAll ((fields.filter (·.keyed)).map fun f =>
          (f.name.name, (self f.name.name).makerD codecs))) := by
  have hencoding : (Members.build d fields).encoding
      = (fields.filter (·.keyed)).map fun f => ⟨f.name⟩ :=
    EncodeStatement.filterMap_ofField fields
  have hwrite : ∀ f ∈ fields.filter (·.keyed),
      EncodeStatement.write (Members.build d fields).registry codecs self ⟨f.name⟩
        = some (f.name.name, (self f.name.name).makerD codecs) := by
    intro f hf
    obtain ⟨hmem, hkeyed⟩ := List.mem_filter.mp hf
    have htext : (Members.build d fields).registry.textOf? f.name = some f.name.name :=
      KeyRegistry.textOf?_build d.name hmem hkeyed
    have hmaker : (self f.name.name).maker codecs = some ((self f.name.name).makerD codecs) :=
      FieldValue.maker_of_recognized
        (FieldValue.recognized_of_keyed hkeyed (hself f hmem hkeyed))
    rw [EncodeStatement.write, htext, hmaker]
    rfl
  -- No statement fails to find its key or its maker, so all of them make up one run.
  rw [Members.encode, hencoding, List.mapM_map]
  exact congrArg (Option.map e.opened.putAll) (mapM_eq_some_map hwrite)

/-! ### Reading field by field -/

variable {initial self : RecordValue V O}

/-- The locals of statements when each is bound to the value of its field, the
last one first. -/
def boundLocals (self : RecordValue V O) (statements : List DecodeStatement) :
    List (String × FieldValue V O) :=
  (statements.map fun s => (bindingName s.position, self s.key.name)).reverse

theorem bindAll_eq_ok {statements : List DecodeStatement} {k : KeyedDecoder}
    (h : ∀ s ∈ statements, s.readAs codecs s.key.name k = .ok (self s.key.name))
    (locals : List (String × FieldValue V O)) :
    bindAll k (statements.map fun s => (bindingName s.position, s.readAs codecs s.key.name)) locals
      = .ok (boundLocals self statements ++ locals) := by
  induction statements generalizing locals with
  | nil => rfl
  | cons s rest ih =>
    have hs : s.readAs codecs s.key.name k = .ok (self s.key.name) := h s (List.mem_cons_self ..)
    have hrest := ih fun r hr => h r (List.mem_cons_of_mem _ hr)
    rw [List.map_cons, bindAll]
    simp only [hs, hrest]
    rw [boundLocals, boundLocals, List.map_cons, List.reverse_cons, List.append_assoc,
      List.singleton_append]

/-- The local of a keyed field holds the value of that field. -/
theorem lookup_boundLocals {fields : List ClassifiedField} {f : ClassifiedField} {i : Nat}
    (hmem : (f, i) ∈ fields.zipIdx) (hkeyed : f.keyed) :
    (boundLocals self (DecodeStatement.ofFields 0 fields)).lookup (bindingName i)
      = some (self f.name.name) := by
  obtain ⟨⟨rule, type⟩, hrule⟩ := FieldShape.exists_rule (ClassifiedField.recognized_of_keyed hkeyed)
  have hs : ⟨i, rule, type, f.name⟩ ∈ DecodeStatement.ofFields 0 fields :=
    DecodeStatement.mem_decoding_iff.mpr ⟨f, hmem, hkeyed, rfl, hrule⟩
  -- No local is bound twice, so the order of the locals does not matter.
  have hnodup : ((boundLocals self (DecodeStatement.ofFields 0 fields)).map (·.1)).Nodup := by
    rw [boundLocals, List.map_reverse, List.nodup_reverse, List.map_map]
    exact DecodeStatement.bindingNames_nodup 0 fields
  refine lookup_of_mem_of_nodup hnodup ?_
  exact List.mem_reverse.mpr (List.mem_map.mpr ⟨_, hs, rfl⟩)

/-- Initializers take the values of the keyed fields from their locals, and start
the other fields from their defaults. -/
theorem Initializer.mapM_value {locals : List (String × FieldValue V O)} (n : Nat)
    {fields : List ClassifiedField}
    (h : ∀ f i, (f, i) ∈ fields.zipIdx n → f.keyed →
      locals.lookup (bindingName i) = some (self f.name.name)) :
    (Initializer.ofFields n fields).mapM (Initializer.value initial locals)
      = some (fields.map fun f =>
          (f.name, if f.keyed then self f.name.name else initial f.name.name)) := by
  induction fields generalizing n with
  | nil => rfl
  | cons f rest ih =>
    rw [List.zipIdx_cons] at h
    have hrest := ih (n + 1) fun g i hg => h g i (List.mem_cons_of_mem _ hg)
    -- A keyed field has a source, its local; any other starts from its default.
    have hf : Initializer.value initial locals ⟨f.name, if f.keyed then some n else none⟩
        = some (f.name, if f.keyed then self f.name.name else initial f.name.name) := by
      by_cases hkeyed : f.keyed
      · have hlocal : locals.lookup (bindingName n) = some (self f.name.name) :=
          h f n (List.mem_cons_self ..) hkeyed
        simp only [hkeyed, if_true, Initializer.value, hlocal, Option.map_some]
      · simp only [hkeyed, Initializer.value]
        rfl
    rw [Initializer.ofFields, List.mapM_cons, hf, hrest]
    rfl

/-- The decoding gives every keyed field what is read under its name, and every
other field its default. -/
theorem Members.decode_build (d : Declaration) {fields : List ClassifiedField}
    {entries : List (String × Tree)} {path : CodingPath}
    (hread : ∀ s ∈ DecodeStatement.ofFields 0 fields,
      s.readAs codecs s.key.name ⟨entries, path⟩ = .ok (self s.key.name)) :
    (Members.build d fields).decode codecs initial ⟨.object entries, path⟩
      = some (.ok (fields.map fun f =>
          (f.name, if f.keyed then self f.name.name else initial f.name.name))) := by
  -- Every statement names a key that the enumeration has.
  have hbinding : ∀ s ∈ DecodeStatement.ofFields 0 fields,
      s.binding (Members.build d fields).registry codecs
        = some (bindingName s.position, s.readAs codecs s.key.name (O := O)) := by
    intro s hs
    obtain ⟨f, hmem, hkeyed, hkey, -⟩ := DecodeStatement.mem_decoding_iff.mp hs
    have htext : (Members.build d fields).registry.textOf? s.key = some s.key.name := by
      rw [hkey]
      exact KeyRegistry.textOf?_build d.name (List.fst_mem_of_mem_zipIdx hmem) hkeyed
    rw [DecodeStatement.binding, htext, Option.map_some]
  have hdecoding : (Members.build d fields).decoding = DecodeStatement.ofFields 0 fields := rfl
  -- Every initializer of a keyed field names a local that is bound.
  have hvalues : (Members.build d fields).initializers.mapM (Initializer.value initial
      (boundLocals self (DecodeStatement.ofFields 0 fields))) = some _ :=
    Initializer.mapM_value 0 fun f i => lookup_boundLocals
  have hlocals := bindAll_eq_ok hread []
  rw [List.append_nil] at hlocals
  rw [decode, hdecoding, mapM_eq_some_map hbinding, Option.bind_eq_bind, Option.bind_some, Decoder.container]
  simp only [hlocals, hvalues, Option.map_some]

end RecordCoding
