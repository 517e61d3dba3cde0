/-
What was written is read back in normal form.

`ofTree_toTree`: for every described type and every value of it, whatever tree
the value is written as is read as its normal form, which is written as the same
tree; and a value with nothing to forget is its own normal form.

The proof is an induction on the typing of the value, with one lemma for each
way a value is made up of others: `treeAt_list`, `field_of_lookup` and
`fields_eq_ok` say how lists and records are taken apart.
-/
import RecordCoding.Proofs.Codec
import RecordCoding.Proofs.Data.NormalForm
import RecordCoding.Proofs.Number.Narrowing

namespace RecordCoding

/-! ### Lists -/

namespace Codec

variable {s : Schema}

theorem treeAt_ofType (t : DataType) (d : Datum) (p : CodingPath) :
    (ofType s t).treeAt d p = (d.writing s t).treeAt p := rfl

theorem trees_writingOfItems (t : DataType) (items : List Datum) (p : CodingPath) (index : Nat) :
    Writing.trees (Datum.writingOfItems s t items) p index
      = (ofType s t).treesOf items p index := by
  induction items generalizing index with
  | nil => rfl
  | cons d rest ih => rw [Datum.writingOfItems, Writing.trees, treesOf, ih]; rfl

/-- A list of described values is written element by element. -/
theorem treeAt_ofType_list (t : DataType) (items : List Datum) (p : CodingPath) :
    (ofType s (.list t)).treeAt (.list items) p = (ofType s t).list.treeAt items p := by
  rw [treeAt_ofType, Datum.writing, Writing.treeAt_elements, treeAt_list, trees_writingOfItems]

end Codec

/-! ### Records -/

namespace KeyedDecoder

variable {s : Schema} {arguments : List DataType} {c : KeyedDecoder} {f : Field}

/-- An entry that is there is read at the type of the field. -/
theorem field_of_lookup {t : DataType} (htype : (f.coding.instantiate arguments).type? = some t)
    {tree : Tree} (hlookup : c.entries.lookup f.key = some tree) :
    c.field s arguments f = Decoder.decode s t ⟨tree, c.path.key f.key⟩ := by
  obtain hcoding | ⟨u, rfl, hcoding⟩ := FieldCoding.eq_of_type?_eq_some htype
  · simp only [field, hcoding]
    exact decode_of_lookup hlookup _
  · -- A key that may be missing is read like an option: both look for `null` first.
    simp only [field, hcoding, decodeIfPresent, hlookup, decode_option]
    by_cases hnull : tree.isNull
    · rw [if_pos hnull, if_pos hnull]
      rfl
    · rw [if_neg hnull, if_neg hnull]
      rcases Decoder.decode s u ⟨tree, c.path.key f.key⟩ with _ | _ <;> rfl

/-- A field without a key starts from its default. -/
theorem field_of_excluded (htype : (f.coding.instantiate arguments).type? = none) (d : Datum) :
    c.field s arguments f = .ok (f.coding.initial d) := by
  obtain ⟨initial, hcoding⟩ := FieldCoding.exists_of_type?_eq_none htype
  rw [field, hcoding]
  rfl

/-- Fields that are read in normal form make a record in normal form. -/
theorem fields_eq_ok {narrow : Single → Single} {fs : List Field} {ds : List (String × Datum)}
    (hnames : ds.map (·.1) = fs.map (·.name))
    (h : ∀ f v t, (f, v) ∈ fs.zip ds → (f.coding.instantiate arguments).type? = some t →
      c.field s arguments f = .ok (v.2.normal narrow s t)) :
    c.fields s arguments fs = .ok (Datum.normalOfFields narrow s arguments fs ds) := by
  induction fs generalizing ds with
  | nil =>
    cases ds with
    | nil => rfl
    | cons v ds => exact absurd hnames (by simp)
  | cons f fs ih =>
    cases ds with
    | nil => exact absurd hnames (by simp)
    | cons v ds =>
      obtain ⟨name, d⟩ := v
      obtain ⟨rfl, htail⟩ := List.cons.inj hnames
      have hrest := ih htail fun g w t hmem => h g w t (List.mem_cons_of_mem _ hmem)
      rw [fields, Datum.normalOfFields]
      rcases htype : (f.coding.instantiate arguments).type? with _ | t
      · simp only [field_of_excluded htype d, hrest]
      · simp only [h f _ t (List.mem_cons_self ..) htype, hrest]

end KeyedDecoder

/-! ### All types -/

namespace Codec

variable {s : Schema} {t : DataType} {d : Datum}

/-- Whether a value is written as `null` is the same everywhere. -/
theorem isNull_of_treeAt {p : CodingPath} {tree : Tree} (h : (ofType s t).treeAt d p = .ok tree) :
    tree.isNull = d.writesNull s t := by
  have hroot : d.toTree s t = .ok tree := (Writing.treeAt_eq_ok_iff _ p tree).mp h
  rw [Datum.writesNull, hroot]

/-- A value that writes a tree as it is. -/
theorem reads_leaf {e : Datum} {leaf : Tree} (hwriting : d.writing s t = .tree leaf)
    (hread : ∀ p, Decoder.decode s t ⟨leaf, p⟩ = .ok e) : (ofType s t).Reads d e := by
  intro p tree ht
  rw [treeAt_ofType, hwriting, Writing.treeAt_tree] at ht
  obtain rfl := Except.ok.inj ht
  exact hread p

theorem toInt_ofInt_of_fits {n : Int} (h : fitsInt64 n) : (Int64.ofInt n).toInt = n := by
  obtain ⟨hlow, hhigh⟩ := Bool.and_eq_true_iff.mp h
  have hlow : -2 ^ 63 ≤ n := of_decide_eq_true hlow
  have hhigh : n ≤ 2 ^ 63 - 1 := of_decide_eq_true hhigh
  exact Int64.toInt_ofInt_of_le hlow (by omega)

theorem reads_integer {kind : IntegerKind} {n : Int} (h : kind.holds n) :
    (ofType s (.integer kind)).Reads (.integer n) (.integer n) := by
  intro p tree ht
  rw [treeAt_ofType, Datum.writing, Writing.treeAt_integer] at ht
  by_cases hfits : fitsInt64 n
  · rw [if_pos hfits] at ht
    obtain rfl := Except.ok.inj ht
    have hvalue : (Int64.ofInt n).toInt = n := toInt_ofInt_of_fits hfits
    show Decoder.decode s (.integer kind) _ = _
    rw [decode_integer, Decoder.integer]
    simp only [hvalue, h, if_true, Except.map]
  · rw [if_neg hfits] at ht
    exact absurd ht (by simp)

theorem reads_list {items : List Datum}
    (h : ∀ d ∈ items, (ofType s t).Reads d (d.normal Single.withoutPayload s t)) :
    (ofType s (.list t)).Reads (.list items)
      (.list (items.map (Datum.normal Single.withoutPayload s t))) := by
  intro p tree ht
  rw [treeAt_ofType_list] at ht
  have hread : (ofType s t).list.decode ⟨tree, p⟩ = .ok _ :=
    Reads.list (List.forall₂_map_right_iff.mpr (List.forall₂_same.mpr h)) p tree ht
  show Decoder.decode s (.list t) _ = _
  rw [decode_list]
  exact congrArg (Except.map Datum.list) hread

/-- An optional value is read as none exactly if its content was written as
`null`. -/
theorem reads_present {e : Datum} (h : (ofType s t).Reads d e) :
    (ofType s (.option t)).Reads (.present d)
      (if d.writesNull s t then .absent else .present e) := by
  intro p tree ht
  have ht : (ofType s t).treeAt d p = .ok tree := ht
  show Decoder.decode s (.option t) _ = _
  rw [decode_option, isNull_of_treeAt ht]
  by_cases hnull : d.writesNull s t
  · rw [if_pos hnull, if_pos hnull]
  · have hread : Decoder.decode s t ⟨tree, p⟩ = .ok e := h p tree ht
    rw [if_neg hnull, if_neg hnull, hread]
    rfl

/-- A record is read field by field, each from the entry written for it. -/
theorem reads_record {name : String} {arguments : List DataType} {fields : List (String × Datum)}
    (hnames : fields.map (·.1) = (s.fieldsOf name).map (·.name))
    (h : ∀ f v t, (f, v) ∈ (s.fieldsOf name).zip fields →
      (f.coding.instantiate arguments).type? = some t →
        (ofType s t).Reads v.2 (v.2.normal Single.withoutPayload s t)) :
    (ofType s (.record name arguments)).Reads (.record name fields)
      (.record name (Datum.normalOfFields Single.withoutPayload s arguments (s.fieldsOf name)
        fields)) := by
  intro p tree ht
  rw [treeAt_ofType, Datum.treeAt_record] at ht
  obtain ⟨-, entries, -, rfl⟩ := Encoder.writtenTree_putAll_fresh.mp ht
  show Decoder.decode s (.record name arguments) _ = _
  rw [decode_record, Decoder.container]
  refine congrArg (Except.map (Datum.record name)) (KeyedDecoder.fields_eq_ok hnames ?_)
  -- Keys are distinct in what was written, so the first entry under a key is the field's own.
  intro f v t hmem htype
  have hwrite := Datum.mem_writingOfFields (s := s) hmem htype
  obtain ⟨written, hwritten, hlookup⟩ :=
    Encoder.lookup_of_putAll_fresh ht (List.mem_map.mpr ⟨_, hwrite, rfl⟩)
  rw [KeyedDecoder.field_of_lookup htype hlookup]
  exact h f v t hmem htype _ written hwritten

/-- Whatever a value is written as is read as its normal form. -/
theorem reads_normal (h : OfType s t d) :
    (ofType s t).Reads d (d.normal Single.withoutPayload s t) := by
  induction h with
  | bool b => exact reads_leaf rfl fun p => decode_bool s _
  | string v => exact reads_leaf rfl fun p => decode_string s _
  | char c =>
    refine reads_leaf rfl fun p => ?_
    rw [decode_char, Decoder.char]
    simp only [String.toList_singleton, Except.map, Datum.normal]
  | single x =>
    refine reads_leaf rfl fun p => ?_
    rw [decode_single, Decoder.double]
    simp only [Single.toSingle_toDouble, Except.map, Datum.normal]
  | double x => exact reads_leaf rfl fun p => decode_double s _
  | tree written => exact reads_leaf rfl fun p => decode_tree s _
  | integer hholds => exact reads_integer hholds
  | list _ ih =>
    rw [Datum.normal, Datum.normalOfItems_eq_map]
    exact reads_list ih
  | absent t => exact reads_leaf rfl fun p => decode_option s t _
  | present _ ih =>
    rw [Datum.normal]
    exact reads_present ih
  | pointer _ ih =>
    intro p tree ht
    have hread := ih p tree ht
    show Decoder.decode s (.pointer _) _ = _
    rw [decode_pointer]
    exact congrArg (Except.map Datum.pointer) hread
  | record hnames _ ih =>
    rw [Datum.normal]
    exact reads_record hnames ih

end Codec

/-- **What was written is read back in normal form.**  The reader only narrows
the numbers in single precision again, which forgets the payload of a NaN. -/
theorem ofTree_toTree {s : Schema} {t : DataType} {d : Datum} (h : OfType s t d) {tree : Tree}
    (htree : d.toTree s t = .ok tree) :
    t.ofTree s tree = .ok (d.normal Single.withoutPayload s t) ∧
      (d.normal Single.withoutPayload s t).toTree s t = .ok tree ∧
      ∀ narrow, d.Settled narrow s t → d.normal narrow s t = d := by
  refine ⟨Codec.reads_normal h .root tree htree, ?_, fun narrow => Datum.normal_eq_of_settled h⟩
  rw [Datum.toTree, Datum.writing_normal Single.toDouble_withoutPayload h]
  exact htree

/-! ### A chain of generic records -/

namespace Chain

/-- A link refers to the next one, and has a label of any type. -/
def schema : Schema :=
  [⟨"Link", [⟨"weight", "weight", .required .single⟩, ⟨"cache", "cache", .excluded (.list [])⟩,
    ⟨"label", "label", .ifPresent (.parameter 0)⟩,
    ⟨"next", "next", .ifPresent (.pointer (.record "Link" [.parameter 0]))⟩]⟩]

/-- Links whose labels are optional themselves. -/
def link : DataType := .record "Link" [.option .string]

/-- The last link of a chain. -/
def last : Datum :=
  .record "Link" [("weight", .single ⟨0x3fc00000⟩), ("cache", .list []),
    ("label", .present (.present (.string "b"))), ("next", .absent)]

/-- A chain with a full cache, a label that is there but empty, and a NaN with a
payload in front. -/
def chain : Datum :=
  .record "Link" [("weight", .single ⟨0xffc00001⟩), ("cache", .list [.bool true]),
    ("label", .present .absent), ("next", .present (.pointer last))]

/-- What the chain is written as. -/
def tree : Tree :=
  .object [("weight", .double (Single.toDouble ⟨0xffc00001⟩)), ("label", .null),
    ("next", .object [("weight", .double (Single.toDouble ⟨0x3fc00000⟩)), ("label", .text "b"),
      ("next", .null)])]

theorem ofType_link (x : Single) (cache : Datum) {label next : Datum}
    (hlabel : OfType schema (.option (.option .string)) label)
    (hnext : OfType schema (.option (.pointer link)) next) :
    OfType schema link (.record "Link"
      [("weight", .single x), ("cache", cache), ("label", label), ("next", next)]) := by
  refine .of_forall₂ (.cons ⟨rfl, ?_⟩ (.cons ⟨rfl, nofun⟩ (.cons ⟨rfl, ?_⟩ (.cons ⟨rfl, ?_⟩ .nil))))
  · rintro t ⟨⟩
    exact .single x
  · rintro t ⟨⟩
    exact hlabel
  · rintro t ⟨⟩
    exact hnext

theorem ofType_chain : OfType schema link chain :=
  ofType_link _ _ (.present (.absent _)) (.present (.pointer
    (ofType_link _ _ (.present (.present (.string _))) (.absent _))))

/-- The chain is read back without its cache and its label, and with a plain NaN. -/
theorem ofTree_chain :
    OfType schema link chain ∧ chain.toTree schema link = .ok tree ∧
      link.ofTree schema tree = .ok (.record "Link" [("weight", .single .nan), ("cache", .list []),
        ("label", .absent), ("next", .present (.pointer last))]) := by
  have htree : chain.toTree schema link = .ok tree := by rfl
  exact ⟨ofType_chain, htree, (ofTree_toTree ofType_chain htree).1⟩

end Chain

end RecordCoding
