/-
What a reader does not see of a tree.

A record is read from the first entries under its keys, and an optional field
does not tell a missing entry from `null`.  `Similar` relates the trees that
differ in nothing else at any depth: the order of the keys, entries that are not
asked for, entries behind an earlier one of the same key, and `null` in the
place of a missing optional entry.

* `Similar.isNull_eq` — similar trees are `null` together;
* `ofTree_eq_of_similar` — similar trees are read alike, be it as a value or as
  an error.

Design notes: an entry that stands under a key of no field is in neither of the
premises of `Similar.record`, so it may be anything.  What looks around in its
decoder sees all of its tree, and it is similar only to itself.
-/
import RecordCoding.Data.Gallery
import RecordCoding.Proofs.Reading.Container

namespace RecordCoding

/-! ### Similar trees -/

mutual

/-- Trees that stand for the same as values of a type. -/
inductive Similar (s : Schema) : DataType → Tree → Tree → Prop
  | same (t : DataType) (tree : Tree) : Similar s t tree tree
  | list {u : DataType} {as bs : List Tree} (hlength : as.length = bs.length)
      (h : ∀ ab ∈ as.zip bs, Similar s u ab.1 ab.2) : Similar s (.list u) (.array as) (.array bs)
  | option {u : DataType} {a b : Tree} (h : Similar s u a b) : Similar s (.option u) a b
  | pointer {u : DataType} {a b : Tree} (h : Similar s u a b) : Similar s (.pointer u) a b
  | record {name : String} {arguments : List DataType} {as bs : List (String × Tree)}
      (h : ∀ f ∈ s.fieldsOf name, SimilarEntry s (f.coding.instantiate arguments)
        (as.lookup f.key) (bs.lookup f.key)) :
      Similar s (.record name arguments) (.object as) (.object bs)

/-- First entries under the key of a field that stand for the same. -/
inductive SimilarEntry (s : Schema) : FieldCoding → Option Tree → Option Tree → Prop
  | excluded (initial : Datum) (a b : Option Tree) : SimilarEntry s (.excluded initial) a b
  | absent (coding : FieldCoding) : SimilarEntry s coding none none
  | required {u : DataType} {a b : Tree} (h : Similar s u a b) :
      SimilarEntry s (.required u) (some a) (some b)
  | ifPresent {u : DataType} {a b : Tree} (h : Similar s u a b) :
      SimilarEntry s (.ifPresent u) (some a) (some b)
  | nullLeft (u : DataType) : SimilarEntry s (.ifPresent u) (some .null) none
  | nullRight (u : DataType) : SimilarEntry s (.ifPresent u) none (some .null)

end

section

variable {s : Schema} {t : DataType} {a b : Tree}

theorem Similar.isNull_eq (h : Similar s t a b) : a.isNull = b.isNull := by
  induction t, a using decode_induction with
  | step t a _ htype =>
    cases h with
    | same => rfl
    | list => rfl
    | @option u _ _ h => exact htype u (by simp) h
    | @pointer u _ _ h => exact htype u (by simp) h
    | record => rfl

/-- Arrays whose elements are read alike are read alike. -/
theorem readEach_eq_of_zip {α : Type} {read : Decoder → Except DecodeError α} {as bs : List Tree}
    (hlength : as.length = bs.length)
    (h : ∀ ab ∈ as.zip bs, ∀ p, read ⟨ab.1, p⟩ = read ⟨ab.2, p⟩) (p : CodingPath) (n : Nat) :
    readEach read p as n = readEach read p bs n := by
  induction as generalizing bs n with
  | nil =>
    obtain rfl := List.eq_nil_of_length_eq_zero hlength.symm
    rfl
  | cons a as ih =>
    cases bs with
    | nil => exact absurd hlength (by simp)
    | cons b bs =>
      have hrest := ih (Nat.succ.inj hlength) (fun ab hab => h ab (List.mem_cons_of_mem _ hab)) (n + 1)
      have hfirst := h (a, b) (List.mem_cons_self ..) (p.index n)
      rw [readEach, readEach, hrest, hfirst]

/-- Records whose fields are read alike are read alike. -/
theorem KeyedDecoder.fields_congr {c c' : KeyedDecoder} {arguments : List DataType}
    {fs : List Field} (h : ∀ f ∈ fs, c.field s arguments f = c'.field s arguments f) :
    c.fields s arguments fs = c'.fields s arguments fs := by
  induction fs with
  | nil => rfl
  | cons f rest ih =>
    rw [fields, fields, h f (List.mem_cons_self ..),
      ih fun g hg => h g (List.mem_cons_of_mem _ hg)]

/-- A field is read alike from similar entries, if entries of its type are. -/
theorem KeyedDecoder.field_eq_of_similar {as bs : List (String × Tree)} {p : CodingPath}
    {arguments : List DataType} {f : Field}
    (hentry : SimilarEntry s (f.coding.instantiate arguments) (as.lookup f.key) (bs.lookup f.key))
    (h : ∀ u a b, as.lookup f.key = some a → Similar s u a b →
      ∀ q, Decoder.decode s u ⟨a, q⟩ = Decoder.decode s u ⟨b, q⟩) :
    (KeyedDecoder.mk as p).field s arguments f = (KeyedDecoder.mk bs p).field s arguments f := by
  rw [field, field]
  generalize hcoding : f.coding.instantiate arguments = coding at hentry ⊢
  generalize ha : as.lookup f.key = entry at hentry
  generalize hb : bs.lookup f.key = entry' at hentry
  -- A null and no entry at all are the same to a field that may be absent.
  cases hentry with
  | excluded => rfl
  | absent =>
    cases coding with
    | required u => simp only [decode, ha, hb]
    | ifPresent u => simp only [decodeIfPresent, ha, hb]
    | excluded => rfl
  | @required u a b hsimilar =>
    have hread := h u a b ha hsimilar (p.key f.key)
    simp only [decode, ha, hb, hread]
  | @ifPresent u a b hsimilar =>
    have hread := h u a b ha hsimilar (p.key f.key)
    simp only [decodeIfPresent, ha, hb, hread, hsimilar.isNull_eq]
  | nullLeft u =>
    simp only [decodeIfPresent, ha, hb]
    rfl
  | nullRight u =>
    simp only [decodeIfPresent, ha, hb]
    rfl

/-! ### Similar trees are read alike -/

theorem decode_eq_of_similar (h : Similar s t a b) (p : CodingPath) :
    Decoder.decode s t ⟨a, p⟩ = Decoder.decode s t ⟨b, p⟩ := by
  induction t, a using decode_induction generalizing b p with
  | step t a hchild htype =>
    cases h with
    | same => rfl
    | @list u as bs hlength h =>
      rw [decode_list, decode_list, Decoder.elements, Decoder.elements]
      refine congrArg (Except.map Datum.list) (readEach_eq_of_zip hlength (fun ab hab q => ?_) p 0)
      exact hchild u ab.1 (sizeOf_lt_of_mem_items (List.of_mem_zip hab).1) (h ab hab) q
    | @option u _ _ h =>
      rw [decode_option, decode_option, htype u (by simp) h p]
      simp only [h.isNull_eq]
    | @pointer u _ _ h => rw [decode_pointer, decode_pointer, htype u (by simp) h p]
    | @record name arguments as bs h =>
      rw [decode_record, decode_record, Decoder.container, Decoder.container]
      refine congrArg (Except.map (Datum.record name)) (KeyedDecoder.fields_congr fun f hf => ?_)
      exact KeyedDecoder.field_eq_of_similar (h f hf) fun u a b hlookup hsimilar q =>
        hchild u a (sizeOf_lt_of_lookup hlookup) hsimilar q

/-- **Reading does not depend on what it does not look for**: similar trees are
read as the same value, or fail with the same error. -/
theorem ofTree_eq_of_similar (h : Similar s t a b) : t.ofTree s a = t.ofTree s b :=
  decode_eq_of_similar h .root

end

/-! ### A document written twice -/

namespace Rewritten

/-- A tree of the gallery has an optional label and a list of trees. -/
def node : DataType := .record "Tree" []

def forest : DataType := .list (.pointer node)

/-- A forest whose second tree has a child with a number for a label. -/
def document : Tree :=
  .array [.object [("label", .null), ("children", .array [])],
    .object [("children", .array [.object [("children", .array []), ("label", .integer 5)]])]]

/-- The same with other keys, in another order, and with the labels that are
missing exchanged for `null` and the other way round. -/
def rewritten : Tree :=
  .array [.object [("children", .array []), ("note", .bool true)],
    .object [("label", .null),
      ("children", .array
        [.object [("label", .integer 5), ("children", .array []), ("label", .text "b")]]),
      ("children", .null)]]

/-- Two trees are similar if their labels and their children are. -/
theorem similar_node {as bs : List (String × Tree)}
    (hlabel : SimilarEntry Gallery.schema (.ifPresent .string) (as.lookup "label") (bs.lookup "label"))
    (hchildren : SimilarEntry Gallery.schema (.required (.list node)) (as.lookup "children")
      (bs.lookup "children")) : Similar Gallery.schema node (.object as) (.object bs) := by
  refine .record fun f hf => ?_
  rw [show Gallery.schema.fieldsOf "Tree" = [⟨"label", "label", .ifPresent .string⟩,
    ⟨"children", "children", .required (.list node)⟩] from rfl] at hf
  simp only [List.mem_cons, List.not_mem_nil, or_false] at hf
  rcases hf with rfl | rfl
  · exact hlabel
  · exact hchildren

theorem similar_document : Similar Gallery.schema forest document rewritten := by
  refine .list rfl (List.forall_mem_cons.mpr ⟨.pointer ?_, List.forall_mem_singleton.mpr (.pointer ?_)⟩)
  · exact similar_node (.nullLeft _) (.required (.same _ _))
  · refine similar_node (.nullRight _) (.required (.list rfl (List.forall_mem_singleton.mpr ?_)))
    exact similar_node (.ifPresent (.same _ _)) (.required (.same _ _))

/-- Both documents fail at the same label. -/
theorem document_read_alike :
    Similar Gallery.schema forest document rewritten ∧
      forest.ofTree Gallery.schema document = forest.ofTree Gallery.schema rewritten ∧
      forest.ofTree Gallery.schema rewritten
        = .error (.typeMismatch "string" "integer"
            ⟨[.index 1, .key "children", .index 0, .key "label"]⟩) :=
  ⟨similar_document, ofTree_eq_of_similar similar_document, by rfl⟩

end Rewritten

end RecordCoding
