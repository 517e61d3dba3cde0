/-
What excluded fields hold does not show in an encoding.

`Alike` relates the values of a type that agree everywhere except in the
excluded fields of records, at any depth.  `FieldValue.Alike` does the same for
the values that generated members write, over whatever relation the types of the
fields come with.

* `Datum.writing_eq_of_alike` — alike values ask the same of their encoder;
* `Members.encode_eq_of_alike` — so do records of generated members, if their
  keyed fields are alike;
* `encoding_ignores_excluded` — hence the same tree or the same error, and the
  same encoder left behind, whatever it held before.

Design notes: an excluded field is in no premise of `Alike.record`, so it may hold
anything, be it a value that could not be written.
-/
import RecordCoding.Proofs.Synthesis.Listings

namespace RecordCoding

/-! ### Values that agree in what is written -/

/-- Values of a type that agree everywhere except in excluded fields. -/
inductive Alike (s : Schema) : DataType → Datum → Datum → Prop
  | same (t : DataType) (d : Datum) : Alike s t d d
  | list {t : DataType} {as bs : List Datum} (hlength : as.length = bs.length)
      (h : ∀ ab ∈ as.zip bs, Alike s t ab.1 ab.2) : Alike s (.list t) (.list as) (.list bs)
  | present {t : DataType} {a b : Datum} (h : Alike s t a b) :
      Alike s (.option t) (.present a) (.present b)
  | pointer {t : DataType} {a b : Datum} (h : Alike s t a b) :
      Alike s (.pointer t) (.pointer a) (.pointer b)
  | record {name n : String} {arguments : List DataType} {as bs : List (String × Datum)}
      (hnames : as.map (·.1) = bs.map (·.1))
      (h : ∀ f v w t, (f, v, w) ∈ (s.fieldsOf name).zip (as.zip bs) →
        (f.coding.instantiate arguments).type? = some t → Alike s t v.2 w.2) :
      Alike s (.record name arguments) (.record n as) (.record n bs)

namespace Datum

variable {s : Schema} {t : DataType} {d e : Datum} {arguments : List DataType}

/-- Elements that are written alike one by one. -/
theorem writingOfItems_eq_of_zip {as bs : List Datum} (hlength : as.length = bs.length)
    (h : ∀ ab ∈ as.zip bs, ab.1.writing s t = ab.2.writing s t) :
    writingOfItems s t as = writingOfItems s t bs := by
  induction as generalizing bs with
  | nil =>
    obtain rfl := List.eq_nil_of_length_eq_zero hlength.symm
    rfl
  | cons a as ih =>
    cases bs with
    | nil => exact absurd hlength (by simp)
    | cons b bs =>
      have hfirst : a.writing s t = b.writing s t := h (a, b) (List.mem_cons_self ..)
      have hrest := ih (Nat.succ.inj hlength) fun ab hab => h ab (List.mem_cons_of_mem _ hab)
      rw [writingOfItems, writingOfItems, hfirst, hrest]

/-- Fields are written alike if the keyed ones are, whatever the others hold. -/
theorem writingOfFields_eq_of_zip {fs : List Field} {as bs : List (String × Datum)}
    (hlength : as.length = bs.length)
    (h : ∀ f v w t, (f, v, w) ∈ fs.zip (as.zip bs) →
      (f.coding.instantiate arguments).type? = some t → v.2.writing s t = w.2.writing s t) :
    writingOfFields s arguments fs as = writingOfFields s arguments fs bs := by
  induction fs generalizing as bs with
  | nil => cases as <;> cases bs <;> rfl
  | cons f fs ih =>
    rcases as with _ | ⟨v, as⟩ <;> rcases bs with _ | ⟨w, bs⟩
    · rfl
    · exact absurd hlength (by simp)
    · exact absurd hlength (by simp)
    · have hrest := ih (Nat.succ.inj hlength) fun g x y t hmem =>
        h g x y t (List.mem_cons_of_mem _ hmem)
      rw [writingOfFields, writingOfFields]
      rcases htype : (f.coding.instantiate arguments).type? with _ | t
      -- An excluded field is not looked at.
      · exact hrest
      · have hfirst := h f v w t (List.mem_cons_self ..) htype
        simp only [hfirst, hrest]

/-- Values that agree in what is written ask the same of their encoder. -/
theorem writing_eq_of_alike (h : Alike s t d e) : d.writing s t = e.writing s t := by
  induction h with
  | same => rfl
  | list hlength _ ih =>
    rw [writing, writing]
    exact congrArg Writing.elements (writingOfItems_eq_of_zip hlength ih)
  | present _ ih => rw [writing, writing, ih]
  | pointer _ ih => rw [writing, writing, ih]
  | record hnames _ ih =>
    have hlength := congrArg List.length hnames
    rw [List.length_map, List.length_map] at hlength
    rw [writing, writing]
    exact congrArg Writing.keyed (writingOfFields_eq_of_zip hlength ih)

end Datum

/-! ### Records of generated members -/

section

variable {V : Path → Type} {O : Type} {codecs : ∀ p, Codec (V p)} {R : ∀ p, V p → V p → Prop}

/-- Values of fields that agree, as far as the types they are built from tell
them apart. -/
inductive FieldValue.Alike (R : ∀ p, V p → V p → Prop) :
    FieldValue V O → FieldValue V O → Prop
  | scalar {p : Path} {x y : V p} (h : R p x y) : Alike R (.scalar p x) (.scalar p y)
  | optionalScalar {p : Path} {x y : Option (V p)} (h : Option.Rel (R p) x y) :
      Alike R (.optionalScalar p x) (.optionalScalar p y)
  | sequence {p : Path} {xs ys : List (V p)} (h : List.Forall₂ (R p) xs ys) :
      Alike R (.sequence p xs) (.sequence p ys)
  | optionalSequence {p : Path} {xs ys : Option (List (V p))}
      (h : Option.Rel (List.Forall₂ (R p)) xs ys) :
      Alike R (.optionalSequence p xs) (.optionalSequence p ys)
  | other (x : O) : Alike R (.other x) (.other x)

/-- A codec that writes related values alike. -/
def Codec.Respects {α : Type} (c : Codec α) (r : α → α → Prop) : Prop :=
  ∀ x y, r x y → c.encode x = c.encode y

namespace Codec.Respects

variable {α : Type} {c : Codec α} {r : α → α → Prop}

theorem option (h : c.Respects r) : c.option.Respects (Option.Rel r) := by
  intro x y hxy
  cases hxy with
  | none => rfl
  | some hr =>
    funext e
    exact congrFun (h _ _ hr) e

theorem treesOf_eq (h : c.Respects r) {xs ys : List α} (hxs : List.Forall₂ r xs ys) (p : CodingPath)
    (index : Nat) : c.treesOf xs p index = c.treesOf ys p index := by
  induction hxs generalizing index with
  | nil => rfl
  | cons hxy _ ih => rw [treesOf, treesOf, treeAt, treeAt, h _ _ hxy, ih]

theorem list (h : c.Respects r) : c.list.Respects (List.Forall₂ r) := by
  intro xs ys hxs
  funext e
  simp only [Codec.list, h.treesOf_eq hxs]

theorem treeAt_eq (h : c.Respects r) {x y : α} (hxy : r x y) : c.treeAt x = c.treeAt y := by
  funext p
  rw [treeAt, treeAt, h x y hxy]

end Codec.Respects

theorem FieldValue.Alike.maker_eq (hR : ∀ p, (codecs p).Respects (R p)) {v w : FieldValue V O}
    (h : FieldValue.Alike R v w) : v.maker codecs = w.maker codecs := by
  cases h with
  | scalar h => exact congrArg some ((hR _).treeAt_eq h)
  | optionalScalar h => exact congrArg some ((hR _).option.treeAt_eq h)
  | sequence h => exact congrArg some ((hR _).list.treeAt_eq h)
  | optionalSequence h => exact congrArg some ((hR _).list.option.treeAt_eq h)
  | other => rfl

theorem mapM_option_congr {α β : Type} {f g : α → Option β} {l : List α} (h : ∀ x ∈ l, f x = g x) :
    l.mapM f = l.mapM g := by
  induction l with
  | nil => rfl
  | cons x rest ih =>
    rw [List.mapM_cons, List.mapM_cons, h x (List.mem_cons_self ..),
      ih fun y hy => h y (List.mem_cons_of_mem _ hy)]

/-- Generated code writes records alike whose keyed fields are. -/
theorem Members.encode_eq_of_alike (hR : ∀ p, (codecs p).Respects (R p)) {d : Declaration}
    {m : Members} (hm : d.members = .ok m) {self other : RecordValue V O}
    (h : ∀ f ∈ d.fields, f.keyed → FieldValue.Alike R (self f.name.name) (other f.name.name))
    (e : Encoder) : m.encode codecs self e = m.encode codecs other e := by
  obtain rfl := Declaration.members_eq_built hm
  rw [encode, encode]
  refine congrArg (Option.map e.opened.putAll) (mapM_option_congr fun s hs => ?_)
  -- Every statement is that of a keyed field.
  rw [Declaration.encoding_built, Declaration.map_keyedFields d fun f => EncodeStatement.mk f.name] at hs
  obtain ⟨f, hf, rfl⟩ := List.mem_map.mp hs
  obtain ⟨hmem, hkeyed⟩ := List.mem_filter.mp hf
  rw [EncodeStatement.write, EncodeStatement.write, (h f hmem hkeyed).maker_eq hR]

end

/-- **Excluded fields never show.**  Values that agree in everything else are
encoded to the same tree or fail with the same error, and leave any encoder they
are written into in the same state; so do the records of generated members. -/
theorem encoding_ignores_excluded :
    (∀ (s : Schema) (t : DataType) (d e : Datum), Alike s t d e →
      d.toTree s t = e.toTree s t ∧
        ∀ encoder : Encoder, (d.writing s t).run encoder = (e.writing s t).run encoder) ∧
      ∀ (V : Path → Type) (O : Type) (codecs : ∀ p, Codec (V p)) (R : ∀ p, V p → V p → Prop),
        (∀ p, (codecs p).Respects (R p)) → ∀ (d : Declaration) (m : Members), d.members = .ok m →
          ∀ self other : RecordValue V O,
            (∀ f ∈ d.fields, f.keyed →
              FieldValue.Alike R (self f.name.name) (other f.name.name)) →
            ∀ encoder, m.encode codecs self encoder = m.encode codecs other encoder := by
  refine ⟨fun s t d e h => ?_, fun V O codecs R hR d m hm self other h encoder => ?_⟩
  · have hwriting := Datum.writing_eq_of_alike h
    exact ⟨congrArg Writing.toTree hwriting, fun encoder => by rw [hwriting]⟩
  · exact Members.encode_eq_of_alike hR hm h encoder

/-! ### Secrets at every depth -/

namespace Secrets

/-- A generic chain whose links keep a secret. -/
def link : RecordType :=
  ⟨"Link", [⟨"head", "head", .required (.parameter 0)⟩, ⟨"secret", "secret", .excluded .absent⟩,
    ⟨"next", "next", .ifPresent (.pointer (.record "Link" [.parameter 0]))⟩]⟩

def schema : Schema := [link]

def chain : DataType := .list (.record "Link" [.integer .u64])

/-- A chain of two links, the second one with a number that no tree holds. -/
def linked (outer inner : Datum) : Datum :=
  .list [.record "Link" [("head", .integer 1), ("secret", outer),
    ("next", .present (.pointer (.record "Link" [("head", .integer 18446744073709551615),
      ("secret", inner), ("next", .absent)])))]]

/-- Links are alike if all but their secrets are. -/
theorem alike_link {head secret other next next' : Datum}
    (h : Alike schema (.option (.pointer (.record "Link" [.integer .u64]))) next next') :
    Alike schema (.record "Link" [.integer .u64])
      (.record "Link" [("head", head), ("secret", secret), ("next", next)])
      (.record "Link" [("head", head), ("secret", other), ("next", next')]) := by
  refine .record rfl fun f v w t hmem htype => ?_
  rw [show schema.fieldsOf "Link" = link.fields from rfl] at hmem
  simp only [link, List.zip_cons_cons, List.zip_nil_right, List.mem_cons, List.not_mem_nil, or_false,
    Prod.mk.injEq] at hmem
  rcases hmem with ⟨rfl, rfl, rfl⟩ | ⟨rfl, rfl, rfl⟩ | ⟨rfl, rfl, rfl⟩
  · exact .same _ _
  · exact absurd htype (by simp [FieldCoding.instantiate, FieldCoding.type?])
  · obtain rfl := Option.some.inj htype
    exact h

/-- The secrets are of any kind, and one of them could not be written itself. -/
theorem alike_linked (a b c d : Datum) : Alike schema chain (linked a b) (linked c d) :=
  .list rfl (List.forall_mem_singleton.mpr (alike_link (.present (.pointer (alike_link (.same _ _))))))

/-- A text with a secret of its own, written as the text alone. -/
def labelCodec : Codec (String × Nat) where
  encode x e := (.ok (), e.write (.text x.1))
  decode d := .error (d.mismatch "string")

def label : Path := .plain false [.plain "Label"]

/-- A list of labels between a field that is skipped and one without a shape. -/
def declaration : Declaration where
  name := .plain "Sealed"
  kind := .record
  visibility := .everyone
  generics := .none
  settings := .initial
  fields :=
    [⟨.plain "key", .named label, false⟩, ⟨.plain "labels", .sequence (.named label), true⟩,
      ⟨.plain "lookup", .optional (.optional (.named label)), true⟩]
  location := .start

/-- A record with two labels; `secret` stands in all of its fields. -/
def sealed (secret : Nat) : RecordValue (fun _ => String × Nat) Nat
  | "key" => .scalar label ("", secret)
  | "labels" => .sequence label [("a", secret), ("b", secret + 1)]
  | _ => .other secret

theorem labelCodec_respects : labelCodec.Respects fun x y => x.1 = y.1 := by
  intro x y hxy
  simp only [labelCodec, hxy]

/-- The records agree in their only keyed field. -/
theorem alike_sealed (m n : Nat) :
    ∀ f ∈ declaration.fields, f.keyed →
      FieldValue.Alike (fun _ x y => x.1 = y.1) (sealed m f.name.name) (sealed n f.name.name) := by
  simp only [declaration, List.forall_mem_cons]
  exact ⟨fun h => absurd h (by decide), fun _ => .sequence (.cons rfl (.cons rfl .nil)),
    fun h => absurd h (by decide), by simp⟩

/-- Different secrets: the same error at the same place, and the same entries. -/
theorem secrets_unseen :
    (Alike schema chain (linked .absent .absent)
        (linked (.integer 18446744073709551615) (.record "Link" [])) ∧
      (linked .absent .absent).toTree schema chain
        = (linked (.integer 18446744073709551615) (.record "Link" [])).toTree schema chain ∧
      (linked .absent .absent).toTree schema chain
        = .error (.outOfRange 18446744073709551615 ⟨[.index 0, .key "next", .key "head"]⟩)) ∧
      (labelCodec.Respects fun x y => x.1 = y.1) ∧
      declaration.members = .ok declaration.built ∧
      (∀ f ∈ declaration.fields, f.keyed →
        FieldValue.Alike (fun _ x y => x.1 = y.1) (sealed 1 f.name.name) (sealed 2 f.name.name)) ∧
      declaration.built.encode (fun _ => labelCodec) (sealed 1) (.fresh .root)
        = declaration.built.encode (fun _ => labelCodec) (sealed 2) (.fresh .root) ∧
      declaration.built.encode (fun _ => labelCodec) (sealed 2) (.fresh .root)
        = some (.ok (), ⟨.root, none, some [("labels", .array [.text "a", .text "b"])]⟩) := by
  have hmembers : declaration.members = .ok declaration.built := by rfl
  obtain ⟨hdata, hcode⟩ := encoding_ignores_excluded
  obtain ⟨htree, -⟩ := hdata schema chain _ _
    (alike_linked .absent .absent (.integer 18446744073709551615) (.record "Link" []))
  refine ⟨⟨alike_linked .., htree, by rfl⟩, labelCodec_respects, hmembers, alike_sealed 1 2, ?_, by rfl⟩
  exact hcode _ Nat (fun _ => labelCodec) _ (fun _ => labelCodec_respects) declaration _ hmembers
    (sealed 1) (sealed 2) (alike_sealed 1 2) (.fresh .root)

end Secrets

end RecordCoding
