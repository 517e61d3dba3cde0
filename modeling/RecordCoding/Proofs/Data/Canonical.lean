/-
What a tree is turned into when it is read and written again.

`Tree.canonical` says what of a tree a type keeps: the first entry under each key
of a record, in the order of declaration, with `null` for what is missing, and
numbers as the type holds them.  It looks neither at the reader nor at the
encoder.

* `Restored` — a value that is written as the canonical form of a tree and has
  nothing to forget;
* `restored_of_decode` — whatever is read of a tree is such a value;
* `toTree_ofTree` — so it is written again without failing, as the canonical
  form, which is read as the same value and is canonical itself.

Design notes:

* A missing key and `null` have the same canonical form, so a field is always
  said to be read from a tree, be it a `null` that is not there.
* A tree of the wrong kind is its own canonical form; nothing is read of it.
-/
import RecordCoding.Proofs.Data.Reference
import RecordCoding.Proofs.Data.RoundTrip

namespace RecordCoding

/-! ### Canonical forms -/

theorem sizeOf_getD_lookup_lt (entries : List (String × Tree)) (key : String) :
    sizeOf ((entries.lookup key).getD .null) < sizeOf (Tree.object entries) := by
  rcases hlookup : entries.lookup key with _ | child
  · have : 0 < sizeOf entries := by cases entries <;> simp
    simp only [Option.getD_none, Tree.null.sizeOf_spec, Tree.object.sizeOf_spec]
    omega
  · exact sizeOf_lt_of_lookup hlookup

namespace Tree

/-- What a tree is as a value of a type, and nothing else of it. -/
def canonical (s : Schema) (t : DataType) (tree : Tree) : Tree :=
  match t with
  | .single =>
    match tree with
    | .double x => .double x.toSingle.toDouble
    -- Rounded twice, first to a double.
    | .integer n => .double (Double.ofInt n.toInt).toSingle.toDouble
    | _ => tree
  | .double =>
    match tree with
    | .integer n => .double (.ofInt n.toInt)
    | _ => tree
  | .list u =>
    match tree with
    | .array items => .array (items.attach.map fun ⟨item, _⟩ => item.canonical s u)
    | _ => tree
  | .option u => tree.canonical s u
  | .pointer u => tree.canonical s u
  | .record name arguments =>
    match tree with
    | .object entries =>
      -- The keys of the record in their order, whatever the order of the entries.
      .object ((s.fieldsOf name).filterMap fun f =>
        (f.coding.instantiate arguments).type?.map fun u =>
          (f.key, ((entries.lookup f.key).getD .null).canonical s u))
    | _ => tree
  | _ => tree
  termination_by (tree, t)
  decreasing_by
  · exact .left _ _ (sizeOf_lt_of_mem_items ‹_›)
  · exact .right _ (by simp)
  · exact .right _ (by simp)
  · exact .left _ _ (sizeOf_getD_lookup_lt _ _)

variable {s : Schema}

theorem canonical_array (u : DataType) (items : List Tree) :
    (array items).canonical s (.list u) = .array (items.map (canonical s u)) := by
  rw [canonical]
  conv => rhs; rw [← List.attach_map_subtype_val items, List.map_map]
  rfl

/-- The entries of a record are those of its keyed fields, in the order of declaration. -/
theorem canonical_object (name : String) (arguments : List DataType)
    (entries : List (String × Tree)) :
    (object entries).canonical s (.record name arguments)
      = .object ((s.fieldsOf name).filterMap fun f =>
          (f.coding.instantiate arguments).type?.map fun u =>
            (f.key, ((entries.lookup f.key).getD .null).canonical s u)) := by
  rw [canonical]

/-- Being `null` is kept. -/
theorem isNull_canonical (t : DataType) (tree : Tree) :
    (tree.canonical s t).isNull = tree.isNull := by
  induction t, tree using decode_induction with
  | step t tree _ htype =>
    rw [canonical.eq_def]
    cases t with
    | option u => exact htype u (by simp)
    | pointer u => exact htype u (by simp)
    | single => cases tree <;> rfl
    | double => cases tree <;> rfl
    | list u => cases tree <;> rfl
    | record name arguments => cases tree <;> rfl
    | _ => rfl

theorem canonical_null (t : DataType) : null.canonical s t = null := by
  have hnull := isNull_canonical (s := s) t null
  cases hcanonical : null.canonical s t with
  | null => rfl
  | _ =>
    rw [hcanonical] at hnull
    exact absurd hnull (by simp [isNull])

end Tree

/-! ### Types that can be written and read -/

namespace DataType

/-- Whether values of a type are what looks at a decoder show. -/
def inspects : DataType → Bool
  | .inspecting _ => true
  | _ => false

/-- No part of a type looks around in its decoder, and no record among the parts
has two keys of one text. -/
structure Codable (s : Schema) (t : DataType) : Prop where
  blind : ∀ u, Part s t u → u.inspects = false
  distinct : ∀ name arguments, Part s t (.record name arguments) → (s.keysOf name).texts.Nodup

variable {s : Schema} {t u : DataType}

theorem Codable.next (h : t.Codable s) (hu : u ∈ t.next s) : u.Codable s :=
  ⟨fun v hv => h.blind v (.step hu hv), fun name arguments hv => h.distinct name arguments (.step hu hv)⟩

end DataType

/-- The parts of a value are of parts of its type. -/
theorem Leads.part {s : Schema} {t u : DataType} {d e : Datum} {steps : List PathStep}
    (h : Leads s t d steps u e) : DataType.Part s t u := by
  induction h with
  | here => exact .refl _
  | present _ ih => exact .step (List.mem_singleton_self _) ih
  | pointer _ ih => exact .step (List.mem_singleton_self _) ih
  | item _ _ ih => exact .step (List.mem_singleton_self _) ih
  | field hfield htype _ ih =>
    exact .step (List.mem_filterMap.mpr ⟨_, (List.of_mem_zip hfield).1, htype⟩) ih

theorem DataType.Codable.distinctKeys {s : Schema} {t : DataType} (h : t.Codable s) (d : Datum) :
    DistinctKeys s t d := by
  intro steps name arguments n fields hleads
  exact h.distinct name arguments hleads.part

/-! ### Values that restore a tree -/

/-- A value of a type that stands for a tree and has nothing to forget. -/
structure Restored (s : Schema) (t : DataType) (tree : Tree) (d : Datum) : Prop where
  ofType : OfType s t d
  settled : d.Settled Single.withoutPayload s t
  reference : d.reference s t = tree.canonical s t
  /-- No integer in the value is beyond what a tree holds. -/
  fits : d.oversized s t = []

/-- A field that restores the first entry under its key, or starts from its default. -/
structure RestoredField (s : Schema) (arguments : List DataType) (entries : List (String × Tree))
    (f : Field) (v : String × Datum) : Prop where
  name : v.1 = f.name
  keyed : ∀ u, (f.coding.instantiate arguments).type? = some u →
    Restored s u ((entries.lookup f.key).getD .null) v.2
  excluded : (f.coding.instantiate arguments).type? = none → f.coding.initial v.2 = v.2

namespace Restored

variable {s : Schema} {t u : DataType} {tree : Tree} {d : Datum} {arguments : List DataType}

theorem writesNull_eq (h : Restored s t tree d) (hnull : tree.isNull = false) :
    d.writesNull s t = false := by
  rw [Datum.writesNull]
  rcases htree : d.toTree s t with err | written
  · rfl
  · obtain ⟨rfl, -⟩ := Datum.toTree_eq_reference h.ofType htree
    show (d.reference s t).isNull = false
    rw [h.reference, Tree.isNull_canonical, hnull]

theorem absent (u : DataType) : Restored s (.option u) .null .absent := by
  refine ⟨.absent u, trivial, ?_, rfl⟩
  rw [Tree.canonical_null]
  rfl

theorem present (h : Restored s u tree d) (hnull : tree.isNull = false) :
    Restored s (.option u) tree (.present d) := by
  refine ⟨.present h.ofType, ?_, ?_, h.fits⟩
  · rw [Datum.Settled]
    exact ⟨h.writesNull_eq hnull, h.settled⟩
  · rw [Datum.reference, Tree.canonical, h.reference]

theorem pointer (h : Restored s u tree d) : Restored s (.pointer u) tree (.pointer d) := by
  refine ⟨.pointer h.ofType, ?_, ?_, h.fits⟩
  · rw [Datum.Settled]
    exact h.settled
  · rw [Datum.reference, Tree.canonical, h.reference]

theorem list {items : List Tree} {ds : List Datum} (h : List.Forall₂ (Restored s u) items ds) :
    Restored s (.list u) (.array items) (.list ds) := by
  refine ⟨.list fun d hd => ?_, ?_, ?_, ?_⟩
  · obtain ⟨item, -, hitem⟩ := exists_mem_of_forall₂ h hd
    exact hitem.ofType
  · rw [Datum.Settled]
    induction h with
    | nil => trivial
    | cons hd _ ih => exact ⟨hd.settled, ih⟩
  · rw [Datum.reference, Datum.referenceOfItems_eq_map, Tree.canonical_array]
    exact congrArg Tree.array (map_eq_map_of_forall₂ h fun _ _ hd => hd.reference.symm).symm
  · rw [Datum.oversized, Datum.oversizedOfItems_eq_flatMap, List.flatMap_eq_nil_iff]
    intro di hdi
    obtain ⟨item, -, hitem⟩ := exists_mem_of_forall₂ h (List.fst_mem_of_mem_zipIdx hdi)
    rw [hitem.fits, List.map_nil]

/-- Fields that are at their defaults or have nothing to forget. -/
theorem settledFields {entries : List (String × Tree)} {fs : List Field}
    {ds : List (String × Datum)} (h : List.Forall₂ (RestoredField s arguments entries) fs ds) :
    Datum.SettledFields Single.withoutPayload s arguments fs ds := by
  induction h with
  | nil => trivial
  | @cons f v fs ds hv _ ih =>
    rw [Datum.SettledFields]
    rcases htype : (f.coding.instantiate arguments).type? with _ | u
    · exact ⟨hv.excluded htype, ih⟩
    · exact ⟨(hv.keyed u htype).settled, ih⟩

theorem referenceOfFields_eq {entries : List (String × Tree)} {fs : List Field}
    {ds : List (String × Datum)} (h : List.Forall₂ (RestoredField s arguments entries) fs ds) :
    Datum.referenceOfFields s arguments fs ds
      = fs.filterMap fun f => (f.coding.instantiate arguments).type?.map fun u =>
          (f.key, ((entries.lookup f.key).getD .null).canonical s u) := by
  induction h with
  | nil => rfl
  | @cons f v fs ds hv _ ih =>
    rw [Datum.referenceOfFields, List.filterMap_cons]
    rcases htype : (f.coding.instantiate arguments).type? with _ | u
    · exact ih
    · rw [Option.map_some, ← (hv.keyed u htype).reference]
      exact congrArg _ ih

theorem record {name : String} {entries : List (String × Tree)} {ds : List (String × Datum)}
    (h : List.Forall₂ (RestoredField s arguments entries) (s.fieldsOf name) ds) :
    Restored s (.record name arguments) (.object entries) (.record name ds) := by
  refine ⟨.of_forall₂ (h.imp fun f v hv => ⟨hv.name, fun u hu => (hv.keyed u hu).ofType⟩), ?_, ?_, ?_⟩
  · rw [Datum.Settled]
    exact settledFields h
  · rw [Datum.reference, Tree.canonical_object, referenceOfFields_eq h]
  · rw [Datum.oversized, List.eq_nil_iff_forall_not_mem]
    intro place hplace
    obtain ⟨f, v, u, hmem, hu, hplace⟩ := Datum.mem_oversizedOfFields.mp hplace
    have hv : RestoredField s arguments entries f v := (List.forall₂_iff_zip.mp h).2 hmem
    rw [(hv.keyed u hu).fits] at hplace
    exact absurd hplace (by simp)

/-- A restored value is written as the canonical form of its tree. -/
theorem toTree_eq (h : Restored s t tree d) (hdistinct : DistinctKeys s t d) :
    d.toTree s t = .ok (tree.canonical s t) := by
  rcases htree : d.toTree s t with err | written
  · obtain ⟨steps, n, hfirst, -⟩ := Datum.head?_oversized_of_error h.ofType htree hdistinct
    rw [h.fits] at hfirst
    exact absurd hfirst (by simp)
  · obtain ⟨rfl, -⟩ := Datum.toTree_eq_reference h.ofType htree
    rw [h.reference]

end Restored

/-! ### What is read is restored -/

section

variable {s : Schema} {t u : DataType} {tree : Tree} {d : Datum} {arguments : List DataType}

/-- Whatever is read of a tree restores it. -/
def Restores (s : Schema) (t : DataType) (tree : Tree) : Prop :=
  ∀ p d, Decoder.decode s t ⟨tree, p⟩ = .ok d → Restored s t tree d

/-- What was read of elements, one by one. -/
theorem forall₂_of_readEach {α : Type} {read : Decoder → Except DecodeError α} {p : CodingPath}
    {items : List Tree} {n : Nat} {as : List α} (h : readEach read p items n = .ok as) :
    List.Forall₂ (fun item a => ∃ q, read ⟨item, q⟩ = .ok a) items as := by
  induction items generalizing n as with
  | nil =>
    obtain rfl := Except.ok.inj h
    exact .nil
  | cons item rest ih =>
    rw [readEach_cons] at h
    obtain ⟨a, hread, h⟩ := exists_of_bind_eq_ok h
    obtain ⟨others, hrest, rfl⟩ := exists_of_map_eq_ok h
    exact .cons ⟨_, hread⟩ (ih hrest)

/-- What was read of fields, one by one. -/
theorem KeyedDecoder.forall₂_of_fields {c : KeyedDecoder} {fs : List Field}
    {ds : List (String × Datum)} (h : c.fields s arguments fs = .ok ds) :
    List.Forall₂ (fun f v => v.1 = f.name ∧ c.field s arguments f = .ok v.2) fs ds := by
  induction fs generalizing ds with
  | nil =>
    obtain rfl := Except.ok.inj h
    exact .nil
  | cons f rest ih =>
    rw [fields_cons] at h
    obtain ⟨d, hread, h⟩ := exists_of_bind_eq_ok h
    obtain ⟨others, hrest, rfl⟩ := exists_of_map_eq_ok h
    exact .cons ⟨rfl, hread⟩ (ih hrest)

/-- A double is read of a double or of an integer. -/
theorem Decoder.double_eq_ok {p : CodingPath} {x : Double}
    (h : (Decoder.mk tree p).double = .ok x) :
    tree = .double x ∨ ∃ n : Int64, tree = .integer n ∧ x = .ofInt n.toInt := by
  rw [double] at h
  cases tree with
  | double y => exact Or.inl (congrArg Tree.double (Except.ok.inj h))
  | integer n => exact Or.inr ⟨n, rfl, (Except.ok.inj h).symm⟩
  | _ => exact absurd h (by simp)

/-- A type that nothing is read as. -/
theorem restores_of_error (h : ∀ p, ∃ err, Decoder.decode s t ⟨tree, p⟩ = .error err) :
    Restores s t tree := by
  intro p d hread
  obtain ⟨err, herr⟩ := h p
  exact absurd (hread.symm.trans herr) (by simp)

theorem restores_bool : Restores s .bool tree := by
  intro p d h
  rw [decode_bool] at h
  cases tree with
  | bool b =>
    obtain rfl := Except.ok.inj h
    exact ⟨.bool b, trivial, by rw [Tree.canonical.eq_def]; rfl, rfl⟩
  | _ => exact absurd h (by simp)

theorem restores_string : Restores s .string tree := by
  intro p d h
  rw [decode_string] at h
  cases tree with
  | text v =>
    obtain rfl := Except.ok.inj h
    exact ⟨.string v, trivial, by rw [Tree.canonical.eq_def]; rfl, rfl⟩
  | _ => exact absurd h (by simp)

theorem restores_tree : Restores s .tree tree := by
  intro p d h
  rw [decode_tree] at h
  obtain rfl := Except.ok.inj h
  exact ⟨.tree tree, trivial, by rw [Tree.canonical.eq_def]; rfl, rfl⟩

theorem restores_single : Restores s .single tree := by
  intro p d h
  rw [decode_single] at h
  obtain ⟨x, hx, rfl⟩ := exists_of_map_eq_ok h
  refine ⟨.single _, Single.withoutPayload_toSingle x, ?_, rfl⟩
  obtain rfl | ⟨n, rfl, rfl⟩ := Decoder.double_eq_ok hx
  · rw [Tree.canonical.eq_def]
    rfl
  · rw [Tree.canonical.eq_def]
    rfl

theorem restores_double : Restores s .double tree := by
  intro p d h
  rw [decode_double] at h
  obtain ⟨x, hx, rfl⟩ := exists_of_map_eq_ok h
  refine ⟨.double _, trivial, ?_, rfl⟩
  obtain rfl | ⟨n, rfl, rfl⟩ := Decoder.double_eq_ok hx
  · rw [Tree.canonical.eq_def]
    rfl
  · rw [Tree.canonical.eq_def]
    rfl

theorem restores_char : Restores s .char tree := by
  intro p d h
  rw [decode_char] at h
  obtain ⟨c, hc, rfl⟩ := exists_of_map_eq_ok h
  refine ⟨.char c, trivial, ?_, rfl⟩
  rw [Decoder.char] at hc
  rw [Tree.canonical.eq_def, Datum.reference]
  cases tree with
  | text v =>
    rcases hv : v.toList with _ | ⟨a, _ | ⟨b, rest⟩⟩
    · simp [hv] at hc
    · simp only [hv] at hc
      obtain rfl := Except.ok.inj hc
      rw [← String.ofList_toList (s := v), hv]
      rfl
    · simp [hv] at hc
  | _ => exact absurd hc (by simp)

/-- An integer of a tree is held by a tree. -/
theorem exceeds_toInt (kind : IntegerKind) (n : Int64) : kind.exceeds n.toInt = false := by
  rw [IntegerKind.exceeds, Bool.and_eq_false_iff]
  exact Or.inr (decide_eq_false (Int.not_lt.mpr n.toInt_le))

theorem restores_integer (kind : IntegerKind) : Restores s (.integer kind) tree := by
  intro p d h
  rw [decode_integer] at h
  obtain ⟨n, hn, rfl⟩ := exists_of_map_eq_ok h
  rw [Decoder.integer] at hn
  cases tree with
  | integer i =>
    by_cases hholds : kind.holds i.toInt
    · simp only [if_pos hholds] at hn
      obtain rfl := Except.ok.inj hn
      refine ⟨.integer hholds, trivial, ?_, ?_⟩
      · rw [Tree.canonical.eq_def, Datum.reference, Int64.ofInt_toInt]
      · rw [Datum.oversized, exceeds_toInt]
        rfl
    · simp only [if_neg hholds] at hn
      exact absurd hn (by simp)
  | _ => exact absurd hn (by simp)

theorem restores_list
    (h : ∀ items, tree = .array items → ∀ child ∈ items, Restores s u child) :
    Restores s (.list u) tree := by
  intro p d hread
  rw [decode_list] at hread
  obtain ⟨ds, hds, rfl⟩ := exists_of_map_eq_ok hread
  rw [Decoder.elements] at hds
  cases tree with
  | array items =>
    have hread := (List.forall₂_and_left items ds).mpr ⟨fun _ hitem => hitem, forall₂_of_readEach hds⟩
    refine .list (hread.imp ?_)
    rintro item d ⟨hitem, q, hq⟩
    exact h items rfl item hitem q d hq
  | _ => exact absurd hds (by simp)

theorem restores_option (h : Restores s u tree) : Restores s (.option u) tree := by
  intro p d hread
  rw [decode_option] at hread
  by_cases hnull : tree.isNull
  · rw [if_pos hnull] at hread
    obtain rfl := Except.ok.inj hread
    cases tree with
    | null => exact .absent u
    | _ => exact absurd hnull (by simp [Tree.isNull])
  · rw [if_neg hnull] at hread
    obtain ⟨e, he, rfl⟩ := exists_of_map_eq_ok hread
    exact (h p e he).present (eq_false_of_ne_true hnull)

theorem restores_pointer (h : Restores s u tree) : Restores s (.pointer u) tree := by
  intro p d hread
  rw [decode_pointer] at hread
  obtain ⟨e, he, rfl⟩ := exists_of_map_eq_ok hread
  exact (h p e he).pointer

/-- A field restores the first entry under its key. -/
theorem restoredField_of_field {entries : List (String × Tree)} {p : CodingPath} {f : Field}
    {v : String × Datum} (hname : v.1 = f.name)
    (hfield : (KeyedDecoder.mk entries p).field s arguments f = .ok v.2)
    (h : ∀ u child, (f.coding.instantiate arguments).type? = some u →
      entries.lookup f.key = some child → Restores s u child) :
    RestoredField s arguments entries f v := by
  refine ⟨hname, fun u hu => ?_, fun hnone => ?_⟩
  · rcases hlookup : entries.lookup f.key with _ | child
    · rw [KeyedDecoder.field] at hfield
      obtain hcoding | ⟨w, rfl, hcoding⟩ := FieldCoding.eq_of_type?_eq_some hu
      · simp [hcoding, KeyedDecoder.decode, hlookup] at hfield
      · -- Without an entry there is no value, as with a `null`.
        simp only [hcoding, KeyedDecoder.decodeIfPresent, hlookup] at hfield
        rw [← Except.ok.inj hfield]
        exact .absent w
    · rw [KeyedDecoder.field_of_lookup hu hlookup] at hfield
      exact h u child hu hlookup _ _ hfield
  · rw [KeyedDecoder.field_of_excluded hnone v.2] at hfield
    exact Except.ok.inj hfield

theorem restores_record {name : String}
    (h : ∀ entries, tree = .object entries → ∀ f ∈ s.fieldsOf name, ∀ u child,
      (f.coding.instantiate arguments).type? = some u → entries.lookup f.key = some child →
        Restores s u child) :
    Restores s (.record name arguments) tree := by
  intro p d hread
  rw [decode_record, Decoder.container] at hread
  cases tree with
  | object entries =>
    obtain ⟨ds, hds, rfl⟩ := exists_of_map_eq_ok hread
    have hread := (List.forall₂_and_left (s.fieldsOf name) ds).mpr
      ⟨fun _ hf => hf, KeyedDecoder.forall₂_of_fields hds⟩
    refine .record (hread.imp ?_)
    rintro f v ⟨hf, hname, hfield⟩
    exact restoredField_of_field hname hfield (h entries rfl f hf)
  | _ => exact absurd hread (by simp)

theorem restored_of_decode (hcodable : t.Codable s) : Restores s t tree := by
  induction t, tree using decode_induction with
  | step t tree hchild htype =>
    cases t with
    | bool => exact restores_bool
    | string => exact restores_string
    | char => exact restores_char
    | single => exact restores_single
    | double => exact restores_double
    | tree => exact restores_tree
    | integer kind => exact restores_integer kind
    | list u =>
      refine restores_list fun items htree child hmem => ?_
      subst htree
      exact hchild u child (sizeOf_lt_of_mem_items hmem) (hcodable.next (List.mem_singleton_self u))
    | option u => exact restores_option (htype u (by simp) (hcodable.next (List.mem_singleton_self u)))
    | pointer u =>
      exact restores_pointer (htype u (by simp) (hcodable.next (List.mem_singleton_self u)))
    | record name arguments =>
      refine restores_record fun entries htree f hf u child hu hlookup => ?_
      subst htree
      exact hchild u child (sizeOf_lt_of_lookup hlookup)
        (hcodable.next (List.mem_filterMap.mpr ⟨f, hf, hu⟩))
    -- A type that only looks at a tree does not keep it.
    | inspecting => exact absurd (hcodable.blind _ (.refl _)) (by simp [DataType.inspects])
    | failing message => exact restores_of_error fun p => ⟨_, decode_failing s message _⟩
    | parameter i => exact restores_of_error fun p => ⟨_, decode_parameter s i _⟩
    | scripted w => exact restores_of_error fun p => ⟨_, decode_scripted s w _⟩

/-- **Reading and writing again makes a tree canonical**: whatever was read is
written without failing, and what it is written as is read as the same value and
does not change any more. -/
theorem toTree_ofTree (hcodable : t.Codable s) (h : t.ofTree s tree = .ok d) :
    d.toTree s t = .ok (tree.canonical s t) ∧
      t.ofTree s (tree.canonical s t) = .ok d ∧
      (tree.canonical s t).canonical s t = tree.canonical s t := by
  have hrestored : Restored s t tree d := restored_of_decode hcodable .root d h
  have htree : d.toTree s t = .ok (tree.canonical s t) :=
    hrestored.toTree_eq (hcodable.distinctKeys d)
  have hread : t.ofTree s (tree.canonical s t) = .ok d := by
    have hnormal := Codec.reads_normal hrestored.ofType .root _ htree
    rw [Datum.normal_eq_of_settled hrestored.ofType hrestored.settled] at hnormal
    exact hnormal
  refine ⟨htree, hread, ?_⟩
  have hagain : Restored s t (tree.canonical s t) d := restored_of_decode hcodable .root d hread
  rw [← hagain.reference, hrestored.reference]

end

/-! ### A chain written by another hand -/

namespace Disordered

open Chain (schema link)

/-- A chain with its keys in another order, with keys of no field, with a key
written twice, a NaN that has a payload, and an integer for a weight. -/
def document : Tree :=
  .object [("next", .object [("label", .text "b"), ("weight", .integer 3), ("weight", .null)]),
    ("note", .bool true), ("weight", .double ⟨0xfff8000000000001⟩), ("cache", .array [.bool true])]

/-- The chain that is read. -/
def chain : Datum :=
  .record "Link" [("weight", .single .nan), ("cache", .list []), ("label", .absent),
    ("next", .present (.pointer (.record "Link" [("weight", .single ⟨0x40400000⟩),
      ("cache", .list []), ("label", .present (.present (.string "b"))), ("next", .absent)])))]

/-- What it is written as. -/
def ordered : Tree :=
  .object [("weight", .double .nan), ("label", .null),
    ("next", .object [("weight", .double ⟨0x4008000000000000⟩), ("label", .text "b"),
      ("next", .null)])]

theorem codable_link : link.Codable schema := by
  have hnext : link.next schema = [.single, .option (.option .string), .option (.pointer link)] :=
    rfl
  have hclosed : ∀ t ∈ [link, .single, .option (.option .string), .option .string, .string,
      .option (.pointer link), .pointer link], ∀ u ∈ t.next schema,
        u ∈ [link, .single, .option (.option .string), .option .string, .string,
          .option (.pointer link), .pointer link] := by
    simp only [List.forall_mem_cons, hnext]
    simp [DataType.next]
  refine ⟨fun u hu => ?_, fun name _ _ => schema.nodup_keysOf (by decide) name⟩
  have hmem := hu.mem_of_closed hclosed (List.mem_cons_self ..)
  simp only [List.mem_cons, List.not_mem_nil, or_false] at hmem
  rcases hmem with rfl | rfl | rfl | rfl | rfl | rfl | rfl <;> rfl

/-- The chain is put in order, and stays so. -/
theorem chain_put_in_order :
    link.Codable schema ∧ link.ofTree schema document = .ok chain ∧
      chain.toTree schema link = .ok ordered ∧ link.ofTree schema ordered = .ok chain ∧
      ordered.canonical schema link = ordered := by
  have hread : link.ofTree schema document = .ok chain := by
    have hnan : Double.toSingle ⟨0xfff8000000000001⟩ = .nan := by decide
    have hthree : (Double.ofInt 3).toSingle = ⟨0x40400000⟩ := by decide +kernel
    rw [chain, ← hnan, ← hthree]
    rfl
  have hwritten : chain.toTree schema link = .ok ordered := by
    have hnan : Single.nan.toDouble = .nan := by decide
    have hthree : Single.toDouble ⟨0x40400000⟩ = ⟨0x4008000000000000⟩ := by decide +kernel
    rw [ordered, ← hnan, ← hthree]
    rfl
  obtain ⟨htree, hagain, hcanonical⟩ := toTree_ofTree codable_link hread
  rw [hwritten, Except.ok.injEq] at htree
  rw [← htree] at hagain hcanonical
  exact ⟨codable_link, hread, hwritten, hagain, hcanonical⟩

end Disordered

end RecordCoding
