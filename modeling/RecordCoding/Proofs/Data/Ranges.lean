/-
What is read of a tree whose integers may be out of range.

`OfShape` are the values of a type but for the range of its integers: each may be
any integer.  What such a value is written as is read as the value itself if all
its integers are in range, and the first that is not makes the error if not.

* `Datum.integers` — the integers of a value with their kinds and the steps to
  them, in the order of the fields and the elements;
* `OfShape.failures_eq` — what is wrong with the tree of such a value is its
  integers out of range, and nothing else;
* `OfShape.decode_of_fits`, `decode_of_misfit` — so it is read as the value, or with
  the error of the first of them.

Design notes: a value of a shape has nothing to forget.  Apart from the integers
it is in normal form, so that what is read of it needs no rules of its own.
-/
import RecordCoding.Proofs.Data.Parts
import RecordCoding.Proofs.Data.RoundTrip
import RecordCoding.Proofs.Reading.Blame

namespace RecordCoding

/-! ### The integers of a value -/

/-- An integer, and the kind it is to be of. -/
structure TypedInteger where
  kind : IntegerKind
  value : Int
  deriving DecidableEq, Repr

namespace TypedInteger

def fits (x : TypedInteger) : Bool := x.kind.holds x.value

/-- The error for an integer out of range, under a path. -/
def error (p : CodingPath) (place : List PathStep × TypedInteger) : DecodeError :=
  .outOfRange (toString place.2.value) place.2.kind.name ⟨p.steps ++ place.1⟩

theorem error_below (p : CodingPath) (step : PathStep) (place : List PathStep × TypedInteger) :
    error p (below step place) = error (p.appending step) place := by
  show DecodeError.outOfRange _ _ ⟨p.steps ++ step :: place.1⟩
    = DecodeError.outOfRange _ _ ⟨p.steps ++ [step] ++ place.1⟩
  rw [List.append_assoc]
  rfl

end TypedInteger

/-- The errors of the integers that are out of range. -/
def rangeErrors (p : CodingPath) (places : List (List PathStep × TypedInteger)) :
    List DecodeError :=
  (places.filter fun place => !place.2.fits).map (TypedInteger.error p)

theorem rangeErrors_append (p : CodingPath) (places more : List (List PathStep × TypedInteger)) :
    rangeErrors p (places ++ more) = rangeErrors p places ++ rangeErrors p more := by
  rw [rangeErrors, List.filter_append, List.map_append]
  rfl

theorem rangeErrors_below (p : CodingPath) (step : PathStep)
    (places : List (List PathStep × TypedInteger)) :
    rangeErrors p (places.map (below step)) = rangeErrors (p.appending step) places := by
  rw [rangeErrors, List.filter_map, List.map_map, rangeErrors]
  exact List.map_congr_left fun place _ => TypedInteger.error_below p step place

theorem rangeErrors_flatMap {α : Type} (p : CodingPath) (l : List α)
    (g : α → List (List PathStep × TypedInteger)) :
    rangeErrors p (l.flatMap g) = l.flatMap fun x => rangeErrors p (g x) := by
  induction l with
  | nil => rfl
  | cons x rest ih => rw [List.flatMap_cons, rangeErrors_append, ih, List.flatMap_cons]

/-- Nothing is wrong if everything fits, and else the first that does not. -/
theorem head?_rangeErrors (p : CodingPath) (places : List (List PathStep × TypedInteger)) :
    (rangeErrors p places).head?
      = (places.find? fun place => !place.2.fits).map (TypedInteger.error p) := by
  rw [rangeErrors, List.head?_map, List.head?_filter]

namespace Datum

mutual

/-- The integers in a value, with the steps to them. -/
def integers (s : Schema) : DataType → Datum → List (List PathStep × TypedInteger)
  | .integer kind, .integer n => [([], ⟨kind, n⟩)]
  | .list t, .list items => integersOfItems s t 0 items
  | .option t, .present d => integers s t d
  | .pointer t, .pointer d => integers s t d
  | .record name arguments, .record _ fields =>
    integersOfFields s arguments (s.fieldsOf name) fields
  | _, _ => []

/-- Those in the elements of a list from an index on. -/
def integersOfItems (s : Schema) (t : DataType) (index : Nat) :
    List Datum → List (List PathStep × TypedInteger)
  | [] => []
  | d :: rest =>
    (integers s t d).map (below (.index index)) ++ integersOfItems s t (index + 1) rest

/-- Those in the keyed fields of a record, in the order of declaration. -/
def integersOfFields (s : Schema) (arguments : List DataType) :
    List Field → List (String × Datum) → List (List PathStep × TypedInteger)
  | f :: fs, (_, d) :: ds =>
    match (f.coding.instantiate arguments).type? with
    | some t => (integers s t d).map (below (.key f.key)) ++ integersOfFields s arguments fs ds
    | none => integersOfFields s arguments fs ds
  | _, _ => []

end

variable {s : Schema} {t : DataType} {arguments : List DataType}

theorem integersOfItems_eq_flatMap (index : Nat) (items : List Datum) :
    integersOfItems s t index items
      = (items.zipIdx index).flatMap fun di => (integers s t di.1).map (below (.index di.2)) := by
  induction items generalizing index with
  | nil => rfl
  | cons d rest ih => rw [integersOfItems, ih, List.zipIdx_cons, List.flatMap_cons]

/-- The integers of one field. -/
def integersOfField (s : Schema) (arguments : List DataType) (fv : Field × (String × Datum)) :
    List (List PathStep × TypedInteger) :=
  match (fv.1.coding.instantiate arguments).type? with
  | some t => (integers s t fv.2.2).map (below (.key fv.1.key))
  | none => []

theorem integersOfFields_eq_flatMap (fs : List Field) (ds : List (String × Datum)) :
    integersOfFields s arguments fs ds = (fs.zip ds).flatMap (integersOfField s arguments) := by
  induction fs generalizing ds with
  | nil => cases ds <;> rfl
  | cons f fs ih =>
    cases ds with
    | nil => rfl
    | cons v ds =>
      rw [integersOfFields, List.zip_cons_cons, List.flatMap_cons, integersOfField, ih]
      rcases (f.coding.instantiate arguments).type? with _ | t <;> rfl

theorem settledItems_of_forall {narrow : Single → Single} {items : List Datum}
    (h : ∀ d ∈ items, d.Settled narrow s t) : SettledItems narrow s t items := by
  induction items with
  | nil => trivial
  | cons d rest ih =>
    exact ⟨h d (List.mem_cons_self ..), ih fun e he => h e (List.mem_cons_of_mem _ he)⟩

theorem settledFields_of_forall {narrow : Single → Single} {fs : List Field}
    {ds : List (String × Datum)}
    (h : ∀ f v, (f, v) ∈ fs.zip ds →
      (∀ t, (f.coding.instantiate arguments).type? = some t → v.2.Settled narrow s t) ∧
        ((f.coding.instantiate arguments).type? = none → f.coding.initial v.2 = v.2)) :
    SettledFields narrow s arguments fs ds := by
  induction fs generalizing ds with
  | nil => cases ds <;> trivial
  | cons f fs ih =>
    cases ds with
    | nil => trivial
    | cons v ds =>
      have hrest := ih fun g w hmem => h g w (List.mem_cons_of_mem _ hmem)
      obtain ⟨hkeyed, hexcluded⟩ := h f v (List.mem_cons_self ..)
      rw [SettledFields]
      rcases htype : (f.coding.instantiate arguments).type? with _ | t
      · exact ⟨hexcluded htype, hrest⟩
      · exact ⟨hkeyed t htype, hrest⟩

end Datum

/-! ### Values but for the range of integers -/

/-- The values of a type but for the range of its integers, with nothing to forget:
no optional value stands over a `null`, and excluded fields are at their defaults. -/
inductive OfShape (s : Schema) : DataType → Datum → Prop
  | bool (b : Bool) : OfShape s .bool (.bool b)
  | string (v : String) : OfShape s .string (.string v)
  | char (c : Char) : OfShape s .char (.char c)
  | double (x : Double) : OfShape s .double (.double x)
  | tree (t : Tree) : OfShape s .tree (.tree t)
  | integer (kind : IntegerKind) (n : Int) : OfShape s (.integer kind) (.integer n)
  | list {t : DataType} {items : List Datum} (h : ∀ d ∈ items, OfShape s t d) :
      OfShape s (.list t) (.list items)
  | absent (t : DataType) : OfShape s (.option t) .absent
  | present {t : DataType} {d : Datum} (hnull : d.writesNull s t = false) (h : OfShape s t d) :
      OfShape s (.option t) (.present d)
  | pointer {t : DataType} {d : Datum} (h : OfShape s t d) : OfShape s (.pointer t) (.pointer d)
  | record {name : String} {arguments : List DataType} {fields : List (String × Datum)}
      (hnames : fields.map (·.1) = (s.fieldsOf name).map (·.name))
      (h : ∀ f v t, (f, v) ∈ (s.fieldsOf name).zip fields →
        (f.coding.instantiate arguments).type? = some t → OfShape s t v.2)
      (hinitial : ∀ f v, (f, v) ∈ (s.fieldsOf name).zip fields →
        (f.coding.instantiate arguments).type? = none → f.coding.initial v.2 = v.2) :
      OfShape s (.record name arguments) (.record name fields)

namespace OfShape

variable {s : Schema} {t : DataType} {d : Datum} {p : CodingPath} {tree : Tree}

/-- With every integer in range, a value of a shape is a value of the type. -/
theorem ofType (h : OfShape s t d) (hfits : ∀ place ∈ d.integers s t, place.2.fits) :
    OfType s t d := by
  induction h with
  | bool b => exact .bool b
  | string v => exact .string v
  | char c => exact .char c
  | double x => exact .double x
  | tree written => exact .tree written
  | integer kind n => exact .integer (hfits ([], ⟨kind, n⟩) (List.mem_singleton_self _))
  | list _ ih =>
    refine .list fun d hd => ih d hd fun place hplace => ?_
    obtain ⟨i, hi⟩ := List.mem_iff_getElem?.mp hd
    refine hfits (RecordCoding.below (.index i) place) ?_
    rw [Datum.integers, Datum.integersOfItems_eq_flatMap, List.mem_flatMap]
    exact ⟨(d, i), List.mk_mem_zipIdx_iff_getElem?.mpr hi, List.mem_map_of_mem hplace⟩
  | absent t => exact .absent t
  | present _ _ ih => exact .present (ih hfits)
  | pointer _ ih => exact .pointer (ih hfits)
  | record hnames _ _ ih =>
    refine .record hnames fun f v u hmem htype => ih f v u hmem htype fun place hplace => ?_
    refine hfits (RecordCoding.below (.key f.key) place) ?_
    rw [Datum.integers, Datum.integersOfFields_eq_flatMap, List.mem_flatMap]
    refine ⟨(f, v), hmem, ?_⟩
    simp only [Datum.integersOfField, htype]
    exact List.mem_map_of_mem hplace

theorem settled (h : OfShape s t d) (narrow : Single → Single) : d.Settled narrow s t := by
  induction h with
  | list _ ih => exact Datum.settledItems_of_forall ih
  | present hnull _ ih => exact ⟨hnull, ih⟩
  | pointer _ ih => exact ih
  | record _ _ hinitial ih =>
    exact Datum.settledFields_of_forall fun f v hmem =>
      ⟨fun u htype => ih f v u hmem htype, hinitial f v hmem⟩
  | _ => trivial

/-! ### What is wrong with the tree -/

/-- The trees of elements, one by one. -/
theorem failures_items {items : List Datum} {ts : List Tree}
    (h : ∀ d ∈ items, ∀ q tree, (d.writing s t).treeAt q = .ok tree →
      failures s t tree q = rangeErrors q (d.integers s t)) (index : Nat)
    (hts : Writing.trees (Datum.writingOfItems s t items) p index = .ok ts) :
    ((ts.zipIdx index).flatMap fun ti => failures s t ti.1 (p.index ti.2))
      = rangeErrors p (Datum.integersOfItems s t index items) := by
  induction items generalizing index ts with
  | nil =>
    obtain rfl := Except.ok.inj hts
    rfl
  | cons d rest ih =>
    rw [Datum.writingOfItems, Writing.trees_cons] at hts
    obtain ⟨first, hfirst, hts⟩ := exists_of_bind_eq_ok hts
    obtain ⟨others, hothers, rfl⟩ := exists_of_map_eq_ok hts
    have hrest := ih (fun e he => h e (List.mem_cons_of_mem _ he)) (index + 1) hothers
    rw [List.zipIdx_cons, List.flatMap_cons, hrest, h d (List.mem_cons_self ..) _ _ hfirst,
      Datum.integersOfItems, rangeErrors_append, rangeErrors_below]
    rfl

/-- An entry that is there is wrong as a field where it is wrong as a value. -/
theorem fieldFailures_of_lookup {arguments : List DataType} {c : KeyedDecoder} {f : Field}
    (htype : (f.coding.instantiate arguments).type? = some t)
    (hlookup : c.entries.lookup f.key = some tree) :
    fieldFailures s arguments c f = failures s t tree (c.path.key f.key) := by
  obtain hcoding | ⟨u, rfl, hcoding⟩ := FieldCoding.eq_of_type?_eq_some htype
  · simp only [fieldFailures, hcoding, hlookup]
  · simp only [fieldFailures, hcoding, hlookup]
    rw [failures.eq_def s (.option u)]

theorem fieldFailures_of_excluded {arguments : List DataType} {c : KeyedDecoder} {f : Field}
    (htype : (f.coding.instantiate arguments).type? = none) :
    fieldFailures s arguments c f = [] := by
  obtain ⟨initial, hcoding⟩ := FieldCoding.exists_of_type?_eq_none htype
  rw [fieldFailures, hcoding]
  rfl

theorem failures_integer {kind : IntegerKind} {n : Int}
    (htree : ((Datum.integer n).writing s (.integer kind)).treeAt p = .ok tree) :
    failures s (.integer kind) tree p = rangeErrors p ((Datum.integer n).integers s (.integer kind)) := by
  rw [Datum.writing, Writing.treeAt_integer] at htree
  by_cases hfits : fitsInt64 n
  · rw [if_pos hfits] at htree
    obtain rfl := Except.ok.inj htree
    have hvalue : (Int64.ofInt n).toInt = n := Codec.toInt_ofInt_of_fits hfits
    have herror : Decoder.outOfRange ⟨.integer (Int64.ofInt n), p⟩ kind.name
        = TypedInteger.error p ([], ⟨kind, n⟩) := by
      show DecodeError.outOfRange (String.ofList (printedInt (Int64.ofInt n).toInt)) kind.name p = _
      rw [hvalue, ofList_printedInt, TypedInteger.error, List.append_nil]
    rw [failures.eq_def, Datum.integers]
    simp only [hvalue, herror]
    by_cases hholds : kind.holds n <;> simp [rangeErrors, TypedInteger.fits, hholds]
  · rw [if_neg hfits] at htree
    exact absurd htree (by simp)

/-- What is wrong with a record is what is wrong with its keyed fields. -/
theorem failures_record {name : String} {arguments : List DataType}
    {fields : List (String × Datum)}
    (hnames : fields.map (·.1) = (s.fieldsOf name).map (·.name))
    (h : ∀ f v u, (f, v) ∈ (s.fieldsOf name).zip fields →
      (f.coding.instantiate arguments).type? = some u → ∀ q child,
        (v.2.writing s u).treeAt q = .ok child →
          failures s u child q = rangeErrors q (v.2.integers s u))
    (htree : ((Datum.record name fields).writing s (.record name arguments)).treeAt p = .ok tree) :
    failures s (.record name arguments) tree p
      = rangeErrors p ((Datum.record name fields).integers s (.record name arguments)) := by
  rw [Datum.treeAt_record] at htree
  obtain ⟨-, entries, -, rfl⟩ := Encoder.writtenTree_putAll_fresh.mp htree
  -- Both sides go through the fields in the order of declaration.
  have hlength : (s.fieldsOf name).length ≤ fields.length := by
    simpa using (congrArg List.length hnames).ge
  rw [failures_object, Datum.integers, Datum.integersOfFields_eq_flatMap, rangeErrors_flatMap]
  conv => lhs; rw [← List.map_fst_zip hlength, List.flatMap_map]
  refine List.flatMap_congr fun fv hmem => ?_
  obtain ⟨f, v⟩ := fv
  rw [Datum.integersOfField]
  rcases htype : (f.coding.instantiate arguments).type? with _ | u
  · exact fieldFailures_of_excluded htype
  · have hwrite := Datum.mem_writingOfFields (s := s) hmem htype
    obtain ⟨child, hchild, hlookup⟩ :=
      Encoder.lookup_of_putAll_fresh htree (List.mem_map.mpr ⟨_, hwrite, rfl⟩)
    rw [fieldFailures_of_lookup htype hlookup]
    simp only
    rw [rangeErrors_below]
    exact h f v u hmem htype _ child hchild

/-- What is wrong with the tree of a value of a shape is its integers out of range. -/
theorem failures_eq (h : OfShape s t d) (htree : (d.writing s t).treeAt p = .ok tree) :
    failures s t tree p = rangeErrors p (d.integers s t) := by
  induction h generalizing p tree with
  | bool b =>
    obtain rfl := Except.ok.inj htree
    rw [failures.eq_def]
    rfl
  | string v =>
    obtain rfl := Except.ok.inj htree
    rw [failures.eq_def]
    rfl
  | char c =>
    have htree : Except.ok (Tree.text (String.singleton c)) = Except.ok tree := htree
    obtain rfl := Except.ok.inj htree
    rw [failures.eq_def]
    exact if_pos (by rw [String.toList_singleton]; rfl)
  | double x =>
    obtain rfl := Except.ok.inj htree
    rw [failures.eq_def]
    rfl
  | tree written =>
    rw [failures.eq_def]
    rfl
  | integer kind n => exact failures_integer htree
  | list _ ih =>
    rw [Datum.writing, Writing.treeAt_elements] at htree
    obtain ⟨ts, hts, rfl⟩ := exists_of_map_eq_ok htree
    rw [failures_array]
    exact failures_items (fun d hd q tree htree => ih d hd htree) 0 hts
  | absent t =>
    obtain rfl := Except.ok.inj htree
    rw [failures.eq_def]
    rfl
  | @present t d hnull _ ih =>
    have htree : (Codec.ofType s t).treeAt d p = .ok tree := htree
    rw [failures.eq_def]
    simp only [Codec.isNull_of_treeAt htree, hnull]
    exact ih htree
  | pointer _ ih =>
    rw [failures.eq_def]
    exact ih htree
  | record hnames _ _ ih =>
    exact failures_record hnames (fun f v u hmem htype q child => ih f v u hmem htype) htree

/-- With every integer in range, a value of a shape is read as it is. -/
theorem decode_of_fits (h : OfShape s t d) (htree : (d.writing s t).treeAt p = .ok tree)
    (hfits : ∀ place ∈ d.integers s t, place.2.fits) : Decoder.decode s t ⟨tree, p⟩ = .ok d := by
  have htype : OfType s t d := h.ofType hfits
  have hread : Decoder.decode s t ⟨tree, p⟩ = .ok (d.normal Single.withoutPayload s t) :=
    Codec.reads_normal htype p tree htree
  rw [hread, Datum.normal_eq_of_settled htype (h.settled _)]

/-- The first integer out of range makes the error. -/
theorem decode_of_misfit (h : OfShape s t d) (htree : (d.writing s t).treeAt p = .ok tree)
    {place : List PathStep × TypedInteger}
    (hfirst : (d.integers s t).find? (fun place => !place.2.fits) = some place) :
    Decoder.decode s t ⟨tree, p⟩ = .error (TypedInteger.error p place) := by
  have hstops := readsToFirst s t tree p
  rw [h.failures_eq htree] at hstops
  have herror : (rangeErrors p (d.integers s t)).head? = some (TypedInteger.error p place) := by
    rw [head?_rangeErrors, hfirst, Option.map_some]
  rcases hread : Decoder.decode s t ⟨tree, p⟩ with err | e <;> rw [hread] at hstops
  · have hhead : (rangeErrors p (d.integers s t)).head? = some err := hstops
    rw [Option.some.inj (hhead.symm.trans herror)]
  · have hnone : rangeErrors p (d.integers s t) = [] := hstops
    rw [hnone] at herror
    exact absurd herror (by simp)

end OfShape

end RecordCoding
