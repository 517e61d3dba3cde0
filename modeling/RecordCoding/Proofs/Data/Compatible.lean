/-
Reading at a compatible type.

A type is compatible with another one if both are built alike, from the same
leaves, but for the kinds of integers, for pointers, and for optional values in
the place of values that are never written as `null`.  Whatever is written at the
one type is read at the other: the numbers are the same, and they are checked
against the kinds of the type that is read.

* `Datum.recast` — the value of the other type that stands for a value;
* `Compatible.writing_recast` — it is written alike;
* `Compatible.ofShape_recast` — it is of the other type, but for the range of its
  integers;
* `ofTree_of_compatible` — what is read at the other type, or what is not.

Design notes:

* `recast` goes down the value.  What it makes at one node follows the type as
  long as it stays there, through the pointers and options of the other type.
* An option is only added around a type whose values are never written as `null`,
  so a value stands behind an option of its own or an added one, never both.
-/
import RecordCoding.Proofs.Data.Ranges

namespace RecordCoding

/-! ### Types that are compatible -/

/-- Whether no value of a type is written as `null`. -/
def DataType.NeverNull (s : Schema) (t : DataType) : Prop :=
  ∀ d, OfType s t d → d.writesNull s t = false

/-- A type whose values show that they are there. -/
def DataType.solid : DataType → Bool
  | .bool | .string | .char | .single | .double | .integer _ | .list _ | .record .. => true
  | .pointer t => t.solid
  | _ => false

theorem DataType.neverNull_of_solid {s : Schema} {t : DataType} (h : t.solid) : t.NeverNull s := by
  intro d hd
  rw [← Bool.not_eq_true, Datum.writesNull_iff]
  intro hnull
  have hwriting := Datum.writing_eq_of_toTree_eq_null hd hnull
  clear hnull
  -- What stands behind pointers is written as itself.
  induction hd with
  | pointer _ ih => exact ih h hwriting
  | absent | present | tree => exact absurd h (by simp [solid])
  | _ => exact absurd hwriting (by simp [Datum.writing])

/-- Whether what is written at the first type may be read at the second. -/
inductive Compatible (s : Schema) : DataType → DataType → Prop
  | bool : Compatible s .bool .bool
  | string : Compatible s .string .string
  | char : Compatible s .char .char
  | double : Compatible s .double .double
  | tree : Compatible s .tree .tree
  /-- Any kind of integers for any other. -/
  | integer (k l : IntegerKind) : Compatible s (.integer k) (.integer l)
  | list {t u : DataType} (h : Compatible s t u) : Compatible s (.list t) (.list u)
  | option {t u : DataType} (h : Compatible s t u) : Compatible s (.option t) (.option u)
  /-- A pointer that is taken away. -/
  | unpoint {t u : DataType} (h : Compatible s t u) : Compatible s (.pointer t) u
  /-- A pointer that is added. -/
  | point {t u : DataType} (h : Compatible s t u) : Compatible s t (.pointer u)
  /-- An option that is added. -/
  | added {t u : DataType} (hnull : t.NeverNull s) (h : Compatible s t u) :
      Compatible s t (.option u)
  /-- One record, with arguments that make the types of its fields compatible. -/
  | record {name : String} {ts us : List DataType}
      (h : ∀ f ∈ s.fieldsOf name, ∀ t u, (f.coding.instantiate ts).type? = some t →
        (f.coding.instantiate us).type? = some u → Compatible s t u) :
      Compatible s (.record name ts) (.record name us)

/-! ### The value at the other type -/

namespace DataType

/-- A value with the pointers of a type around it, and the options, each of them
there. -/
def wrap (content : DataType → Datum) : DataType → Datum
  | .pointer u => .pointer (u.wrap content)
  | .option u => .present (u.wrap content)
  | u => content u

/-- No value, behind the pointers of a type. -/
def wrapAbsent : DataType → Datum
  | .pointer u => .pointer u.wrapAbsent
  | _ => .absent

/-- A value that is there, behind the pointers of a type. -/
def wrapPresent (content : DataType → Datum) : DataType → Datum
  | .pointer u => .pointer (u.wrapPresent content)
  | .option u => .present (content u)
  | u => content u

end DataType

namespace Datum

mutual

/-- What stands for a value at another type. -/
def recast (s : Schema) : Datum → DataType → Datum
  | .pointer d => recast s d
  | .absent => DataType.wrapAbsent
  | .present d => DataType.wrapPresent (recast s d)
  | .list items => DataType.wrap fun
    | .list u => .list (recastItems s items u)
    | _ => .list items
  | .record name fields => DataType.wrap fun
    | .record n us => .record name (recastFields s fields us (s.fieldsOf n))
    | _ => .record name fields
  | d => DataType.wrap fun _ => d

/-- What stands for the elements of a list. -/
def recastItems (s : Schema) : List Datum → DataType → List Datum
  | [], _ => []
  | d :: rest, u => recast s d u :: recastItems s rest u

/-- What stands for the fields of a record: excluded ones start from their defaults. -/
def recastFields (s : Schema) :
    List (String × Datum) → List DataType → List Field → List (String × Datum)
  | (name, d) :: ds, us, f :: fs =>
    match (f.coding.instantiate us).type? with
    | some u => (name, recast s d u) :: recastFields s ds us fs
    | none => (name, f.coding.initial d) :: recastFields s ds us fs
  | ds, _, _ => ds

end

variable {s : Schema} {t u : DataType} {d : Datum}

theorem recastItems_eq_map (items : List Datum) :
    recastItems s items u = items.map (recast s · u) := by
  induction items with
  | nil => rfl
  | cons d rest ih => rw [recastItems, ih, List.map_cons]

/-- A pointer of the other type is around all that stands for a value. -/
theorem recast_pointer : ∀ d : Datum, recast s d (.pointer u) = .pointer (recast s d u)
  | .pointer d => recast_pointer d
  | .absent => rfl
  | .present _ => rfl
  | .list _ => rfl
  | .record .. => rfl
  | .bool _ => rfl
  | .string _ => rfl
  | .char _ => rfl
  | .single _ => rfl
  | .double _ => rfl
  | .tree _ => rfl
  | .integer _ => rfl
  | .observed _ => rfl
  | .tuple _ => rfl
  | .map _ => rfl

theorem not_neverNull_option : ¬ (DataType.option t).NeverNull s := by
  intro h
  have hnull := h .absent (.absent t)
  exact absurd hnull (by simp [writesNull, toTree, writing, Writing.toTree, Writing.treeAt_tree, Tree.isNull])

/-- An option that is added is there. -/
theorem recast_option (hd : OfType s t d) (hnull : t.NeverNull s) :
    recast s d (.option u) = .present (recast s d u) := by
  induction hd with
  | pointer _ ih =>
    refine ih fun e he => ?_
    exact hnull (.pointer e) (.pointer he)
  | absent t => exact absurd hnull not_neverNull_option
  | present _ _ => exact absurd hnull not_neverNull_option
  | _ => rfl

/-! ### Fields one by one -/

/-- What stands for one field. -/
def recastField (s : Schema) (us : List DataType) (f : Field) (v : String × Datum) :
    String × Datum :=
  match (f.coding.instantiate us).type? with
  | some u => (v.1, recast s v.2 u)
  | none => (v.1, f.coding.initial v.2)

theorem zip_recastFields (us : List DataType) (fs : List Field) (ds : List (String × Datum)) :
    fs.zip (recastFields s ds us fs)
      = (fs.zip ds).map fun fv => (fv.1, recastField s us fv.1 fv.2) := by
  induction fs generalizing ds with
  | nil => rfl
  | cons f fs ih =>
    cases ds with
    | nil => rfl
    | cons v ds =>
      rw [recastFields, List.zip_cons_cons, List.map_cons, recastField, ← ih]
      rcases (f.coding.instantiate us).type? with _ | u <;> rfl

theorem names_recastFields (us : List DataType) (fs : List Field) (ds : List (String × Datum)) :
    (recastFields s ds us fs).map (·.1) = ds.map (·.1) := by
  induction ds generalizing fs with
  | nil => rfl
  | cons v ds ih =>
    cases fs with
    | nil => rfl
    | cons f fs =>
      rw [recastFields, List.map_cons, ← ih fs]
      rcases (f.coding.instantiate us).type? with _ | u <;> rfl

end Datum

/-- Whether a field is keyed does not depend on the arguments of its record. -/
theorem Field.types_of_arguments (f : Field) (ts us : List DataType) :
    ((f.coding.instantiate ts).type? = none ∧ (f.coding.instantiate us).type? = none) ∨
      ∃ t u, (f.coding.instantiate ts).type? = some t ∧
        (f.coding.instantiate us).type? = some u := by
  cases f.coding with
  | excluded initial => exact .inl ⟨rfl, rfl⟩
  | required t => exact .inr ⟨_, _, rfl, rfl⟩
  | ifPresent t => exact .inr ⟨_, _, rfl, rfl⟩

/-! ### Optional values -/

/-- Whether no optional value in a value stands over something written as `null`. -/
def NoneOverNull (s : Schema) (t : DataType) (d : Datum) : Prop :=
  ∀ steps u e, Leads s t d steps (.option u) (.present e) → e.writesNull s u = false

namespace NoneOverNull

variable {s : Schema} {t : DataType} {d : Datum}

theorem present (h : NoneOverNull s (.option t) (.present d)) : NoneOverNull s t d :=
  fun steps u e hleads => h steps u e (.present hleads)

theorem pointer (h : NoneOverNull s (.pointer t) (.pointer d)) : NoneOverNull s t d :=
  fun steps u e hleads => h steps u e (.pointer hleads)

theorem item {items : List Datum} (h : NoneOverNull s (.list t) (.list items)) (hd : d ∈ items) :
    NoneOverNull s t d := by
  intro steps u e hleads
  obtain ⟨i, hi⟩ := List.mem_iff_getElem?.mp hd
  exact h (.index i :: steps) u e (.item hi hleads)

theorem field {name : String} {ts : List DataType} {fields : List (String × Datum)} {f : Field}
    {v : String × Datum} (h : NoneOverNull s (.record name ts) (.record name fields))
    (hfield : (f, v) ∈ (s.fieldsOf name).zip fields)
    (htype : (f.coding.instantiate ts).type? = some t) : NoneOverNull s t v.2 :=
  fun steps u e hleads => h (.key f.key :: steps) u e (.field hfield htype hleads)

end NoneOverNull

/-! ### Numbers and their places -/

/-- Integers in their places, of whatever kinds. -/
def numbers (places : List (List PathStep × TypedInteger)) : List (List PathStep × Int) :=
  places.map fun place => (place.1, place.2.value)

theorem numbers_below (step : PathStep) (places : List (List PathStep × TypedInteger)) :
    numbers (places.map (below step)) = (numbers places).map (below step) := by
  rw [numbers, numbers, List.map_map, List.map_map]
  rfl

theorem numbers_flatMap {α : Type} (l : List α) (g : α → List (List PathStep × TypedInteger)) :
    numbers (l.flatMap g) = l.flatMap fun x => numbers (g x) := List.map_flatMap

/-! ### The same tree -/

namespace Compatible

open Datum

variable {s : Schema} {t u : DataType} {d : Datum}

/-- A value is written as what stands for it at the other type. -/
theorem writing_recast (h : Compatible s t u) (hd : OfType s t d) :
    (d.recast s u).writing s u = d.writing s t := by
  induction h generalizing d with
  | bool | string | char | double | tree | integer =>
    cases hd
    rfl
  | list _ ih =>
    cases hd with
    | @list _ items hitems =>
      show (Datum.list (recastItems s _ _)).writing s _ = _
      rw [writing, writing, writingOfItems_eq_map, writingOfItems_eq_map, recastItems_eq_map,
        List.map_map]
      exact congrArg Writing.elements (List.map_congr_left fun e he => ih (hitems e he))
  | option _ ih =>
    cases hd with
    | absent => rfl
    | present he => exact ih he
  | unpoint _ ih =>
    cases hd with
    | pointer he => exact ih he
  | point _ ih =>
    rw [recast_pointer, writing]
    exact ih hd
  | added hnull _ ih =>
    rw [recast_option hd hnull, writing]
    exact ih hd
  | @record name ts us _ ih =>
    cases hd with
    | @record _ _ fields hnames hfields =>
      show (Datum.record name (recastFields s _ us (s.fieldsOf name))).writing s _ = _
      rw [writing, writing, writingOfFields_eq_filterMap, writingOfFields_eq_filterMap,
        zip_recastFields, List.filterMap_map]
      refine congrArg Writing.keyed (List.filterMap_congr fun fv hmem => ?_)
      obtain ⟨f, v⟩ := fv
      have hf : f ∈ s.fieldsOf name := (List.of_mem_zip hmem).1
      rcases f.types_of_arguments ts us with ⟨ht, hu⟩ | ⟨t, u, ht, hu⟩
      · simp only [Function.comp_apply, ht, hu, Option.map_none]
      · have hv := ih f hf t u ht hu (hfields f v t hmem ht)
        simp only [Function.comp_apply, ht, hu, Option.map_some, recastField, hv]

theorem writesNull_recast (h : Compatible s t u) (hd : OfType s t d) :
    (d.recast s u).writesNull s u = d.writesNull s t := by
  rw [writesNull, writesNull, toTree, toTree, h.writing_recast hd]

/-! ### The same numbers -/

/-- The integers of a value are those of what stands for it, in the same places. -/
theorem numbers_recast (h : Compatible s t u) (hd : OfType s t d) :
    numbers ((d.recast s u).integers s u) = numbers (d.integers s t) := by
  induction h generalizing d with
  | bool | string | char | double | tree | integer =>
    cases hd
    rfl
  | list _ ih =>
    cases hd with
    | @list _ items hitems =>
      show numbers ((Datum.list (recastItems s _ _)).integers s _) = _
      rw [integers, integers, integersOfItems_eq_flatMap, integersOfItems_eq_flatMap,
        recastItems_eq_map, List.zipIdx_map, List.flatMap_map, numbers_flatMap, numbers_flatMap]
      refine List.flatMap_congr fun di hmem => ?_
      rw [numbers_below, numbers_below]
      exact congrArg _ (ih (hitems di.1 (List.fst_mem_of_mem_zipIdx hmem)))
  | option _ ih =>
    cases hd with
    | absent => rfl
    | present he => exact ih he
  | unpoint _ ih =>
    cases hd with
    | pointer he => exact ih he
  | point _ ih =>
    rw [recast_pointer, integers]
    exact ih hd
  | added hnull _ ih =>
    rw [recast_option hd hnull, integers]
    exact ih hd
  | @record name ts us _ ih =>
    cases hd with
    | @record _ _ fields hnames hfields =>
      show numbers ((Datum.record name (recastFields s _ us (s.fieldsOf name))).integers s _) = _
      rw [integers, integers, integersOfFields_eq_flatMap, integersOfFields_eq_flatMap,
        zip_recastFields, List.flatMap_map, numbers_flatMap, numbers_flatMap]
      refine List.flatMap_congr fun fv hmem => ?_
      obtain ⟨f, v⟩ := fv
      have hf : f ∈ s.fieldsOf name := (List.of_mem_zip hmem).1
      rcases f.types_of_arguments ts us with ⟨ht, hu⟩ | ⟨t, u, ht, hu⟩
      · simp only [integersOfField, ht, hu]
      · have hv := ih f hf t u ht hu (hfields f v t hmem ht)
        simp only [integersOfField, ht, hu, recastField]
        rw [numbers_below, numbers_below, hv]

/-! ### A value but for the range of integers -/

/-- A record is of the shape if its keyed fields are; the others are put at their defaults. -/
theorem ofShape_recastFields {name : String} {us : List DataType} {fields : List (String × Datum)}
    (hnames : fields.map (·.1) = (s.fieldsOf name).map (·.name))
    (h : ∀ f v u, (f, v) ∈ (s.fieldsOf name).zip fields →
      (f.coding.instantiate us).type? = some u → OfShape s u (v.2.recast s u)) :
    OfShape s (.record name us) (.record name (recastFields s fields us (s.fieldsOf name))) := by
  refine .record ((names_recastFields us _ fields).trans hnames) ?keyed ?excluded
  case keyed =>
    intro f w u hmem hu
    rw [zip_recastFields] at hmem
    obtain ⟨⟨g, v⟩, hzip, hfw⟩ := List.mem_map.mp hmem
    obtain ⟨rfl, rfl⟩ := Prod.mk.inj hfw
    have hu : (g.coding.instantiate us).type? = some u := hu
    simp only [recastField, hu]
    exact h g v u hzip hu
  case excluded =>
    intro f w hmem hu
    rw [zip_recastFields] at hmem
    obtain ⟨⟨g, v⟩, -, hfw⟩ := List.mem_map.mp hmem
    obtain ⟨rfl, rfl⟩ := Prod.mk.inj hfw
    obtain ⟨initial, hcoding⟩ : ∃ initial, g.coding = .excluded initial :=
      FieldCoding.exists_of_type?_eq_none hu
    simp only [recastField, hcoding]
    rfl

/-- What stands for a value is of the other type, but for the range of its integers. -/
theorem ofShape_recast (h : Compatible s t u) (hd : OfType s t d) (hnone : NoneOverNull s t d) :
    OfShape s u (d.recast s u) := by
  induction h generalizing d with
  | bool =>
    cases hd
    exact .bool _
  | string =>
    cases hd
    exact .string _
  | char =>
    cases hd
    exact .char _
  | double =>
    cases hd
    exact .double _
  | tree =>
    cases hd
    exact .tree _
  | integer =>
    cases hd
    exact .integer _ _
  | list _ ih =>
    cases hd with
    | @list _ items hitems =>
      refine .list fun e he => ?_
      rw [recastItems_eq_map] at he
      obtain ⟨d, hd, rfl⟩ := List.mem_map.mp he
      exact ih (hitems d hd) (hnone.item hd)
  | @option t u hcompatible ih =>
    cases hd with
    | absent => exact .absent _
    | @present _ e he =>
      refine .present ?_ (ih he hnone.present)
      rw [hcompatible.writesNull_recast he]
      exact hnone [] t e (.here _ _)
  | unpoint _ ih =>
    cases hd with
    | @pointer _ e he =>
      show OfShape s _ (recast s e _)
      exact ih he hnone.pointer
  | point _ ih =>
    rw [recast_pointer]
    exact .pointer (ih hd hnone)
  | @added t u hnull hcompatible ih =>
    -- The option is new, and what stands in it was never null.
    rw [recast_option hd hnull]
    refine .present ?_ (ih hd hnone)
    rw [hcompatible.writesNull_recast hd]
    exact hnull d hd
  | @record name ts us _ ih =>
    cases hd with
    | @record _ _ fields hnames hfields =>
      refine ofShape_recastFields hnames fun f v u hzip hu => ?_
      rcases f.types_of_arguments ts us with ⟨-, hnone'⟩ | ⟨t, u', ht, hu'⟩
      · exact absurd (hnone'.symm.trans hu) (by simp)
      · obtain rfl : u' = u := Option.some.inj (hu'.symm.trans hu)
        have hf : f ∈ s.fieldsOf name := (List.of_mem_zip hzip).1
        exact ih f hf t u' ht hu (hfields f v t hzip ht) (hnone.field hzip ht)

end Compatible

/-! ### What is read at the other type -/

section

variable {s : Schema} {a b : DataType} {v : Datum} {tree : Tree}

/-- **What was written at a type is read at every compatible one**, without loss and
with no number changed: as the value that stands for the one that was written, or
not at all if an integer does not fit, and then the first is named. -/
theorem ofTree_of_compatible (h : Compatible s a b) (hv : OfType s a v)
    (hnone : NoneOverNull s a v) (htree : v.toTree s a = .ok tree) :
    (v.recast s b).toTree s b = .ok tree ∧
    numbers ((v.recast s b).integers s b) = numbers (v.integers s a) ∧
    (b.ofTree s tree = .ok (v.recast s b) ↔
      ∀ place ∈ (v.recast s b).integers s b, place.2.kind.holds place.2.value) ∧
    ((¬ ∀ place ∈ (v.recast s b).integers s b, place.2.kind.holds place.2.value) →
      ∃ place, ((v.recast s b).integers s b).find? (fun place => !place.2.fits) = some place ∧
        b.ofTree s tree
          = .error (.outOfRange (toString place.2.value) place.2.kind.name ⟨place.1⟩)) := by
  have hshape : OfShape s b (v.recast s b) := h.ofShape_recast hv hnone
  have hwritten : (v.recast s b).toTree s b = .ok tree := by
    rw [Datum.toTree, h.writing_recast hv]
    exact htree
  have hmisfit : (¬ ∀ place ∈ (v.recast s b).integers s b, place.2.fits) →
      ∃ place, ((v.recast s b).integers s b).find? (fun place => !place.2.fits) = some place ∧
        b.ofTree s tree = .error (TypedInteger.error .root place) := by
    intro hnot
    rcases hfind : ((v.recast s b).integers s b).find? fun place => !place.2.fits with _ | place
    · refine absurd (fun place hplace => ?_) hnot
      simpa using List.find?_eq_none.mp hfind place hplace
    · exact ⟨place, hfind, hshape.decode_of_misfit hwritten hfind⟩
  refine ⟨hwritten, h.numbers_recast hv, ⟨fun hread => ?_, hshape.decode_of_fits hwritten⟩, hmisfit⟩
  by_contra hnot
  obtain ⟨place, -, herror⟩ := hmisfit hnot
  rw [hread] at herror
  exact absurd herror (by simp)

end

/-! ### Numbers read as smaller ones -/

namespace Remeasured

open Gallery

/-- Numbers of 64 bits, and perhaps numbers of 8 bits behind pointers. -/
def wide : DataType := .record "Quad" [.integer .i64]
def narrow : DataType := .record "Quad" [.option (.pointer (.integer .u8))]

theorem fieldsOf_quad :
    schema.fieldsOf "Quad"
      = [⟨"a", "a", .required (.parameter 0)⟩, ⟨"b", "b", .ifPresent (.parameter 0)⟩,
        ⟨"c", "c", .required (.list (.parameter 0))⟩,
        ⟨"d", "d", .ifPresent (.list (.parameter 0))⟩] := rfl

theorem compatible_narrow : Compatible schema wide narrow := by
  have hnumber : Compatible schema (.integer .i64) (.option (.pointer (.integer .u8))) :=
    .added (DataType.neverNull_of_solid rfl) (.point (.integer .i64 .u8))
  refine .record fun f hf t u ht hu => ?_
  rw [fieldsOf_quad] at hf
  simp only [List.mem_cons, List.not_mem_nil, or_false] at hf
  rcases hf with rfl | rfl | rfl | rfl <;> cases ht <;> cases hu
  · exact hnumber
  · exact .option hnumber
  · exact .list hnumber
  · exact .option (.list hnumber)

/-- Four fields with numbers, two of them to choose. -/
def value (n m : Int) : Datum :=
  .record "Quad" [("a", .integer 7), ("b", .present (.integer n)),
    ("c", .list [.integer 255, .integer m]), ("d", .absent)]

variable {n m : Int}

theorem ofType_value (hn : IntegerKind.i64.holds n) (hm : IntegerKind.i64.holds m) :
    OfType schema wide (value n m) := by
  refine .of_forall₂ (.cons ⟨rfl, ?_⟩ (.cons ⟨rfl, ?_⟩ (.cons ⟨rfl, ?_⟩ (.cons ⟨rfl, ?_⟩ .nil))))
  · rintro t ⟨⟩
    exact .integer (by decide)
  · rintro t ⟨⟩
    exact .present (.integer hn)
  · rintro t ⟨⟩
    refine .list (List.forall_mem_cons.mpr ⟨.integer (by decide), fun d hd => ?_⟩)
    obtain rfl := List.mem_singleton.mp hd
    exact .integer hm
  · rintro t ⟨⟩
    exact .absent _

theorem noneOverNull_value (hn : IntegerKind.i64.holds n) :
    NoneOverNull schema wide (value n m) := by
  have hnumber : ∀ k steps u e,
      ¬ Leads schema (.integer .i64) (.integer k) steps (.option u) (.present e) := by
    intro k steps u e hleads
    cases hleads
  intro steps u e hleads
  cases hleads with
  | field hfield htype hleads =>
    rw [fieldsOf_quad] at hfield
    simp only [List.zip_cons_cons, List.zip_nil_right, List.mem_cons, List.not_mem_nil, or_false,
      Prod.mk.injEq] at hfield
    obtain ⟨rfl, rfl⟩ | ⟨rfl, rfl⟩ | ⟨rfl, rfl⟩ | ⟨rfl, rfl⟩ := hfield <;> cases htype
    · exact (hnumber _ _ _ _ hleads).elim
    · cases hleads with
      | here => exact DataType.neverNull_of_solid rfl _ (.integer hn)
      | present hleads => exact (hnumber _ _ _ _ hleads).elim
    · cases hleads with
      | item hitem hleads =>
        have hd := List.mem_of_getElem? hitem
        simp only [List.mem_cons, List.not_mem_nil, or_false] at hd
        obtain rfl | rfl := hd
        · exact (hnumber _ _ _ _ hleads).elim
        · exact (hnumber _ _ _ _ hleads).elim
    · cases hleads

/-- What is written of four fields. -/
def written (n m : Int64) : Tree :=
  .object [("a", .integer 7), ("b", .integer n), ("c", .array [.integer 255, .integer m]),
    ("d", .null)]

/-- Small numbers are read behind their pointers; of two that do not fit, the first
in the order of the fields is named. -/
theorem narrow_ofTree :
    (value 200 0).toTree schema wide = .ok (written 200 0) ∧
      narrow.ofTree schema (written 200 0)
        = .ok (.record "Quad" [("a", .present (.pointer (.integer 7))),
          ("b", .present (.present (.pointer (.integer 200)))),
          ("c", .list [.present (.pointer (.integer 255)), .present (.pointer (.integer 0))]),
          ("d", .absent)]) ∧
      (value 300 (-1)).toTree schema wide = .ok (written 300 (-1)) ∧
      narrow.ofTree schema (written 300 (-1))
        = .error (.outOfRange "300" "u8" ⟨[.key "b"]⟩) := by
  have hsmall : (value 200 0).toTree schema wide = .ok (written 200 0) := by rfl
  have hlarge : (value 300 (-1)).toTree schema wide = .ok (written 300 (-1)) := by rfl
  obtain ⟨-, -, hread, -⟩ := ofTree_of_compatible compatible_narrow
    (ofType_value (by decide) (by decide)) (noneOverNull_value (by decide)) hsmall
  obtain ⟨-, -, -, hmisfit⟩ := ofTree_of_compatible compatible_narrow
    (ofType_value (by decide) (by decide)) (noneOverNull_value (by decide)) hlarge
  refine ⟨hsmall, hread.mpr (by decide), hlarge, ?_⟩
  obtain ⟨place, hfirst, herror⟩ := hmisfit (by decide)
  obtain rfl : (([.key "b"], ⟨.u8, 300⟩) : List PathStep × TypedInteger) = place :=
    Option.some.inj hfirst
  exact herror

end Remeasured

end RecordCoding
