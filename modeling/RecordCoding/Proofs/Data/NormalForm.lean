/-
The normal form of a value: what is left of it once it was written.

Writing a value forgets what its excluded fields hold, and it does not tell an
optional value from none if its content is written as `null`.  The normal form
of a value has the defaults in all excluded fields, and none in the place of
such optional values, at every depth.

* `OfType` — the values of a type;
* `writing_normal` — a value and its normal form are written alike;
* `normal_eq_of_settled` — a value with nothing to forget is its normal form.

Design notes:

* `narrow` stands for what becomes of a number in single precision.  With `id`
  nothing does; a real reader forgets the payload of a NaN.
* A value is tested for `null` by writing it, so an optional value over another
  one, over a tree and over a pointer to either need no rules of their own.
-/
import RecordCoding.Data.Encode
import RecordCoding.Proofs.Writing.Entries
import RecordCoding.Proofs.Writing.Place

namespace RecordCoding

/-! ### Values of a type -/

/-- The values of a type.  Excluded fields may hold anything. -/
inductive OfType (s : Schema) : DataType → Datum → Prop
  | bool (b : Bool) : OfType s .bool (.bool b)
  | string (v : String) : OfType s .string (.string v)
  | char (c : Char) : OfType s .char (.char c)
  | single (x : Single) : OfType s .single (.single x)
  | double (x : Double) : OfType s .double (.double x)
  | tree (t : Tree) : OfType s .tree (.tree t)
  | integer {kind : IntegerKind} {n : Int} (h : kind.holds n) : OfType s (.integer kind) (.integer n)
  | list {t : DataType} {items : List Datum} (h : ∀ d ∈ items, OfType s t d) :
      OfType s (.list t) (.list items)
  | absent (t : DataType) : OfType s (.option t) .absent
  | present {t : DataType} {d : Datum} (h : OfType s t d) : OfType s (.option t) (.present d)
  | pointer {t : DataType} {d : Datum} (h : OfType s t d) : OfType s (.pointer t) (.pointer d)
  | record {name : String} {arguments : List DataType} {fields : List (String × Datum)}
      (hnames : fields.map (·.1) = (s.fieldsOf name).map (·.name))
      (h : ∀ f v t, (f, v) ∈ (s.fieldsOf name).zip fields →
        (f.coding.instantiate arguments).type? = some t → OfType s t v.2) :
      OfType s (.record name arguments) (.record name fields)

/-- A record is of its type if its fields are, one by one. -/
theorem OfType.of_forall₂ {s : Schema} {name : String} {arguments : List DataType}
    {fields : List (String × Datum)}
    (h : List.Forall₂ (fun f v => v.1 = f.name ∧
      ∀ t, (f.coding.instantiate arguments).type? = some t → OfType s t v.2)
      (s.fieldsOf name) fields) : OfType s (.record name arguments) (.record name fields) := by
  refine .record (map_eq_map_of_forall₂ h fun f v hv => hv.1.symm).symm ?_
  intro f v t hmem htype
  exact ((List.forall₂_iff_zip.mp h).2 hmem).2 t htype

/-- What a field starts from in a record that was read: its default if it is
excluded, else the given value. -/
def FieldCoding.initial (d : Datum) : FieldCoding → Datum
  | .excluded initial => initial
  | _ => d

namespace Datum

/-- Whether a value is written as `null`. -/
def writesNull (s : Schema) (t : DataType) (d : Datum) : Bool :=
  match d.toTree s t with
  | .ok written => written.isNull
  | .error _ => false

/-! ### Normal forms -/

mutual

/-- The normal form of a value. -/
def normal (narrow : Single → Single) (s : Schema) : DataType → Datum → Datum
  | .single, .single x => .single (narrow x)
  | .list t, .list items => .list (normalOfItems narrow s t items)
  | .option t, .present d =>
    if d.writesNull s t then .absent else .present (normal narrow s t d)
  | .pointer t, .pointer d => .pointer (normal narrow s t d)
  | .record name arguments, .record n fields =>
    .record n (normalOfFields narrow s arguments (s.fieldsOf name) fields)
  | _, d => d

/-- The normal forms of the elements of a list. -/
def normalOfItems (narrow : Single → Single) (s : Schema) (t : DataType) : List Datum → List Datum
  | [] => []
  | d :: rest => normal narrow s t d :: normalOfItems narrow s t rest

/-- The normal forms of keyed fields, and the defaults of excluded ones. -/
def normalOfFields (narrow : Single → Single) (s : Schema) (arguments : List DataType) :
    List Field → List (String × Datum) → List (String × Datum)
  | f :: fs, (name, d) :: ds =>
    match (f.coding.instantiate arguments).type? with
    | some t => (name, normal narrow s t d) :: normalOfFields narrow s arguments fs ds
    | none => (name, f.coding.initial d) :: normalOfFields narrow s arguments fs ds
  | _, ds => ds

end

mutual

/-- Whether a value has nothing to forget: its excluded fields are at their
defaults and no optional value in it stands over something written as `null`. -/
def Settled (narrow : Single → Single) (s : Schema) : DataType → Datum → Prop
  | .single, .single x => narrow x = x
  | .list t, .list items => SettledItems narrow s t items
  | .option t, .present d => d.writesNull s t = false ∧ Settled narrow s t d
  | .pointer t, .pointer d => Settled narrow s t d
  | .record name arguments, .record _ fields =>
    SettledFields narrow s arguments (s.fieldsOf name) fields
  | _, _ => True

/-- Whether the elements of a list have nothing to forget. -/
def SettledItems (narrow : Single → Single) (s : Schema) (t : DataType) : List Datum → Prop
  | [] => True
  | d :: rest => Settled narrow s t d ∧ SettledItems narrow s t rest

/-- Whether keyed fields have nothing to forget, and excluded ones are at their
defaults. -/
def SettledFields (narrow : Single → Single) (s : Schema) (arguments : List DataType) :
    List Field → List (String × Datum) → Prop
  | f :: fs, (_, d) :: ds =>
    match (f.coding.instantiate arguments).type? with
    | some t => Settled narrow s t d ∧ SettledFields narrow s arguments fs ds
    | none => f.coding.initial d = d ∧ SettledFields narrow s arguments fs ds
  | _, _ => True

end

/-! ### Writing a normal form -/

variable {narrow : Single → Single} {s : Schema} {t : DataType} {d : Datum}
  {arguments : List DataType}

theorem normalOfItems_eq_map (items : List Datum) :
    normalOfItems narrow s t items = items.map (normal narrow s t) := by
  induction items with
  | nil => rfl
  | cons d rest ih => rw [normalOfItems, ih, List.map_cons]

theorem writingOfItems_eq_map (items : List Datum) :
    writingOfItems s t items = items.map (writing s t) := by
  induction items with
  | nil => rfl
  | cons d rest ih => rw [writingOfItems, ih, List.map_cons]

/-- The keyed fields are written under their keys, in order. -/
theorem writingOfFields_eq_filterMap (fs : List Field) (ds : List (String × Datum)) :
    writingOfFields s arguments fs ds
      = (fs.zip ds).filterMap fun fv => (fv.1.coding.instantiate arguments).type?.map fun t =>
          ⟨fv.1.key, false, fv.2.2.writing s t⟩ := by
  induction fs generalizing ds with
  | nil => cases ds <;> rfl
  | cons f fs ih =>
    cases ds with
    | nil => rfl
    | cons v ds =>
      rw [writingOfFields, List.zip_cons_cons, List.filterMap_cons]
      rcases (f.coding.instantiate arguments).type? with _ | t
      · exact ih ds
      · exact congrArg _ (ih ds)

theorem mem_writingOfFields {fs : List Field} {ds : List (String × Datum)} {f : Field}
    {v : String × Datum} (hmem : (f, v) ∈ fs.zip ds)
    (htype : (f.coding.instantiate arguments).type? = some t) :
    ⟨f.key, false, v.2.writing s t⟩ ∈ writingOfFields s arguments fs ds := by
  rw [writingOfFields_eq_filterMap, List.mem_filterMap]
  exact ⟨(f, v), hmem, by rw [htype, Option.map_some]⟩

theorem not_tolerated_of_mem {fs : List Field} {ds : List (String × Datum)}
    {w : KeyedWriting Writing} (h : w ∈ writingOfFields s arguments fs ds) :
    w.tolerated = false := by
  rw [writingOfFields_eq_filterMap, List.mem_filterMap] at h
  obtain ⟨fv, -, hw⟩ := h
  obtain ⟨t, -, rfl⟩ := Option.map_eq_some_iff.mp hw
  rfl

/-- A record writes its keyed fields into a container of its own. -/
theorem treeAt_record {name n : String} {fields : List (String × Datum)} (p : CodingPath) :
    ((record n fields).writing s (.record name arguments)).treeAt p
      = writtenTree ((Encoder.fresh p).opened.putAll
          ((writingOfFields s arguments (s.fieldsOf name) fields).map
            fun w => (w.key, w.content.treeAt))) := by
  rw [writing, Writing.treeAt_keyed fun _ => not_tolerated_of_mem]

theorem writesNull_iff : d.writesNull s t ↔ d.toTree s t = .ok .null := by
  rw [writesNull]
  rcases d.toTree s t with _ | written
  · simp
  · cases written <;> simp [Tree.isNull]

/-- Only a `null` is written as `null`. -/
theorem writing_eq_of_toTree_eq_null (h : OfType s t d) (hnull : d.toTree s t = .ok .null) :
    d.writing s t = .tree .null := by
  -- A leaf is written as itself, a list as an array, a record as an object; only options and
  -- pointers hand on what their content is written as.
  induction h with
  | bool | string | char | single | double =>
    rw [toTree, writing, Writing.toTree, Writing.treeAt_tree] at hnull
    exact absurd hnull (by simp)
  | tree written =>
    rw [toTree, writing, Writing.toTree, Writing.treeAt_tree] at hnull
    obtain rfl := Except.ok.inj hnull
    rfl
  | integer =>
    rw [toTree, writing, Writing.toTree, Writing.treeAt_integer] at hnull
    split at hnull
    · exact absurd hnull (by simp)
    · exact absurd hnull (by simp)
  | @list t items =>
    rw [toTree, writing, Writing.toTree, Writing.treeAt_elements] at hnull
    rcases htrees : Writing.trees (writingOfItems s t items) .root 0 with _ | ts
    · rw [htrees] at hnull
      exact absurd hnull (by simp [Except.map])
    · rw [htrees] at hnull
      exact absurd hnull (by simp [Except.map])
  | absent => rfl
  | present _ ih => exact ih hnull
  | pointer _ ih => exact ih hnull
  | record =>
    rw [toTree, Writing.toTree, treeAt_record] at hnull
    obtain ⟨-, entries, -, hobject⟩ := Encoder.writtenTree_putAll_fresh.mp hnull
    exact absurd hobject (by simp)

/-- Fields are written alike if all keyed fields are. -/
theorem writingOfFields_normalOfFields {fs : List Field} {ds : List (String × Datum)}
    (h : ∀ f v t, (f, v) ∈ fs.zip ds → (f.coding.instantiate arguments).type? = some t →
      (v.2.normal narrow s t).writing s t = v.2.writing s t) :
    writingOfFields s arguments fs (normalOfFields narrow s arguments fs ds)
      = writingOfFields s arguments fs ds := by
  induction fs generalizing ds with
  | nil => cases ds <;> rfl
  | cons f fs ih =>
    cases ds with
    | nil => rfl
    | cons v ds =>
      have hrest := ih fun g w t hmem => h g w t (List.mem_cons_of_mem _ hmem)
      rw [normalOfFields, writingOfFields]
      rcases htype : (f.coding.instantiate arguments).type? with _ | t
      · simp only [writingOfFields, htype, hrest]
      · have hv := h f v t (List.mem_cons_self ..) htype
        simp only [writingOfFields, htype, hrest, hv]

/-- A value and its normal form are written alike. -/
theorem writing_normal (hnarrow : ∀ x, (narrow x).toDouble = x.toDouble) (h : OfType s t d) :
    (d.normal narrow s t).writing s t = d.writing s t := by
  induction h with
  | single x => rw [normal, writing, writing, hnarrow]
  | @list t items _ ih =>
    rw [normal, writing, writing]
    rw [normalOfItems_eq_map, writingOfItems_eq_map, writingOfItems_eq_map, List.map_map]
    exact congrArg Writing.elements (List.map_congr_left ih)
  | @present t d hd ih =>
    rw [normal, writing]
    by_cases hnull : d.writesNull s t
    -- What stood here wrote a `null`, and so does `absent`.
    · rw [if_pos hnull, writing_eq_of_toTree_eq_null hd (writesNull_iff.mp hnull), writing]
    · rw [if_neg hnull, writing, ih]
  | pointer _ ih => rw [normal, writing, writing, ih]
  | record _ _ ih =>
    rw [normal, writing, writing]
    exact congrArg Writing.keyed (writingOfFields_normalOfFields ih)
  | _ => rfl

/-! ### Values in normal form -/

theorem normalOfFields_eq_of_settled {fs : List Field} {ds : List (String × Datum)}
    (h : ∀ f v t, (f, v) ∈ fs.zip ds → (f.coding.instantiate arguments).type? = some t →
      v.2.Settled narrow s t → v.2.normal narrow s t = v.2)
    (hsettled : SettledFields narrow s arguments fs ds) :
    normalOfFields narrow s arguments fs ds = ds := by
  induction fs generalizing ds with
  | nil => cases ds <;> rfl
  | cons f fs ih =>
    cases ds with
    | nil => rfl
    | cons v ds =>
      have hrest := fun h' => ih (fun g w t hmem => h g w t (List.mem_cons_of_mem _ hmem)) h'
      rw [SettledFields] at hsettled
      rw [normalOfFields]
      rcases htype : (f.coding.instantiate arguments).type? with _ | t
      · simp only [htype] at hsettled
        simp only [hsettled.1, hrest hsettled.2]
      · simp only [htype] at hsettled
        simp only [h f v t (List.mem_cons_self ..) htype hsettled.1, hrest hsettled.2]

theorem normalOfItems_eq_of_settled {items : List Datum}
    (h : ∀ d ∈ items, d.Settled narrow s t → d.normal narrow s t = d)
    (hsettled : SettledItems narrow s t items) : normalOfItems narrow s t items = items := by
  induction items with
  | nil => rfl
  | cons d rest ih =>
    have hrest := ih fun e he => h e (List.mem_cons_of_mem _ he)
    rw [SettledItems] at hsettled
    rw [normalOfItems, h d (List.mem_cons_self ..) hsettled.1, hrest hsettled.2]

/-- A value with nothing to forget is its own normal form. -/
theorem normal_eq_of_settled (h : OfType s t d) (hsettled : d.Settled narrow s t) :
    d.normal narrow s t = d := by
  induction h with
  | single x =>
    rw [Settled] at hsettled
    rw [normal, hsettled]
  | list _ ih =>
    rw [Settled] at hsettled
    rw [normal, normalOfItems_eq_of_settled ih hsettled]
  | present _ ih =>
    rw [Settled] at hsettled
    rw [normal, hsettled.1, ih hsettled.2]
    rfl
  | pointer _ ih =>
    rw [Settled] at hsettled
    rw [normal, ih hsettled]
  | record _ _ ih =>
    rw [Settled] at hsettled
    rw [normal, normalOfFields_eq_of_settled ih hsettled]
  | _ => rfl

end Datum

end RecordCoding
