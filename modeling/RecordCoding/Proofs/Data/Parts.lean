/-
The parts of a value that its encoding comes to.

`Leads` says that steps lead from a value to a part of it: a key leads to the
keyed field with that key, an index to that element, and options and pointers are
gone through without a step.  `oversized` lists the integers among the parts that
no tree can hold, with the steps to them, in the order of the fields and the
elements.

* `OfType.of_leads` — the parts of a value of a type are of their types;
* `mem_oversized_iff` — no such integer is left out, and nothing else is listed.
-/
import RecordCoding.Data.Gallery
import RecordCoding.Proofs.Data.NormalForm

namespace RecordCoding

/-! ### Steps to a part -/

/-- Steps from a value to a part of it; excluded fields are no parts. -/
inductive Leads (s : Schema) : DataType → Datum → List PathStep → DataType → Datum → Prop
  | here (t : DataType) (d : Datum) : Leads s t d [] t d
  | present {t u : DataType} {d e : Datum} {steps : List PathStep} (h : Leads s t d steps u e) :
      Leads s (.option t) (.present d) steps u e
  | pointer {t u : DataType} {d e : Datum} {steps : List PathStep} (h : Leads s t d steps u e) :
      Leads s (.pointer t) (.pointer d) steps u e
  | item {t u : DataType} {items : List Datum} {i : Nat} {d e : Datum} {steps : List PathStep}
      (hitem : items[i]? = some d) (h : Leads s t d steps u e) :
      Leads s (.list t) (.list items) (.index i :: steps) u e
  | field {name n : String} {arguments : List DataType} {fields : List (String × Datum)} {f : Field}
      {v : String × Datum} {t u : DataType} {e : Datum} {steps : List PathStep}
      (hfield : (f, v) ∈ (s.fieldsOf name).zip fields)
      (htype : (f.coding.instantiate arguments).type? = some t) (h : Leads s t v.2 steps u e) :
      Leads s (.record name arguments) (.record n fields) (.key f.key :: steps) u e

variable {s : Schema} {t u : DataType} {d e : Datum} {steps : List PathStep} {n : Int}

theorem OfType.of_leads (hd : OfType s t d) (h : Leads s t d steps u e) : OfType s u e := by
  induction h with
  | here => exact hd
  | present _ ih =>
    cases hd with
    | present hd => exact ih hd
  | pointer _ ih =>
    cases hd with
    | pointer hd => exact ih hd
  | item hitem _ ih =>
    cases hd with
    | list hd => exact ih (hd _ (List.mem_of_getElem? hitem))
  | field hfield htype _ ih =>
    cases hd with
    | record _ hd => exact ih (hd _ _ _ hfield htype)

/-! ### Keys -/

/-- The keys of a record by its name; none for an unknown name. -/
def Schema.keysOf (s : Schema) (name : String) : KeySet :=
  match s.find? (·.name == name) with
  | some r => r.keys
  | none => []

theorem Schema.texts_keysOf (s : Schema) (name : String) :
    (s.keysOf name).texts = ((s.fieldsOf name).filter Field.isKeyed).map (·.key) := by
  rw [keysOf, fieldsOf]
  cases s.find? (·.name == name) with
  | none => rfl
  | some r =>
    simp only [KeySet.texts, RecordType.keys, List.map_map]
    rfl

theorem Field.isKeyed_iff {f : Field} (arguments : List DataType) :
    f.isKeyed ↔ ∃ t, (f.coding.instantiate arguments).type? = some t := by
  rw [Field.isKeyed]
  cases f.coding <;> simp [FieldCoding.instantiate, FieldCoding.type?]

/-- Every record among the parts of a value has distinct keys. -/
def DistinctKeys (s : Schema) (t : DataType) (d : Datum) : Prop :=
  ∀ steps name arguments n fields,
    Leads s t d steps (.record name arguments) (.record n fields) → (s.keysOf name).texts.Nodup

theorem Schema.nodup_keysOf (h : ∀ r ∈ s, r.keys.texts.Nodup) (name : String) :
    (s.keysOf name).texts.Nodup := by
  rcases hfind : s.find? (·.name == name) with _ | r
  · simp only [Schema.keysOf, hfind]
    exact List.nodup_nil
  · simp only [Schema.keysOf, hfind]
    exact h r (List.mem_of_find?_eq_some hfind)

/-- It is enough that all records of a schema have distinct keys. -/
theorem distinctKeys_of_schema (h : ∀ r ∈ s, r.keys.texts.Nodup) : DistinctKeys s t d :=
  fun _ name _ _ _ _ => s.nodup_keysOf h name

/-- All records of the gallery have distinct keys. -/
example : DistinctKeys Gallery.schema t d := distinctKeys_of_schema (by decide)

/-! ### Integers that no tree holds -/

/-- Whether an integer of a kind without a sign is beyond 64 bits with a sign. -/
def IntegerKind.exceeds (kind : IntegerKind) (n : Int) : Bool :=
  (kind == .u64 || kind == .usize) && decide (Int64.maxValue.toInt < n)

/-- The values of a kind that do not fit in 64 bits with a sign. -/
theorem IntegerKind.fitsInt64_iff {kind : IntegerKind} (h : kind.holds n) :
    fitsInt64 n ↔ kind.exceeds n = false := by
  have hmax : Int64.maxValue.toInt = 9223372036854775807 := rfl
  have hmin : Int64.minValue.toInt = -9223372036854775808 := rfl
  cases kind <;>
    simp_all [fitsInt64, IntegerKind.exceeds, IntegerKind.holds, IntegerKind.least,
      IntegerKind.greatest, IntegerKind.signed, IntegerKind.bits] <;> omega

/-- A place that is one step further down. -/
def below {α : Type} (step : PathStep) (place : List PathStep × α) : List PathStep × α :=
  (step :: place.1, place.2)

namespace Datum

mutual

/-- The integers in a value that no tree holds, with the steps to them. -/
def oversized (s : Schema) : DataType → Datum → List (List PathStep × Int)
  | .integer kind, .integer n => if kind.exceeds n then [([], n)] else []
  | .list t, .list items => oversizedOfItems s t 0 items
  | .option t, .present d => oversized s t d
  | .pointer t, .pointer d => oversized s t d
  | .record name arguments, .record _ fields =>
    oversizedOfFields s arguments (s.fieldsOf name) fields
  | _, _ => []

/-- Those in the elements of a list from an index on. -/
def oversizedOfItems (s : Schema) (t : DataType) (index : Nat) :
    List Datum → List (List PathStep × Int)
  | [] => []
  | d :: rest =>
    (oversized s t d).map (below (.index index)) ++ oversizedOfItems s t (index + 1) rest

/-- Those in the keyed fields of a record, in the order of declaration. -/
def oversizedOfFields (s : Schema) (arguments : List DataType) :
    List Field → List (String × Datum) → List (List PathStep × Int)
  | f :: fs, (_, d) :: ds =>
    match (f.coding.instantiate arguments).type? with
    | some t => (oversized s t d).map (below (.key f.key)) ++ oversizedOfFields s arguments fs ds
    | none => oversizedOfFields s arguments fs ds
  | _, _ => []

end

theorem oversizedOfItems_eq_flatMap (index : Nat) (items : List Datum) :
    oversizedOfItems s t index items
      = (items.zipIdx index).flatMap fun di => (oversized s t di.1).map (below (.index di.2)) := by
  induction items generalizing index with
  | nil => rfl
  | cons d rest ih => rw [oversizedOfItems, ih, List.zipIdx_cons, List.flatMap_cons]

theorem mem_oversizedOfFields {arguments : List DataType} {fs : List Field}
    {ds : List (String × Datum)} {place : List PathStep × Int} :
    place ∈ oversizedOfFields s arguments fs ds ↔
      ∃ f v t, (f, v) ∈ fs.zip ds ∧ (f.coding.instantiate arguments).type? = some t ∧
        place ∈ (oversized s t v.2).map (below (.key f.key)) := by
  induction fs generalizing ds with
  | nil => simp [oversizedOfFields]
  | cons f fs ih =>
    cases ds with
    | nil => simp [oversizedOfFields]
    | cons v ds =>
      rw [oversizedOfFields, List.zip_cons_cons]
      -- A field without a type has no part; any other one is in front of what the rest lists.
      rcases htype : (f.coding.instantiate arguments).type? with _ | t
      · simp only [ih, List.mem_cons, Prod.mk.injEq]
        constructor
        · rintro ⟨g, w, u, hmem, hu, hplace⟩
          exact ⟨g, w, u, Or.inr hmem, hu, hplace⟩
        · rintro ⟨g, w, u, ⟨rfl, rfl⟩ | hmem, hu, hplace⟩
          · exact absurd (htype.symm.trans hu) (by simp)
          · exact ⟨g, w, u, hmem, hu, hplace⟩
      · simp only [List.mem_append, ih, List.mem_cons, Prod.mk.injEq]
        constructor
        · rintro (hplace | ⟨g, w, u, hmem, hu, hplace⟩)
          · exact ⟨f, v, t, Or.inl ⟨rfl, rfl⟩, htype, hplace⟩
          · exact ⟨g, w, u, Or.inr hmem, hu, hplace⟩
        · rintro ⟨g, w, u, ⟨rfl, rfl⟩ | hmem, hu, hplace⟩
          · obtain rfl : t = u := Option.some.inj (htype.symm.trans hu)
            exact Or.inl hplace
          · exact Or.inr ⟨g, w, u, hmem, hu, hplace⟩

/-- An integer that no tree holds is listed with every way that leads to it. -/
theorem mem_oversized_of_leads {kind : IntegerKind} (hexceeds : kind.exceeds n)
    (h : Leads s t d steps (.integer kind) (.integer n)) : (steps, n) ∈ d.oversized s t := by
  generalize hu : DataType.integer kind = u, he : Datum.integer n = e at h
  induction h with
  | here =>
    subst hu he
    rw [oversized, if_pos hexceeds]
    exact List.mem_singleton_self _
  | present _ ih => exact ih hu he
  | pointer _ ih => exact ih hu he
  | @item _ _ _ i d _ steps hitem _ ih =>
    rw [oversized, oversizedOfItems_eq_flatMap, List.mem_flatMap]
    refine ⟨(d, i), List.mk_mem_zipIdx_iff_getElem?.mpr hitem, ?_⟩
    exact List.mem_map.mpr ⟨_, ih hu he, rfl⟩
  | field hfield htype _ ih =>
    rw [oversized, mem_oversizedOfFields]
    exact ⟨_, _, _, hfield, htype, List.mem_map.mpr ⟨_, ih hu he, rfl⟩⟩

/-- What is listed is an integer that no tree holds, and its steps lead to it. -/
theorem leads_of_mem_oversized (hd : OfType s t d) (h : (steps, n) ∈ d.oversized s t) :
    ∃ kind, Leads s t d steps (.integer kind) (.integer n) ∧ kind.exceeds n := by
  -- What stands below a step was listed before the step was put in front of it.
  induction hd generalizing steps with
  | @integer kind m =>
    rw [oversized] at h
    by_cases hexceeds : kind.exceeds m
    · rw [if_pos hexceeds] at h
      obtain ⟨rfl, rfl⟩ := Prod.mk.inj (List.mem_singleton.mp h)
      exact ⟨kind, .here _ _, hexceeds⟩
    · rw [if_neg hexceeds] at h
      exact absurd h (by simp)
  | list _ ih =>
    rw [oversized, oversizedOfItems_eq_flatMap, List.mem_flatMap] at h
    obtain ⟨⟨d, i⟩, hmem, hplace⟩ := h
    obtain ⟨⟨below, m⟩, hbelow, hplace⟩ := List.mem_map.mp hplace
    obtain ⟨rfl, rfl⟩ := Prod.mk.inj hplace
    obtain ⟨kind, hleads, hexceeds⟩ := ih d (List.fst_mem_of_mem_zipIdx hmem) hbelow
    exact ⟨kind, .item (List.mk_mem_zipIdx_iff_getElem?.mp hmem) hleads, hexceeds⟩
  | present _ ih =>
    obtain ⟨kind, hleads, hexceeds⟩ := ih h
    exact ⟨kind, .present hleads, hexceeds⟩
  | pointer _ ih =>
    obtain ⟨kind, hleads, hexceeds⟩ := ih h
    exact ⟨kind, .pointer hleads, hexceeds⟩
  | record _ _ ih =>
    rw [oversized, mem_oversizedOfFields] at h
    obtain ⟨f, v, u, hfield, htype, hplace⟩ := h
    obtain ⟨⟨below, m⟩, hbelow, hplace⟩ := List.mem_map.mp hplace
    obtain ⟨rfl, rfl⟩ := Prod.mk.inj hplace
    obtain ⟨kind, hleads, hexceeds⟩ := ih f v u hfield htype hbelow
    exact ⟨kind, .field hfield htype hleads, hexceeds⟩
  | _ => exact absurd h (by simp [oversized])

/-- The list holds exactly the integers that no tree holds. -/
theorem mem_oversized_iff (hd : OfType s t d) :
    (steps, n) ∈ d.oversized s t ↔
      ∃ kind, Leads s t d steps (.integer kind) (.integer n) ∧ kind.exceeds n :=
  ⟨leads_of_mem_oversized hd, fun ⟨_, hleads, hexceeds⟩ => mem_oversized_of_leads hexceeds hleads⟩

end Datum

end RecordCoding
