/-
Reading a node through its elements and its keys.

Code that reads a node sees a `Decoder`, and through it the elements of an array
or a `KeyedDecoder` over the entries of an object, whatever type it reads them
as.  Reading described data is of the same kind: there is one equation for each
kind of type, in terms of these operations and of reading the parts
(`decode_list`, `decode_option`, `decode_pointer`, `decode_record`; the leaves
are listed first).  Nothing further on looks at the readers of children.

Design notes: `decode_induction` is the induction that goes with the equations.
Reading descends to a smaller tree, or stays at its node and descends to a
smaller type; a record may lead to any type, but only at a smaller tree.
-/
import RecordCoding.Data.Decode

namespace RecordCoding

/-! ### Results that are there -/

section

variable {ε α β : Type} {r : Except ε α} {b : β}

/-- A result that was mapped and is one came from one. -/
theorem exists_of_map_eq_ok {f : α → β} (h : r.map f = .ok b) : ∃ a, r = .ok a ∧ f a = b := by
  rcases r with err | a
  · exact absurd h (by simp [Except.map])
  · exact ⟨a, rfl, Except.ok.inj h⟩

theorem exists_of_bind_eq_ok {f : α → Except ε β} (h : r.bind f = .ok b) :
    ∃ a, r = .ok a ∧ f a = .ok b := by
  rcases r with err | a
  · exact absurd h (by simp [Except.bind])
  · exact ⟨a, rfl, h⟩

end

/-! ### Elements and keys -/

/-- The entries of an object and where the object stands. -/
structure KeyedDecoder where
  entries : List (String × Tree)
  path : CodingPath

/-- Read trees in order as the elements from `index` on of an array at a path. -/
def readEach {α : Type} (read : Decoder → Except DecodeError α) (path : CodingPath) :
    List Tree → Nat → Except DecodeError (List α)
  | [], _ => .ok []
  | t :: rest, index =>
    match read ⟨t, path.index index⟩ with
    | .error err => .error err
    | .ok a =>
      match readEach read path rest (index + 1) with
      | .error err => .error err
      | .ok as => .ok (a :: as)

theorem readEach_cons {α : Type} (read : Decoder → Except DecodeError α) (path : CodingPath)
    (t : Tree) (rest : List Tree) (index : Nat) :
    readEach read path (t :: rest) index
      = (read ⟨t, path.index index⟩).bind fun a =>
          (readEach read path rest (index + 1)).map (a :: ·) := by
  rw [readEach]
  rcases read ⟨t, path.index index⟩ with _ | a
  · rfl
  · rcases readEach read path rest (index + 1) with _ | _ <;> rfl

namespace Decoder

/-- The elements of an array. -/
def elements {α : Type} (d : Decoder) (read : Decoder → Except DecodeError α) :
    Except DecodeError (List α) :=
  match d.tree with
  | .array items => readEach read d.path items 0
  | _ => .error (d.mismatch "array")

/-- The entries of an object. -/
def container (d : Decoder) : Except DecodeError KeyedDecoder :=
  match d.tree with
  | .object entries => .ok ⟨entries, d.path⟩
  | _ => .error (d.mismatch "object")

end Decoder

namespace KeyedDecoder

/-- Read the first entry under a key. -/
def decode {α : Type} (c : KeyedDecoder) (key : String) (read : Decoder → Except DecodeError α) :
    Except DecodeError α :=
  match c.entries.lookup key with
  | none => .error (.keyNotFound key c.path)
  | some t => read ⟨t, c.path.key key⟩

/-- Read the first entry under a key; a missing key and `null` are no value. -/
def decodeIfPresent {α : Type} (c : KeyedDecoder) (key : String)
    (read : Decoder → Except DecodeError α) : Except DecodeError (Option α) :=
  match c.entries.lookup key with
  | none => .ok none
  | some t => if t.isNull then .ok none else (read ⟨t, c.path.key key⟩).map some

/-- Read one field of a record. -/
def field (c : KeyedDecoder) (s : Schema) (arguments : List DataType) (f : Field) :
    Except DecodeError Datum :=
  match f.coding.instantiate arguments with
  | .required t => c.decode f.key (Decoder.decode s t)
  | .ifPresent t => (c.decodeIfPresent f.key (Decoder.decode s t)).map .ofOption
  | .excluded initial => .ok initial

/-- Read the fields of a record in the order of declaration. -/
def fields (c : KeyedDecoder) (s : Schema) (arguments : List DataType) :
    List Field → Except DecodeError (List (String × Datum))
  | [] => .ok []
  | f :: rest =>
    match c.field s arguments f with
    | .error err => .error err
    | .ok d =>
      match c.fields s arguments rest with
      | .error err => .error err
      | .ok ds => .ok ((f.name, d) :: ds)

theorem fields_cons (c : KeyedDecoder) (s : Schema) (arguments : List DataType) (f : Field)
    (rest : List Field) :
    c.fields s arguments (f :: rest)
      = (c.field s arguments f).bind fun d =>
          (c.fields s arguments rest).map ((f.name, d) :: ·) := by
  rw [fields]
  rcases c.field s arguments f with _ | d
  · rfl
  · rcases c.fields s arguments rest with _ | _ <;> rfl

end KeyedDecoder

/-! ### Fields with a key and without -/

namespace FieldCoding

variable {c : FieldCoding} {t : DataType} {arguments : List DataType}

/-- A field that has a type has a key, which must be there or may be missing. -/
theorem eq_of_type?_eq_some (h : c.type? = some t) :
    c = .required t ∨ ∃ u, t = .option u ∧ c = .ifPresent u := by
  cases c with
  | required u => exact Or.inl (congrArg required (Option.some.inj h))
  | ifPresent u => exact Or.inr ⟨u, (Option.some.inj h).symm, rfl⟩
  | excluded initial => exact absurd h (by simp [type?])

/-- A field without a type has a default, whatever the types in the place of parameters. -/
theorem exists_of_type?_eq_none (h : (c.instantiate arguments).type? = none) :
    ∃ initial, c = .excluded initial := by
  cases c with
  | excluded initial => exact ⟨initial, rfl⟩
  | _ => exact absurd h (by simp [instantiate, type?])

end FieldCoding

/-! ### The readers of children -/

section

variable (s : Schema)

theorem readItems_readersOfItems (t : DataType) (path : CodingPath) (items : List Tree)
    (index : Nat) :
    readItems t path (readersOfItems s items) index
      = readEach (Decoder.decode s t) path items index := by
  induction items generalizing index with
  | nil => rfl
  | cons item rest ih =>
    simp only [readersOfItems, readItems, readEach, ih, Decoder.decode]
    rcases reader s item t (path.index index) with _ | d
    · rfl
    · rcases readEach (Decoder.decode s t) path rest (index + 1) with _ | _ <;> rfl

theorem lookup_readersOfEntries (entries : List (String × Tree)) (key : String) :
    (readersOfEntries s entries).lookup key
      = (entries.lookup key).map fun t => ⟨t, reader s t⟩ := by
  induction entries with
  | nil => rfl
  | cons entry rest ih =>
    obtain ⟨k, t⟩ := entry
    rw [readersOfEntries, List.lookup_cons, List.lookup_cons, ih]
    cases key == k <;> rfl

theorem readField_readersOfEntries (arguments : List DataType) (c : KeyedDecoder) (f : Field) :
    readField arguments (readersOfEntries s c.entries) c.path f = c.field s arguments f := by
  rw [readField, KeyedDecoder.field]
  cases f.coding.instantiate arguments with
  | required t =>
    simp only [readKey, KeyedDecoder.decode, lookup_readersOfEntries]
    cases c.entries.lookup f.key <;> rfl
  | ifPresent t =>
    simp only [readKeyIfPresent, KeyedDecoder.decodeIfPresent, lookup_readersOfEntries]
    rcases c.entries.lookup f.key with _ | tree
    · rfl
    · simp only [Option.map_some, Decoder.decode]
      cases reader s tree t (c.path.key f.key) <;> rfl
  | excluded initial => rfl

theorem readFields_readersOfEntries (arguments : List DataType) (c : KeyedDecoder)
    (fs : List Field) :
    readFields arguments (readersOfEntries s c.entries) c.path fs = c.fields s arguments fs := by
  induction fs with
  | nil => rfl
  | cons f rest ih =>
    have hf := readField_readersOfEntries s arguments c f
    rcases hfield : c.field s arguments f with err | d
    · simp only [readFields, KeyedDecoder.fields, hf, hfield]
    · rcases hrest : c.fields s arguments rest with err | ds
      · simp only [readFields, KeyedDecoder.fields, hf, hfield, ih, hrest]
      · simp only [readFields, KeyedDecoder.fields, hf, hfield, ih, hrest]

/-! ### One equation for each kind of type -/

theorem decode_bool (d : Decoder) :
    Decoder.decode s .bool d
      = match d.tree with
        | .bool b => .ok (.bool b)
        | _ => .error (d.mismatch "boolean") := by
  obtain ⟨tree, p⟩ := d
  cases tree <;> rfl

theorem decode_string (d : Decoder) :
    Decoder.decode s .string d
      = match d.tree with
        | .text v => .ok (.string v)
        | _ => .error (d.mismatch "string") := by
  obtain ⟨tree, p⟩ := d
  cases tree <;> rfl

theorem decode_char (d : Decoder) : Decoder.decode s .char d = d.char.map .char := by
  obtain ⟨tree, p⟩ := d
  cases tree <;> rfl

theorem decode_single (d : Decoder) :
    Decoder.decode s .single d = d.double.map fun x => .single x.toSingle := by
  obtain ⟨tree, p⟩ := d
  cases tree <;> rfl

theorem decode_double (d : Decoder) : Decoder.decode s .double d = d.double.map .double := by
  obtain ⟨tree, p⟩ := d
  cases tree <;> rfl

theorem decode_tree (d : Decoder) : Decoder.decode s .tree d = .ok (.tree d.tree) := by
  obtain ⟨tree, p⟩ := d
  cases tree <;> rfl

theorem decode_integer (kind : IntegerKind) (d : Decoder) :
    Decoder.decode s (.integer kind) d = (d.integer kind).map .integer := by
  obtain ⟨tree, p⟩ := d
  cases tree <;> rfl

theorem decode_list (t : DataType) (d : Decoder) :
    Decoder.decode s (.list t) d = (d.elements (Decoder.decode s t)).map .list := by
  obtain ⟨tree, p⟩ := d
  cases tree with
  | array items =>
    simp only [Decoder.elements]
    rw [← readItems_readersOfItems]
    rfl
  | _ => rfl

theorem decode_option (t : DataType) (d : Decoder) :
    Decoder.decode s (.option t) d
      = if d.tree.isNull then .ok .absent else (Decoder.decode s t d).map .present := by
  obtain ⟨tree, p⟩ := d
  cases tree <;> rfl

theorem decode_pointer (t : DataType) (d : Decoder) :
    Decoder.decode s (.pointer t) d = (Decoder.decode s t d).map .pointer := by
  obtain ⟨tree, p⟩ := d
  cases tree <;> rfl

theorem decode_record (name : String) (arguments : List DataType) (d : Decoder) :
    Decoder.decode s (.record name arguments) d
      = match d.container with
        | .error err => .error err
        | .ok c => (c.fields s arguments (s.fieldsOf name)).map (.record name) := by
  obtain ⟨tree, p⟩ := d
  cases tree with
  | object entries =>
    simp only [Decoder.container]
    -- With the readers in place both sides are the same program.
    rw [← readFields_readersOfEntries]
    rfl
  | _ => rfl

theorem decode_failing (message : String) (d : Decoder) :
    Decoder.decode s (.failing message) d = .error (d.failure message) := by
  obtain ⟨tree, p⟩ := d
  cases tree <;> rfl

theorem decode_inspecting (probes : List Probe) (d : Decoder) :
    ∃ observations, Decoder.decode s (.inspecting probes) d = .ok (.observed observations) := by
  obtain ⟨tree, p⟩ := d
  cases tree <;> exact ⟨_, rfl⟩

theorem decode_parameter (i : Nat) (d : Decoder) :
    Decoder.decode s (.parameter i) d
      = .error (d.failure "type parameter without a type") := by
  obtain ⟨tree, p⟩ := d
  cases tree <;> rfl

theorem decode_scripted (w : Writing) (d : Decoder) :
    Decoder.decode s (.scripted w) d = .error (d.failure "type without a decoder") := by
  obtain ⟨tree, p⟩ := d
  cases tree <;> rfl

end

/-! ### Induction over a reading -/

/-- What holds of a type and a tree if it holds of every type and every smaller
tree, and of every smaller type and the same tree, holds of all. -/
theorem decode_induction {P : DataType → Tree → Prop}
    (step : ∀ (t : DataType) (tree : Tree),
      (∀ (u : DataType) (child : Tree), sizeOf child < sizeOf tree → P u child) →
      (∀ u : DataType, sizeOf u < sizeOf t → P u tree) → P t tree)
    (t : DataType) (tree : Tree) : P t tree :=
  step t tree (fun u child _ => decode_induction step u child) fun u _ => decode_induction step u tree
  termination_by (sizeOf tree, sizeOf t)

theorem sizeOf_lt_of_mem_items {items : List Tree} {t : Tree} (h : t ∈ items) :
    sizeOf t < sizeOf (Tree.array items) := by
  have := List.sizeOf_lt_of_mem h
  simp only [Tree.array.sizeOf_spec]
  omega

theorem sizeOf_lt_of_lookup {entries : List (String × Tree)} {key : String} {t : Tree}
    (h : entries.lookup key = some t) : sizeOf t < sizeOf (Tree.object entries) := by
  obtain ⟨before, after, rfl, -⟩ := List.lookup_eq_some_iff.mp h
  have := List.sizeOf_lt_of_mem (show (key, t) ∈ before ++ (key, t) :: after by simp)
  simp only [Prod.mk.sizeOf_spec, Tree.object.sizeOf_spec] at this ⊢
  omega

end RecordCoding
