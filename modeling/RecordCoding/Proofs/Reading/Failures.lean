/-
Reading stops at the first of all failures.

`failures` goes through a tree without ever stopping and collects what is wrong
with it as a value of a type: a record first, then its fields in the order of
declaration; an array element by element.

`ofTree_eq_first_failure`: a tree is read as a value exactly if nothing is wrong
with it, and else the error is the first of its failures.

Design notes:

* `failures` shares nothing with the reader but the wording of an error at a
  node (`mismatch`, `outOfRange`, `failure`).
* It goes down like the reader: to a smaller tree, or to a smaller type at the
  same node.  `decode_induction` follows.
-/
import RecordCoding.Proofs.Reading.Container

namespace RecordCoding

/-! ### All failures -/

/-- All that is wrong with a tree as a value of a type. -/
def failures (s : Schema) (t : DataType) (tree : Tree) (p : CodingPath) : List DecodeError :=
  let d : Decoder := ⟨tree, p⟩
  match t with
  | .bool =>
    match tree with
    | .bool _ => []
    | _ => [d.mismatch "boolean"]
  | .string =>
    match tree with
    | .text _ => []
    | _ => [d.mismatch "string"]
  | .char =>
    match tree with
    | .text v =>
      if v.toList.length = 1 then []
      else [d.failure ("expected a single character, got " ++ String.ofList (Text.quoted v))]
    | _ => [d.mismatch "string"]
  | .single | .double =>
    match tree with
    | .double _ | .integer _ => []
    | _ => [d.mismatch "double"]
  | .integer kind =>
    match tree with
    | .integer n => if kind.holds n.toInt then [] else [d.outOfRange kind.name]
    | _ => [d.mismatch "integer"]
  | .tree => []
  | .list u =>
    match tree with
    | .array items => items.attach.zipIdx.flatMap fun ⟨⟨item, _⟩, i⟩ => failures s u item (p.index i)
    | _ => [d.mismatch "array"]
  | .option u => if tree.isNull then [] else failures s u tree p
  | .pointer u => failures s u tree p
  | .record name arguments =>
    match tree with
    | .object entries =>
      -- The record gives the order, and the first entry under a key counts.
      (s.fieldsOf name).flatMap fun f =>
        match f.coding.instantiate arguments, _h : entries.lookup f.key with
        | .excluded _, _ => []
        | .required _, none => [.keyNotFound f.key p]
        | .required u, some child => failures s u child (p.key f.key)
        | .ifPresent _, none => []
        | .ifPresent u, some child =>
          if child.isNull then [] else failures s u child (p.key f.key)
    | _ => [d.mismatch "object"]
  | .failing message => [d.failure message]
  | .inspecting _ => []
  | .parameter _ => [d.failure "type parameter without a type"]
  | .scripted _ => [d.failure "type without a decoder"]
  termination_by (tree, t)
  decreasing_by
  · exact .left _ _ (sizeOf_lt_of_mem_items ‹_›)
  · exact .right _ (by simp)
  · exact .right _ (by simp)
  · exact .left _ _ (sizeOf_lt_of_lookup _h)
  · exact .left _ _ (sizeOf_lt_of_lookup _h)

/-- All that is wrong with the entries of an object as a field of a record. -/
def fieldFailures (s : Schema) (arguments : List DataType) (c : KeyedDecoder) (f : Field) :
    List DecodeError :=
  match f.coding.instantiate arguments with
  | .excluded _ => []
  | .required u =>
    match c.entries.lookup f.key with
    | none => [.keyNotFound f.key c.path]
    | some child => failures s u child (c.path.key f.key)
  | .ifPresent u =>
    match c.entries.lookup f.key with
    | none => []
    | some child => if child.isNull then [] else failures s u child (c.path.key f.key)

section

variable (s : Schema)

theorem failures_array (u : DataType) (items : List Tree) (p : CodingPath) :
    failures s (.list u) (.array items) p
      = items.zipIdx.flatMap fun ti => failures s u ti.1 (p.index ti.2) := by
  rw [failures]
  conv => rhs; rw [← List.attach_map_subtype_val items, List.zipIdx_map, List.flatMap_map]
  rfl

theorem failures_object (name : String) (arguments : List DataType)
    (entries : List (String × Tree)) (p : CodingPath) :
    failures s (.record name arguments) (.object entries) p
      = (s.fieldsOf name).flatMap (fieldFailures s arguments ⟨entries, p⟩) := by
  rw [failures]
  refine congrArg (List.flatMap · (s.fieldsOf name)) (funext fun f => ?_)
  rw [fieldFailures]
  cases f.coding.instantiate arguments with
  | excluded => rfl
  | required u => cases entries.lookup f.key <;> rfl
  | ifPresent u => cases entries.lookup f.key <;> rfl

/-- What is wrong with a field: its key is missing, or something is wrong with
the entry under its key as a value of the field's type. -/
theorem mem_fieldFailures {arguments : List DataType} {c : KeyedDecoder} {f : Field}
    {err : DecodeError} (h : err ∈ fieldFailures s arguments c f) :
    ∃ t, (f.coding.instantiate arguments).type? = some t ∧
      ((c.entries.lookup f.key = none ∧ err = .keyNotFound f.key c.path) ∨
        ∃ child, c.entries.lookup f.key = some child ∧
          err ∈ failures s t child (c.path.key f.key)) := by
  rw [fieldFailures] at h
  cases hcoding : f.coding.instantiate arguments with
  | excluded initial =>
    rw [hcoding] at h
    exact absurd h (by simp)
  | required u =>
    simp only [hcoding] at h
    refine ⟨u, rfl, ?_⟩
    rcases hlookup : c.entries.lookup f.key with _ | child
    · rw [hlookup] at h
      exact Or.inl ⟨rfl, List.mem_singleton.mp h⟩
    · rw [hlookup] at h
      exact Or.inr ⟨child, rfl, h⟩
  | ifPresent u =>
    simp only [hcoding] at h
    refine ⟨.option u, rfl, ?_⟩
    rcases hlookup : c.entries.lookup f.key with _ | child
    · rw [hlookup] at h
      exact absurd h (by simp)
    · rw [hlookup] at h
      refine Or.inr ⟨child, rfl, ?_⟩
      rw [failures]
      exact h

end

/-! ### Stopping at the first failure -/

/-- A result is the first of some failures, or there is none. -/
def StopsAtFirst {α : Type} (r : Except DecodeError α) (all : List DecodeError) : Prop :=
  match r with
  | .ok _ => all = []
  | .error err => all.head? = some err

namespace StopsAtFirst

variable {α β γ : Type} {r : Except DecodeError α} {all : List DecodeError}

theorem map (h : StopsAtFirst r all) (f : α → β) : StopsAtFirst (r.map f) all := by
  cases r <;> exact h

/-- A reading that is followed by others stops at its own first failure, and else
where the others do. -/
theorem append {rest : Except DecodeError β} {others : List DecodeError} (h : StopsAtFirst r all)
    (hrest : StopsAtFirst rest others) (combine : α → β → γ) :
    StopsAtFirst (r.bind fun a => rest.map (combine a)) (all ++ others) := by
  rcases r with err | a
  · have h : all.head? = some err := h
    simp only [Except.bind, StopsAtFirst, List.head?_append, h, Option.some_or]
  · obtain rfl : all = [] := h
    exact hrest.map (combine a)

theorem readEach {read : Decoder → Except DecodeError α} {p : CodingPath}
    {wrong : Tree → CodingPath → List DecodeError} {items : List Tree}
    (h : ∀ t ∈ items, ∀ q, StopsAtFirst (read ⟨t, q⟩) (wrong t q)) (n : Nat) :
    StopsAtFirst (RecordCoding.readEach read p items n)
      ((items.zipIdx n).flatMap fun ti => wrong ti.1 (p.index ti.2)) := by
  induction items generalizing n with
  | nil => rfl
  | cons t rest ih =>
    have hrest := ih (fun u hu => h u (List.mem_cons_of_mem _ hu)) (n + 1)
    have ht := h t (List.mem_cons_self ..) (p.index n)
    rw [List.zipIdx_cons, List.flatMap_cons, readEach_cons]
    exact ht.append hrest List.cons

theorem fields {s : Schema} {arguments : List DataType} {c : KeyedDecoder} {fs : List Field}
    {wrong : Field → List DecodeError}
    (h : ∀ f ∈ fs, StopsAtFirst (c.field s arguments f) (wrong f)) :
    StopsAtFirst (c.fields s arguments fs) (fs.flatMap wrong) := by
  induction fs with
  | nil => rfl
  | cons f rest ih =>
    have hrest := ih fun g hg => h g (List.mem_cons_of_mem _ hg)
    have hf := h f (List.mem_cons_self ..)
    rw [List.flatMap_cons, KeyedDecoder.fields_cons]
    exact hf.append hrest fun d ds => (f.name, d) :: ds

end StopsAtFirst

/-! ### The reader and the failures -/

section

variable {s : Schema} {t u : DataType} {tree : Tree} {arguments : List DataType}

/-- What a reader and the failures have to do with each other. -/
def ReadsToFirst (s : Schema) (t : DataType) (tree : Tree) : Prop :=
  ∀ p, StopsAtFirst (Decoder.decode s t ⟨tree, p⟩) (failures s t tree p)

theorem readsToFirst_char : ReadsToFirst s .char tree := by
  intro p
  rw [decode_char, failures.eq_def]
  refine StopsAtFirst.map ?_ Datum.char
  cases tree with
  | text v =>
    simp only [Decoder.char]
    rcases v.toList with _ | ⟨c, _ | ⟨c', rest⟩⟩ <;> simp [StopsAtFirst]
  | _ => rfl

theorem readsToFirst_integer (kind : IntegerKind) : ReadsToFirst s (.integer kind) tree := by
  intro p
  rw [decode_integer, failures.eq_def]
  refine StopsAtFirst.map ?_ Datum.integer
  cases tree with
  | integer n =>
    simp only [Decoder.integer]
    by_cases hholds : kind.holds n.toInt <;> simp [StopsAtFirst, hholds]
  | _ => rfl

theorem readsToFirst_list
    (h : ∀ items, tree = .array items → ∀ child ∈ items, ReadsToFirst s u child) :
    ReadsToFirst s (.list u) tree := by
  intro p
  rw [decode_list, Decoder.elements]
  cases tree with
  | array items =>
    rw [failures_array]
    exact (StopsAtFirst.readEach (h items rfl) 0).map Datum.list
  | _ => rw [failures.eq_def]; rfl

theorem readsToFirst_option (h : ReadsToFirst s u tree) : ReadsToFirst s (.option u) tree := by
  intro p
  rw [decode_option, failures]
  by_cases hnull : tree.isNull
  · rw [if_pos hnull, if_pos hnull]
    rfl
  · rw [if_neg hnull, if_neg hnull]
    exact (h p).map Datum.present

theorem stopsAtFirst_field {c : KeyedDecoder} {f : Field}
    (h : ∀ child, c.entries.lookup f.key = some child → ∀ u, ReadsToFirst s u child) :
    StopsAtFirst (c.field s arguments f) (fieldFailures s arguments c f) := by
  rw [KeyedDecoder.field, fieldFailures]
  cases f.coding.instantiate arguments with
  | excluded initial => rfl
  | required u =>
    simp only [KeyedDecoder.decode]
    rcases hlookup : c.entries.lookup f.key with _ | child
    · rfl
    · exact h child hlookup u _
  | ifPresent u =>
    simp only [KeyedDecoder.decodeIfPresent]
    rcases hlookup : c.entries.lookup f.key with _ | child
    · rfl
    · by_cases hnull : child.isNull
      · simp only [if_pos hnull]
        rfl
      · simp only [if_neg hnull]
        exact ((h child hlookup u _).map some).map Datum.ofOption

theorem readsToFirst_record {name : String}
    (h : ∀ entries key child, tree = .object entries → entries.lookup key = some child →
      ∀ u, ReadsToFirst s u child) :
    ReadsToFirst s (.record name arguments) tree := by
  intro p
  rw [decode_record, Decoder.container]
  cases tree with
  | object entries =>
    rw [failures_object]
    refine StopsAtFirst.map (StopsAtFirst.fields fun f _ => ?_) (Datum.record name)
    exact stopsAtFirst_field fun child hlookup => h entries f.key child rfl hlookup
  | _ => rw [failures.eq_def]; rfl

/-- Every reader stops at the first failure. -/
theorem readsToFirst (s : Schema) (t : DataType) (tree : Tree) : ReadsToFirst s t tree := by
  induction t, tree using decode_induction with
  | step t tree hchild htype =>
    -- A leaf has one failure at most; the others pass on those of their parts, in order.
    cases t with
    | bool =>
      intro p
      rw [decode_bool, failures.eq_def]
      cases tree <;> rfl
    | string =>
      intro p
      rw [decode_string, failures.eq_def]
      cases tree <;> rfl
    | char => exact readsToFirst_char
    | single =>
      intro p
      rw [decode_single, failures.eq_def]
      refine StopsAtFirst.map ?_ _
      cases tree <;> rfl
    | double =>
      intro p
      rw [decode_double, failures.eq_def]
      refine StopsAtFirst.map ?_ _
      cases tree <;> rfl
    | tree =>
      intro p
      rw [decode_tree, failures]
      rfl
    | integer kind => exact readsToFirst_integer kind
    | list u =>
      refine readsToFirst_list fun items htree child hmem => ?_
      subst htree
      exact hchild u child (sizeOf_lt_of_mem_items hmem)
    | option u => exact readsToFirst_option (htype u (by simp))
    | pointer u =>
      intro p
      rw [decode_pointer, failures]
      exact (htype u (by simp) p).map Datum.pointer
    | record name arguments =>
      refine readsToFirst_record fun entries key child htree hlookup u => ?_
      subst htree
      exact hchild u child (sizeOf_lt_of_lookup hlookup)
    | failing message =>
      intro p
      rw [decode_failing, failures]
      rfl
    | inspecting probes =>
      intro p
      obtain ⟨observations, hread⟩ := decode_inspecting s probes ⟨tree, p⟩
      rw [hread, failures]
      rfl
    | parameter i =>
      intro p
      rw [decode_parameter, failures]
      rfl
    | scripted w =>
      intro p
      rw [decode_scripted, failures]
      rfl

end

/-- **Reading stops at the first failure**: a tree is read exactly if nothing is
wrong with it, and else the error is the first thing that is wrong. -/
theorem ofTree_eq_first_failure (s : Schema) (t : DataType) (tree : Tree) :
    ((∃ d, t.ofTree s tree = .ok d) ↔ failures s t tree .root = []) ∧
      ∀ err, t.ofTree s tree = .error err ↔ (failures s t tree .root).head? = some err := by
  have hfirst : StopsAtFirst (t.ofTree s tree) (failures s t tree .root) :=
    readsToFirst s t tree .root
  rcases hread : t.ofTree s tree with err | d
  · rw [hread] at hfirst
    have hhead : (failures s t tree .root).head? = some err := hfirst
    refine ⟨⟨fun ⟨d, hd⟩ => absurd hd (by simp), fun hnil => ?_⟩, fun err' => ?_⟩
    · rw [hnil] at hhead
      exact absurd hhead (by simp)
    · rw [hhead, Except.error.injEq, Option.some.injEq]
  · rw [hread] at hfirst
    have hnil : failures s t tree .root = [] := hfirst
    refine ⟨⟨fun _ => hnil, fun _ => ⟨d, rfl⟩⟩, fun err => ?_⟩
    rw [hnil]
    simp

end RecordCoding
