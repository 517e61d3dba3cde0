/-
The place of a decoder is pure context.

`SameEverywhere read tree` says that a tree is read wherever it stands as it is read
anywhere else: as the same value, or with the same error, whose path begins at
another root.  It goes through the operations of decoders and of keyed containers,
whatever reads the elements and the entries (`SameEverywhere.elements`,
`KeyedDecoder.decode_under`, `KeyedDecoder.decodeIfPresent_under`).

`decode_sameEverywhere`: so is every described type read that does not look around
in its decoder.
-/
import RecordCoding.Proofs.Data.Canonical

namespace RecordCoding

/-! ### Another root -/

/-- The same failure, seen from another root. -/
def DecodeError.under (err : DecodeError) (outer : CodingPath) : DecodeError :=
  err.mapPath (·.under outer)

/-- The same node, seen from another root. -/
def Decoder.under (d : Decoder) (outer : CodingPath) : Decoder :=
  { d with path := d.path.under outer }

/-- The same container, seen from another root. -/
def KeyedDecoder.under (c : KeyedDecoder) (outer : CodingPath) : KeyedDecoder :=
  { c with path := c.path.under outer }

section

variable {α β : Type} {read : Decoder → Except DecodeError α} {tree : Tree} (outer : CodingPath)

/-- A failure further down is still one if the value is used. -/
theorem mapError_map (r : Except DecodeError α) (f : α → β) :
    (r.map f).mapError (·.under outer) = (r.mapError (·.under outer)).map f := by
  cases r <;> rfl

namespace Decoder

variable (d : Decoder)

theorem mismatch_under (expected : String) :
    (d.under outer).mismatch expected = (d.mismatch expected).under outer := by
  obtain ⟨tree, p⟩ := d
  cases tree <;> rfl

theorem char_under : (d.under outer).char = d.char.mapError (·.under outer) := by
  obtain ⟨tree, p⟩ := d
  cases tree with
  | text v =>
    rw [char, char]
    -- One character, none, or more than one.
    rcases hchars : v.toList with _ | ⟨c, _ | ⟨c', rest⟩⟩ <;> simp only [under, hchars] <;> rfl
  | _ => rfl

theorem double_under : (d.under outer).double = d.double.mapError (·.under outer) := by
  obtain ⟨tree, p⟩ := d
  cases tree <;> rfl

theorem integer_under (kind : IntegerKind) :
    (d.under outer).integer kind = (d.integer kind).mapError (·.under outer) := by
  obtain ⟨tree, p⟩ := d
  cases tree with
  | integer n =>
    rw [integer, integer]
    by_cases hholds : kind.holds n.toInt
    · simp only [under, if_pos hholds]
      rfl
    · simp only [under, if_neg hholds]
      rfl
  | _ => rfl

end Decoder

/-! ### Elements and entries -/

/-- A tree is read alike under every root. -/
def SameEverywhere (read : Decoder → Except DecodeError α) (tree : Tree) : Prop :=
  ∀ p outer, read ⟨tree, p.under outer⟩ = (read ⟨tree, p⟩).mapError (·.under outer)

theorem SameEverywhere.map (h : SameEverywhere read tree) (f : α → β) :
    SameEverywhere (fun d => (read d).map f) tree := by
  intro p outer
  show (read ⟨tree, p.under outer⟩).map f = _
  rw [h p outer, mapError_map]

theorem readEach_under {items : List Tree} (h : ∀ item ∈ items, SameEverywhere read item)
    (p : CodingPath) (index : Nat) :
    readEach read (p.under outer) items index
      = (readEach read p items index).mapError (·.under outer) := by
  induction items generalizing index with
  | nil => rfl
  | cons item rest ih =>
    have hfirst := h item (List.mem_cons_self ..) (p.index index) outer
    have hrest := ih (fun t ht => h t (List.mem_cons_of_mem _ ht)) (index + 1)
    rw [readEach, readEach, CodingPath.index_under, hfirst, hrest]
    rcases read ⟨item, p.index index⟩ with _ | a
    · rfl
    · rcases readEach read p rest (index + 1) with _ | as <;> rfl

/-- Elements are read alike if each of them is. -/
theorem SameEverywhere.elements
    (h : ∀ items, tree = .array items → ∀ item ∈ items, SameEverywhere read item) :
    SameEverywhere (·.elements read) tree := by
  intro p outer
  cases tree with
  | array items => exact readEach_under outer (h items rfl) p 0
  | _ => rfl

namespace KeyedDecoder

variable {c : KeyedDecoder} {key : String}

/-- An entry is read alike if the first tree under its key is; a missing one is
missing everywhere. -/
theorem decode_under (h : ∀ child, c.entries.lookup key = some child → SameEverywhere read child) :
    (c.under outer).decode key read = (c.decode key read).mapError (·.under outer) := by
  rw [decode, decode]
  rw [show (c.under outer).entries = c.entries from rfl]
  rcases hlookup : c.entries.lookup key with _ | child
  · rfl
  · show read ⟨child, (c.path.under outer).key key⟩ = _
    rw [CodingPath.key_under, h child hlookup]

theorem decodeIfPresent_under
    (h : ∀ child, c.entries.lookup key = some child → SameEverywhere read child) :
    (c.under outer).decodeIfPresent key read
      = (c.decodeIfPresent key read).mapError (·.under outer) := by
  rw [decodeIfPresent, decodeIfPresent]
  rw [show (c.under outer).entries = c.entries from rfl]
  rcases hlookup : c.entries.lookup key with _ | child
  · rfl
  · simp only
    by_cases hnull : child.isNull
    · rw [if_pos hnull, if_pos hnull]
      rfl
    · rw [if_neg hnull, if_neg hnull]
      show (read ⟨child, (c.path.under outer).key key⟩).map some = _
      rw [CodingPath.key_under, h child hlookup, mapError_map]

end KeyedDecoder

/-- What is read through a container is read alike if the container is used alike. -/
theorem SameEverywhere.container {use : KeyedDecoder → Except DecodeError α}
    (h : ∀ entries p outer, tree = .object entries →
      use (KeyedDecoder.under ⟨entries, p⟩ outer)
        = (use ⟨entries, p⟩).mapError (·.under outer)) :
    SameEverywhere (fun d => d.container.bind use) tree := by
  intro p outer
  cases tree with
  | object entries => exact h entries p outer rfl
  | _ => rfl

end

/-! ### Described types -/

section

variable {s : Schema} {t : DataType} {tree : Tree}

/-- No part of a type looks around in its decoder. -/
def DataType.Sightless (s : Schema) (t : DataType) : Prop := ∀ u, Part s t u → u.inspects = false

theorem DataType.Sightless.next {u : DataType} (h : t.Sightless s) (hu : u ∈ t.next s) :
    u.Sightless s :=
  fun v hv => h v (.step hu hv)

namespace KeyedDecoder

variable {c : KeyedDecoder} {arguments : List DataType} (outer : CodingPath)

/-- A field is read alike if the entry under its key is. -/
theorem field_under {f : Field}
    (h : ∀ u child, (f.coding.instantiate arguments).type? = some u →
      c.entries.lookup f.key = some child → SameEverywhere (Decoder.decode s u) child) :
    (c.under outer).field s arguments f = (c.field s arguments f).mapError (·.under outer) := by
  have hentries : (c.under outer).entries = c.entries := rfl
  rcases htype : (f.coding.instantiate arguments).type? with _ | u
  · rw [field_of_excluded htype .absent, field_of_excluded htype .absent]
    rfl
  · rcases hlookup : c.entries.lookup f.key with _ | child
    · rw [field, field]
      cases hcoding : f.coding.instantiate arguments with
      | required u =>
        simp only [decode, hentries, hlookup]
        rfl
      | ifPresent u =>
        simp only [decodeIfPresent, hentries, hlookup]
        rfl
      | excluded initial => rfl
    · rw [field_of_lookup htype hlookup, field_of_lookup htype (c := c.under outer) hlookup]
      rw [show (c.under outer).path.key f.key = (c.path.key f.key).under outer from
        CodingPath.key_under _ _ _, h u child htype hlookup]

theorem fields_under {fs : List Field}
    (h : ∀ f ∈ fs, ∀ u child, (f.coding.instantiate arguments).type? = some u →
      c.entries.lookup f.key = some child → SameEverywhere (Decoder.decode s u) child) :
    (c.under outer).fields s arguments fs
      = (c.fields s arguments fs).mapError (·.under outer) := by
  induction fs with
  | nil => rfl
  | cons f rest ih =>
    have hfirst := field_under outer (h f (List.mem_cons_self ..))
    have hrest := ih fun g hg => h g (List.mem_cons_of_mem _ hg)
    rw [fields, fields, hfirst, hrest]
    rcases c.field s arguments f with _ | d
    · rfl
    · rcases c.fields s arguments rest with _ | ds <;> rfl

end KeyedDecoder

/-- A record is read through its container. -/
theorem decode_record_eq (name : String) (arguments : List DataType) (d : Decoder) :
    Decoder.decode s (.record name arguments) d
      = (d.container.bind fun c => c.fields s arguments (s.fieldsOf name)).map (.record name) := by
  rw [decode_record]
  cases d.container <;> rfl

/-- A record is read alike if every entry under the key of a field is. -/
theorem sameEverywhere_record {name : String} {arguments : List DataType}
    (h : ∀ entries, tree = .object entries → ∀ f ∈ s.fieldsOf name, ∀ u child,
      (f.coding.instantiate arguments).type? = some u → entries.lookup f.key = some child →
        SameEverywhere (Decoder.decode s u) child) :
    SameEverywhere (Decoder.decode s (.record name arguments)) tree := by
  have hfields : SameEverywhere
      (fun d => d.container.bind fun c => c.fields s arguments (s.fieldsOf name)) tree :=
    .container fun entries p outer htree => KeyedDecoder.fields_under outer (h entries htree)
  intro p outer
  rw [decode_record_eq, decode_record_eq]
  exact hfields.map (Datum.record name) p outer

/-- **Described types are read alike wherever they stand.** -/
theorem decode_sameEverywhere (hsightless : t.Sightless s) :
    SameEverywhere (Decoder.decode s t) tree := by
  induction t, tree using decode_induction with
  | step t tree hchild htype =>
    intro p outer
    cases t with
    | bool | string =>
      cases tree <;> rfl
    | char => rw [decode_char, decode_char, mapError_map, ← Decoder.char_under]; rfl
    | single => rw [decode_single, decode_single, mapError_map, ← Decoder.double_under]; rfl
    | double => rw [decode_double, decode_double, mapError_map, ← Decoder.double_under]; rfl
    | tree => rw [decode_tree, decode_tree]; rfl
    | integer kind => rw [decode_integer, decode_integer, mapError_map, ← Decoder.integer_under]; rfl
    | list u =>
      have helements : SameEverywhere (·.elements (Decoder.decode s u)) tree := by
        refine .elements fun items htree item hitem => ?_
        subst htree
        exact hchild u item (sizeOf_lt_of_mem_items hitem)
          (hsightless.next (List.mem_singleton_self u))
      rw [decode_list, decode_list]
      exact helements.map Datum.list p outer
    | option u =>
      have hcontent := htype u (by simp) (hsightless.next (List.mem_singleton_self u))
      rw [decode_option, decode_option]
      by_cases hnull : tree.isNull
      · rw [if_pos hnull, if_pos hnull]
        rfl
      · rw [if_neg hnull, if_neg hnull]
        exact hcontent.map Datum.present p outer
    | pointer u =>
      have hcontent := htype u (by simp) (hsightless.next (List.mem_singleton_self u))
      rw [decode_pointer, decode_pointer]
      exact hcontent.map Datum.pointer p outer
    | record name arguments =>
      refine sameEverywhere_record (fun entries htree f hf u child hu hlookup => ?_) p outer
      subst htree
      exact hchild u child (sizeOf_lt_of_lookup hlookup)
        (hsightless.next (List.mem_filterMap.mpr ⟨f, hf, hu⟩))
    | failing message => rw [decode_failing, decode_failing]; rfl
    | parameter i => rw [decode_parameter, decode_parameter]; rfl
    | scripted w => rw [decode_scripted, decode_scripted]; rfl
    | inspecting probes => exact absurd (hsightless _ (.refl _)) (by simp [DataType.inspects])

end

end RecordCoding
