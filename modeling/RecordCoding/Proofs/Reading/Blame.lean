/-
Every error of a reading points at the node that caused it.

A path is walked from the root of a tree: a key leads to the first entry under
it, an index to that element (`Tree.at?`).  `DecodeError.Blames` says what is
wrong with a node for each kind of error.

`ofTree_error_located`: the path of an error leads to a node that the error
blames, for every type that does not raise errors of its own.

The proof shows it of all failures at once (`failures_located`), not only of the
first: a failure found below a child lies below the child's step.
-/
import RecordCoding.Data.Gallery
import RecordCoding.Proofs.Reading.Failures
import RecordCoding.Proofs.Writing.Place

namespace RecordCoding

/-! ### Walking a path -/

namespace Tree

/-- The child that one step leads to. -/
def step? : Tree → PathStep → Option Tree
  | .object entries, .key name => entries.lookup name
  | .array items, .index i => items[i]?
  | _, _ => none

/-- The node that a path leads to. -/
def at? (t : Tree) (p : CodingPath) : Option Tree := p.steps.foldlM step? t

theorem at?_root (t : Tree) : t.at? .root = some t := rfl

theorem at?_cons {t child : Tree} {step : PathStep} (h : t.step? step = some child)
    (steps : List PathStep) : t.at? ⟨step :: steps⟩ = child.at? ⟨steps⟩ := by
  rw [at?, List.foldlM_cons, h]
  rfl

end Tree

/-! ### Types and their parts -/

namespace DataType

/-- The types that reading a value of a type comes to next. -/
def next (s : Schema) : DataType → List DataType
  | .list t => [t]
  | .option t => [t]
  | .pointer t => [t]
  | .record name arguments =>
    (s.fieldsOf name).filterMap fun f => (f.coding.instantiate arguments).type?
  | _ => []

/-- `Part s t u`: reading a value of type `t` may come to one of type `u`. -/
inductive Part (s : Schema) : DataType → DataType → Prop
  | refl (t : DataType) : Part s t t
  | step {t u v : DataType} (hu : u ∈ t.next s) (hv : Part s u v) : Part s t v

/-- The parts of a type are among types that are closed under the next ones. -/
theorem Part.mem_of_closed {s : Schema} {t u : DataType} {types : List DataType}
    (hclosed : ∀ t ∈ types, ∀ u ∈ t.next s, u ∈ types) (h : Part s t u) (ht : t ∈ types) :
    u ∈ types := by
  induction h with
  | refl => exact ht
  | step hu _ ih => exact ih (hclosed _ ht _ hu)

/-- Whether reading a type raises an error whatever the node is. -/
def raises : DataType → Bool
  | .failing _ => true
  | .parameter _ => true
  | .scripted _ => true
  | _ => false

/-- No part of a type raises errors of its own. -/
def Plain (s : Schema) (t : DataType) : Prop := ∀ u, Part s t u → u.raises = false

theorem Plain.next {s : Schema} {t u : DataType} (h : t.Plain s) (hu : u ∈ t.next s) : u.Plain s :=
  fun v hv => h v (.step hu hv)

end DataType

/-! ### Blame -/

/-- What an error says about the node that it points at. -/
def DecodeError.Blames (n : Tree) : DecodeError → Prop
  | .keyNotFound key _ => ∃ entries, n = .object entries ∧ key ∉ entries.map (·.1)
  | .valueNotFound _ _ => n = .null
  | .typeMismatch expected actual _ => n ≠ .null ∧ actual = n.kindName ∧ actual ≠ expected
  | .outOfRange value target _ =>
    ∃ (i : Int64) (kind : IntegerKind), n = .integer i ∧ kind.name = target ∧ kind.holds i.toInt = false ∧
      value = toString i.toInt
  | .custom _ _ => ∃ v, n = .text v ∧ v.toList.length ≠ 1

/-- An error that was found below a path in a tree points at a node it blames. -/
def Located (tree : Tree) (p : CodingPath) (err : DecodeError) : Prop :=
  ∃ q n, err.path = q.under p ∧ tree.at? q = some n ∧ err.Blames n

section

variable {tree child : Tree} {p : CodingPath} {err : DecodeError}

theorem located_here (hpath : err.path = p) (hblames : err.Blames tree) : Located tree p err := by
  refine ⟨.root, tree, ?_, Tree.at?_root tree, hblames⟩
  rw [hpath, CodingPath.under, CodingPath.root, List.append_nil]

/-- What lies below a child lies below its parent, one step further up. -/
theorem located_of_child {step : PathStep} (hstep : tree.step? step = some child)
    (h : Located child (p.appending step) err) : Located tree p err := by
  obtain ⟨q, n, hpath, hat, hblames⟩ := h
  refine ⟨⟨step :: q.steps⟩, n, ?_, ?_, hblames⟩
  · rw [hpath, CodingPath.under, CodingPath.under, CodingPath.appending, List.append_assoc,
      List.singleton_append]
  · rw [Tree.at?_cons hstep]
    exact hat

theorem located_of_item {items : List Tree} {i : Nat} (hitem : items[i]? = some child)
    (h : Located child (p.index i) err) : Located (.array items) p err :=
  located_of_child (show (Tree.array items).step? (.index i) = some child from hitem) h

theorem located_of_entry {entries : List (String × Tree)} {key : String}
    (hentry : entries.lookup key = some child) (h : Located child (p.key key) err) :
    Located (.object entries) p err :=
  located_of_child (show (Tree.object entries).step? (.key key) = some child from hentry) h

theorem mismatch_located {expected : String} (h : tree.kindName ≠ expected) :
    Located tree p (Decoder.mismatch ⟨tree, p⟩ expected) := by
  cases tree with
  | null => exact located_here rfl (show Tree.null = .null from rfl)
  | _ => exact located_here rfl ⟨by simp, rfl, h⟩

/-- An integer is printed in decimal. -/
theorem ofList_printedInt (n : Int) : String.ofList (printedInt n) = toString n := by
  rw [printedInt]
  cases n with
  | ofNat m =>
    rw [if_neg (show ¬Int.ofNat m < 0 from Int.not_lt.mpr (Int.natCast_nonneg m))]
    exact Nat.toString_eq_ofList_toDigits.symm
  | negSucc m =>
    rw [if_pos (Int.negSucc_lt_zero m), ← List.singleton_append, String.ofList_append]
    show _ = "-" ++ toString (m + 1)
    rw [Nat.toString_eq_ofList_toDigits]
    rfl

theorem outOfRange_located {i : Int64} {kind : IntegerKind} (h : kind.holds i.toInt = false) :
    Located (.integer i) p (Decoder.outOfRange ⟨.integer i, p⟩ kind.name) :=
  located_here rfl ⟨i, kind, rfl, rfl, h, ofList_printedInt i.toInt⟩

theorem keyNotFound_located {entries : List (String × Tree)} {key : String}
    (h : entries.lookup key = none) : Located (.object entries) p (.keyNotFound key p) := by
  refine located_here rfl ⟨entries, rfl, fun hmem => ?_⟩
  obtain ⟨entry, hentry, rfl⟩ := List.mem_map.mp hmem
  exact absurd (List.lookup_eq_none_iff.mp h entry hentry) (by simp)

end

/-! ### All failures are located -/

section

variable {s : Schema} {t u : DataType} {tree : Tree}

/-- Every failure of a tree points at a node that it blames. -/
def FailuresLocated (s : Schema) (t : DataType) (tree : Tree) : Prop :=
  ∀ p, ∀ err ∈ failures s t tree p, Located tree p err

/-- The one failure of a node of the wrong kind. -/
theorem located_of_mem_mismatch {p : CodingPath} {err : DecodeError} {expected : String}
    (herr : err ∈ [Decoder.mismatch ⟨tree, p⟩ expected]) (h : tree.kindName ≠ expected) :
    Located tree p err := by
  rw [List.mem_singleton.mp herr]
  exact mismatch_located h

theorem failuresLocated_char : FailuresLocated s .char tree := by
  intro p err herr
  rw [failures.eq_def] at herr
  cases tree with
  | text v =>
    simp only at herr
    by_cases hlength : v.toList.length = 1
    · exact absurd herr (by simp [hlength])
    · rw [if_neg hlength] at herr
      rw [List.mem_singleton.mp herr]
      exact located_here rfl ⟨v, rfl, hlength⟩
  | _ => exact located_of_mem_mismatch herr (by simp [Tree.kindName])

theorem failuresLocated_integer (kind : IntegerKind) : FailuresLocated s (.integer kind) tree := by
  intro p err herr
  rw [failures.eq_def] at herr
  cases tree with
  | integer n =>
    simp only at herr
    by_cases hholds : kind.holds n.toInt
    · exact absurd herr (by simp [hholds])
    · rw [if_neg hholds] at herr
      rw [List.mem_singleton.mp herr]
      exact outOfRange_located (eq_false_of_ne_true hholds)
  | _ => exact located_of_mem_mismatch herr (by simp [Tree.kindName])

theorem failuresLocated_list
    (h : ∀ items, tree = .array items → ∀ child ∈ items, FailuresLocated s u child) :
    FailuresLocated s (.list u) tree := by
  intro p err herr
  cases tree with
  | array items =>
    rw [failures_array, List.mem_flatMap] at herr
    obtain ⟨⟨child, i⟩, hmem, herr⟩ := herr
    refine located_of_item (List.mk_mem_zipIdx_iff_getElem?.mp hmem) ?_
    exact h items rfl child (List.fst_mem_of_mem_zipIdx hmem) _ err herr
  | _ =>
    rw [failures.eq_def] at herr
    exact located_of_mem_mismatch herr (by simp [Tree.kindName])

theorem failuresLocated_record {name : String} {arguments : List DataType}
    (h : ∀ entries, tree = .object entries → ∀ f ∈ s.fieldsOf name, ∀ u child,
      (f.coding.instantiate arguments).type? = some u → entries.lookup f.key = some child →
        FailuresLocated s u child) :
    FailuresLocated s (.record name arguments) tree := by
  intro p err herr
  cases tree with
  | object entries =>
    rw [failures_object, List.mem_flatMap] at herr
    obtain ⟨f, hf, herr⟩ := herr
    obtain ⟨u, htype, ⟨hmissing, rfl⟩ | ⟨child, hlookup, herr⟩⟩ := mem_fieldFailures s herr
    · exact keyNotFound_located hmissing
    · exact located_of_entry hlookup (h entries rfl f hf u child htype hlookup _ err herr)
  | _ =>
    rw [failures.eq_def] at herr
    exact located_of_mem_mismatch herr (by simp [Tree.kindName])

theorem failures_located (hplain : t.Plain s) : FailuresLocated s t tree := by
  induction t, tree using decode_induction with
  | step t tree hchild htype =>
    cases t with
    | bool =>
      intro p err herr
      rw [failures.eq_def] at herr
      cases tree with
      | bool b => exact absurd herr (by simp)
      | _ => exact located_of_mem_mismatch herr (by simp [Tree.kindName])
    | string =>
      intro p err herr
      rw [failures.eq_def] at herr
      cases tree with
      | text v => exact absurd herr (by simp)
      | _ => exact located_of_mem_mismatch herr (by simp [Tree.kindName])
    | single | double =>
      intro p err herr
      rw [failures.eq_def] at herr
      cases tree with
      | double x => exact absurd herr (by simp)
      | integer n => exact absurd herr (by simp)
      | _ => exact located_of_mem_mismatch herr (by simp [Tree.kindName])
    | char => exact failuresLocated_char
    | integer kind => exact failuresLocated_integer kind
    | tree | inspecting =>
      intro p err herr
      rw [failures] at herr
      exact absurd herr (by simp)
    | list u =>
      refine failuresLocated_list fun items htree child hmem => ?_
      subst htree
      exact hchild u child (sizeOf_lt_of_mem_items hmem) (hplain.next (List.mem_singleton_self u))
    | option u =>
      intro p err herr
      rw [failures] at herr
      by_cases hnull : tree.isNull
      · exact absurd herr (by simp [hnull])
      · rw [if_neg hnull] at herr
        exact htype u (by simp) (hplain.next (List.mem_singleton_self u)) p err herr
    | pointer u =>
      intro p err herr
      rw [failures] at herr
      exact htype u (by simp) (hplain.next (List.mem_singleton_self u)) p err herr
    | record name arguments =>
      refine failuresLocated_record fun entries htree f hf u child hu hlookup => ?_
      subst htree
      exact hchild u child (sizeOf_lt_of_lookup hlookup)
        (hplain.next (List.mem_filterMap.mpr ⟨f, hf, hu⟩))
    -- Errors of these come from elsewhere, and no plain type contains them.
    | failing | parameter | scripted =>
      exact absurd (hplain _ (.refl _)) (by simp [DataType.raises])

end

/-- **Errors point at their cause**: the path of an error leads to a node that
the error blames. -/
theorem ofTree_error_located {s : Schema} {t : DataType} {tree : Tree} {err : DecodeError}
    (hplain : t.Plain s) (h : t.ofTree s tree = .error err) :
    ∃ n, tree.at? err.path = some n ∧ err.Blames n := by
  have hfirst : StopsAtFirst (t.ofTree s tree) (failures s t tree .root) :=
    readsToFirst s t tree .root
  rw [h] at hfirst
  have hmem : err ∈ failures s t tree .root := List.mem_of_mem_head? hfirst
  obtain ⟨q, n, hpath, hat, hblames⟩ := failures_located hplain .root err hmem
  refine ⟨n, ?_, hblames⟩
  rw [hpath, CodingPath.under, CodingPath.root, List.nil_append]
  exact hat

/-! ### A failure deep in a tree -/

namespace DeepFailure

/-- Trees of the gallery: an optional label and a list of trees. -/
def type : DataType := .record "Tree" []

/-- A tree whose second child has a number for a label; the second list of
children is never looked at. -/
def document : Tree :=
  .object [("children", .array
      [.object [("children", .array []), ("label", .text "a")],
        .object [("label", .integer 5), ("children", .null), ("label", .text "b")]]),
    ("children", .null)]

theorem plain_type : type.Plain Gallery.schema := by
  have hnext : type.next Gallery.schema = [.option .string, .list type] := rfl
  have hclosed : ∀ t ∈ [type, .option .string, .string, .list type], ∀ u ∈ t.next Gallery.schema,
      u ∈ [type, .option .string, .string, .list type] := by
    simp only [List.forall_mem_cons, hnext]
    simp [DataType.next]
  intro u hu
  have hmem := hu.mem_of_closed hclosed (List.mem_cons_self ..)
  simp only [List.mem_cons, List.not_mem_nil, or_false] at hmem
  rcases hmem with rfl | rfl | rfl | rfl <;> rfl

/-- The error leads to the first label of the second child. -/
theorem located_in_document :
    type.Plain Gallery.schema ∧
      type.ofTree Gallery.schema document
        = .error (.typeMismatch "string" "integer" ⟨[.key "children", .index 1, .key "label"]⟩) ∧
      ∃ n, document.at? ⟨[.key "children", .index 1, .key "label"]⟩ = some n ∧
        DecodeError.Blames n
          (.typeMismatch "string" "integer" ⟨[.key "children", .index 1, .key "label"]⟩) := by
  have hread : type.ofTree Gallery.schema document
      = .error (.typeMismatch "string" "integer" ⟨[.key "children", .index 1, .key "label"]⟩) := by
    rfl
  exact ⟨plain_type, hread, ofTree_error_located plain_type hread⟩

end DeepFailure

end RecordCoding
