/-
A failed write leaves its encoder as it was.

What a value wrote by the time it failed stands in an encoder of its own, and is
dropped with it.  So a write under a key and a write of elements change their
encoder either as a whole or not at all (`Atomic`), whatever the value or the
element does with its own encoder first; and so does every value of a standard
type that writes itself straight into an encoder.

`atomic_writes` puts this together.

Design notes: records are left out.  A record writes its fields straight into the
encoder it is given, and those written before a failure stay there.
-/
import RecordCoding.Proofs.Codec
import RecordCoding.Proofs.Writing.Entries

namespace RecordCoding

/-- A failure leaves the encoder as it was: its single value, its entries and its
path. -/
def Atomic (write : Encoder → Written) : Prop :=
  ∀ e err e', write e = (.error err, e') → e' = e

/-- A writing that cannot fail is atomic. -/
theorem Atomic.of_ok {write : Encoder → Written} (h : ∀ e, (write e).1 = .ok ()) :
    Atomic write := by
  intro e err e' hfail
  have hok := h e
  rw [hfail] at hok
  exact absurd hok (by simp)

namespace Encoder

/-- A write under a key, whatever the value does to make its tree. -/
theorem atomic_putWith (key : String) (encode : TreeMaker) :
    Atomic fun e => e.putWith key encode := by
  intro e err e' h
  simp only [putWith] at h
  by_cases hkey : e.holdsKey key
  · rw [if_pos hkey] at h
    exact (Prod.mk.inj h).2.symm
  · rw [if_neg hkey] at h
    rcases hencode : encode (e.path.key key) with _ | t
    · rw [hencode] at h
      exact (Prod.mk.inj h).2.symm
    · rw [hencode] at h
      exact absurd (Prod.mk.inj h).1 (by simp)

theorem atomic_putIfPresent (key : String) (w : Option Writing) :
    Atomic fun e => e.putIfPresent key w := by
  cases w with
  | none => exact .of_ok fun _ => rfl
  | some w => exact atomic_putWith key w.treeAt

end Encoder

namespace Writing

theorem atomic_integer (n : Int) : Atomic (Writing.integer n).run := by
  intro e err e' h
  rw [run] at h
  by_cases hfits : fitsInt64 n
  · rw [if_pos hfits] at h
    exact absurd (Prod.mk.inj h).1 (by simp)
  · rw [if_neg hfits] at h
    exact (Prod.mk.inj h).2.symm

/-- Elements, however many of them had been written before one failed. -/
theorem atomic_elements (items : List Writing) : Atomic (Writing.elements items).run := by
  intro e err e' h
  rw [run] at h
  rcases htrees : trees items e.path 0 with _ | ts
  · rw [htrees] at h
    exact (Prod.mk.inj h).2.symm
  · rw [htrees] at h
    exact absurd (Prod.mk.inj h).1 (by simp)

end Writing

/-- Elements of any type, whatever code of its own the type has. -/
theorem Codec.atomic_list {α : Type} (c : Codec α) (xs : List α) : Atomic (c.list.encode xs) := by
  intro e err e' h
  simp only [Codec.list] at h
  rcases htrees : c.treesOf xs e.path 0 with _ | ts
  · rw [htrees] at h
    exact (Prod.mk.inj h).2.symm
  · rw [htrees] at h
    exact absurd (Prod.mk.inj h).1 (by simp)

/-! ### Standard types -/

/-- The leaves, lists of anything, and optional values and pointers over these. -/
inductive DataType.Standard : DataType → Prop
  | bool : Standard .bool
  | string : Standard .string
  | char : Standard .char
  | single : Standard .single
  | double : Standard .double
  | tree : Standard .tree
  | integer (kind : IntegerKind) : Standard (.integer kind)
  | list (t : DataType) : Standard (.list t)
  | option {t : DataType} (h : Standard t) : Standard (.option t)
  | pointer {t : DataType} (h : Standard t) : Standard (.pointer t)

/-- A value of a standard type that writes itself straight into an encoder. -/
theorem Datum.atomic_writing (s : Schema) {t : DataType} (h : t.Standard) (d : Datum) :
    Atomic (d.writing s t).run := by
  induction h generalizing d with
  | integer kind =>
    cases d with
    | integer n => exact Writing.atomic_integer n
    | _ => exact .of_ok fun _ => rfl
  | list t =>
    cases d with
    | list items => exact Writing.atomic_elements _
    | _ => exact .of_ok fun _ => rfl
  | option _ ih =>
    cases d with
    | present d => exact ih d
    | _ => exact .of_ok fun _ => rfl
  | pointer _ ih =>
    cases d with
    | pointer d => exact ih d
    | _ => exact .of_ok fun _ => rfl
  | _ => cases d <;> exact .of_ok fun _ => rfl

/-- **A failed write leaves its encoder as it was**: a write under a key, a write
of elements, and a value of a standard type that writes itself. -/
theorem atomic_writes :
    (∀ (key : String) (encode : TreeMaker), Atomic fun e => e.putWith key encode) ∧
      (∀ (key : String) (w : Option Writing), Atomic fun e => e.putIfPresent key w) ∧
      (∀ items : List Writing, Atomic (Writing.elements items).run) ∧
      (∀ (α : Type) (c : Codec α) (xs : List α), Atomic (c.list.encode xs)) ∧
      ∀ (s : Schema) (t : DataType) (d : Datum), t.Standard → Atomic (d.writing s t).run :=
  ⟨Encoder.atomic_putWith, Encoder.atomic_putIfPresent, Writing.atomic_elements,
    fun _ => Codec.atomic_list, fun s _ d h => Datum.atomic_writing s h d⟩

/-- The field in front of the failing one stays. -/
example :
    ((Writing.keyed [⟨"a", false, .integer 1⟩, ⟨"b", false, .failing "no"⟩]).run (.fresh .root)).2
      = ⟨.root, none, some [("a", .integer 1)]⟩ := rfl

/-! ### A value that fails after many writes -/

namespace LateFailure

/-- Writes an entry, a single value in its place, another entry in the place of
that, and fails. -/
def value : Writing :=
  .sequence [.keyed [⟨"a", false, .integer 1⟩], .tree (.bool true),
    .keyed [⟨"b", false, .tree .null⟩], .failing "no"]

/-- An open container. -/
def container : Encoder := ⟨CodingPath.root.key "outer", none, some [("x", .null)]⟩

/-- A list whose second element fails, in an option over a pointer. -/
def list : Datum := .present (.pointer (.list [.tree .null, .tree .null]))

/-- The type of the list: its elements are values with code of their own. -/
def type : DataType := .option (.pointer (.list (.scripted value)))

/-- Nothing of the value is left in the container. -/
theorem container_unchanged :
    (∃ err e', container.putWith "y" value.treeAt = (.error err, e') ∧ e' = container) ∧
      (∃ err e', container.putIfPresent "y" (some value) = (.error err, e') ∧ e' = container) ∧
      (∃ err e', (Writing.elements [.tree .null, value]).run container = (.error err, e') ∧
        e' = container) ∧
      (∃ err e', (Codec.ofType [] (.scripted value)).list.encode [.absent] container
        = (.error err, e') ∧ e' = container) ∧
      type.Standard ∧
      ∃ err e', (list.writing [] type).run container = (.error err, e') ∧ e' = container := by
  obtain ⟨hkey, hpresent, helements, hlist, hstandard⟩ := atomic_writes
  have htype : type.Standard := .option (.pointer (.list _))
  refine ⟨⟨_, _, rfl, ?_⟩, ⟨_, _, rfl, ?_⟩, ⟨_, _, rfl, ?_⟩, ⟨_, _, rfl, ?_⟩, htype, _, _, rfl, ?_⟩
  · exact hkey "y" value.treeAt container _ _ rfl
  · exact hpresent "y" (some value) container _ _ rfl
  · exact helements [.tree .null, value] container _ _ rfl
  · exact hlist Datum (Codec.ofType [] (.scripted value)) [.absent] container _ _ rfl
  · exact hstandard [] type list htype container _ _ rfl

end LateFailure

end RecordCoding
