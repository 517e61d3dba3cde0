/-
Equality of trees is identity.

Trees are compared node by node, by a function of their own, because objects nest
lists of pairs and doubles are compared by their bits.  That it holds of every tree
and itself, and that equal trees may stand for each other, does not come with a
comparison that is written out by hand.

* `Tree.same_iff_eq` — the comparison finds two trees equal exactly if they are one
  and the same; so `==` on trees is lawful, and equality of trees is decidable;
* `Tree.beq_exact` — what this means for doubles, for numbers of different kinds, and
  for what trees are decoded as.
-/
import RecordCoding.Data.Decode
import RecordCoding.Data.Gallery

namespace RecordCoding

namespace Tree

mutual

/-- The comparison descends in both trees at once; where their nodes are of different
kinds it ends. -/
theorem same_iff_eq : ∀ a b : Tree, same a b = true ↔ a = b
  | .null, b => by cases b <;> simp [same]
  | .bool x, b => by cases b <;> simp [same]
  | .integer n, b => by cases b <;> simp [same]
  | .double x, b => by
    cases b with
    | double y =>
      obtain ⟨x⟩ := x
      obtain ⟨y⟩ := y
      simp [same]
    | _ => simp [same]
  | .text s, b => by cases b <;> simp [same]
  | .array xs, b => by
    cases b with
    | array ys => rw [same, sameItems_iff_eq xs ys, array.injEq]
    | _ => simp [same]
  | .object xs, b => by
    cases b with
    | object ys => rw [same, sameEntries_iff_eq xs ys, object.injEq]
    | _ => simp [same]

theorem sameItems_iff_eq : ∀ xs ys : List Tree, sameItems xs ys = true ↔ xs = ys
  | [], ys => by cases ys <;> simp [sameItems]
  | x :: xs, ys => by
    cases ys with
    | nil => simp [sameItems]
    | cons y ys =>
      rw [sameItems, Bool.and_eq_true, same_iff_eq x y, sameItems_iff_eq xs ys, List.cons.injEq]

theorem sameEntries_iff_eq : ∀ xs ys : List (String × Tree), sameEntries xs ys = true ↔ xs = ys
  | [], ys => by cases ys <;> simp [sameEntries]
  | (k, x) :: xs, ys => by
    cases ys with
    | nil => simp [sameEntries]
    | cons entry ys =>
      obtain ⟨l, y⟩ := entry
      rw [sameEntries, Bool.and_eq_true, Bool.and_eq_true, beq_iff_eq, same_iff_eq x y,
        sameEntries_iff_eq xs ys, List.cons.injEq, Prod.mk.injEq]

end

instance : LawfulBEq Tree where
  rfl {a} := (same_iff_eq a a).mpr rfl
  eq_of_beq {a b} h := (same_iff_eq a b).mp h

instance : DecidableEq Tree := fun a b => decidable_of_iff (same a b = true) (same_iff_eq a b)

/-- **Equality of trees is identity.**  It is an equivalence, whatever numbers are in
the trees: doubles are equal if their bits are, so a NaN equals itself and the two
zeros differ; and no integer equals a double.  Equal trees are decoded alike. -/
theorem beq_exact :
    (∀ a b : Tree, (a == b) = true ↔ a = b) ∧
    Equivalence (fun a b : Tree => (a == b) = true) ∧
    (∀ x y : Double, (double x == double y) = true ↔ x.bits = y.bits) ∧
    (double (.ofParts false 0) == double (.ofParts true 0)) = false ∧
    (∀ (n : Int64) (x : Double), (integer n == double x) = false) ∧
    ∀ a b : Tree, (a == b) = true →
      ∀ (s : Schema) (t : DataType), t.ofTree s a = t.ofTree s b := by
  have hexact : ∀ a b : Tree, (a == b) = true ↔ a = b := fun _ _ => beq_iff_eq
  have hequivalence : Equivalence (fun a b : Tree => (a == b) = true) := by
    constructor
    · intro a
      exact (hexact a a).mpr rfl
    · intro a b h
      exact (hexact b a).mpr ((hexact a b).mp h).symm
    · intro a b c hab hbc
      exact (hexact a c).mpr (((hexact a b).mp hab).trans ((hexact b c).mp hbc))
  have hbits : ∀ x y : Double, (double x == double y) = true ↔ x.bits = y.bits := by
    intro x y
    show (x.bits == y.bits) = true ↔ _
    exact beq_iff_eq
  have hzeros : (double (.ofParts false 0) == double (.ofParts true 0)) = false := by decide
  refine ⟨hexact, hequivalence, hbits, hzeros, fun n x => rfl, ?_⟩
  intro a b h s t
  rw [(hexact a b).mp h]

namespace Unordered

/-- A record with a NaN, which is not equal to itself as numbers are compared, and a
negative zero. -/
def numbers : Tree :=
  .object [("f", .double .nan), ("d", .double (.ofParts true 0)),
    ("vd", .array [.double .nan, .integer 0]), ("c", .text "c"), ("vc", .array [])]

/-- The same record, put together from the bits. -/
def patterns : Tree :=
  .object [("f", .double ⟨0x7ff8000000000000⟩), ("d", .double ⟨0x8000000000000000⟩),
    ("vd", .array [.double ⟨0x7ff8000000000000⟩, .integer 0]), ("c", .text "c"), ("vc", .array [])]

theorem beq_patterns :
    (numbers == patterns) = true ∧
      DataType.ofTree Gallery.schema (.record "Floats" []) numbers
        = DataType.ofTree Gallery.schema (.record "Floats" []) patterns := by
  have h : (numbers == patterns) = true := by decide
  exact ⟨h, beq_exact.2.2.2.2.2 numbers patterns h Gallery.schema (.record "Floats" [])⟩

end Unordered

end Tree

end RecordCoding
