/-
The printed form of a tree is unambiguous.

Trees without doubles are known from their printed forms.  The first character of a
printed form says of which kind the tree is (`kindOpenedBy?`), and behind that each
kind ends in a way of its own: a word when it is complete, an integer where no digit
follows, a text at the mark that closes it, an array and an object at the bracket
behind their last part.

* `printedInt_append_inj` — integers, up to what follows them;
* `chars_append_inj` — trees, up to what follows them;
* `printed_unambiguous` — whole trees.

Design notes: of quoted text nothing is used but `Text.Escapes`, so separators and
brackets inside a text need no look.  Doubles are left out because some are printed
like integers.
-/
import RecordCoding.Proofs.Text.Delimited
import RecordCoding.Proofs.Tree.UniqueKeys
import RecordCoding.Tree.Printed

namespace RecordCoding

open Text (Leaves leaves_nil leaves_cons)

variable {r s : List Char}

/-! ### Integers -/

/-- A sign is no digit. -/
theorem sign_digits_ne (m n : Nat) :
    '-' :: (Decimal.digitsOf m ++ r) ≠ Decimal.digitsOf n ++ s := by
  intro h
  obtain ⟨c, digits, hn, hc⟩ := Text.exists_digitsOf n
  rw [hn] at h
  obtain rfl := (List.cons.inj h).1
  exact absurd hc (by decide)

/-- An integer ends where no digit follows. -/
theorem printedInt_append_inj {m n : Int} (hr : Leaves Char.isDigit r) (hs : Leaves Char.isDigit s)
    (h : printedInt m ++ r = printedInt n ++ s) : m = n ∧ r = s := by
  rw [printedInt, printedInt] at h
  by_cases hm : m < 0
  · by_cases hn : n < 0
    · rw [if_pos hm, if_pos hn] at h
      obtain ⟨habs, hrest⟩ := Text.digitsOf_append_inj hr hs (List.cons.inj h).2
      exact ⟨by omega, hrest⟩
    · rw [if_pos hm, if_neg hn] at h
      exact absurd h (sign_digits_ne _ _)
  · by_cases hn : n < 0
    · rw [if_neg hm, if_pos hn] at h
      exact absurd h.symm (sign_digits_ne _ _)
    · rw [if_neg hm, if_neg hn] at h
      obtain ⟨habs, hrest⟩ := Text.digitsOf_append_inj hr hs h
      exact ⟨by omega, hrest⟩

namespace Tree

/-! ### Trees without doubles -/

/-- No double stands in the tree, at any depth. -/
def DoubleFree (t : Tree) : Prop := ∀ x, ¬ Subtree (.double x) t

theorem DoubleFree.item {items : List Tree} (h : (array items).DoubleFree) :
    ∀ t ∈ items, t.DoubleFree :=
  fun _ ht x hsub => h x (.item ht hsub)

theorem DoubleFree.entry {entries : List (String × Tree)} (h : (object entries).DoubleFree) :
    ∀ entry ∈ entries, entry.2.DoubleFree :=
  fun _ hentry x hsub => h x (.entry hentry hsub)

/-! ### Kinds -/

/-- The kind of the trees, other than doubles, whose printed form opens with a
character. -/
def kindOpenedBy? (c : Char) : Option String :=
  if c = '-' || c.isDigit then some "integer"
  else
    match c with
    | 'n' => some "null"
    | 't' => some "boolean"
    | 'f' => some "boolean"
    | '"' => some "string"
    | '[' => some "array"
    | '\x7b' => some "object"
    | _ => none

theorem exists_chars_cons {t : Tree} (h : t.DoubleFree) :
    ∃ c cs, t.chars = c :: cs ∧ kindOpenedBy? c = some t.kindName := by
  cases t with
  | null => exact ⟨_, _, rfl, rfl⟩
  | bool b => cases b <;> exact ⟨_, _, rfl, rfl⟩
  | integer n =>
    rw [chars, printedInt]
    by_cases hn : n.toInt < 0
    · exact ⟨'-', _, by rw [if_pos hn], rfl⟩
    · obtain ⟨c, digits, hdigits, hc⟩ := Text.exists_digitsOf n.toInt.natAbs
      refine ⟨c, digits, by rw [if_neg hn, hdigits], ?_⟩
      simp [kindOpenedBy?, hc, kindName]
  | double x => exact absurd (.refl _) (h x)
  | text v => exact ⟨_, _, rfl, rfl⟩
  | array items => exact ⟨_, _, rfl, rfl⟩
  | object entries => exact ⟨_, _, rfl, rfl⟩

/-- Trees that are printed alike, up to something behind them, are of one kind. -/
theorem kindName_eq_of_chars {a b : Tree} (ha : a.DoubleFree) (hb : b.DoubleFree)
    (h : a.chars ++ r = b.chars ++ s) : a.kindName = b.kindName := by
  obtain ⟨c, cs, hca, hkind⟩ := exists_chars_cons ha
  obtain ⟨d, ds, hdb, hother⟩ := exists_chars_cons hb
  rw [hca, hdb] at h
  obtain rfl := (List.cons.inj h).1
  exact Option.some.inj (hkind.symm.trans hother)

/-- No tree opens like what closes another. -/
theorem chars_ne_of_kind {t : Tree} (h : t.DoubleFree) {c : Char} (hc : kindOpenedBy? c = none) :
    t.chars ++ r ≠ c :: s := by
  intro heq
  obtain ⟨d, ds, hd, hkind⟩ := exists_chars_cons h
  rw [hd] at heq
  obtain rfl := (List.cons.inj heq).1
  exact absurd hkind (by simp [hc])

/-! ### Parts -/

/-- What stands behind a part: the others, parted by commas. -/
def behind {α : Type} (body : List α → List Char) : List α → List Char
  | [] => []
  | a :: rest => ',' :: ' ' :: body (a :: rest)

theorem leaves_behind {α : Type} (body : List α → List Char) (parts : List α) {close : Char}
    (hclose : close.isDigit = false) (rest : List Char) :
    Leaves Char.isDigit (behind body parts ++ close :: rest) := by
  cases parts with
  | nil => exact leaves_cons hclose rest
  | cons a parts => exact leaves_cons (by decide) _

/-- A comma tells that there are further parts, a bracket that there are none. -/
theorem behind_append_inj {α : Type} {body : List α → List Char} {xs ys : List α} {close : Char}
    (hclose : close ≠ ',') (hbody : body xs ++ close :: r = body ys ++ close :: s → xs = ys ∧ r = s)
    (h : behind body xs ++ close :: r = behind body ys ++ close :: s) : xs = ys ∧ r = s := by
  cases xs with
  | nil =>
    cases ys with
    | nil => exact ⟨rfl, (List.cons.inj h).2⟩
    | cons y ys => exact absurd (List.cons.inj h).1 hclose
  | cons x xs =>
    cases ys with
    | nil => exact absurd (List.cons.inj h).1.symm hclose
    | cons y ys => exact hbody (List.cons.inj (List.cons.inj h).2).2

theorem charsOfItems_cons (t : Tree) (rest : List Tree) :
    charsOfItems (t :: rest) = t.chars ++ behind charsOfItems rest := by
  cases rest <;> simp [charsOfItems, behind]

theorem charsOfEntries_cons (key : String) (t : Tree) (rest : List (String × Tree)) :
    charsOfEntries ((key, t) :: rest)
      = Text.quoted key ++ ':' :: ' ' :: (t.chars ++ behind charsOfEntries rest) := by
  cases rest <;> simp [charsOfEntries, behind]

theorem chars_array_append (items : List Tree) (rest : List Char) :
    (array items).chars ++ rest = '[' :: (charsOfItems items ++ ']' :: rest) := by
  simp [chars]

theorem chars_object_append (entries : List (String × Tree)) (rest : List Char) :
    (object entries).chars ++ rest = '\x7b' :: (charsOfEntries entries ++ '\x7d' :: rest) := by
  simp [chars]

/-! ### Unique reading -/

mutual

/-- Whatever follows two trees, as long as it is no digit: if all of it is printed
alike, the trees are the same and so is what follows. -/
theorem chars_append_inj : ∀ (a b : Tree) {r s : List Char}, a.DoubleFree → b.DoubleFree →
    Leaves Char.isDigit r → Leaves Char.isDigit s → a.chars ++ r = b.chars ++ s → a = b ∧ r = s
  | .null, b, r, s, ha, hb, _, _, h => by
    have hkind := kindName_eq_of_chars ha hb h
    cases b with
    | null => exact ⟨rfl, List.append_cancel_left h⟩
    | _ => exact absurd hkind (by simp [kindName])
  | .bool x, b, r, s, ha, hb, _, _, h => by
    have hkind := kindName_eq_of_chars ha hb h
    cases b with
    | bool y =>
      cases x <;> cases y
      case false.true => exact absurd (List.cons.inj h).1 (by decide)
      case true.false => exact absurd (List.cons.inj h).1 (by decide)
      all_goals exact ⟨rfl, List.append_cancel_left h⟩
    | _ => exact absurd hkind (by simp [kindName])
  | .integer m, b, r, s, ha, hb, hr, hs, h => by
    have hkind := kindName_eq_of_chars ha hb h
    cases b with
    | integer n =>
      rw [chars, chars] at h
      obtain ⟨hvalue, hrest⟩ := printedInt_append_inj hr hs h
      exact ⟨congrArg integer (Int64.toInt_inj.mp hvalue), hrest⟩
    | _ => exact absurd hkind (by simp [kindName])
  | .double x, _, _, _, ha, _, _, _, _ => absurd (.refl _) (ha x)
  | .text v, b, r, s, ha, hb, _, _, h => by
    have hkind := kindName_eq_of_chars ha hb h
    cases b with
    | text w =>
      rw [chars, chars] at h
      obtain ⟨rfl, hrest⟩ := Text.quoted_append_inj h
      exact ⟨rfl, hrest⟩
    | _ => exact absurd hkind (by simp [kindName])
  | .array xs, b, r, s, ha, hb, _, _, h => by
    have hkind := kindName_eq_of_chars ha hb h
    cases b with
    | array ys =>
      rw [chars_array_append, chars_array_append] at h
      obtain ⟨rfl, hrest⟩ := charsOfItems_append_inj xs ys ha.item hb.item (List.cons.inj h).2
      exact ⟨rfl, hrest⟩
    | _ => exact absurd hkind (by simp [kindName])
  | .object xs, b, r, s, ha, hb, _, _, h => by
    have hkind := kindName_eq_of_chars ha hb h
    cases b with
    | object ys =>
      rw [chars_object_append, chars_object_append] at h
      obtain ⟨rfl, hrest⟩ := charsOfEntries_append_inj xs ys ha.entry hb.entry (List.cons.inj h).2
      exact ⟨rfl, hrest⟩
    | _ => exact absurd hkind (by simp [kindName])

/-- The elements of an array end at its bracket. -/
theorem charsOfItems_append_inj : ∀ (xs ys : List Tree) {r s : List Char},
    (∀ t ∈ xs, t.DoubleFree) → (∀ t ∈ ys, t.DoubleFree) →
      charsOfItems xs ++ ']' :: r = charsOfItems ys ++ ']' :: s → xs = ys ∧ r = s
  | [], [], _, _, _, _, h => ⟨rfl, (List.cons.inj h).2⟩
  | [], y :: ys, _, _, _, hys, h => by
    rw [charsOfItems_cons, List.append_assoc] at h
    exact absurd h.symm (chars_ne_of_kind (hys y List.mem_cons_self) rfl)
  | x :: xs, [], _, _, hxs, _, h => by
    rw [charsOfItems_cons, List.append_assoc] at h
    exact absurd h (chars_ne_of_kind (hxs x List.mem_cons_self) rfl)
  | x :: xs, y :: ys, r, s, hxs, hys, h => by
    obtain ⟨hx, hothers⟩ := List.forall_mem_cons.mp hxs
    obtain ⟨hy, hmost⟩ := List.forall_mem_cons.mp hys
    rw [charsOfItems_cons, charsOfItems_cons, List.append_assoc, List.append_assoc] at h
    obtain ⟨rfl, hmore⟩ := chars_append_inj x y hx hy (leaves_behind _ xs (by decide) r)
      (leaves_behind _ ys (by decide) s) h
    obtain ⟨rfl, hend⟩ :=
      behind_append_inj (by decide) (charsOfItems_append_inj xs ys hothers hmost) hmore
    exact ⟨rfl, hend⟩

/-- The entries of an object end at its brace. -/
theorem charsOfEntries_append_inj : ∀ (xs ys : List (String × Tree)) {r s : List Char},
    (∀ entry ∈ xs, entry.2.DoubleFree) → (∀ entry ∈ ys, entry.2.DoubleFree) →
      charsOfEntries xs ++ '\x7d' :: r = charsOfEntries ys ++ '\x7d' :: s → xs = ys ∧ r = s
  | [], [], _, _, _, _, h => ⟨rfl, (List.cons.inj h).2⟩
  | [], (l, y) :: ys, _, _, _, _, h => by
    rw [charsOfEntries_cons] at h
    exact absurd (List.cons.inj h).1 (by decide)
  | (k, x) :: xs, [], _, _, _, _, h => by
    rw [charsOfEntries_cons] at h
    exact absurd (List.cons.inj h).1 (by decide)
  | (k, x) :: xs, (l, y) :: ys, r, s, hxs, hys, h => by
    obtain ⟨hx, hothers⟩ := List.forall_mem_cons.mp hxs
    obtain ⟨hy, hmost⟩ := List.forall_mem_cons.mp hys
    simp only [charsOfEntries_cons, List.append_assoc, List.cons_append] at h
    obtain ⟨rfl, hvalue⟩ := Text.quoted_append_inj h
    obtain ⟨rfl, hmore⟩ := chars_append_inj x y hx hy (leaves_behind _ xs (by decide) r)
      (leaves_behind _ ys (by decide) s) (List.cons.inj (List.cons.inj hvalue).2).2
    obtain ⟨rfl, hend⟩ :=
      behind_append_inj (by decide) (charsOfEntries_append_inj xs ys hothers hmost) hmore
    exact ⟨rfl, hend⟩

end

/-- **Trees without doubles that are printed alike are the same.** -/
theorem printed_unambiguous {a b : Tree} (ha : a.DoubleFree) (hb : b.DoubleFree) :
    a.printed = b.printed ↔ a = b := by
  constructor
  · intro h
    have hchars : a.chars = b.chars := String.ofList_injective h
    have hbehind : a.chars ++ [] = b.chars ++ [] := by rw [hchars]
    exact (chars_append_inj a b ha hb (leaves_nil _) (leaves_nil _) hbehind).1
  · rintro rfl
    rfl

/-- Doubles are another matter: some are printed like integers. -/
example : (double (.ofInt 1)).printed = (integer 1).printed := by decide +kernel

namespace Separators

/-- Two texts and two integers, parted by commas. -/
def parted : Tree :=
  .object [("k\"", .array [.text "a", .text "b\n", .integer 1, .integer Int64.minValue])]

/-- The same commas, some of them inside a text. -/
def together : Tree := .object [("k\\", .array [.text "a\", \"b", .integer 1])]

theorem doubleFree_parted : parted.DoubleFree := by
  intro x
  simp (disch := decide) [parted, subtree_array_iff, subtree_object_iff, subtree_of_isLeaf]

theorem doubleFree_together : together.DoubleFree := by
  intro x
  simp (disch := decide) [together, subtree_array_iff, subtree_object_iff, subtree_of_isLeaf]

theorem printed_parted_iff :
    parted.DoubleFree ∧ together.DoubleFree ∧
      (parted.printed = together.printed ↔ parted = together) :=
  ⟨doubleFree_parted, doubleFree_together, printed_unambiguous doubleFree_parted doubleFree_together⟩

end Separators

end Tree

end RecordCoding
