/-
Texts whose end can be told.

A printed form is unambiguous if each of its parts says where it ends, whatever
stands behind it.  A run of characters ends before the first of another kind, and a
text in quotation marks ends at the first mark that is not escaped.

* `run_append_inj` — runs;
* `toDigits_injective` — numbers are known from their digits, in every base up to
  sixteen;
* `Escapes` — what is asked of a way to escape characters, and `escapes_escape`, that
  the one of quoted text meets it;
* `quoted_append_inj` — quoted text.

Design notes: each statement is about two texts with something behind them, so that
it can be used for the first part of what was written and leaves the rest to others.
-/
import Mathlib.Data.List.Infix
import RecordCoding.Number.Shortest
import RecordCoding.Text.Quoted

namespace RecordCoding

namespace Text

variable {r s : List Char}

/-! ### Runs -/

/-- The text does not go on with a character of a kind. -/
def Leaves (p : Char → Bool) (text : List Char) : Prop := ∀ c ∈ text.head?, p c = false

theorem leaves_nil (p : Char → Bool) : Leaves p [] := by
  intro c hc
  exact absurd hc (by simp)

theorem leaves_cons {p : Char → Bool} {c : Char} (hc : p c = false) (rest : List Char) :
    Leaves p (c :: rest) := by
  intro d hd
  obtain rfl := Option.some.inj hd
  exact hc

/-- Characters of a kind, up to the first of another kind. -/
theorem run_append_inj {p : Char → Bool} {xs ys : List Char} (hxs : ∀ c ∈ xs, p c = true)
    (hys : ∀ c ∈ ys, p c = true) (hr : Leaves p r) (hs : Leaves p s) (h : xs ++ r = ys ++ s) :
    xs = ys ∧ r = s := by
  induction xs generalizing ys with
  | nil =>
    cases ys with
    | nil => exact ⟨rfl, h⟩
    | cons y ys =>
      have hhead : y ∈ r.head? := by
        rw [show r = y :: (ys ++ s) from h]
        rfl
      exact absurd (hys y List.mem_cons_self) (by simp [hr y hhead])
  | cons x xs ih =>
    cases ys with
    | nil =>
      have hhead : x ∈ s.head? := by
        rw [show s = x :: (xs ++ r) from h.symm]
        rfl
      exact absurd (hxs x List.mem_cons_self) (by simp [hs x hhead])
    | cons y ys =>
      obtain ⟨rfl, htail⟩ := List.cons.inj h
      obtain ⟨rfl, hrest⟩ :=
        ih (fun c hc => hxs c (List.mem_cons_of_mem _ hc)) (fun c hc => hys c (List.mem_cons_of_mem _ hc))
          htail
      exact ⟨rfl, hrest⟩

/-! ### Digits -/

theorem digitChar_injective :
    ∀ m < 16, ∀ n < 16, Nat.digitChar m = Nat.digitChar n → m = n := by decide

theorem toDigits_injective {b : Nat} (hb : 1 < b) (hb16 : b ≤ 16) {m n : Nat}
    (h : Nat.toDigits b m = Nat.toDigits b n) : m = n := by
  induction m using Nat.strongRecOn generalizing n with
  | ind m ih =>
    have hpos : ∀ k, 0 < (Nat.toDigits b k).length := fun _ => Nat.length_toDigits_pos
    rw [Nat.toDigits_eq_if hb, Nat.toDigits_eq_if hb (n := n)] at h
    by_cases hm : m < b
    · by_cases hn : n < b
      · rw [if_pos hm, if_pos hn] at h
        exact digitChar_injective m (by omega) n (by omega) (List.singleton_inj.mp h)
      -- One digit is not two.
      · rw [if_pos hm, if_neg hn] at h
        have hlength := congrArg List.length h
        have := hpos (n / b)
        simp only [List.length_append, List.length_singleton] at hlength
        omega
    · by_cases hn : n < b
      · rw [if_neg hm, if_pos hn] at h
        have hlength := congrArg List.length h
        have := hpos (m / b)
        simp only [List.length_append, List.length_singleton] at hlength
        omega
      · rw [if_neg hm, if_neg hn] at h
        obtain ⟨hfront, hlast⟩ := List.append_inj' h rfl
        have hdiv : m / b = n / b := ih (m / b) (Nat.div_lt_self (by omega) hb) hfront
        have hmod : m % b = n % b := by
          have hlt : ∀ k, k % b < 16 := fun k =>
            Nat.lt_of_lt_of_le (Nat.mod_lt k (by omega)) hb16
          exact digitChar_injective _ (hlt m) _ (hlt n) (List.singleton_inj.mp hlast)
        rw [← Nat.div_add_mod m b, ← Nat.div_add_mod n b, hdiv, hmod]

/-- What no digit is does not stand among digits. -/
theorem ne_of_mem_toDigits {b : Nat} (hb : 1 < b) {c : Char} (hc : ∀ k, Nat.digitChar k ≠ c) {n : Nat} :
    ∀ d ∈ Nat.toDigits b n, d ≠ c := by
  induction n using Nat.strongRecOn with
  | ind n ih =>
    rw [Nat.toDigits_eq_if hb]
    by_cases hn : n < b
    · rw [if_pos hn, List.forall_mem_singleton]
      exact hc n
    · rw [if_neg hn, List.forall_mem_append, List.forall_mem_singleton]
      exact ⟨ih (n / b) (Nat.div_lt_self (by omega) hb), hc (n % b)⟩

theorem isDigit_of_mem_digitsOf (n : Nat) : ∀ c ∈ Decimal.digitsOf n, c.isDigit = true :=
  fun _ hc => Nat.isDigit_of_mem_toDigits (by decide) (by decide) hc

theorem exists_digitsOf (n : Nat) :
    ∃ c digits, Decimal.digitsOf n = c :: digits ∧ c.isDigit = true := by
  obtain ⟨c, digits, hdigits⟩ := List.exists_cons_of_ne_nil (Nat.toDigits_ne_nil (n := n) (b := 10))
  refine ⟨c, digits, hdigits, isDigit_of_mem_digitsOf n c ?_⟩
  rw [Decimal.digitsOf, hdigits]
  exact List.mem_cons_self

/-- Decimal digits, up to the first character that is none. -/
theorem digitsOf_append_inj {m n : Nat} (hr : Leaves Char.isDigit r) (hs : Leaves Char.isDigit s)
    (h : Decimal.digitsOf m ++ r = Decimal.digitsOf n ++ s) : m = n ∧ r = s := by
  obtain ⟨hdigits, hrest⟩ :=
    run_append_inj (isDigit_of_mem_digitsOf m) (isDigit_of_mem_digitsOf n) hr hs h
  exact ⟨toDigits_injective (by decide) (by decide) hdigits, hrest⟩

/-! ### Escapes -/

/-- What is asked of a way to write characters between quotation marks: each stands
for itself or is escaped by a backslash, the mark is escaped, and what stands for a
character is no beginning of what stands for another. -/
structure Escapes (escape : Char → List Char) : Prop where
  shown : ∀ c, escape c = [c] ∨ ∃ cs, escape c = '\\' :: cs
  quote : escape '"' ≠ ['"']
  prefixFree : ∀ c d, escape c <+: escape d → c = d

namespace Escapes

variable {escape : Char → List Char} (h : Escapes escape)

include h

/-- No character is written with the mark in front. -/
theorem exists_cons (c : Char) : ∃ x cs, escape c = x :: cs ∧ x ≠ '"' := by
  rcases h.shown c with hc | ⟨cs, hc⟩
  · refine ⟨c, [], hc, ?_⟩
    rintro rfl
    exact h.quote hc
  · exact ⟨'\\', cs, hc, by decide⟩

theorem append_inj {c d : Char} (heq : escape c ++ r = escape d ++ s) : c = d ∧ r = s := by
  have hc : escape c <+: escape d ++ s := ⟨r, heq⟩
  have hd : escape d <+: escape d ++ s := ⟨s, rfl⟩
  have hsame : c = d := by
    rcases List.prefix_or_prefix_of_prefix hc hd with hprefix | hprefix
    · exact h.prefixFree c d hprefix
    · exact (h.prefixFree d c hprefix).symm
  subst hsame
  exact ⟨rfl, List.append_cancel_left heq⟩

/-- A text between quotation marks ends at the first mark that is not escaped. -/
theorem body_append_inj {cs ds : List Char}
    (heq : cs.flatMap escape ++ '"' :: r = ds.flatMap escape ++ '"' :: s) : cs = ds ∧ r = s := by
  induction cs generalizing ds with
  | nil =>
    cases ds with
    | nil => exact ⟨rfl, (List.cons.inj heq).2⟩
    | cons d ds =>
      obtain ⟨x, xs, hd, hx⟩ := h.exists_cons d
      rw [List.flatMap_cons, hd] at heq
      exact absurd (List.cons.inj heq).1.symm hx
  | cons c cs ih =>
    cases ds with
    | nil =>
      obtain ⟨x, xs, hc, hx⟩ := h.exists_cons c
      rw [List.flatMap_cons, hc] at heq
      exact absurd (List.cons.inj heq).1 hx
    | cons d ds =>
      rw [List.flatMap_cons, List.flatMap_cons, List.append_assoc, List.append_assoc] at heq
      obtain ⟨rfl, hmore⟩ := h.append_inj heq
      obtain ⟨rfl, hrest⟩ := ih hmore
      exact ⟨rfl, hrest⟩

end Escapes

/-! ### Quoted text -/

/-- The characters with an escape of two characters, and its second one. -/
def shortEscapes : List (Char × Char) :=
  [('"', '"'), ('\\', '\\'), ('\n', 'n'), ('\r', 'r'), ('\t', 't'), ('\x00', '0')]

theorem shortEscapes_injective :
    ∀ x ∈ shortEscapes, ∀ y ∈ shortEscapes, x.2 = y.2 → x.1 = y.1 := by decide

theorem ne_of_mem_shortEscapes : ∀ x ∈ shortEscapes, x.2 ≠ 'u' := by decide

/-- A character stands for itself, has a short escape, or is written as its number. -/
theorem escape_cases (c : Char) :
    (escape c = [c] ∧ c ≠ '"' ∧ c ≠ '\\') ∨
      (∃ x, (c, x) ∈ shortEscapes ∧ escape c = ['\\', x]) ∨ escape c = codeEscape c := by
  by_cases hshort : c ∈ shortEscapes.map (·.1)
  · refine .inr (.inl ?_)
    simp only [shortEscapes, List.map_cons, List.map_nil, List.mem_cons, List.not_mem_nil,
      or_false] at hshort
    rcases hshort with rfl | rfl | rfl | rfl | rfl | rfl
    all_goals exact ⟨_, by simp [shortEscapes], rfl⟩
  · simp only [shortEscapes, List.map_cons, List.map_nil, List.mem_cons, List.not_mem_nil, or_false,
      not_or] at hshort
    obtain ⟨hquote, hbackslash, hfeed, hreturn, htab, hnull⟩ := hshort
    rw [escape, if_neg hquote, if_neg hbackslash, if_neg hfeed, if_neg hreturn, if_neg htab,
      if_neg hnull]
    split
    · exact .inr (.inr rfl)
    · exact .inl ⟨rfl, hquote, hbackslash⟩

/-- A code point in braces is known from where it is closed. -/
theorem codeEscape_prefixFree {c d : Char} (h : codeEscape c <+: codeEscape d) : c = d := by
  obtain ⟨rest, h⟩ := h
  have hbrace : ∀ k, Nat.digitChar k ≠ '\x7d' := fun k => Nat.digitChar_ne _ (by decide)
  have hmem (e : Char) : ∀ x ∈ hexDigits e.toNat, (x != '\x7d') = true := fun x hx =>
    bne_iff_ne.mpr (ne_of_mem_toDigits (by decide) hbrace x hx)
  have hclosed (ts : List Char) : Leaves (· != '\x7d') ('\x7d' :: ts) := leaves_cons (by decide) ts
  have htail : hexDigits c.toNat ++ '\x7d' :: rest = hexDigits d.toNat ++ '\x7d' :: [] := by
    simpa [codeEscape] using h
  obtain ⟨hdigits, -⟩ := run_append_inj (hmem c) (hmem d) (hclosed rest) (hclosed []) htail
  exact Char.toNat_inj.mp (toDigits_injective (by decide) (by decide) hdigits)

theorem escapes_escape : Escapes escape := by
  refine ⟨fun c => ?_, by decide, fun c d h => ?_⟩
  · rcases escape_cases c with ⟨hc, -, -⟩ | ⟨x, -, hc⟩ | hc
    · exact .inl hc
    · exact .inr ⟨[x], hc⟩
    · exact .inr ⟨_, hc⟩
  · rcases escape_cases c with ⟨hc, -, hplain⟩ | ⟨x, hx, hc⟩ | hc
    · rw [hc] at h
      rcases escape_cases d with ⟨hd, -, -⟩ | ⟨y, hy, hd⟩ | hd <;> rw [hd] at h
      · exact (List.cons_prefix_cons.mp h).1
      · exact absurd (List.cons_prefix_cons.mp h).1 hplain
      · exact absurd (List.cons_prefix_cons.mp h).1 hplain
    · rw [hc] at h
      rcases escape_cases d with ⟨hd, -, -⟩ | ⟨y, hy, hd⟩ | hd <;> rw [hd] at h
      · exact absurd h.length_le (by simp)
      · have hletter : x = y := by simpa using h
        exact shortEscapes_injective _ hx _ hy hletter
      · have hletter : x = 'u' := by simpa [codeEscape] using h
        exact absurd hletter (ne_of_mem_shortEscapes _ hx)
    · rw [hc] at h
      rcases escape_cases d with ⟨hd, -, -⟩ | ⟨y, hy, hd⟩ | hd <;> rw [hd] at h
      · exact absurd h.length_le (by simp [codeEscape])
      · exact absurd h.length_le (by simp [codeEscape])
      · exact codeEscape_prefixFree h

/-- Quoted text, whatever stands behind it. -/
theorem quoted_append_inj {v w : String} (h : quoted v ++ r = quoted w ++ s) : v = w ∧ r = s := by
  have hbody : v.toList.flatMap escape ++ '"' :: r = w.toList.flatMap escape ++ '"' :: s := by
    simpa [quoted] using h
  obtain ⟨hchars, hrest⟩ := escapes_escape.body_append_inj hbody
  exact ⟨String.toList_inj.mp hchars, hrest⟩

end Text

end RecordCoding
