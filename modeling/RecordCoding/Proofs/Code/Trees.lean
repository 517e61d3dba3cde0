/-
The token trees that code stands for.

Generated code is a list of words and groups.  `Token.treesOf` takes its operators
apart into their characters and makes identifiers, lifetimes and literals of its
other words, so the trees of a list are those of its parts.

* `trees_ident` — a name is one tree;
* `treesOf_joined`, `treesOf_separated` — a list is its elements with marks between
  them;
* `isKeyword_of_isName` — a name is none of the words that parsers look for.

Design notes: `IsNameText` excludes the quotation marks by which a literal is known,
and the mark that makes a name raw.
-/
import RecordCoding.Proofs.Code.Running
import RecordCoding.Text.Quoted

namespace RecordCoding

namespace Token

theorem treesOf_append (ts us : List Token) : treesOf (ts ++ us) = treesOf ts ++ treesOf us := by
  induction ts with
  | nil => rfl
  | cons t rest ih => rw [List.cons_append, treesOf, treesOf, ih, List.append_assoc]

theorem treesOf_singleton (t : Token) : treesOf [t] = t.trees := by
  rw [treesOf, treesOf, List.append_nil]

theorem treesOf_flatMap {α : Type} {f : α → List Token} {g : α → List TokenTree} {l : List α}
    (h : ∀ a ∈ l, treesOf (f a) = g a) : treesOf (l.flatMap f) = l.flatMap g := by
  induction l with
  | nil => rfl
  | cons a rest ih =>
    rw [List.flatMap_cons, List.flatMap_cons, treesOf_append, h a List.mem_cons_self,
      ih fun b hb => h b (List.mem_cons_of_mem _ hb)]

/-- Tokens with a mark between two lists of them. -/
theorem treesOf_joined {c : Char} (hc : wordTrees (String.singleton c) = [.punct c false .start])
    (parts : List (List Token)) :
    treesOf (joined (.word (String.singleton c)) parts)
      = Parser.marked c false (parts.map treesOf) := by
  induction parts with
  | nil => rfl
  | cons ts rest ih =>
    cases rest with
    | nil =>
      rw [joined, List.map_singleton]
      exact (List.append_nil _).symm
    | cons us rest =>
      show treesOf (ts ++ .word _ :: joined _ (us :: rest)) = _
      rw [treesOf_append, treesOf, ih, trees, hc]
      rfl

/-- Elements of a list with a comma between two of them. -/
theorem treesOf_commas {α : Type} {f : α → List Token} {g : α → List TokenTree} {l : List α}
    (h : ∀ a ∈ l, treesOf (f a) = g a) :
    treesOf (joined (.word ",") (l.map f)) = Parser.marked ',' false (l.map g) := by
  refine (treesOf_joined (c := ',') rfl _).trans ?_
  rw [List.map_map]
  exact congrArg _ (List.map_congr_left h)

theorem treesOf_separated {c : Char}
    (hc : wordTrees (String.singleton c) = [.punct c false .start]) (trailing : Bool)
    (parts : List (List Token)) :
    treesOf (separated (.word (String.singleton c)) trailing parts)
      = Parser.marked c trailing (parts.map treesOf) := by
  induction parts with
  | nil => cases trailing <;> rfl
  | cons ts rest ih =>
    cases rest with
    | nil =>
      rw [separated, joined, treesOf_append, List.map_singleton, Parser.marked]
      cases trailing
      · rfl
      · simp [treesOf, trees, hc]
    | cons us rest =>
      rw [List.map_cons, List.map_cons, Parser.marked, ← List.map_cons, ← ih]
      simp [separated, joined, treesOf_append, treesOf, trees, hc]

/-! ### Names -/

/-- A text that a name may have, the mark of a raw one aside. -/
def IsNameText (w : String) : Prop :=
  ∃ c rest, w.toList = c :: rest ∧ opensName c = true ∧ ∀ d ∈ rest, d ∉ ['"', '\'', '#']

theorem isNameText_iff_of_toList {w : String} {c : Char} {rest : List Char} (hw : w.toList = c :: rest) :
    IsNameText w ↔ opensName c = true ∧ ∀ d ∈ rest, d ∉ ['"', '\'', '#'] := by
  constructor
  · rintro ⟨c, rest, hw', h⟩
    obtain ⟨rfl, rfl⟩ := List.cons.inj (hw.symm.trans hw')
    exact h
  · exact fun h => ⟨c, rest, hw, h⟩

instance (w : String) : Decidable (IsNameText w) :=
  match h : w.toList with
  | [] => isFalse fun ⟨_, _, hw, _⟩ => absurd (h.symm.trans hw) (by simp)
  | _ :: rest =>
    letI : Decidable (∀ d ∈ rest, d ∉ ['"', '\'', '#']) := List.decidableBAll _ rest
    decidable_of_iff _ (isNameText_iff_of_toList h).symm

theorem not_digit_of_opensName {c : Char} (h : opensName c = true) :
    c ≠ '"' ∧ c ≠ '\'' ∧ c.isDigit = false := by
  refine ⟨?_, ?_, ?_⟩
  · rintro rfl
    exact absurd h (by decide)
  · rintro rfl
    exact absurd h (by decide)
  · rw [Bool.eq_false_iff]
    intro hdigit
    have hrange : 48 ≤ c.toNat ∧ c.toNat ≤ 57 := by
      simpa [Char.isDigit, UInt32.le_iff_toNat_le] using hdigit
    have hnone : ∀ n < 58, 48 ≤ n → opensName (Char.ofNat n) = false := by decide
    have hclosed := hnone c.toNat (by omega) hrange.1
    rw [Char.ofNat_toNat, h] at hclosed
    exact absurd hclosed (by decide)

/-- A word that opens like a name and holds no quotation mark is an identifier. -/
theorem wordTrees_of_opensName {w : String} {c : Char} {rest : List Char}
    (hw : w.toList = c :: rest) (hc : opensName c = true)
    (hrest : ∀ d ∈ rest, d ≠ '"' ∧ d ≠ '\'') : wordTrees w = [.ident (.ofSpelling w)] := by
  obtain ⟨hquote, hmark, hdigit⟩ := not_digit_of_opensName hc
  have htext : '"' ∉ rest := fun hmem => (hrest _ hmem).1 rfl
  have hchar : '\'' ∉ rest := fun hmem => (hrest _ hmem).2 rfl
  rw [wordTrees, hw, treesFrom, if_neg (by simp [hquote, hdigit, htext, hchar]), if_neg hmark,
    if_pos hc]

/-- A plain name is one tree. -/
theorem wordTrees_of_isNameText {w : String} (h : IsNameText w) :
    wordTrees w = [.ident (.plain w)] := by
  obtain ⟨c, rest, hw, hc, hrest⟩ := h
  rw [wordTrees_of_opensName hw hc fun d hd => ?_, Ident.ofSpelling]
  · split
    · rename_i name heq
      rw [hw] at heq
      obtain ⟨-, rfl⟩ := List.cons.inj heq
      exact absurd (by simp) (hrest '#' List.mem_cons_self)
    · rfl
  · have hd := hrest d hd
    constructor <;> rintro rfl <;> simp at hd

/-- A raw name is one tree. -/
theorem wordTrees_raw {w : String} (h : IsNameText w) :
    wordTrees ("r#" ++ w) = [.ident ⟨w, true, .start⟩] := by
  obtain ⟨c, rest, hw, hc, hrest⟩ := h
  have hlist : ("r#" ++ w).toList = 'r' :: '#' :: w.toList := by
    rw [String.toList_append]
    rfl
  rw [wordTrees_of_opensName hlist (by decide) ?_, Ident.ofSpelling, hlist]
  · simp only [String.ofList_toList]
  · rw [hw]
    intro d hd
    rcases List.mem_cons.mp hd with rfl | hd
    · decide
    · rcases List.mem_cons.mp hd with rfl | hd
      · obtain ⟨hquote, hmark, -⟩ := not_digit_of_opensName hc
        exact ⟨hquote, hmark⟩
      · have hd := hrest d hd
        constructor <;> rintro rfl <;> simp at hd

/-- A text that a lifetime may have. -/
def IsLifetimeText (w : String) : Prop :=
  ∃ rest, w.toList = '\'' :: rest ∧ ∀ d ∈ rest, d ∉ ['"', '\'']

/-- A lifetime is one tree. -/
theorem wordTrees_of_isLifetimeText {w : String} (h : IsLifetimeText w) :
    wordTrees w = [.lifetime w .start] := by
  obtain ⟨rest, hw, hrest⟩ := h
  have htext : '"' ∉ rest := fun hmem => hrest _ hmem (by decide)
  have hchar : '\'' ∉ rest := fun hmem => hrest _ hmem (by decide)
  rw [wordTrees, hw, treesFrom, if_neg (by simp [htext, hchar, Char.isDigit]), if_pos rfl]

/-- A text in quotation marks is one tree. -/
theorem wordTrees_literal (s : String) :
    wordTrees (Text.literal s) = [.literal (Text.literal s) .start] := by
  have hlist : (Text.literal s).toList = '"' :: (Text.literalBody s.toList ++ ['"']) := by
    rw [Text.literal, String.toList_ofList]
    rfl
  rw [wordTrees, hlist, treesFrom, if_pos (by simp)]

end Token

namespace Ident

/-- An identifier as it would be scanned elsewhere. -/
def anywhere (i : Ident) : Ident := { i with location := .start }

/-- The trees of an identifier with the text of a name. -/
theorem trees_ident {i : Ident} (h : Token.IsNameText i.name) :
    (Token.ident i).trees = [.ident i.anywhere] := by
  rw [Token.ident, Token.trees, spelled]
  cases hraw : i.raw with
  | true =>
    rw [if_pos rfl, Token.wordTrees_raw h, anywhere, hraw]
  | false =>
    rw [if_neg Bool.false_ne_true, Token.wordTrees_of_isNameText h, anywhere, hraw]
    rfl

end Ident

namespace Parser

/-- A fixed word is none of those that are looked for. -/
theorem isKeyword_of_not_mem {words : List String} {w v : String} (hv : v ∈ words) (hw : w ∉ words)
    (ts : List TokenTree) : isKeyword v (.ident (.plain w) :: ts) = false := by
  rw [isKeyword, Bool.eq_false_iff]
  intro hkey
  rw [Bool.and_eq_true, decide_eq_true_eq] at hkey
  have heq : w = v := hkey.2
  exact hw (heq ▸ hv)

/-- A name is none of the reserved words. -/
theorem isKeyword_of_isName {i : Ident} (h : isName i = true) {w : String} (hw : w ∈ reserved)
    (ts : List TokenTree) : isKeyword w (.ident i :: ts) = false := by
  rw [isName, Bool.or_eq_true] at h
  rw [isKeyword, Bool.eq_false_iff]
  intro hkey
  rw [Bool.and_eq_true, decide_eq_true_eq, Bool.not_eq_true'] at hkey
  obtain ⟨hraw, rfl⟩ := hkey
  rcases h with h | h
  · rw [hraw] at h
    exact Bool.false_ne_true h
  · rw [List.contains_iff_mem.mpr hw] at h
    exact Bool.false_ne_true h

end Parser

end RecordCoding
