/-
How the tokens of a text are spelled.

A scanned text has names and lifetimes whose characters are those of names.  Written
out again, each of them is one token: nothing in it is taken for a quotation mark or
for the mark of a raw name.

* `TokenTree.Spelled` — a token with such texts at every depth;
* `TokenTree.spelled_scan`, `TokenTree.spelled_scanFile` — a scanned text has no other tokens.

Design notes: the scanner keeps the tokens it has read and those in front of each open
bracket, the last one first.  All of them are spelled at every step.
-/
import RecordCoding.Proofs.Path
import RecordCoding.Proofs.Code.Trees

namespace RecordCoding

/-! ### Names -/

/-- A boundary is where a class begins or ends. -/
theorem CharClass.holds_cons (boundary : Nat) (rest : List Nat) (code : Nat) :
    holds (boundary :: rest) code = (decide (boundary ≤ code) && !holds rest code) := by
  by_cases h : boundary ≤ code
  · simp only [holds, List.takeWhile_cons, h, decide_true, if_true, List.length_cons, Bool.true_and]
    rw [← decide_not]
    congr 1
    simp only [eq_iff_iff]
    omega
  · simp [holds, h]

/-- The first letters that may open a name are those without marks. -/
theorem CharClass.holds_identifierStart_iff {code : Nat} (h : code < 128) :
    holds identifierStart code = true
      ↔ (0x41 ≤ code ∧ code < 0x5b) ∨ (0x61 ≤ code ∧ code < 0x7b) := by
  have htable : identifierStart
      = 0x41 :: 0x5b :: 0x61 :: 0x7b :: 0xaa :: identifierStart.drop 5 := rfl
  rw [htable]
  simp only [holds_cons, Bool.and_eq_true, Bool.not_eq_true', Bool.and_eq_false_iff,
    decide_eq_true_eq, decide_eq_false_iff_not, Bool.not_eq_false']
  omega

theorem isAlpha_iff {c : Char} :
    c.isAlpha = true ↔ (0x41 ≤ c.toNat ∧ c.toNat < 0x5b) ∨ (0x61 ≤ c.toNat ∧ c.toNat < 0x7b) := by
  have hval : c.val.toNat = c.toNat := rfl
  have halpha : c.isAlpha = (decide (c.val ≥ 'A'.val ∧ c.val ≤ 'Z'.val) ||
      (decide (c.val ≥ 'a'.val) && decide (c.val ≤ 'z'.val))) := rfl
  simp only [halpha, Bool.or_eq_true, Bool.and_eq_true, decide_eq_true_eq, ge_iff_le,
    UInt32.le_iff_toNat_le, hval, UInt32.reduceToNat, Char.reduceVal]
  omega

/-- What may open a name in a text opens a name among tokens. -/
theorem Token.opensName_of_opensName {c : Char} (h : CharClass.opensName c = true) :
    Token.opensName c = true := by
  simp only [Token.opensName, Bool.or_eq_true, decide_eq_true_eq]
  by_cases hascii : c.toNat < 128
  · left
    rw [CharClass.opensName, Bool.or_eq_true, decide_eq_true_eq,
      CharClass.holds_identifierStart_iff hascii, ← isAlpha_iff] at h
    exact h.symm
  · exact .inr (by omega)

/-- The digits are the first characters that may stand in a name. -/
theorem CharClass.continuesName_eq_false {c : Char} (h : c.toNat < 0x30) :
    continuesName c = false := by
  have hstart : identifierStart = 0x41 :: identifierStart.tail := rfl
  have hrest : identifierRest = 0x30 :: identifierRest.tail := rfl
  rw [continuesName, hstart, hrest, holds_cons, holds_cons, decide_eq_false (by omega),
    decide_eq_false (by omega)]
  rfl

theorem not_mark_of_continuesName {c : Char} (h : CharClass.continuesName c = true) :
    c ∉ ['"', '\'', '#'] := by
  intro hmem
  have hlow : c.toNat < 0x30 := by
    simp only [List.mem_cons, List.not_mem_nil, or_false] at hmem
    obtain rfl | rfl | rfl := hmem <;> simp
  rw [CharClass.continuesName_eq_false hlow] at h
  exact Bool.false_ne_true h

theorem Ident.Scanned.isNameText {i : Ident} (h : i.Scanned) : Token.IsNameText i.name := by
  obtain ⟨c, more, hname, hc, hmore⟩ := h.exists_cons
  exact ⟨c, more, hname, Token.opensName_of_opensName hc, fun d hd =>
    not_mark_of_continuesName (hmore d hd)⟩

namespace TokenTree

theorem isNameText_of_identifier? {text rest : List Char} {raw : Bool} {name : String}
    (h : identifier? text = some (raw, name, rest)) : Token.IsNameText name :=
  Ident.Scanned.isNameText (i := ⟨name, raw, .start⟩) ⟨text, rest, h⟩

theorem isLifetimeText_of_lifetime? {text rest : List Char} {name : String}
    (h : lifetime? text = some (name, rest)) : Token.IsLifetimeText name := by
  rw [lifetime?] at h
  rcases hword : identifier? text with _ | ⟨raw, w, behind⟩
  · rw [hword] at h
    cases h
  · obtain ⟨c, more, hw, hc, hmore⟩ := isNameText_of_identifier? hword
    obtain ⟨hquote, hmark, -⟩ := Token.not_digit_of_opensName hc
    -- Neither the mark of a raw name nor the name has quotation marks in it.
    have hchars : ∀ d ∈ w.toList, d ∉ ['"', '\''] := by
      intro d hd
      rw [hw] at hd
      rcases List.mem_cons.mp hd with rfl | hd
      · simp [hquote, hmark]
      · have := hmore d hd
        simp only [List.mem_cons, List.not_mem_nil, or_false, not_or] at this ⊢
        exact ⟨this.1, this.2.1⟩
    have hname : name = (if raw then "'r#" else "'") ++ w := by
      rw [hword] at h
      simp only [Option.bind_eq_bind, Option.bind_some] at h
      split at h
      · cases h
      · cases raw <;> cases h
        rfl
      · cases h
        rfl
    subst hname
    cases raw with
    | true =>
      refine ⟨'r' :: '#' :: w.toList, by rw [if_pos rfl, String.toList_append]; rfl, fun d hd => ?_⟩
      rcases List.mem_cons.mp hd with rfl | hd
      · decide
      · rcases List.mem_cons.mp hd with rfl | hd
        · decide
        · exact hchars d hd
    | false =>
      exact ⟨w.toList, by rw [if_neg Bool.false_ne_true, String.toList_append]; rfl, hchars⟩

/-! ### Tokens -/

mutual

/-- Names and lifetimes have the texts of such, at every depth. -/
def Spelled : TokenTree → Prop
  | .ident i => Token.IsNameText i.name
  | .lifetime name _ => Token.IsLifetimeText name
  | .group _ body _ _ => SpelledList body
  | _ => True

def SpelledList : List TokenTree → Prop
  | [] => True
  | t :: rest => t.Spelled ∧ SpelledList rest

end

theorem spelledList_iff {ts : List TokenTree} : SpelledList ts ↔ ∀ t ∈ ts, t.Spelled := by
  induction ts with
  | nil => simp [SpelledList]
  | cons t rest ih => rw [SpelledList, ih, List.forall_mem_cons]

theorem SpelledList.suffix {ts rest : List TokenTree} (h : SpelledList ts) (hrest : rest <:+ ts) :
    SpelledList rest :=
  spelledList_iff.mpr fun t ht => spelledList_iff.mp h t (hrest.subset ht)

mutual

theorem Spelled.movedTo {first last : Location} {t : TokenTree} (h : t.Spelled) :
    (t.movedTo first last).Spelled := by
  match t with
  | .ident i => exact h
  | .lifetime name l => exact h
  | .group d body opening closing => exact SpelledList.movedListTo h
  | .punct c joint l | .literal text l => trivial

theorem SpelledList.movedListTo {first last : Location} {ts : List TokenTree} (h : SpelledList ts) :
    SpelledList (TokenTree.movedListTo first last ts) := by
  match ts with
  | [] => trivial
  | t :: rest => exact ⟨h.1.movedTo, h.2.movedListTo⟩

end

/-! ### Scanning -/

theorem spelled_documentationTokens (inner : Bool) (content : List Char) (l : Location) :
    ∀ t ∈ documentationTokens inner content l, t.Spelled := by
  have hdoc : SpelledList [.ident ⟨"doc", false, l⟩, .punct '=' false l,
      .literal (Text.literal (String.ofList content)) l] :=
    ⟨(by decide : Token.IsNameText "doc"), trivial, trivial, trivial⟩
  intro t ht
  cases inner with
  | true =>
    simp only [documentationTokens, if_true, List.cons_append, List.nil_append, List.mem_cons,
      List.not_mem_nil, or_false] at ht
    rcases ht with rfl | rfl | rfl
    · trivial
    · trivial
    · exact hdoc
  | false =>
    simp only [documentationTokens, Bool.false_eq_true, if_false, List.cons_append, List.nil_append,
      List.mem_cons, List.not_mem_nil, or_false] at ht
    rcases ht with rfl | rfl
    · trivial
    · exact hdoc

theorem spelled_leaf? {l : Location} {text rest : List Char} {t : TokenTree}
    (h : leaf? l text = some (t, rest)) : t.Spelled := by
  rw [leaf?] at h
  split at h
  · cases h
    trivial
  · split at h
    · obtain ⟨⟨name, behind⟩, hname, heq⟩ := Option.map_eq_some_iff.mp h
      cases heq
      exact isLifetimeText_of_lifetime? hname
    · cases h
      trivial
    · split at h
      · cases h
      · obtain ⟨⟨raw, name, behind⟩, hname, heq⟩ := Option.map_eq_some_iff.mp h
        cases heq
        exact isNameText_of_identifier? hname

theorem spelled_scanOn {fuel : Nat} {here : Location} {text : List Char} {done ts : List TokenTree}
    {opened : List Opened} (hdone : ∀ t ∈ done, t.Spelled)
    (hopened : ∀ o ∈ opened, ∀ t ∈ o.before, t.Spelled)
    (h : scanOn fuel here text done opened = .ok ts) : ∀ t ∈ ts, t.Spelled := by
  induction fuel generalizing here text done opened with
  | zero => cases h
  | succ fuel ih =>
    rw [scanOn.eq_def] at h
    simp only at h
    split at h
    · -- A documentation comment.
      refine ih (fun t ht => ?_) hopened h
      rcases List.mem_append.mp ht with ht | ht
      · exact spelled_documentationTokens _ _ _ t (List.mem_reverse.mp ht)
      · exact hdone t ht
    · split at h
      · -- The end of the text.
        split at h
        · cases h
          exact fun t ht => hdone t (List.mem_reverse.mp ht)
        · cases h
      · split at h
        · -- A bracket opens.
          exact ih (by simp) (List.forall_mem_cons.mpr ⟨hdone, hopened⟩) h
        · -- A bracket closes.
          split at h
          · cases h
          · obtain ⟨ho, houter⟩ := List.forall_mem_cons.mp hopened
            split at h
            · refine ih (List.forall_mem_cons.mpr ⟨?_, ho⟩) houter h
              exact spelledList_iff.mpr fun t ht => hdone t (List.mem_reverse.mp ht)
            · cases h
        · -- Any other token.
          split at h
          · rename_i hleaf
            exact ih (List.forall_mem_cons.mpr ⟨spelled_leaf? hleaf, hdone⟩) hopened h
          · cases h

theorem spelled_scanChars {cs : List Char} {ts : List TokenTree} (h : scanChars cs = .ok ts) :
    SpelledList ts := by
  have hscan : ∀ {l : Location} {cs : List Char}, scanFrom l cs = .ok ts → SpelledList ts :=
    fun h => spelledList_iff.mpr (spelled_scanOn (by simp) (by simp) h)
  rw [scanChars.eq_def] at h
  split at h <;> exact hscan h

/-- The tokens of a text are spelled. -/
theorem spelled_scan {text : String} {ts : List TokenTree} (h : scan text = .ok ts) : SpelledList ts :=
  spelled_scanChars h

/-- The tokens of a source file are spelled. -/
theorem spelled_scanFile {text : String} {ts : List TokenTree} (h : scanFile text = .ok ts) :
    SpelledList ts := by
  simp only [scanFile] at h
  generalize (if opens "\ufeff" text.toList = true then text.toList.drop 1 else text.toList) = cs at h
  split at h
  · split at h <;> exact spelled_scanChars h
  · exact spelled_scanChars h

end TokenTree

end RecordCoding
