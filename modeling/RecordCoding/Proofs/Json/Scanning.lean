/-
Reading the parts of a text that were written.

What the writer puts down is taken by the reader from in front of whatever
follows: white space, words, integers, and strings.  Offsets only place faults,
so nothing here depends on them, and results are stated up to the offset.

* `exists_trimmed` — white space is passed over;
* `takes_readWord`, `takes_readNumber`, `takes_readString` — words, integers and
  strings are read as what they were written for.
-/
import Mathlib.Tactic.SplitIfs
import RecordCoding.Json.Reader
import RecordCoding.Json.Writer
import RecordCoding.Proofs.Text.Delimited

namespace RecordCoding

namespace Json

/-- A step yields a result and leaves the given characters. -/
def Takes {α : Type} (r : Step α) (a : α) (rest : List Char) : Prop :=
  ∃ offset, r = .ok (a, ⟨rest, offset⟩)

theorem Takes.map {α β : Type} {r : Step α} {a : α} {rest : List Char} (g : α → β)
    (h : Takes r a rest) : Takes (r.map fun (a, i) => (g a, i)) (g a) rest := by
  obtain ⟨offset, rfl⟩ := h
  exact ⟨offset, rfl⟩

variable {rest : List Char} {offset : Nat}

theorem skip_cons {c : Char} : (Input.mk (c :: rest) offset).skip = ⟨rest, offset + c.utf8Size⟩ := rfl

/-! ### White space -/

/-- The text goes on with something else than white space. -/
def Solid (text : List Char) : Prop := ∀ c ∈ text.head?, isBlank c = false

theorem solid_cons {c : Char} (hc : isBlank c = false) (rest : List Char) : Solid (c :: rest) :=
  Text.leaves_cons hc rest

theorem trimmed_of_solid (hrest : Solid rest) : (Input.mk rest offset).trimmed = ⟨rest, offset⟩ := by
  cases rest with
  | nil => rfl
  | cons c rest =>
    have hc : isBlank c = false := hrest c rfl
    show skipBlanks (c :: rest) offset = _
    rw [skipBlanks, hc, if_neg (by simp)]

theorem exists_trimmed {blanks : List Char} (hblanks : ∀ c ∈ blanks, isBlank c) (hrest : Solid rest)
    (offset : Nat) : ∃ o, (Input.mk (blanks ++ rest) offset).trimmed = ⟨rest, o⟩ := by
  induction blanks generalizing offset with
  | nil => exact ⟨offset, trimmed_of_solid hrest⟩
  | cons c blanks ih =>
    obtain ⟨hc, hmore⟩ := List.forall_mem_cons.mp hblanks
    obtain ⟨o, ho⟩ := ih hmore (offset + 1)
    refine ⟨o, ?_⟩
    show skipBlanks (c :: (blanks ++ rest)) offset = _
    rw [skipBlanks, if_pos hc]
    exact ho

/-! ### Words -/

theorem takes_readWord (word rest : List Char) (offset : Nat) :
    Takes (readWord word ⟨word ++ rest, offset⟩) () rest := by
  induction word generalizing offset with
  | nil => exact ⟨offset, rfl⟩
  | cons c word ih =>
    obtain ⟨o, ho⟩ := ih (offset + c.utf8Size)
    refine ⟨o, ?_⟩
    rw [List.cons_append, readWord]
    simp only [if_true, skip_cons]
    exact ho

/-! ### Integers -/

/-- The text does not go on like a number. -/
def EndsNumber (text : List Char) : Prop :=
  ∀ c ∈ text.head?, c.isDigit = false ∧ c ≠ '.' ∧ c ≠ 'e' ∧ c ≠ 'E'

theorem le_ofDigitChars (digits : List Char) (n : Nat) : n ≤ Nat.ofDigitChars 10 digits n := by
  induction digits generalizing n with
  | nil => exact Nat.le_refl n
  | cons c digits ih =>
    rw [Nat.ofDigitChars_cons]
    exact Nat.le_trans (by omega) (ih _)

/-- Digits are taken up to their end, if their number is below the limit. -/
theorem exists_takeDigits {limit : Nat} {digits : List Char} (hdigits : ∀ c ∈ digits, c.isDigit)
    (hrest : EndsNumber rest) (offset n count : Nat) (hlimit : Nat.ofDigitChars 10 digits n < limit) :
    ∃ count' o, takeDigits limit (digits ++ rest) offset n count
      = (Nat.ofDigitChars 10 digits n, count', ⟨rest, o⟩, false) := by
  induction digits generalizing offset n count with
  | nil =>
    cases rest with
    | nil => exact ⟨count, offset, rfl⟩
    | cons c rest =>
      have hc : c.isDigit = false := (hrest c rfl).1
      refine ⟨count, offset, ?_⟩
      rw [List.nil_append, takeDigits, if_neg (by simp [hc]), Nat.ofDigitChars_nil]
  | cons c digits ih =>
    obtain ⟨hc, hmore⟩ := List.forall_mem_cons.mp hdigits
    rw [Nat.ofDigitChars_cons] at hlimit ⊢
    have hnext : 10 * n + (c.toNat - '0'.toNat) = n * 10 + digitValue c := by
      rw [digitValue, Nat.mul_comm]
    rw [hnext] at hlimit ⊢
    -- More digits only make a number larger, so none of its beginnings reaches the limit.
    have hbelow : n * 10 + digitValue c < limit :=
      Nat.lt_of_le_of_lt (le_ofDigitChars digits _) hlimit
    obtain ⟨count', o, h⟩ := ih hmore (offset + 1) _ (count + 1) hlimit
    refine ⟨count', o, ?_⟩
    rw [List.cons_append, takeDigits, if_pos hc, if_neg (Nat.not_le.mpr hbelow), h]

/-- A positive number does not start with a zero. -/
theorem head_digitsOf {n : Nat} (h : 0 < n) :
    ∃ c digits, Decimal.digitsOf n = c :: digits ∧ c ≠ '0' := by
  induction n using Nat.strongRecOn with
  | ind n ih =>
    rw [Decimal.digitsOf, Nat.toDigits_eq_if (by decide)]
    by_cases hn : n < 10
    · rw [if_pos hn]
      refine ⟨n.digitChar, [], rfl, ?_⟩
      have hall : ∀ k < 10, 0 < k → Nat.digitChar k ≠ '0' := by decide
      exact hall n hn h
    · rw [if_neg hn]
      obtain ⟨c, digits, hdigits, hc⟩ := ih (n / 10) (by omega) (by omega)
      rw [Decimal.digitsOf] at hdigits
      exact ⟨c, digits ++ [(n % 10).digitChar], by rw [hdigits, List.cons_append], hc⟩

theorem readNumberTail_of_endsNumber (hrest : EndsNumber rest) (negative : Bool) (n offset : Nat) :
    readNumberTail negative n ⟨rest, offset⟩ = finishInteger negative n ⟨rest, offset⟩ := by
  rw [readNumberTail]
  split
  · next heq => exact absurd rfl (hrest '.' (congrArg List.head? heq)).2.1
  · next heq => exact absurd rfl (hrest 'e' (congrArg List.head? heq)).2.2.1
  · next heq => exact absurd rfl (hrest 'E' (congrArg List.head? heq)).2.2.2
  · rfl

/-- The digits of a number that fits in 64 bits are read as that number. -/
theorem exists_readNumber (hrest : EndsNumber rest) (negative : Bool) {n : Nat}
    (hn : n < digitLimit) (offset : Nat) :
    ∃ o, readNumber negative ⟨Decimal.digitsOf n ++ rest, offset⟩
      = finishInteger negative n ⟨rest, o⟩ := by
  rcases Nat.eq_zero_or_pos n with rfl | hpos
  -- A zero has to stand alone.
  · refine ⟨offset + 1, ?_⟩
    have htail := readNumberTail_of_endsNumber hrest negative 0 (offset + 1)
    cases rest with
    | nil => exact htail
    | cons c rest =>
      have hc : c.isDigit = false := (hrest c rfl).1
      have hzero : Decimal.digitsOf 0 ++ c :: rest = '0' :: c :: rest := rfl
      have hskip : (Input.mk ('0' :: c :: rest) offset).skip = ⟨c :: rest, offset + 1⟩ := rfl
      rw [hzero, readNumber, hskip]
      simpa [hc] using htail
  · have hvalue : Nat.ofDigitChars 10 (Decimal.digitsOf n) 0 = n := Nat.ofDigitChars_ten_toDigits
    have hlimit : Nat.ofDigitChars 10 (Decimal.digitsOf n) 0 < digitLimit := by rwa [hvalue]
    obtain ⟨count, o, htake⟩ := exists_takeDigits (Text.isDigit_of_mem_digitsOf n) hrest offset 0 0 hlimit
    rw [hvalue] at htake
    obtain ⟨c, digits, hdigits, hc⟩ := head_digitsOf hpos
    have hdigit : c.isDigit := Text.isDigit_of_mem_digitsOf n c (by rw [hdigits]; exact List.mem_cons_self ..)
    refine ⟨o, ?_⟩
    rw [hdigits, List.cons_append] at htake ⊢
    rw [readNumber]
    simp only [hdigit, Bool.not_true, Bool.false_eq_true, if_false, htake, Bool.not_false, if_true]
    exact readNumberTail_of_endsNumber hrest negative n o

/-- A digit is none of the characters that set a text apart. -/
theorem ne_of_isDigit {c : Char} (hc : c.isDigit) :
    isBlank c = false ∧ c ∉ ['n', 't', 'f', '-', '"', '[', '\x7b', ']'] := by
  constructor
  · rw [Bool.eq_false_iff]
    intro hblank
    simp only [isBlank, Bool.or_eq_true, decide_eq_true_eq] at hblank
    obtain ((rfl | rfl) | rfl) | rfl := hblank <;> exact absurd hc (by decide)
  · intro hmem
    simp only [List.mem_cons, List.not_mem_nil, or_false] at hmem
    obtain rfl | rfl | rfl | rfl | rfl | rfl | rfl | rfl := hmem <;> exact absurd hc (by decide)

theorem finishInteger_toInt (n : Int64) (i : Input) :
    finishInteger (n.toInt < 0) n.toInt.natAbs i = .ok (.integer n, i) := by
  have hlow := n.le_toInt
  have hhigh := n.toInt_lt
  rw [finishInteger]
  by_cases hneg : n.toInt < 0
  · have hfits : ¬(n.toInt.natAbs = 0 ∨ Nat.pow 2 63 < n.toInt.natAbs) := by
      simp only [Nat.pow_eq]
      omega
    have habs : -(n.toInt.natAbs : Int) = n.toInt := by omega
    rw [decide_eq_true hneg, if_pos rfl, if_neg hfits, habs, Int64.ofInt_toInt]
  · have hfits : n.toInt.natAbs < Nat.pow 2 63 := by
      simp only [Nat.pow_eq]
      omega
    have habs : (n.toInt.natAbs : Int) = n.toInt := by omega
    rw [decide_eq_false hneg, if_neg (by simp), if_pos hfits, habs, Int64.ofInt_toInt]

/-! ### Strings -/

theorem hexValue?_digitChar : ∀ n < 16, CharClass.hexValue? (Nat.digitChar n) = some n := by decide

theorem le_foldl_utf8Size (text : List Char) (n : Nat) :
    n ≤ text.foldl (fun bytes c => bytes + c.utf8Size) n := by
  induction text generalizing n with
  | nil => exact Nat.le_refl n
  | cons c text ih => exact Nat.le_trans (Nat.le_add_right _ _) (ih _)

theorem four_le_bytesLeft (a b c d : Char) (rest : List Char) (offset : Nat) :
    4 ≤ (Input.mk (a :: b :: c :: d :: rest) offset).bytesLeft := by
  have hbytes := le_foldl_utf8Size rest (0 + a.utf8Size + b.utf8Size + c.utf8Size + d.utf8Size)
  have ha := a.utf8Size_pos
  have hb := b.utf8Size_pos
  have hc := c.utf8Size_pos
  have hd := d.utf8Size_pos
  exact Nat.le_trans (by omega) hbytes

/-- The digits of a control character are read as its code. -/
theorem readCode_control {c : Char} (hc : c.toNat < 0x20) (rest : List Char) (offset : Nat) :
    readCode ⟨'0' :: '0' :: Nat.digitChar (c.toNat / 16) :: Nat.digitChar (c.toNat % 16) :: rest,
      offset⟩ = .ok (c, ⟨rest, offset + 4⟩) := by
  have hhigh := hexValue?_digitChar (c.toNat / 16) (by omega)
  have hlow := hexValue?_digitChar (c.toNat % 16) (by omega)
  have hzero : CharClass.hexValue? '0' = some 0 := rfl
  have hbytes := four_le_bytesLeft '0' '0' (Nat.digitChar (c.toNat / 16))
    (Nat.digitChar (c.toNat % 16)) rest offset
  have hcode : ((0 * 16 + 0) * 16 + c.toNat / 16) * 16 + c.toNat % 16 = c.toNat := by omega
  have hhex : readHex ⟨'0' :: '0' :: Nat.digitChar (c.toNat / 16) :: Nat.digitChar (c.toNat % 16) ::
      rest, offset⟩ = .ok (c.toNat, ⟨rest, offset + 4⟩) := by
    rw [readHex, if_neg (Nat.not_lt.mpr hbytes)]
    simp only [hzero, hhigh, hlow, hcode]
  rw [readCode, hhex]
  show (if 0xDC00 ≤ c.toNat ∧ c.toNat ≤ 0xDFFF then _ else _) = _
  rw [if_neg (by omega), if_pos (by omega), Char.ofNat_toNat]

/-- An escaped character is read as that character. -/
theorem exists_readString_escape (c : Char) (rest : List Char) (fuel : Nat) (done : List Char)
    (offset : Nat) : ∃ o, readString (fuel + 1) done ⟨escape c ++ rest, offset⟩
      = readString fuel (c :: done) ⟨rest, o⟩ := by
  rw [escape]
  split_ifs with h h h h h h h hcontrol
  -- The escapes of one character.
  iterate 7
    · subst h
      exact ⟨offset + 2, rfl⟩
  -- Any other control character, by its code.
  · refine ⟨offset + 6, ?_⟩
    have hescape : readEscape ⟨'u' :: '0' :: '0' :: Nat.digitChar (c.toNat / 16)
        :: Nat.digitChar (c.toNat % 16) :: rest, offset + 1⟩ = .ok (c, ⟨rest, offset + 6⟩) :=
      readCode_control hcontrol rest (offset + 2)
    have hskip : (Input.mk ('\\' :: (['u', '0', '0', Nat.digitChar (c.toNat / 16),
        Nat.digitChar (c.toNat % 16)] ++ rest)) offset).skip
          = ⟨'u' :: '0' :: '0' :: Nat.digitChar (c.toNat / 16)
              :: Nat.digitChar (c.toNat % 16) :: rest, offset + 1⟩ := rfl
    rw [List.cons_append, readString]
    simp only [hskip, hescape]
  · refine ⟨offset + c.utf8Size, ?_⟩
    rw [List.singleton_append, readString]
    simp only [hcontrol, if_false, skip_cons]

theorem length_le_escaped (cs : List Char) : cs.length ≤ (cs.flatMap escape).length := by
  induction cs with
  | nil => exact Nat.le_refl 0
  | cons c cs ih =>
    have hc : 0 < (escape c).length := by
      rw [escape]
      split_ifs <;> simp
    rw [List.flatMap_cons, List.length_append, List.length_cons]
    omega

/-- The body of a string is read as that string. -/
theorem takes_readString {cs : List Char} {fuel : Nat} (hfuel : cs.length < fuel) (done : List Char)
    (rest : List Char) (offset : Nat) :
    Takes (readString fuel done ⟨cs.flatMap escape ++ '"' :: rest, offset⟩)
      (String.ofList (done.reverse ++ cs)) rest := by
  induction cs generalizing fuel done offset with
  | nil =>
    obtain ⟨fuel, rfl⟩ := Nat.exists_eq_succ_of_ne_zero (Nat.ne_of_gt hfuel)
    refine ⟨offset + 1, ?_⟩
    rw [List.append_nil]
    rfl
  | cons c cs ih =>
    obtain ⟨fuel, rfl⟩ := Nat.exists_eq_succ_of_ne_zero (Nat.ne_of_gt (Nat.zero_lt_of_lt hfuel))
    rw [List.flatMap_cons, List.append_assoc]
    obtain ⟨o, ho⟩ := exists_readString_escape c (cs.flatMap escape ++ '"' :: rest) fuel done offset
    obtain ⟨o', ho'⟩ := ih (Nat.lt_of_succ_lt_succ hfuel) (c :: done) o
    refine ⟨o', ?_⟩
    rw [ho, ho', List.reverse_cons, List.append_assoc, List.singleton_append]

/-- A string in its quotation marks is read as that string, the first mark being
taken. -/
theorem takes_stringText (s : String) (rest : List Char) (offset : Nat) :
    ∃ body, stringText s ++ rest = '"' :: body ∧
      Takes (readString (('"' :: body).length + 1) [] ⟨body, offset⟩) s rest := by
  refine ⟨s.toList.flatMap escape ++ '"' :: rest, by simp [stringText], ?_⟩
  have hfuel : s.toList.length < ('"' :: (s.toList.flatMap escape ++ '"' :: rest)).length + 1 := by
    have hlength := length_le_escaped s.toList
    rw [List.length_cons, List.length_append]
    omega
  have h := takes_readString hfuel [] rest offset
  rwa [List.reverse_nil, List.nil_append, String.ofList_toList] at h

end Json

end RecordCoding
