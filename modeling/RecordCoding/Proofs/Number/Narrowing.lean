/-
Narrowing a widened single gives it back.

A finite pattern of a format stands for a number of units of its least positive
number, and a number of units that has few enough significant bits has exactly
one pattern.  From this:

* `nearest_of_magnitude` — rounding the value of a pattern gives the pattern;
* `magnitude_nearest` — an exact value is not moved by rounding;
* `toSingle_toDouble` — `x.toDouble.toSingle` is `x`, up to the payload of a NaN;
* `withoutPayload_toSingle` — and a narrowed double has no payload.

Design notes: a normal number is written `m * 2 ^ e` with a significand `m` of
full length, so that exponent field and fraction are read off without a case
split on the field being zero.
-/
import Mathlib.Tactic.Ring
import RecordCoding.Number.Binary

namespace RecordCoding

namespace BinaryFormat

variable {f : BinaryFormat}

/-! ### In powers of two -/

theorem magnitude_eq (pattern : Nat) :
    f.magnitude pattern = (f.parts pattern).1 * 2 ^ (f.parts pattern).2 := rfl

theorem parts_eq (pattern : Nat) :
    f.parts pattern
      = if pattern / 2 ^ f.fractionBits = 0 then (pattern % 2 ^ f.fractionBits, 0)
        else (pattern % 2 ^ f.fractionBits + 2 ^ f.fractionBits, pattern / 2 ^ f.fractionBits - 1) :=
  rfl

theorem nearest_eq (num den : Nat) :
    f.nearest num den
      = let units := num * 2 ^ f.leastScale
        let scale := (units / den).log2 + 1 - f.precision
        min f.infinity (scale * 2 ^ f.fractionBits + roundQuotient units (den * 2 ^ scale)) := rfl

/-! ### Patterns and units -/

/-- A significand of full length, the leading bit included. -/
def Significand (f : BinaryFormat) (m : Nat) : Prop :=
  2 ^ f.fractionBits ≤ m ∧ m < 2 ^ (f.fractionBits + 1)

theorem magnitude_subnormal {pattern : Nat} (h : pattern < 2 ^ f.fractionBits) :
    f.magnitude pattern = pattern := by
  rw [magnitude_eq, parts_eq]
  simp [Nat.div_eq_of_lt h, Nat.mod_eq_of_lt h]

theorem magnitude_normal {m : Nat} (hm : f.Significand m) (e : Nat) :
    f.magnitude (e * 2 ^ f.fractionBits + m) = m * 2 ^ e := by
  obtain ⟨hlow, hhigh⟩ := hm
  have hpos : 0 < 2 ^ f.fractionBits := Nat.two_pow_pos _
  rw [Nat.pow_succ] at hhigh
  obtain ⟨fraction, rfl⟩ : ∃ fraction, m = 2 ^ f.fractionBits + fraction :=
    ⟨m - 2 ^ f.fractionBits, by omega⟩
  have hsplit : e * 2 ^ f.fractionBits + (2 ^ f.fractionBits + fraction)
      = fraction + 2 ^ f.fractionBits * (e + 1) := by ring
  have hfraction : fraction < 2 ^ f.fractionBits := by omega
  rw [magnitude_eq, parts_eq, hsplit]
  simp only [Nat.add_mul_div_left _ _ hpos, Nat.div_eq_of_lt hfraction, Nat.add_mul_mod_self_left,
    Nat.mod_eq_of_lt hfraction]
  rw [if_neg (by omega)]
  simp [Nat.add_comm]

/-- A pattern is subnormal or made of an exponent and a full significand. -/
theorem subnormal_or_normal (pattern : Nat) :
    pattern < 2 ^ f.fractionBits
      ∨ ∃ e m, f.Significand m ∧ pattern = e * 2 ^ f.fractionBits + m := by
  have hpos : 0 < 2 ^ f.fractionBits := Nat.two_pow_pos _
  have hsplit := Nat.div_add_mod pattern (2 ^ f.fractionBits)
  have hfraction := Nat.mod_lt pattern hpos
  rcases hq : pattern / 2 ^ f.fractionBits with _ | e
  · left
    rw [hq] at hsplit
    omega
  · right
    rw [hq] at hsplit
    refine ⟨e, 2 ^ f.fractionBits + pattern % 2 ^ f.fractionBits, ⟨by omega, ?_⟩, ?_⟩
    · rw [Nat.pow_succ]
      omega
    · calc pattern
          = 2 ^ f.fractionBits * (e + 1) + pattern % 2 ^ f.fractionBits := hsplit.symm
        _ = e * 2 ^ f.fractionBits + (2 ^ f.fractionBits + pattern % 2 ^ f.fractionBits) := by ring

/-! ### Rounding what needs no rounding -/

theorem roundQuotient_mul {den : Nat} (hden : 0 < den) (q : Nat) :
    roundQuotient (q * den) den = q := by
  rw [roundQuotient]
  simp [Nat.mul_div_cancel _ hden, hden]

/-- An exact quotient is rounded like its number of units. -/
theorem nearest_exact {num den units : Nat} (hden : 0 < den)
    (h : num * 2 ^ f.leastScale = units * den) :
    f.nearest num den = f.nearest units (2 ^ f.leastScale) := by
  have hround (scale : Nat) :
      roundQuotient (units * den) (den * 2 ^ scale)
        = roundQuotient (units * 2 ^ f.leastScale) (2 ^ f.leastScale * 2 ^ scale) := by
    have hpos : 0 < 2 ^ f.leastScale := Nat.two_pow_pos _
    rw [roundQuotient, roundQuotient]
    rw [Nat.mul_comm units den, Nat.mul_comm units (2 ^ f.leastScale)]
    rw [Nat.mul_div_mul_left _ _ hden, Nat.mul_div_mul_left _ _ hpos]
    rw [Nat.mul_mod_mul_left, Nat.mul_mod_mul_left]
    have hcompare (k a b : Nat) (hk : 0 < k) : 2 * (k * a) < k * b ↔ 2 * a < b := by
      rw [Nat.mul_left_comm]
      exact Nat.mul_lt_mul_left hk
    have hcompare' (k a b : Nat) (hk : 0 < k) : k * b < 2 * (k * a) ↔ b < 2 * a := by
      rw [Nat.mul_left_comm]
      exact Nat.mul_lt_mul_left hk
    simp only [hcompare _ _ _ hden, hcompare _ _ _ hpos, hcompare' _ _ _ hden, hcompare' _ _ _ hpos]
  rw [nearest_eq, nearest_eq]
  simp only [h, Nat.mul_div_cancel _ hden, Nat.mul_div_cancel _ (Nat.two_pow_pos f.leastScale),
    hround]

theorem nearest_subnormal {units : Nat} (hf : 0 < f.precision)
    (h : units < 2 ^ f.fractionBits) :
    f.nearest units (2 ^ f.leastScale) = min f.infinity units := by
  have hlog : units.log2 + 1 - f.precision = 0 := by
    rcases Nat.eq_zero_or_pos units with rfl | hpos
    · rw [Nat.log2_zero]
      omega
    · have := (Nat.log2_lt (Nat.ne_of_gt hpos)).mpr h
      rw [fractionBits] at this
      omega
  rw [nearest_eq]
  simp only [Nat.mul_div_cancel _ (Nat.two_pow_pos f.leastScale), hlog, Nat.pow_zero, Nat.mul_one,
    Nat.zero_mul, Nat.zero_add]
  rw [roundQuotient_mul (Nat.two_pow_pos _)]

theorem nearest_normal {m : Nat} (hf : 0 < f.precision) (hm : f.Significand m) (e : Nat) :
    f.nearest (m * 2 ^ e) (2 ^ f.leastScale) = min f.infinity (e * 2 ^ f.fractionBits + m) := by
  have hpos : 0 < m := Nat.lt_of_lt_of_le (Nat.two_pow_pos _) hm.1
  have hlog : (m * 2 ^ e).log2 = f.fractionBits + e := by
    rw [Nat.log2_eq_iff (Nat.ne_of_gt (Nat.mul_pos hpos (Nat.two_pow_pos e)))]
    constructor
    · rw [Nat.pow_add]
      exact Nat.mul_le_mul_right _ hm.1
    · rw [Nat.add_right_comm, Nat.pow_add]
      exact Nat.mul_lt_mul_of_pos_right hm.2 (Nat.two_pow_pos e)
  have hscale : f.fractionBits + e + 1 - f.precision = e := by
    rw [fractionBits]
    omega
  rw [nearest_eq]
  simp only [Nat.mul_div_cancel _ (Nat.two_pow_pos f.leastScale), hlog, hscale]
  have hunits : m * 2 ^ e * 2 ^ f.leastScale = m * (2 ^ f.leastScale * 2 ^ e) := by ring
  rw [hunits, roundQuotient_mul (Nat.mul_pos (Nat.two_pow_pos _) (Nat.two_pow_pos _))]

/-- Rounding the value of a finite pattern gives the pattern. -/
theorem nearest_of_magnitude {pattern num den : Nat} (hf : 0 < f.precision)
    (hfinite : pattern < f.infinity) (hden : 0 < den)
    (h : num * 2 ^ f.leastScale = f.magnitude pattern * den) : f.nearest num den = pattern := by
  rw [nearest_exact hden h]
  rcases subnormal_or_normal (f := f) pattern with hsub | ⟨e, m, hm, rfl⟩
  · rw [magnitude_subnormal hsub, nearest_subnormal hf hsub]
    omega
  · rw [magnitude_normal hm, nearest_normal hf hm]
    omega

/-- A positive number of units with few significant bits, shifted far enough to
the left, has a full significand. -/
theorem exists_significand {significand k : Nat} (hpos : 0 < significand)
    (hlow : significand < 2 ^ (f.fractionBits + 1)) (hk : f.fractionBits ≤ k) :
    ∃ m e, f.Significand m ∧ significand * 2 ^ k = m * 2 ^ e ∧ e ≤ k := by
  have hlog : significand.log2 ≤ f.fractionBits :=
    Nat.le_of_lt_succ ((Nat.log2_lt (Nat.ne_of_gt hpos)).mpr hlow)
  obtain ⟨gap, hgap⟩ := Nat.exists_eq_add_of_le hlog
  obtain ⟨e, rfl⟩ := Nat.exists_eq_add_of_le (show gap ≤ k by omega)
  refine ⟨significand * 2 ^ gap, e, ⟨?_, ?_⟩, by ring, by omega⟩
  · rw [hgap, Nat.pow_add]
    exact Nat.mul_le_mul_right _ (Nat.log2_self_le (Nat.ne_of_gt hpos))
  · rw [hgap, Nat.add_right_comm, Nat.pow_add]
    exact Nat.mul_lt_mul_of_pos_right Nat.lt_log2_self (Nat.two_pow_pos gap)

/-- An exact value is not moved by rounding. -/
theorem magnitude_nearest {significand k num den : Nat} (hf : 0 < f.precision)
    (hlow : significand < 2 ^ (f.fractionBits + 1)) (hk : f.fractionBits ≤ k)
    (hfits : k + 2 ≤ 2 ^ f.exponentBits - 1) (hden : 0 < den)
    (h : num * 2 ^ f.leastScale = significand * 2 ^ k * den) :
    f.magnitude (f.nearest num den) = significand * 2 ^ k ∧ f.nearest num den < f.infinity := by
  have hpos : 0 < 2 ^ f.fractionBits := Nat.two_pow_pos _
  have hinfinity : (k + 2) * 2 ^ f.fractionBits ≤ f.infinity := Nat.mul_le_mul_right _ hfits
  rw [nearest_exact hden h]
  rcases Nat.eq_zero_or_pos significand with rfl | hsignificand
  · have hinfinite : 0 < f.infinity := Nat.lt_of_lt_of_le (Nat.mul_pos (by omega) hpos) hinfinity
    rw [Nat.zero_mul, nearest_subnormal hf hpos, Nat.min_zero]
    exact ⟨magnitude_subnormal hpos, hinfinite⟩
  · obtain ⟨m, e, hm, hunits, he⟩ := exists_significand hsignificand hlow hk
    have hbelow : e * 2 ^ f.fractionBits + m < f.infinity := by
      refine Nat.lt_of_lt_of_le ?_ hinfinity
      calc e * 2 ^ f.fractionBits + m
          < e * 2 ^ f.fractionBits + 2 ^ (f.fractionBits + 1) := by have := hm.2; omega
        _ = (e + 2) * 2 ^ f.fractionBits := by ring
        _ ≤ (k + 2) * 2 ^ f.fractionBits := Nat.mul_le_mul_right _ (by omega)
    rw [hunits, nearest_normal hf hm, Nat.min_eq_right (Nat.le_of_lt hbelow)]
    exact ⟨magnitude_normal hm e, hbelow⟩

end BinaryFormat

/-! ### Signs and patterns -/

namespace Double

variable {negative : Bool} {pattern : Nat}

private theorem toNat_bits_ofParts (h : pattern < 2 ^ 63) :
    (ofParts negative pattern).bits.toNat = pattern + if negative then 2 ^ 63 else 0 := by
  rw [ofParts, show BinaryFormat.double.signWeight = 2 ^ 63 from rfl, UInt64.toNat_ofNat']
  rw [Nat.mod_eq_of_lt]
  split <;> omega

theorem pattern_ofParts (h : pattern < 2 ^ 63) : (ofParts negative pattern).pattern = pattern := by
  rw [Double.pattern, toNat_bits_ofParts h, show BinaryFormat.double.signWeight = 2 ^ 63 from rfl]
  cases negative with
  | false => exact Nat.mod_eq_of_lt h
  | true =>
    rw [if_pos rfl, Nat.add_mod_right]
    exact Nat.mod_eq_of_lt h

theorem isNegative_ofParts (h : pattern < 2 ^ 63) :
    (ofParts negative pattern).isNegative = negative := by
  rw [isNegative, toNat_bits_ofParts h, show BinaryFormat.double.signWeight = 2 ^ 63 from rfl]
  cases negative with
  | false =>
    rw [if_neg (by decide)]
    exact decide_eq_false (by omega)
  | true => exact decide_eq_true (by rw [if_pos rfl]; omega)

end Double

namespace Single

theorem ofParts_isNegative_pattern (x : Single) : ofParts x.isNegative x.pattern = x := by
  have hbits : x.bits.toNat < 2 ^ 32 := x.bits.toNat_lt
  have hsum : x.pattern + (if x.isNegative then 2 ^ 31 else 0) = x.bits.toNat := by
    rw [pattern, isNegative, show BinaryFormat.single.signWeight = 2 ^ 31 from rfl]
    by_cases h : 2 ^ 31 ≤ x.bits.toNat
    · rw [if_pos (decide_eq_true h)]
      omega
    · rw [if_neg (by simpa using h)]
      omega
  rw [ofParts, show BinaryFormat.single.signWeight = 2 ^ 31 from rfl, hsum, UInt32.ofNat_toNat]

/-- The single with the payload of a NaN forgotten. -/
def withoutPayload (x : Single) : Single :=
  if BinaryFormat.single.infinity < x.pattern then nan else x

/-- A finite single in units of the least positive one has at most 24
significant bits. -/
theorem exists_significand_of_finite {x : Single} (h : x.pattern < BinaryFormat.single.infinity) :
    ∃ significand e, BinaryFormat.single.magnitude x.pattern = significand * 2 ^ e
      ∧ significand < 2 ^ 24 ∧ e ≤ 253 := by
  rcases BinaryFormat.subnormal_or_normal (f := .single) x.pattern with hsub | ⟨e, m, hm, hpattern⟩
  · refine ⟨x.pattern, 0, ?_, ?_, by omega⟩
    · rw [BinaryFormat.magnitude_subnormal hsub, Nat.pow_zero, Nat.mul_one]
    · rw [show BinaryFormat.single.fractionBits = 23 from rfl] at hsub
      omega
  · refine ⟨m, e, ?_, hm.2, ?_⟩
    · rw [hpattern, BinaryFormat.magnitude_normal hm]
    · have hlow := hm.1
      rw [show BinaryFormat.single.infinity = 255 * 2 ^ 23 from rfl] at h
      rw [show BinaryFormat.single.fractionBits = 23 from rfl] at hpattern hlow
      omega

/-- A unit of a single is `2 ^ unitShift` units of a double. -/
def unitShift : Nat := 925

theorem two_pow_leastScale :
    2 ^ BinaryFormat.double.leastScale = 2 ^ unitShift * 2 ^ BinaryFormat.single.leastScale := by
  rw [show BinaryFormat.double.leastScale = unitShift + BinaryFormat.single.leastScale from rfl,
    Nat.pow_add]

/-- Widening keeps the sign and the value of a finite single. -/
theorem toDouble_finite {x : Single} (h : x.pattern < BinaryFormat.single.infinity) :
    x.toDouble.pattern < BinaryFormat.double.infinity
      ∧ x.toDouble.isNegative = x.isNegative
      ∧ x.toDouble.magnitude = BinaryFormat.single.magnitude x.pattern * 2 ^ unitShift := by
  obtain ⟨significand, e, hmagnitude, hsignificand, he⟩ := exists_significand_of_finite h
  have hunits : BinaryFormat.single.magnitude x.pattern * 2 ^ BinaryFormat.double.leastScale
      = significand * 2 ^ (e + unitShift) * 2 ^ BinaryFormat.single.leastScale := by
    rw [hmagnitude, two_pow_leastScale, Nat.pow_add, Nat.mul_assoc, Nat.mul_assoc, Nat.mul_assoc]
  -- A significand of a single is one of a double, so nothing is rounded.
  have hlow : significand < 2 ^ (BinaryFormat.double.fractionBits + 1) :=
    Nat.lt_of_lt_of_le hsignificand (Nat.pow_le_pow_right (by omega) (by decide))
  have hshift : BinaryFormat.double.fractionBits ≤ e + unitShift := by
    rw [show BinaryFormat.double.fractionBits = 52 from rfl, unitShift]
    omega
  have hfits : e + unitShift + 2 ≤ 2 ^ BinaryFormat.double.exponentBits - 1 := by
    rw [show 2 ^ BinaryFormat.double.exponentBits - 1 = 2047 from rfl, unitShift]
    omega
  obtain ⟨hvalue, hfinite⟩ := BinaryFormat.magnitude_nearest (by decide) hlow hshift hfits
    (Nat.two_pow_pos _) hunits
  have hsmall : BinaryFormat.double.infinity < 2 ^ 63 := by decide
  have hdouble : x.toDouble = Double.ofParts x.isNegative
      (BinaryFormat.double.nearest (BinaryFormat.single.magnitude x.pattern)
        (2 ^ BinaryFormat.single.leastScale)) := by
    rw [toDouble]
    simp only [Double.ofQuotient, Nat.pow_eq]
    rw [if_neg (by omega), if_neg (by omega)]
  rw [hdouble, Double.magnitude, Double.pattern_ofParts (Nat.lt_trans hfinite hsmall),
    Double.isNegative_ofParts (Nat.lt_trans hfinite hsmall)]
  refine ⟨hfinite, rfl, ?_⟩
  rw [hvalue, hmagnitude, Nat.pow_add, Nat.mul_assoc]

/-- Narrowing a widened single gives it back, NaNs identified. -/
theorem toSingle_toDouble (x : Single) : x.toDouble.toSingle = x.withoutPayload := by
  have hsmall : BinaryFormat.double.infinity < 2 ^ 63 := by decide
  rw [withoutPayload]
  -- NaNs lose their payload, infinities are kept, and a finite value is the nearest to itself.
  by_cases hnan : BinaryFormat.single.infinity < x.pattern
  · rw [if_pos hnan, toDouble]
    simp only [if_pos hnan]
    decide
  · rw [if_neg hnan]
    by_cases hinfinite : x.pattern = BinaryFormat.single.infinity
    · have hdouble : x.toDouble = Double.ofParts x.isNegative BinaryFormat.double.infinity := by
        rw [toDouble]
        simp only [if_neg hnan, if_pos hinfinite]
      rw [hdouble, Double.toSingle]
      simp only [Double.isNaN, Double.isInfinite, Double.pattern_ofParts hsmall,
        Double.isNegative_ofParts hsmall]
      simp only [Nat.lt_irrefl, decide_false, decide_true, if_true, Bool.false_eq_true, if_false]
      rw [← hinfinite]
      exact x.ofParts_isNegative_pattern
    · have hfinite : x.pattern < BinaryFormat.single.infinity := by omega
      obtain ⟨hpattern, hsign, hmagnitude⟩ := toDouble_finite hfinite
      have hnearest : BinaryFormat.single.nearest x.toDouble.magnitude
          (2 ^ BinaryFormat.double.leastScale) = x.pattern := by
        refine BinaryFormat.nearest_of_magnitude (by decide) hfinite (Nat.two_pow_pos _) ?_
        rw [hmagnitude, two_pow_leastScale, Nat.mul_assoc]
      rw [Double.toSingle]
      simp only [Double.isNaN, Double.isInfinite, Nat.pow_eq, hnearest, hsign]
      rw [if_neg (by simpa using Nat.le_of_lt hpattern), if_neg (by simpa using Nat.ne_of_lt hpattern)]
      exact x.ofParts_isNegative_pattern

theorem toDouble_withoutPayload (x : Single) : x.withoutPayload.toDouble = x.toDouble := by
  rw [withoutPayload]
  split
  case isTrue hnan =>
    rw [toDouble, toDouble]
    simp only [if_pos hnan]
    decide
  case isFalse => rfl

theorem pattern_ofParts {negative : Bool} {pattern : Nat} (h : pattern < 2 ^ 31) :
    (ofParts negative pattern).pattern = pattern := by
  have hbits : (ofParts negative pattern).bits.toNat = pattern + if negative then 2 ^ 31 else 0 := by
    rw [ofParts, show BinaryFormat.single.signWeight = 2 ^ 31 from rfl, UInt32.toNat_ofNat']
    rw [Nat.mod_eq_of_lt]
    split <;> omega
  rw [Single.pattern, hbits, show BinaryFormat.single.signWeight = 2 ^ 31 from rfl]
  cases negative with
  | false => exact Nat.mod_eq_of_lt h
  | true =>
    rw [if_pos rfl, Nat.add_mod_right]
    exact Nat.mod_eq_of_lt h

theorem withoutPayload_ofParts {negative : Bool} {pattern : Nat}
    (h : pattern ≤ BinaryFormat.single.infinity) :
    (ofParts negative pattern).withoutPayload = ofParts negative pattern := by
  have hsmall : BinaryFormat.single.infinity < 2 ^ 31 := by decide
  rw [withoutPayload, pattern_ofParts (Nat.lt_of_le_of_lt h hsmall), if_neg (Nat.not_lt.mpr h)]

/-- What a double was narrowed to has no payload to forget. -/
theorem withoutPayload_toSingle (x : Double) : x.toSingle.withoutPayload = x.toSingle := by
  rw [Double.toSingle]
  by_cases hnan : x.isNaN
  · rw [if_pos hnan]
    decide
  · rw [if_neg hnan]
    by_cases hinfinite : x.isInfinite
    · rw [if_pos hinfinite]
      exact withoutPayload_ofParts (Nat.le_refl _)
    · rw [if_neg hinfinite]
      exact withoutPayload_ofParts (Nat.min_le_left ..)

end Single

end RecordCoding
