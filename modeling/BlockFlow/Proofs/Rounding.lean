import BlockFlow.Number.Decimal
import Mathlib.Algebra.Order.Field.Power
import Mathlib.Data.Rat.Cast.Order
import Mathlib.Tactic.FieldSimp
import Mathlib.Tactic.Linarith
import Mathlib.Tactic.NormNum
import Mathlib.Tactic.Ring

/-!
Rounding of quotients and decimals. The number nearest to a quotient depends on the quotient alone, not on the fraction that
writes it; the exponent of the number is the least one at which the quotient has 53 bits before the point.

* `Binary64.Fits`, `Binary64.exponentFor_eq_iff`: the exponent of a quotient.
* `Binary64.ofRatio_congr`: **equal quotients are rounded to the same number.**
* `Binary64.ofRatio_quotient`: a quotient that is a number is rounded to it.
* `Binary64.ofDecimal_mul_pow`: zeros at the end of a decimal do not matter.
* `Binary64.ofDecimal_shortest`: **the shortest decimal of a number reads back as the number.**
-/

namespace BlockFlow

namespace Binary64

variable {num den num' den' m : Nat} {e e' : Int} {s : Bool}

/-! ## The exponent of a quotient -/

/-- At this exponent the quotient has at most 53 bits before the point. -/
def Fits (num den : Nat) (e : Int) : Prop := (num : ℚ) < den * 2 ^ (53 + e)

theorem Fits.mono (h : Fits num den e) (hle : e ≤ e') : Fits num den e' := by
  have hpow : (2 : ℚ) ^ (53 + e) ≤ 2 ^ (53 + e') := zpow_le_zpow_right₀ (by norm_num) (by omega)
  have hden : (0 : ℚ) ≤ den := Nat.cast_nonneg den
  exact lt_of_lt_of_le h (mul_le_mul_of_nonneg_left hpow hden)

theorem fits_mul {k : Nat} (hk : 0 < k) : Fits (k * num) (k * den) e ↔ Fits num den e := by
  have hk' : (0 : ℚ) < k := Nat.cast_pos.2 hk
  unfold Fits
  push_cast
  rw [mul_assoc]
  exact mul_lt_mul_iff_right₀ hk'

theorem scale_snd_pos (hden : 0 < den) (e : Int) : 0 < (scale num den e).2 := by
  unfold scale
  split
  · exact Nat.mul_pos hden (Nat.pow_pos (by decide))
  · exact hden

/-- Scaling moves a power of two from the quotient to its exponent. -/
theorem scale_cast (num den : Nat) (e : Int) :
    ((scale num den e).1 : ℚ) * den * 2 ^ e = (scale num den e).2 * num := by
  unfold scale
  split
  · rename_i h
    obtain ⟨n, rfl⟩ := Int.eq_ofNat_of_zero_le h
    simp only [Int.toNat_natCast, zpow_natCast, Nat.pow_eq]
    push_cast
    ring
  · rename_i h
    obtain ⟨n, rfl⟩ : ∃ n : Nat, e = -n := ⟨(-e).toNat, by omega⟩
    simp only [neg_neg, Int.toNat_natCast, zpow_neg, zpow_natCast, Nat.pow_eq]
    push_cast
    field_simp

theorem scale_mul (k num den : Nat) (e : Int) :
    scale (k * num) (k * den) e = (k * (scale num den e).1, k * (scale num den e).2) := by
  unfold scale
  split <;> simp [Nat.mul_assoc]

theorem scale_fits (hden : 0 < den) : (scale num den e).1 / (scale num den e).2 < Nat.pow 2 53 ↔ Fits num den e := by
  have hd : 0 < (scale num den e).2 := scale_snd_pos hden e
  have hcast := scale_cast num den e
  generalize scale num den e = p at hd hcast ⊢
  obtain ⟨a, b⟩ := p
  have hb : (0 : ℚ) < b := Nat.cast_pos.2 hd
  have hden' : (0 : ℚ) < den := Nat.cast_pos.2 hden
  have hpow : (0 : ℚ) < 2 ^ e := zpow_pos (by norm_num) e
  rw [Nat.div_lt_iff_lt_mul hd, Fits, zpow_add₀ (by norm_num)]
  have hnum : (num : ℚ) = a * den * 2 ^ e / b := by
    rw [hcast]
    field_simp
  rw [hnum, div_lt_iff₀ hb, ← Nat.cast_lt (α := ℚ)]
  push_cast
  constructor
  · intro h
    have := mul_lt_mul_of_pos_right h (mul_pos hden' hpow)
    norm_num at this ⊢
    linarith
  · intro h
    refine lt_of_mul_lt_mul_right (a := (den : ℚ) * 2 ^ e) ?_ (le_of_lt (mul_pos hden' hpow))
    norm_num at h ⊢
    linarith

/-- The sizes of numerator and denominator tell the quotient up to a factor of two on either side. -/
theorem fits_log2 (hnum : num ≠ 0) (hden : den ≠ 0) : Fits num den ((num.log2 : Int) - den.log2 - 52) ∧
    ¬ Fits num den ((num.log2 : Int) - den.log2 - 54) := by
  have hnumLow : (2 : ℚ) ^ (num.log2 : Int) ≤ num := by exact_mod_cast Nat.log2_self_le hnum
  have hnumHigh : (num : ℚ) < 2 ^ ((num.log2 : Int) + 1) := by exact_mod_cast Nat.lt_log2_self
  have hdenLow : (2 : ℚ) ^ (den.log2 : Int) ≤ den := by exact_mod_cast Nat.log2_self_le hden
  have hdenHigh : (den : ℚ) < 2 ^ ((den.log2 : Int) + 1) := by exact_mod_cast Nat.lt_log2_self
  have htwo : (2 : ℚ) ≠ 0 := by norm_num
  constructor
  · calc (num : ℚ) < 2 ^ ((num.log2 : Int) + 1) := hnumHigh
      _ = 2 ^ (den.log2 : Int) * 2 ^ (53 + ((num.log2 : Int) - den.log2 - 52)) := by
        rw [← zpow_add₀ htwo]
        congr 1
        omega
      _ ≤ den * 2 ^ (53 + ((num.log2 : Int) - den.log2 - 52)) := by gcongr
  · refine not_lt.2 ?_
    calc (den : ℚ) * 2 ^ (53 + ((num.log2 : Int) - den.log2 - 54))
        ≤ 2 ^ ((den.log2 : Int) + 1) * 2 ^ (53 + ((num.log2 : Int) - den.log2 - 54)) := by gcongr
      _ = 2 ^ (num.log2 : Int) := by
        rw [← zpow_add₀ htwo]
        congr 1
        omega
      _ ≤ num := hnumLow

theorem exponentFor_spec (hnum : num ≠ 0) (hden : den ≠ 0) :
    -1074 ≤ exponentFor num den ∧ Fits num den (exponentFor num den) ∧
      (exponentFor num den = -1074 ∨ ¬ Fits num den (exponentFor num den - 1)) := by
  obtain ⟨hhigh, hlow⟩ := fits_log2 hnum hden
  have hpos : 0 < den := Nat.pos_of_ne_zero hden
  simp only [exponentFor]
  split
  · rename_i hfits
    rw [scale_fits hpos] at hfits
    refine ⟨by omega, hfits, ?_⟩
    by_cases hleast : (num.log2 : Int) - den.log2 - 53 ≤ -1074
    · exact Or.inl (max_eq_right hleast)
    · refine Or.inr fun h => hlow ?_
      exact h.mono (by omega)
  · rename_i hfits
    rw [scale_fits hpos] at hfits
    -- below the least exponent the quotient would fit, so the size decides
    have hleast : -1074 ≤ (num.log2 : Int) - den.log2 - 53 := by
      by_contra hle
      exact hfits (hhigh.mono (by omega))
    refine ⟨by omega, hhigh.mono (by omega), Or.inr ?_⟩
    rwa [add_sub_cancel_right]

/-- The exponent of a quotient is the least one at which it fits. -/
theorem exponentFor_eq_iff (hnum : num ≠ 0) (hden : den ≠ 0) :
    exponentFor num den = e ↔ -1074 ≤ e ∧ Fits num den e ∧ (e = -1074 ∨ ¬ Fits num den (e - 1)) := by
  obtain ⟨hle, hfits, hleast⟩ := exponentFor_spec hnum hden
  constructor
  · rintro rfl
    exact ⟨hle, hfits, hleast⟩
  · rintro ⟨hle', hfits', hleast'⟩
    rcases lt_trichotomy (exponentFor num den) e with h | h | h
    · rcases hleast' with rfl | hno
      · omega
      · exact absurd (hfits.mono (by omega)) hno
    · exact h
    · rcases hleast with heq | hno
      · omega
      · exact absurd (hfits'.mono (by omega)) hno

/-! ## Rounding of quotients -/

theorem roundHalfEven_mul {k : Nat} (hk : 0 < k) (num den : Nat) :
    roundHalfEven (k * num) (k * den) = roundHalfEven num den := by
  have hquotient : k * num / (k * den) = num / den := Nat.mul_div_mul_left num den hk
  have hremainder : 2 * (k * num % (k * den)) = k * (2 * (num % den)) := by
    rw [Nat.mul_mod_mul_left]
    ring
  unfold roundHalfEven
  simp only [hquotient, hremainder, Nat.mul_lt_mul_left hk]

theorem roundHalfEven_mul_self (hden : 0 < den) (m : Nat) : roundHalfEven (m * den) den = m := by
  simp [roundHalfEven, Nat.mul_div_cancel m hden, hden]

theorem ofRatio_mul {k : Nat} (hk : 0 < k) (hden : den ≠ 0) : ofRatio s (k * num) (k * den) = ofRatio s num den := by
  unfold ofRatio
  by_cases hnum : num = 0
  · simp [hnum]
  · have hexponent : exponentFor (k * num) (k * den) = exponentFor num den := by
      rw [exponentFor_eq_iff (Nat.mul_ne_zero hk.ne' hnum) (Nat.mul_ne_zero hk.ne' hden), fits_mul hk, fits_mul hk]
      exact exponentFor_spec hnum hden
    simp only [hexponent, scale_mul, roundHalfEven_mul hk, hnum, Nat.mul_eq_zero, hk.ne', or_self]

/-- **Equal quotients are rounded to the same number.** -/
theorem ofRatio_congr (hden : den ≠ 0) (hden' : den' ≠ 0) (h : num * den' = num' * den) :
    ofRatio s num den = ofRatio s num' den' := by
  calc ofRatio s num den = ofRatio s (den' * num) (den' * den) :=
        (ofRatio_mul (Nat.pos_of_ne_zero hden') hden).symm
    _ = ofRatio s (den * num') (den * den') := by rw [Nat.mul_comm den' num, h, Nat.mul_comm num', Nat.mul_comm den']
    _ = ofRatio s num' den' := ofRatio_mul (Nat.pos_of_ne_zero hden) hden'

/-- The quotient that a finite number is. -/
def quotient (m : Nat) (e : Int) : Nat × Nat :=
  if 0 ≤ e then (m * Nat.pow 2 e.toNat, 1) else (m, Nat.pow 2 (-e).toNat)

theorem quotient_snd_pos (m : Nat) (e : Int) : 0 < (quotient m e).2 := by
  unfold quotient
  split
  · exact Nat.one_pos
  · exact Nat.pow_pos (by decide)

theorem quotient_cast (m : Nat) (e : Int) : ((quotient m e).1 : ℚ) = (quotient m e).2 * (m * 2 ^ e) := by
  unfold quotient
  split
  · rename_i h
    obtain ⟨n, rfl⟩ := Int.eq_ofNat_of_zero_le h
    simp [Nat.pow_eq]
  · rename_i h
    obtain ⟨n, rfl⟩ : ∃ n : Nat, e = -n := ⟨(-e).toNat, by omega⟩
    simp only [neg_neg, Int.toNat_natCast, zpow_neg, zpow_natCast, Nat.pow_eq]
    push_cast
    field_simp

theorem quotient_fst_ne_zero (hm : m ≠ 0) (e : Int) : (quotient m e).1 ≠ 0 := by
  unfold quotient
  split <;> simp [hm]

/-- The exponent of a finite number is that of its quotient. -/
theorem exponentFor_quotient (hm : m ≠ 0) (h : Normal m e) : exponentFor (quotient m e).1 (quotient m e).2 = e := by
  have ⟨hbits, hleast, _, hfull⟩ := h
  have hpos := quotient_snd_pos m e
  have hden : (0 : ℚ) < (quotient m e).2 := Nat.cast_pos.2 hpos
  have hpow : (0 : ℚ) < 2 ^ e := zpow_pos (by norm_num) e
  have hbits' : (m : ℚ) < 2 ^ (53 : Int) := by exact_mod_cast hbits
  refine (exponentFor_eq_iff (quotient_fst_ne_zero hm e) hpos.ne').2 ⟨hleast, ?_, ?_⟩
  · unfold Fits
    rw [quotient_cast, zpow_add₀ (by norm_num)]
    gcongr
  · rcases hfull with hfull | rfl
    · right
      have hfull' : (2 : ℚ) ^ (52 : Int) ≤ m := by exact_mod_cast hfull
      unfold Fits
      rw [quotient_cast, show 53 + (e - 1) = 52 + e by omega, zpow_add₀ (by norm_num), not_lt]
      gcongr
    · exact Or.inl rfl

/-- At its exponent a finite number is an integer, so that nothing is rounded. -/
theorem scale_quotient (m : Nat) (e : Int) :
    (scale (quotient m e).1 (quotient m e).2 e).1 = m * (scale (quotient m e).1 (quotient m e).2 e).2 := by
  have hden : (0 : ℚ) < (quotient m e).2 := Nat.cast_pos.2 (quotient_snd_pos m e)
  have hpow : (0 : ℚ) < 2 ^ e := zpow_pos (by norm_num) e
  have hscale := scale_cast (quotient m e).1 (quotient m e).2 e
  rw [quotient_cast] at hscale
  rw [← Nat.cast_inj (R := ℚ), Nat.cast_mul]
  apply mul_right_cancel₀ (mul_pos hden hpow).ne'
  linarith

/-- **A quotient that is a number is rounded to it.** -/
theorem ofRatio_quotient (hm : m ≠ 0) (h : Normal m e) :
    ofRatio s (quotient m e).1 (quotient m e).2 = .finite s m e h := by
  have hround : roundHalfEven (scale (quotient m e).1 (quotient m e).2 e).1 (scale (quotient m e).1 (quotient m e).2 e).2 =
      m := by
    rw [scale_quotient, roundHalfEven_mul_self (scale_snd_pos (quotient_snd_pos m e) e)]
  have hne : m ≠ Nat.pow 2 53 := Nat.ne_of_lt h.1
  unfold ofRatio
  simp only [quotient_fst_ne_zero hm e, if_false, exponentFor_quotient hm h, hround, hne, pack, h, dite_true]

/-! ## Decimals -/

theorem length_toDigits_mul_ten {n : Nat} (hn : n ≠ 0) :
    (Nat.toDigits 10 (10 * n)).length = (Nat.toDigits 10 n).length + 1 := by
  have h := Nat.toDigits_append_toDigits (b := 10) (d := 0) (by decide) (Nat.pos_of_ne_zero hn) (by decide)
  rw [Nat.add_zero] at h
  rw [← h, List.length_append]
  rfl

/-- A zero at the end of a decimal does not matter. -/
theorem ofDecimal_mul_ten (s : Bool) (c : Nat) (e : Int) : ofDecimal s (10 * c) e = ofDecimal s c (e + 1) := by
  by_cases hc : c = 0
  · simp [ofDecimal, hc]
  have hsize : ((Nat.toDigits 10 (10 * c)).length : Int) + e = (Nat.toDigits 10 c).length + (e + 1) := by
    rw [length_toDigits_mul_ten hc]
    push_cast
    ring
  have hratio : (if 0 ≤ e then ofRatio s (10 * c * Nat.pow 10 e.toNat) 1
        else ofRatio s (10 * c) (Nat.pow 10 (-e).toNat)) =
      if 0 ≤ e + 1 then ofRatio s (c * Nat.pow 10 (e + 1).toNat) 1
        else ofRatio s c (Nat.pow 10 (-(e + 1)).toNat) := by
    rcases lt_trichotomy e (-1) with h | rfl | h
    · obtain ⟨n, rfl⟩ : ∃ n : Nat, e = -(n + 1 : Nat) := ⟨(-e - 1).toNat, by omega⟩
      have hn : -(-((n + 1 : Nat) : Int) + 1) = n := by push_cast; ring
      rw [if_neg (by omega), if_neg (by omega), neg_neg, Int.toNat_natCast, hn, Int.toNat_natCast]
      refine ofRatio_congr (by simp) (by simp) ?_
      simp only [Nat.pow_eq, pow_succ]
      ring
    · exact ofRatio_congr (by simp) (by simp) (by simp [Nat.mul_comm])
    · obtain ⟨n, rfl⟩ := Int.eq_ofNat_of_zero_le (show 0 ≤ e by omega)
      rw [if_pos (by omega), if_pos (by omega), Int.toNat_natCast, show (n : Int) + 1 = (n + 1 : Nat) by push_cast; rfl,
        Int.toNat_natCast]
      congr 1
      simp only [Nat.pow_eq, pow_succ]
      ring
  unfold ofDecimal
  simp only [hsize, hratio, hc, Nat.mul_eq_zero, or_false, OfNat.ofNat_ne_zero, if_false]

theorem ofDecimal_mul_pow (s : Bool) (c : Nat) (e : Int) (k : Nat) : ofDecimal s (10 ^ k * c) e = ofDecimal s c (e + k) := by
  induction k generalizing e with
  | zero => simp
  | succ k ih =>
    rw [pow_succ', Nat.mul_assoc, ofDecimal_mul_ten, ih]
    congr 1
    push_cast
    ring

theorem ofDecimal_trim (s : Bool) (d : Decimal) :
    ofDecimal s d.trim.coefficient d.trim.exponent = ofDecimal s d.coefficient d.exponent := by
  unfold Decimal.trim
  generalize (Nat.toDigits 10 d.coefficient).length = fuel
  induction fuel generalizing d with
  | zero => rfl
  | succ fuel ih =>
    rw [Decimal.trimBy]
    split
    · rename_i h
      rw [ih, ← ofDecimal_mul_ten, Nat.mul_div_cancel' (Nat.dvd_of_mod_eq_zero h.2)]
    · rfl

/-- The least finite number is not below the range of decimals that are looked at. -/
theorem two_pow_1074_lt : 2 ^ 1074 < 10 ^ 324 := by
  calc (2 : Nat) ^ 1074 = (2 ^ 179) ^ 6 := by rw [← pow_mul]
    _ < (10 ^ 54) ^ 6 := by gcongr; norm_num
    _ = 10 ^ 324 := by rw [← pow_mul]

/-- The greatest finite number is not above it. -/
theorem two_pow_1024_lt : 2 ^ 1024 < 10 ^ 309 := by
  calc (2 : Nat) ^ 1024 = 2 * (2 ^ 93) ^ 11 := by rw [← pow_mul, ← pow_succ']
    _ < 10 * (10 ^ 28) ^ 11 := by gcongr <;> norm_num
    _ = 10 ^ 309 := by rw [← pow_mul, ← pow_succ']

/-- The digits of a number without fraction. -/
theorem length_toDigits_mul_two {n : Nat} (hbits : m < 2 ^ 53) (hn : n ≤ 971) :
    (Nat.toDigits 10 (m * 2 ^ n)).length ≤ 310 := by
  refine (Nat.length_toDigits_le_iff (b := 10) (by decide) (by decide)).2 ?_
  calc m * 2 ^ n < 2 ^ 53 * 2 ^ n := by gcongr
    _ ≤ 2 ^ 53 * 2 ^ 971 := by gcongr; omega
    _ = 2 ^ 1024 := by rw [← pow_add]
    _ < 10 ^ 309 := two_pow_1024_lt
    _ ≤ 10 ^ 310 := by gcongr <;> norm_num

/-- The digits of a number with a fraction, of which there are not many before the point. -/
theorem length_toDigits_mul_five_le (hbits : m < 2 ^ 53) (n : Nat) : (Nat.toDigits 10 (m * 5 ^ n)).length ≤ 16 + n := by
  refine (Nat.length_toDigits_le_iff (b := 10) (by decide) (by omega)).2 ?_
  calc m * 5 ^ n < 2 ^ 53 * 5 ^ n := by gcongr
    _ ≤ 10 ^ 16 * 10 ^ n := Nat.mul_le_mul (by norm_num) (Nat.pow_le_pow_left (by norm_num) n)
    _ = 10 ^ (16 + n) := by rw [← pow_add]

/-- Nor are there many zeros between the point and the digits. -/
theorem lt_length_toDigits_mul_five (hm : m ≠ 0) {n : Nat} (hn : n ≤ 1074) :
    n < (Nat.toDigits 10 (m * 5 ^ n)).length + 325 := by
  by_contra hle
  have hpos := Nat.length_toDigits_pos (b := 10) (n := m * 5 ^ n)
  have hshort : m * 5 ^ n < 10 ^ (n - 325) :=
    (Nat.length_toDigits_le_iff (b := 10) (by decide) (by omega)).1 (by omega)
  have : 10 ^ n < 10 ^ n := by
    calc 10 ^ n = 1 * 5 ^ n * 2 ^ n := by rw [Nat.one_mul, ← Nat.mul_pow]
      _ ≤ m * 5 ^ n * 2 ^ n := by gcongr; omega
      _ ≤ 10 ^ (n - 325) * 2 ^ 1074 := by gcongr; omega
      _ < 10 ^ (n - 325) * 10 ^ 324 := by gcongr; exact two_pow_1074_lt
      _ ≤ 10 ^ n := by rw [← pow_add]; gcongr <;> omega
  omega

/-- Within the range of finite numbers a decimal is rounded as a quotient. -/
theorem ofDecimal_eq_ofRatio {c : Nat} (hc : c ≠ 0) (hhigh : ((Nat.toDigits 10 c).length : Int) + e ≤ 310)
    (hlow : -325 ≤ ((Nat.toDigits 10 c).length : Int) + e) :
    ofDecimal s c e = if 0 ≤ e then ofRatio s (c * Nat.pow 10 e.toNat) 1 else ofRatio s c (Nat.pow 10 (-e).toNat) := by
  rw [ofDecimal, if_neg hc]
  dsimp only
  rw [if_neg (by omega), if_neg (by omega)]

/-- All digits of a finite number read back as the number. -/
theorem ofDecimal_exact (hm : m ≠ 0) (h : Normal m e) :
    ofDecimal s (exact m e).coefficient (exact m e).exponent = .finite s m e h := by
  have ⟨hbits, hleast, hmost, _⟩ := h
  rw [Nat.pow_eq] at hbits
  rw [← ofRatio_quotient hm h]
  unfold exact quotient
  split
  · rename_i he
    obtain ⟨n, rfl⟩ := Int.eq_ofNat_of_zero_le he
    simp only [Int.toNat_natCast, Nat.pow_eq]
    have hsize := length_toDigits_mul_two hbits (n := n) (by omega)
    rw [ofDecimal_eq_ofRatio (by simp [hm]) (by omega) (by omega)]
    simp
  · rename_i he
    obtain ⟨n, rfl⟩ : ∃ n : Nat, e = -n := ⟨(-e).toNat, by omega⟩
    simp only [neg_neg, Int.toNat_natCast, Nat.pow_eq]
    have hhigh := length_toDigits_mul_five_le hbits n
    have hlow := lt_length_toDigits_mul_five hm (n := n) (by omega)
    rw [ofDecimal_eq_ofRatio (by simp [hm]) (by omega) (by omega), if_neg he, neg_neg, Int.toNat_natCast, Nat.pow_eq]
    refine ofRatio_congr (by simp) (by simp) ?_
    rw [show (10 : Nat) = 5 * 2 by norm_num, Nat.mul_pow]
    ring

/-- **The shortest decimal of a number reads back as the number.** It was tried, or it has all digits. -/
theorem ofDecimal_shortest (h : Normal m e) :
    ofDecimal s (shortest (.finite s m e h)).coefficient (shortest (.finite s m e h)).exponent = .finite s m e h := by
  rw [shortest]
  split
  · rename_i hm
    subst hm
    have ⟨_, _, _, hleast⟩ := h
    obtain rfl : e = -1074 := hleast.resolve_left (by decide)
    rfl
  · rename_i hm
    rw [ofDecimal_trim]
    generalize hfound : List.findSome? _ _ = found
    cases found with
    | none => exact ofDecimal_exact hm h
    | some d =>
      obtain ⟨n, -, hn⟩ := List.exists_of_findSome?_eq_some hfound
      simpa using List.find?_some hn

/-- The digits of a number other than zero do not all vanish. -/
theorem shortest_ne_zero (hm : m ≠ 0) (h : Normal m e) : (shortest (.finite s m e h)).coefficient ≠ 0 := by
  intro hzero
  have hback := ofDecimal_shortest (s := s) h
  rw [hzero] at hback
  have : zero s = .finite s m e h := hback
  simp only [zero, finite.injEq] at this
  exact hm this.2.1.symm

end Binary64

end BlockFlow
