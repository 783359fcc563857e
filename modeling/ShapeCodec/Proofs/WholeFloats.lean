import ShapeCodec.Proofs.Leaves
import ShapeCodec.Proofs.Rounding

/-!
# Floats of whole numbers

A whole number of 64 bits is within the range of both formats, so its float is never refused: it is
rounded once or, for the short format, twice. The number that stands for it in JSON is rounded by
way of its decimal digits, and comes to the same float.
-/

namespace ShapeCodec

namespace Binary

variable {f : Format}

/-! ### Rounding whole numbers -/

theorem roundHalfEven_le (n d : Nat) : roundHalfEven n d ≤ n / d + 1 := by
  have hparity : n / d % 2 ≤ 1 := Nat.le_of_lt_succ (Nat.mod_lt _ (by decide))
  unfold roundHalfEven
  simp only
  split_ifs <;> omega

/-- A quotient below a power of two has no more units than that power has. -/
theorem roundToUnit_le {num den p : Nat} {e : Int} (hd : 0 < den)
    (h : (num / den : Rat) < 2 ^ (e + p)) : roundToUnit num den e ≤ 2 ^ p := by
  have hden : (0 : Rat) < den := Nat.cast_pos.mpr hd
  rw [div_lt_iff₀ hden, zpow_add₀ (by norm_num), zpow_natCast] at h
  unfold roundToUnit
  simp only [Nat.pow_eq]
  by_cases he : 0 ≤ e
  · obtain ⟨i, rfl⟩ := Int.eq_ofNat_of_zero_le he
    have hnum : num < 2 ^ p * (den * 2 ^ i) := by
      rw [zpow_natCast] at h
      have hcast : num < 2 ^ i * 2 ^ p * den := by exact_mod_cast h
      calc num < 2 ^ i * 2 ^ p * den := hcast
        _ = 2 ^ p * (den * 2 ^ i) := by ring
    have hquot : num / (den * 2 ^ i) < 2 ^ p :=
      (Nat.div_lt_iff_lt_mul (Nat.mul_pos hd (Nat.two_pow_pos i))).mpr hnum
    rw [if_pos he, Int.toNat_natCast]
    exact (roundHalfEven_le _ _).trans hquot
  · obtain ⟨i, rfl⟩ := Int.exists_eq_neg_ofNat (not_le.mp he).le
    have htwo : (0 : Rat) < 2 ^ i := by positivity
    have hnum : num * 2 ^ i < 2 ^ p * den := by
      rw [zpow_neg, zpow_natCast, mul_assoc, lt_inv_mul_iff₀ htwo] at h
      have hcast : 2 ^ i * num < 2 ^ p * den := by exact_mod_cast h
      rwa [Nat.mul_comm] at hcast
    have hquot : num * 2 ^ i / den < 2 ^ p := (Nat.div_lt_iff_lt_mul hd).mpr hnum
    rw [if_neg he, neg_neg, Int.toNat_natCast]
    exact (roundHalfEven_le _ _).trans hquot

/-- A quotient below a power of two is a float as long as that power is one. -/
theorem exists_nearest {num den k : Nat} (hd : 0 < den) (hk : k < 1024) (h : num < 2 ^ k * den)
    (negative : Bool) : ∃ rank : Fin Format.double.limit,
      (nearest .double negative num den : Double) = .finite negative rank ∧
        rank.val ≤ (1023 + k) * 2 ^ 52 := by
  have hlimit : Format.double.limit = 2047 * 2 ^ 52 := rfl
  have hrank : ∀ n, n ≤ (1023 + k) * 2 ^ 52 → ∃ rank : Fin Format.double.limit,
      (ofRank negative n : Double) = .finite negative rank ∧ rank.val ≤ (1023 + k) * 2 ^ 52 := by
    intro n hn
    have hlt : n < Format.double.limit := by omega
    exact ⟨⟨n, hlt⟩, ofRank_val negative ⟨n, hlt⟩, hn⟩
  rcases Nat.eq_zero_or_pos num with hzero | hpos
  · rw [nearest, if_pos (.inl hzero)]
    exact hrank 0 (Nat.zero_le _)
  · have hden : (0 : Rat) < den := Nat.cast_pos.mpr hd
    have hquot : (0 : Rat) < num / den := div_pos (Nat.cast_pos.mpr hpos) hden
    have hbound : (num / den : Rat) < 2 ^ (k : Int) := by
      rw [div_lt_iff₀ hden, zpow_natCast]
      exact_mod_cast h
    have hlog : Int.log 2 (num / den : Rat) < k :=
      (Int.lt_zpow_iff_log_lt (b := 2) (by decide) hquot).mp (by exact_mod_cast hbound)
    have hunit := unitExponent_eq (f := .double) hpos hd
    simp only [Format.double] at hunit
    have hround : roundToUnit num den (unitExponent .double num den) ≤ 2 ^ 53 := by
      refine roundToUnit_le hd ?_
      have hbelow := Int.lt_zpow_succ_log_self (b := 2) (by decide) (num / den : Rat)
      refine hbelow.trans_le (zpow_le_zpow_right₀ (by norm_num) ?_)
      simp only [Format.double, hunit]
      omega
    rw [nearest, if_neg (by omega)]
    refine hrank _ ?_
    have hunits : (unitExponent .double num den - Format.double.minExponent).toNat ≤ 1021 + k := by
      simp only [Format.double, hunit]
      omega
    have hwhole : Nat.pow 2 (Format.double.precision - 1) = 2 ^ 52 := rfl
    rw [hwhole]
    calc _ ≤ (1021 + k) * 2 ^ 52 + 2 ^ 53 := Nat.add_le_add (Nat.mul_le_mul_right _ hunits) hround
      _ = (1023 + k) * 2 ^ 52 := by ring

theorem magnitude_lt_of_rank_le {rank k : Nat} (h : rank ≤ (1023 + k) * 2 ^ 52) :
    magnitude .double rank < (2 : Rat) ^ (k + 1) := by
  have hexponent : exponent .double rank ≤ (k : Int) - 52 := by
    simp only [exponent, Format.double, Nat.pow_eq]
    omega
  have hlt := magnitude_lt_of_exponent_le hexponent
  rwa [show (53 : Int) + (k - 52) = ((k + 1 : Nat) : Int) by omega, zpow_natCast] at hlt

/-! ### Whole numbers that are held -/

/-- A whole number of at most 53 bits is a float. -/
theorem exists_magnitude_eq {m : Nat} (h : m < 2 ^ 53) :
    ∃ rank : Fin Format.double.limit, magnitude .double rank = m := by
  have hlimit : Format.double.limit = 2047 * 2 ^ 52 := rfl
  rcases Nat.eq_zero_or_pos m with rfl | hpos
  · refine ⟨⟨0, by rw [hlimit]; decide⟩, ?_⟩
    have hzero : significand .double 0 = 0 := significand_eq_zero_iff.mpr rfl
    rw [magnitude, hzero, Nat.cast_zero, zero_mul]
  · -- shifted up until the leading bit is the highest of the significand
    have hlog : m.log2 < 53 := (Nat.log2_lt (Nat.pos_iff_ne_zero.mp hpos)).mpr h
    obtain ⟨k, hk⟩ : ∃ k, m.log2 + k = 52 := ⟨52 - m.log2, by omega⟩
    have hlow : 2 ^ 52 ≤ m * 2 ^ k :=
      calc 2 ^ 52 = 2 ^ m.log2 * 2 ^ k := by rw [← Nat.pow_add, hk]
        _ ≤ m * 2 ^ k := Nat.mul_le_mul_right _ (Nat.log2_self_le (Nat.pos_iff_ne_zero.mp hpos))
    have hhigh : m * 2 ^ k < 2 * 2 ^ 52 :=
      calc m * 2 ^ k < 2 ^ (m.log2 + 1) * 2 ^ k :=
            Nat.mul_lt_mul_of_pos_right Nat.lt_log2_self (Nat.two_pow_pos k)
        _ = 2 * 2 ^ 52 := by rw [← Nat.pow_add, ← Nat.pow_succ']; congr 1; omega
    have hprecision : Format.double.precision - 1 = 52 := rfl
    have hnormal := significand_of_normal (f := .double) (k := 1074 - k) hlow hhigh
    rw [hprecision] at hnormal
    obtain ⟨hsignificand, hexponent⟩ := hnormal
    have hrank : (1074 - k) * 2 ^ 52 + m * 2 ^ k < Format.double.limit := by
      rw [hlimit]
      omega
    have hunit : Format.double.minExponent + ((1074 - k : Nat) : Int) = -(k : Int) := by
      simp only [Format.double]
      omega
    have htwo : (2 : Rat) ^ k ≠ 0 := by positivity
    refine ⟨⟨_, hrank⟩, ?_⟩
    show (significand .double ((1074 - k) * 2 ^ 52 + m * 2 ^ k) : Rat) *
      2 ^ exponent .double ((1074 - k) * 2 ^ 52 + m * 2 ^ k) = m
    rw [hsignificand, hexponent, hunit, zpow_neg, zpow_natCast, Nat.cast_mul, Nat.cast_pow,
      Nat.cast_ofNat, mul_assoc, mul_inv_cancel₀ htwo, mul_one]

/-- A whole number of at most 53 bits is its own float. -/
theorem toRat?_ofInt {n : Int} (h : n.natAbs < 2 ^ 53) :
    (ofInt .double n : Double).toRat? = some (n : Rat) := by
  obtain ⟨rank, hrank⟩ := exists_magnitude_eq h
  have hvalue : ((n.natAbs : Nat) / (1 : Nat) : Rat) = magnitude .double rank := by
    rw [hrank, Nat.cast_one, div_one]
  have hnearest : (ofInt .double n : Double) = .finite (n < 0) rank := by
    rw [ofInt, nearest_of_magnitude (by decide) Nat.one_pos hvalue, ofRank_val]
  rw [hnearest, toRat?_finite, hrank, signOf_mul_natAbs]

end Binary

/-! ### Whole numbers in JSON -/

theorem IntWidth.natAbs_lt {n : Int} (h : IntWidth.long.fits n = true) : n.natAbs < 2 ^ 64 := by
  have hbound : Nat.pow 2 (64 - 1) = 9223372036854775808 := rfl
  simp only [IntWidth.fits, IntWidth.bits?, hbound, Bool.and_eq_true, decide_eq_true_eq] at h
  omega

/-- The float of a long lies within the short ones as well. -/
theorem Binary.exists_ofInt {n : Int} (h : IntWidth.long.fits n = true) :
    ∃ negative rank, (Binary.ofInt .double n : Double) = .finite negative rank ∧
      magnitude .double rank ≤ Json.maxSingle := by
  have hlt : n.natAbs < 2 ^ 64 * 1 := IntWidth.natAbs_lt h
  obtain ⟨rank, hrank, hle⟩ := exists_nearest Nat.one_pos (by decide) hlt (n < 0)
  have hmax : (2 : Rat) ^ (64 + 1) ≤ Json.maxSingle := by
    rw [Json.maxSingle]
    norm_num
  exact ⟨_, rank, hrank, (magnitude_lt_of_rank_le hle).le.trans hmax⟩

/-- Rounded by way of its decimal digits, a long comes to the same float. -/
theorem Binary.ofDecimal_natAbs {n : Int} (h : IntWidth.long.fits n = true) :
    Binary.ofDecimal .double (n < 0) n.natAbs (Digit.countOf n.natAbs) 0 =
      Binary.ofInt .double n := by
  rw [Binary.ofDecimal, Binary.ofInt]
  by_cases hzero : n.natAbs = 0
  · rw [if_pos hzero, Binary.nearest, if_pos (.inl hzero)]
  · have hlow := Digit.pow_countOf_le (Nat.pos_of_ne_zero hzero)
    have hcount : Digit.countOf n.natAbs - 1 < 64 := by
      by_contra hge
      have hpow : 2 ^ 64 ≤ 10 ^ (Digit.countOf n.natAbs - 1) :=
        calc 2 ^ 64 ≤ 10 ^ 64 := Nat.pow_le_pow_left (by decide) 64
          _ ≤ 10 ^ (Digit.countOf n.natAbs - 1) :=
            Nat.pow_le_pow_right (by decide) (Nat.le_of_not_lt hge)
      exact absurd (hpow.trans hlow) (Nat.not_le.mpr (IntWidth.natAbs_lt h))
    have hten : n.natAbs * Nat.pow 10 (0 : Int).toNat = n.natAbs := Nat.mul_one _
    rw [if_neg hzero, if_neg (by omega), if_neg (by omega), if_pos (Int.le_refl 0), hten]

namespace Numeral

/-- The float of a whole number is the one of its numeral. -/
theorem toDouble?_ofInt {n : Int} (h : IntWidth.long.fits n = true) :
    (ofInt n).toDouble? = some (Binary.ofInt .double n) := by
  have hexponent : (ofInt n).exponentValue - (ofInt n).fractionLength = 0 := rfl
  have hcoefficient : (ofInt n).coefficient = n.natAbs := rfl
  have hnegative : (ofInt n).negative = decide (n < 0) := rfl
  obtain ⟨negative, rank, hfinite, -⟩ := Binary.exists_ofInt h
  rw [toDouble?, hexponent, hcoefficient, hnegative]
  simp only [Binary.ofDecimal_natAbs h, hfinite, Binary.isFinite, if_true]

/-- So is its decimal. -/
theorem ofNumeral_ofInt (n : Int) : Decimal.ofNumeral (ofInt n) = .ok (Decimal.ofInt n) := by
  have hexponent : (ofInt n).exponentValue = 0 := rfl
  have hlength : (ofInt n).fractionLength = 0 := rfl
  have hcoefficient : (ofInt n).coefficient = n.natAbs := rfl
  have hnegative : (ofInt n).negative = decide (n < 0) := rfl
  have hbound : (0 : Int) < Nat.pow 2 (Decimal.exponentBits - 1) := by decide
  have hfits : IntWidth.long.fits 0 = true := by decide
  have hdigits : (if n < 0 then -(n.natAbs : Int) else n.natAbs) = n := by
    split <;> omega
  rw [Decimal.ofNumeral]
  simp only [hexponent, hlength, hcoefficient, hnegative, decide_eq_true_eq, hdigits]
  rw [if_neg (by omega), if_neg (by omega)]
  exact if_pos hfits

end Numeral

namespace Json

/-- A long is read as a float by rounding it. -/
theorem readFloat_ofInt {n : Int} (h : IntWidth.long.fits n = true) (type : ScalarType) :
    readFloat type (.number (.ofInt n)) = .ok (Binary.ofInt .double n) := by
  simp only [readFloat, Numeral.toDouble?_ofInt h]

/-- As a short float it is rounded twice, and never out of range. -/
theorem readSingle_ofInt {n : Int} (h : IntWidth.long.fits n = true) :
    readSingle (.number (.ofInt n)) = .ok ((Binary.ofInt .double n).convert .single) := by
  obtain ⟨negative, rank, hfinite, hle⟩ := Binary.exists_ofInt h
  have habs := Binary.abs_signOf_mul negative (Binary.magnitude_nonneg (f := .double) rank)
  obtain ⟨hlow, hhigh⟩ := abs_le.mp (habs.le.trans hle)
  have hrange : ¬(maxSingle < signOf negative * Binary.magnitude .double rank ∨
      signOf negative * Binary.magnitude .double rank < -maxSingle) :=
    not_or.mpr ⟨not_lt.mpr hhigh, not_lt.mpr hlow⟩
  simp only [readSingle, readFloat_ofInt h, Result.ok_bind, hfinite, Binary.toRat?_finite,
    if_neg hrange]
  rfl

theorem readDecimal_ofInt (n : Int) :
    readDecimal (.number (.ofInt n)) = .ok (Decimal.ofInt n) := by
  simp only [readDecimal, asNumber, Result.ok_bind, Numeral.ofNumeral_ofInt]
  rfl

end Json
end ShapeCodec
