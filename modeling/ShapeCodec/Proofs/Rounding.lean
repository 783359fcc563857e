import Mathlib.Data.Int.Log
import Mathlib.Data.Rat.Floor
import Mathlib.Tactic.NormNum.Basic
import Mathlib.Tactic.Positivity
import ShapeCodec.Json.Basic
import ShapeCodec.Proofs.Binary
import ShapeCodec.Proofs.NumberValues

/-!
# Numbers that floats hold

A float denotes a rational number. If there is a float for a number, rounding finds it: the quotient
that is rounded has the unit of that float, and is a whole number of these units. So a numeral is
read without loss exactly if some float denotes the same number.
-/

namespace ShapeCodec

/-! ### Sizes of decimals -/

namespace Digit

theorem valueFrom_lt (ds : List Digit) : valueFrom 0 ds < 10 ^ ds.length := by
  induction ds with
  | nil => simp [valueFrom]
  | cons d ds ih =>
      have hcons : valueFrom 0 (d :: ds) = valueFrom d.val ds := by
        show valueFrom (10 * 0 + d.val) ds = _
        rw [Nat.mul_zero, Nat.zero_add]
      have hd : (d.val + 1) * 10 ^ ds.length ≤ 10 * 10 ^ ds.length :=
        Nat.mul_le_mul_right _ d.isLt
      rw [hcons, valueFrom_eq, List.length_cons, Nat.pow_succ]
      rw [Nat.succ_mul] at hd
      omega

theorem lt_pow_countOf (n : Nat) : n < 10 ^ countOf n := by
  have hlt := valueFrom_lt (listOf n)
  rw [valueFrom_listOf] at hlt
  exact hlt

theorem pow_countOf_le {n : Nat} (hn : 0 < n) : 10 ^ (countOf n - 1) ≤ n := by
  have hpos := countOf_pos n
  by_contra hlt
  by_cases hone : countOf n - 1 = 0
  · rw [hone, Nat.pow_zero] at hlt
    omega
  · have hle : countOf n ≤ countOf n - 1 + 0 :=
      length_listFrom_le (Nat.pos_of_ne_zero hone) (by omega) []
    omega

end Digit

namespace Binary

variable {f : Format}

/-! ### What floats denote -/

/-- The number of a rank, without a sign. -/
def magnitude (f : Format) (rank : Nat) : Rat :=
  significand f rank * (2 : Rat) ^ exponent f rank

theorem magnitude_nonneg (rank : Nat) : 0 ≤ magnitude f rank :=
  mul_nonneg (Nat.cast_nonneg _) (zpow_nonneg (by norm_num) _)

theorem magnitude_pos_iff {rank : Nat} : 0 < magnitude f rank ↔ 0 < significand f rank := by
  have htwo : (0 : Rat) < 2 ^ exponent f rank := zpow_pos (by norm_num) _
  rw [magnitude, mul_pos_iff_of_pos_right htwo, Nat.cast_pos]

theorem toRat?_finite (negative : Bool) (rank : Fin f.limit) :
    (finite negative rank).toRat? = some (signOf negative * magnitude f rank) := by
  have hsign : ((if negative then -(significand f rank : Int) else significand f rank : Int) : Rat)
      = signOf negative * significand f rank := by
    cases negative <;> simp [signOf]
  rw [toRat?, magnitude, ← mul_assoc, ← hsign]
  by_cases he : 0 ≤ exponent f rank
  · obtain ⟨k, hk⟩ := Int.eq_ofNat_of_zero_le he
    simp [hk]
  · obtain ⟨k, hk⟩ := Int.exists_eq_neg_ofNat (not_le.mp he).le
    rw [hk] at he
    simp only [hk, if_neg he, neg_neg, Int.toNat_natCast, Nat.pow_eq, Rat.mkRat_eq_div, zpow_neg,
      zpow_natCast, div_eq_mul_inv]
    norm_cast

/-- Only finite floats denote numbers. -/
theorem exists_finite_of_toRat? {x : Binary f} {q : Rat} (h : x.toRat? = some q) :
    ∃ negative rank, x = .finite negative rank ∧ q = signOf negative * magnitude f rank := by
  cases x with
  | nan => cases h
  | infinite negative => cases h
  | finite negative rank =>
      rw [toRat?_finite] at h
      exact ⟨negative, rank, rfl, (Option.some.inj h).symm⟩

theorem abs_signOf_mul {q : Rat} (negative : Bool) (hq : 0 ≤ q) : |signOf negative * q| = q := by
  cases negative with
  | false => rw [signOf, if_neg Bool.false_ne_true, one_mul, abs_of_nonneg hq]
  | true => rw [signOf, if_pos rfl, neg_one_mul, abs_neg, abs_of_nonneg hq]

/-! ### Units -/

theorem log_eq {q : Rat} {k : Int} (hq : 0 < q) (hlow : (2 : Rat) ^ k ≤ q)
    (hhigh : q < (2 : Rat) ^ (k + 1)) : Int.log 2 q = k := by
  have h1 := (Int.zpow_le_iff_le_log (b := 2) (by decide) hq).mp (by exact_mod_cast hlow)
  have h2 := (Int.lt_zpow_iff_log_lt (b := 2) (by decide) hq).mp (by exact_mod_cast hhigh)
  omega

/-- The leading powers of two give the one of the product with a power of two. -/
theorem log_natCast_mul_zpow {m : Nat} (hm : 0 < m) (e : Int) :
    Int.log 2 (m * (2 : Rat) ^ e) = m.log2 + e := by
  have htwo : (0 : Rat) < 2 ^ e := zpow_pos (by norm_num) _
  have hlow : (2 : Rat) ^ (m.log2 : Int) ≤ m := by
    exact_mod_cast Nat.log2_self_le (Nat.pos_iff_ne_zero.mp hm)
  have hhigh : (m : Rat) < (2 : Rat) ^ ((m.log2 : Int) + 1) := by
    exact_mod_cast Nat.lt_log2_self (n := m)
  refine log_eq (mul_pos (Nat.cast_pos.mpr hm) htwo) ?_ ?_
  · rw [zpow_add₀ (by norm_num)]
    exact mul_le_mul_of_nonneg_right hlow htwo.le
  · rw [add_right_comm, zpow_add₀ (by norm_num)]
    exact mul_lt_mul_of_pos_right hhigh htwo

/-- The first guess at the unit is checked against the quotient. -/
theorem reaches_iff {num den : Nat} (hd : 0 < den) (k : Int) :
    (if 0 ≤ k then den * 2 ^ k.toNat ≤ num else den ≤ num * 2 ^ (-k).toNat) ↔
      (2 : Rat) ^ k ≤ num / den := by
  have hden : (0 : Rat) < den := Nat.cast_pos.mpr hd
  rw [le_div_iff₀ hden]
  by_cases hk : 0 ≤ k
  · obtain ⟨i, rfl⟩ := Int.eq_ofNat_of_zero_le hk
    rw [if_pos hk, Int.toNat_natCast, zpow_natCast, mul_comm]
    exact_mod_cast Iff.rfl
  · obtain ⟨i, rfl⟩ := Int.exists_eq_neg_ofNat (not_le.mp hk).le
    have htwo : (0 : Rat) < 2 ^ i := by positivity
    rw [if_neg hk, neg_neg, Int.toNat_natCast, zpow_neg, zpow_natCast, inv_mul_le_iff₀ htwo,
      mul_comm]
    exact_mod_cast Iff.rfl

/-- The quotient of the leading powers is near the quotient. -/
theorem zpow_log2_sub {num den : Nat} (hn : 0 < num) (hd : 0 < den) :
    (2 : Rat) ^ ((num.log2 : Int) - den.log2 - 1) ≤ num / den ∧
      (num / den : Rat) < 2 ^ ((num.log2 : Int) - den.log2 + 1) := by
  have hden : (0 : Rat) < den := Nat.cast_pos.mpr hd
  have hnum : (2 : Rat) ^ (num.log2 : Int) ≤ num ∧ (num : Rat) < 2 ^ ((num.log2 : Int) + 1) := by
    exact_mod_cast And.intro (Nat.log2_self_le (Nat.pos_iff_ne_zero.mp hn)) Nat.lt_log2_self
  have hden' : (2 : Rat) ^ (den.log2 : Int) ≤ den ∧ (den : Rat) < 2 ^ ((den.log2 : Int) + 1) := by
    exact_mod_cast And.intro (Nat.log2_self_le (Nat.pos_iff_ne_zero.mp hd)) Nat.lt_log2_self
  constructor
  · rw [le_div_iff₀ hden]
    calc (2 : Rat) ^ ((num.log2 : Int) - den.log2 - 1) * den
        ≤ 2 ^ ((num.log2 : Int) - den.log2 - 1) * 2 ^ ((den.log2 : Int) + 1) :=
          mul_le_mul_of_nonneg_left hden'.2.le (zpow_nonneg (by norm_num) _)
      _ = 2 ^ (num.log2 : Int) := by
          rw [← zpow_add₀ (by norm_num)]
          congr 1
          omega
      _ ≤ num := hnum.1
  · rw [div_lt_iff₀ hden]
    calc (num : Rat) < 2 ^ ((num.log2 : Int) + 1) := hnum.2
      _ = 2 ^ ((num.log2 : Int) - den.log2 + 1) * 2 ^ (den.log2 : Int) := by
          rw [← zpow_add₀ (by norm_num)]
          congr 1
          omega
      _ ≤ 2 ^ ((num.log2 : Int) - den.log2 + 1) * den :=
          mul_le_mul_of_nonneg_left hden'.1 (zpow_nonneg (by norm_num) _)

/-- The unit depends on the quotient alone. -/
theorem unitExponent_eq {num den : Nat} (hn : 0 < num) (hd : 0 < den) :
    unitExponent f num den =
      max f.minExponent (Int.log 2 (num / den : Rat) - ((f.precision : Int) - 1)) := by
  have hpos : (0 : Rat) < num / den := div_pos (Nat.cast_pos.mpr hn) (Nat.cast_pos.mpr hd)
  obtain ⟨hlow, hhigh⟩ := zpow_log2_sub hn hd
  have hreaches := @reaches_iff num den hd ((num.log2 : Int) - den.log2)
  by_cases hle : (2 : Rat) ^ ((num.log2 : Int) - den.log2) ≤ num / den
  · rw [unitExponent_of_reaches rfl (hreaches.mpr hle), log_eq hpos hle hhigh]
  · have hnot := mt hreaches.mp hle
    have hlog := log_eq hpos hlow (by rwa [sub_add_cancel, ← not_le])
    rw [unitExponent_of_not_reaches rfl hnot, hlog]

/-- A quotient that is a whole number of units needs no rounding. -/
theorem roundToUnit_of_eq {num den M : Nat} {e : Int} (hd : 0 < den)
    (h : (num / den : Rat) = M * (2 : Rat) ^ e) : roundToUnit num den e = M := by
  have hden : (den : Rat) ≠ 0 := Nat.cast_ne_zero.mpr (Nat.pos_iff_ne_zero.mp hd)
  rw [div_eq_iff hden] at h
  unfold roundToUnit
  simp only [Nat.pow_eq]
  by_cases he : 0 ≤ e
  · obtain ⟨i, rfl⟩ := Int.eq_ofNat_of_zero_le he
    have hnum : num = M * (den * 2 ^ i) := by
      rw [zpow_natCast, mul_assoc, mul_comm _ (den : Rat)] at h
      exact_mod_cast h
    rw [if_pos he, Int.toNat_natCast, hnum, roundHalfEven_mul (Nat.mul_pos hd (Nat.two_pow_pos i))]
  · obtain ⟨i, rfl⟩ := Int.exists_eq_neg_ofNat (not_le.mp he).le
    have htwo : ((2 : Rat) ^ i) ≠ 0 := by positivity
    have hnum : num * 2 ^ i = M * den := by
      rw [zpow_neg, zpow_natCast, mul_right_comm, eq_mul_inv_iff_mul_eq₀ htwo] at h
      exact_mod_cast h
    rw [if_neg he, neg_neg, Int.toNat_natCast, hnum, roundHalfEven_mul hd]

/-! ### Numbers that are held -/

/-- The quotient that a float denotes is rounded to this float. -/
theorem nearest_of_magnitude {num den rank : Nat} (hp : 0 < f.precision) (hd : 0 < den)
    (h : (num / den : Rat) = magnitude f rank) (negative : Bool) :
    nearest f negative num den = ofRank negative rank := by
  rcases Nat.eq_zero_or_pos (significand f rank) with hzero | hpos
  · have hnum : num = 0 := by
      have hden : (den : Rat) ≠ 0 := Nat.cast_ne_zero.mpr (Nat.pos_iff_ne_zero.mp hd)
      rw [magnitude, hzero, Nat.cast_zero, zero_mul, div_eq_iff hden, zero_mul] at h
      exact_mod_cast h
    have hrank : rank = 0 := significand_eq_zero_iff.mp hzero
    rw [nearest, if_pos (.inl hnum), hrank]
  · have hnum : 0 < num := by
      have hquot : (0 : Rat) < num / den := h ▸ magnitude_pos_iff.mpr hpos
      refine Nat.pos_of_ne_zero fun h0 => ?_
      simp [h0] at hquot
    have hunit : unitExponent f num den = exponent f rank := by
      have hplace := lastPlace_of_rank (s := 0) hp hpos (Int.add_zero _).symm
      rw [pow_zero, Nat.mul_one] at hplace
      rw [unitExponent_eq hnum hd, h, magnitude, log_natCast_mul_zpow hpos]
      exact hplace
    have hcount : roundToUnit num den (exponent f rank) = significand f rank :=
      roundToUnit_of_eq hd h
    rw [nearest, if_neg (by omega)]
    simp only [hunit, hcount, Nat.pow_eq, rank_eq]

theorem ofRank_val (negative : Bool) (rank : Fin f.limit) :
    ofRank negative rank = finite negative rank := by
  rw [ofRank, dif_pos rank.isLt]

theorem magnitude_lt_of_exponent_le {rank : Nat} {k : Int} (h : exponent .double rank ≤ k) :
    magnitude .double rank < (2 : Rat) ^ (53 + k) := by
  have hsignificand : (significand .double rank : Rat) < (2 : Rat) ^ (53 : Int) := by
    exact_mod_cast significand_lt .double rank
  calc magnitude .double rank < (2 : Rat) ^ (53 : Int) * 2 ^ exponent .double rank :=
        mul_lt_mul_of_pos_right hsignificand (zpow_pos (by norm_num) _)
    _ ≤ (2 : Rat) ^ (53 : Int) * 2 ^ k :=
        mul_le_mul_of_nonneg_left (zpow_le_zpow_right₀ (by norm_num) h) (by positivity)
    _ = 2 ^ (53 + k) := by rw [← zpow_add₀ (by norm_num)]

/-- Finite floats lie below the power of two that comes after the largest one. -/
theorem magnitude_lt (rank : Fin Format.double.limit) :
    magnitude .double rank < (2 : Rat) ^ (1024 : Int) := by
  have hexponent : exponent .double rank ≤ 971 := by
    have hrank : rank.val < 2047 * 2 ^ 52 := rank.isLt
    simp only [exponent, Format.double, Nat.pow_eq]
    omega
  exact magnitude_lt_of_exponent_le hexponent

/-- Floats other than zero are no smaller than the smallest of them. -/
theorem le_magnitude {rank : Nat} (h : 0 < significand .double rank) :
    (2 : Rat) ^ (-1074 : Int) ≤ magnitude .double rank := by
  have hone : (1 : Rat) ≤ significand .double rank := by exact_mod_cast h
  have hmin : (-1074 : Int) ≤ exponent .double rank := minExponent_le_exponent .double rank
  calc (2 : Rat) ^ (-1074 : Int) ≤ 2 ^ exponent .double rank :=
        zpow_le_zpow_right₀ (by norm_num) hmin
    _ ≤ magnitude .double rank := le_mul_of_one_le_left (zpow_nonneg (by norm_num) _) hone

theorem two_pow_lt {i k : Nat} (h : i < 3 * k) : (2 : Rat) ^ i < 10 ^ k := by
  have hthree : (2 : Rat) ^ (3 * k) ≤ 10 ^ k := by
    rw [pow_mul]
    exact pow_le_pow_left₀ (by norm_num) (by norm_num) k
  exact (pow_lt_pow_right₀ (by norm_num) h).trans_le hthree

/-- The powers of ten that are not computed are beyond all floats. -/
theorem ten_zpow_window : (2 : Rat) ^ (1024 : Int) < 10 ^ (400 : Int) ∧
    (10 : Rat) ^ (-401 : Int) < 2 ^ (-1074 : Int) := by
  have htwo : (0 : Rat) < 2 ^ 1074 := pow_pos (by norm_num) _
  rw [zpow_neg, zpow_neg, zpow_ofNat, zpow_ofNat, zpow_ofNat, zpow_ofNat]
  exact ⟨two_pow_lt (by decide), inv_strictAnti₀ htwo (two_pow_lt (by decide))⟩

/-- The place of the leading digit of a decimal. -/
theorem zpow_countOf {c : Nat} (hc : 0 < c) (e : Int) :
    (10 : Rat) ^ (e + Digit.countOf c - 1) ≤ c * 10 ^ e ∧
      (c * 10 ^ e : Rat) < 10 ^ (e + Digit.countOf c) := by
  have hten : (0 : Rat) < 10 ^ e := zpow_pos (by norm_num) _
  have hcount := Digit.countOf_pos c
  have hlow : (10 : Rat) ^ (Digit.countOf c - 1) ≤ c := by exact_mod_cast Digit.pow_countOf_le hc
  have hhigh : (c : Rat) < 10 ^ Digit.countOf c := by exact_mod_cast Digit.lt_pow_countOf c
  have hexp : e + Digit.countOf c - 1 = ((Digit.countOf c - 1 : Nat) : Int) + e := by omega
  constructor
  · rw [hexp, zpow_add₀ (by norm_num), zpow_natCast]
    exact mul_le_mul_of_nonneg_right hlow hten.le
  · rw [add_comm, zpow_add₀ (by norm_num), zpow_natCast]
    exact mul_lt_mul_of_pos_right hhigh hten

/-- A decimal that a float denotes is rounded to this float. -/
theorem ofDecimal_of_magnitude {c : Nat} {e : Int} {rank : Fin Format.double.limit}
    (h : (c : Rat) * 10 ^ e = magnitude .double rank) (negative : Bool) :
    (ofDecimal .double negative c (Digit.countOf c) e : Double) = .finite negative rank := by
  have hten : (0 : Rat) < 10 ^ e := zpow_pos (by norm_num) _
  rw [ofDecimal, ← ofRank_val]
  by_cases hc : c = 0
  · have hzero : ¬ 0 < significand .double rank := by
      rw [← magnitude_pos_iff, ← h, hc, Nat.cast_zero, zero_mul]
      exact lt_irrefl 0
    have hrank : rank.val = 0 := significand_eq_zero_iff.mp (Nat.eq_zero_of_not_pos hzero)
    rw [if_pos hc, hrank]
  · have hpos : 0 < c := Nat.pos_of_ne_zero hc
    have hsignificand : 0 < significand .double rank :=
      magnitude_pos_iff.mp (h ▸ mul_pos (Nat.cast_pos.mpr hpos) hten)
    obtain ⟨hlow, hhigh⟩ := zpow_countOf hpos e
    rw [h] at hlow hhigh
    have hlarge : ¬ 400 < e + Digit.countOf c := by
      intro hlarge
      have hle : (10 : Rat) ^ (400 : Int) ≤ 10 ^ (e + Digit.countOf c - 1) :=
        zpow_le_zpow_right₀ (by norm_num) (by omega)
      exact absurd (magnitude_lt rank) (not_lt.mpr (ten_zpow_window.1.le.trans (hle.trans hlow)))
    have hsmall : ¬ e + Digit.countOf c < -400 := by
      intro hsmall
      have hle : (10 : Rat) ^ (e + Digit.countOf c) ≤ 10 ^ (-401 : Int) :=
        zpow_le_zpow_right₀ (by norm_num) (by omega)
      exact absurd (le_magnitude hsignificand)
        (not_le.mpr (hhigh.trans_le (hle.trans ten_zpow_window.2.le)))
    rw [if_neg hc, if_neg hlarge, if_neg hsmall]
    by_cases he : 0 ≤ e
    · obtain ⟨i, rfl⟩ := Int.eq_ofNat_of_zero_le he
      rw [if_pos he]
      refine nearest_of_magnitude (by decide) Nat.one_pos ?_ negative
      rw [← h]
      simp
    · obtain ⟨i, rfl⟩ := Int.exists_eq_neg_ofNat (not_le.mp he).le
      rw [if_neg he]
      refine nearest_of_magnitude (by decide) (Nat.pow_pos (by decide)) ?_ negative
      rw [← h, neg_neg, Int.toNat_natCast, zpow_neg, zpow_natCast, div_eq_mul_inv]
      push_cast
      rfl

end Binary

/-- A numeral is read without loss if any float denotes what it does. -/
theorem Numeral.toDouble?_of_toRat? {n : Numeral} {y : Double} (h : y.toRat? = some n.toRat) :
    ∃ x, n.toDouble? = some x ∧ x.toRat? = some n.toRat := by
  obtain ⟨negative, rank, -, hvalue⟩ := Binary.exists_finite_of_toRat? h
  have hten : (0 : Rat) ≤ n.coefficient * 10 ^ (n.exponentValue - n.fractionLength) :=
    mul_nonneg (Nat.cast_nonneg _) (zpow_nonneg (by norm_num) _)
  have habs : (n.coefficient : Rat) * 10 ^ (n.exponentValue - n.fractionLength) =
      Binary.magnitude .double rank := by
    rw [← Binary.abs_signOf_mul negative (Binary.magnitude_nonneg rank), ← hvalue, toRat_eq,
      Binary.abs_signOf_mul _ hten]
  have hrounded := Binary.ofDecimal_of_magnitude habs n.negative
  refine ⟨.finite n.negative rank, ?_, ?_⟩
  · rw [toDouble?]
    simp only [hrounded, Binary.isFinite, if_true]
  · rw [Binary.toRat?_finite, ← habs, toRat_eq]

end ShapeCodec
