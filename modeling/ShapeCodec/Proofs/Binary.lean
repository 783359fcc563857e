import Mathlib.Tactic.Ring
import ShapeCodec.Binary.Basic

/-!
# Rounding what needs no rounding

A number that a format can hold is rounded to itself. Numbers come as `m * 2 ^ e`, in two such
forms that differ by a power of two: the one that is rounded, and the one that the format itself
would give. From this a short float that is widened and narrowed again is the same float.
-/

namespace ShapeCodec.Binary

variable {f g : Format}

/-! ### Exponents -/

theorem log2_mul_two_pow {a : Nat} (ha : 0 < a) (i : Nat) : (a * 2 ^ i).log2 = a.log2 + i := by
  have hpos : 0 < a * 2 ^ i := Nat.mul_pos ha (Nat.two_pow_pos i)
  have hlow := Nat.log2_self_le (Nat.pos_iff_ne_zero.mp ha)
  have hhigh := Nat.lt_log2_self (n := a)
  refine (Nat.log2_eq_iff (Nat.pos_iff_ne_zero.mp hpos)).mpr ⟨?_, ?_⟩
  · rw [Nat.pow_add]
    exact Nat.mul_le_mul_right _ hlow
  · have hsplit : 2 ^ (a.log2 + i + 1) = 2 ^ (a.log2 + 1) * 2 ^ i := by ring
    rw [hsplit]
    exact Nat.mul_lt_mul_of_pos_right hhigh (Nat.two_pow_pos i)

/-- The exponent of the last place of `m * 2 ^ e`, which is the same for all forms of a number. -/
def lastPlace (f : Format) (m : Nat) (e : Int) : Int :=
  max f.minExponent ((m.log2 : Int) + e - ((f.precision : Int) - 1))

/-- The exponent is right at once when the quotient of the leading powers does not exceed. -/
theorem unitExponent_of_reaches {num den : Nat} {k : Int}
    (hk : (num.log2 : Int) - (den.log2 : Int) = k)
    (h : if 0 ≤ k then den * 2 ^ k.toNat ≤ num else den ≤ num * 2 ^ (-k).toNat) :
    unitExponent f num den = max f.minExponent (k - ((f.precision : Int) - 1)) := by
  unfold unitExponent
  simp only [hk, Nat.pow_eq]
  split at h
  · rename_i hle
    simp only [hle, if_true, h, decide_true]
  · rename_i hlt
    simp only [hlt, if_false, h, decide_true, if_true]

/-- If it does exceed, the exponent is one less. -/
theorem unitExponent_of_not_reaches {num den : Nat} {k : Int}
    (hk : (num.log2 : Int) - (den.log2 : Int) = k)
    (h : ¬ if 0 ≤ k then den * 2 ^ k.toNat ≤ num else den ≤ num * 2 ^ (-k).toNat) :
    unitExponent f num den = max f.minExponent (k - 1 - ((f.precision : Int) - 1)) := by
  unfold unitExponent
  simp only [hk, Nat.pow_eq]
  split at h
  · rename_i hle
    simp only [hle, if_true, h, decide_false, Bool.false_eq_true, if_false]
  · rename_i hlt
    simp only [hlt, if_false, h, decide_false, Bool.false_eq_true]

theorem unitExponent_whole {m : Nat} (hm : 0 < m) (n : Nat) :
    unitExponent f (m * 2 ^ n) 1 = lastPlace f m n := by
  have hone : Nat.log2 1 = 0 := by decide
  have hk : ((m * 2 ^ n).log2 : Int) - (Nat.log2 1 : Int) = (m.log2 : Int) + n := by
    rw [log2_mul_two_pow hm n, hone]
    omega
  refine unitExponent_of_reaches hk ?_
  rw [if_pos (by omega)]
  have hexp : ((m.log2 : Int) + n).toNat = m.log2 + n := by omega
  rw [hexp, Nat.one_mul, Nat.pow_add]
  exact Nat.mul_le_mul_right _ (Nat.log2_self_le (Nat.pos_iff_ne_zero.mp hm))

theorem unitExponent_fraction {m : Nat} (hm : 0 < m) (n : Nat) :
    unitExponent f m (2 ^ n) = lastPlace f m (-n) := by
  have hlow := Nat.log2_self_le (Nat.pos_iff_ne_zero.mp hm)
  have hk : (m.log2 : Int) - ((2 ^ n).log2 : Int) = (m.log2 : Int) + -n := by
    rw [Nat.log2_two_pow]
    omega
  refine unitExponent_of_reaches hk ?_
  split
  · rename_i hle
    have hexp : n + ((m.log2 : Int) + -n).toNat = m.log2 := by omega
    rw [← Nat.pow_add, hexp]
    exact hlow
  · rename_i hlt
    have hexp : m.log2 + (-((m.log2 : Int) + -n)).toNat = n := by omega
    calc 2 ^ n = 2 ^ m.log2 * 2 ^ (-((m.log2 : Int) + -n)).toNat := by rw [← Nat.pow_add, hexp]
      _ ≤ m * 2 ^ (-((m.log2 : Int) + -n)).toNat := Nat.mul_le_mul_right _ hlow

/-! ### Exact rounding -/

theorem roundHalfEven_mul {M d : Nat} (hd : 0 < d) : roundHalfEven (M * d) d = M := by
  unfold roundHalfEven
  simp only [Nat.mul_mod_left, Nat.mul_div_cancel M hd]
  rw [if_pos (by omega)]

/-- Scaling to a unit that divides a number gives the number of units. -/
theorem roundToUnit_whole {a i j n : Nat} {e : Int} (h : (i : Int) + n = j + e) :
    roundToUnit (a * 2 ^ i * 2 ^ n) 1 e = a * 2 ^ j := by
  unfold roundToUnit
  simp only [Nat.pow_eq]
  split
  · have hnum : a * 2 ^ i * 2 ^ n = a * 2 ^ j * (1 * 2 ^ e.toNat) := by
      have : i + n = j + e.toNat := by omega
      rw [Nat.mul_assoc, ← Nat.pow_add, this, Nat.pow_add]
      ring
    rw [hnum, roundHalfEven_mul (Nat.mul_pos Nat.one_pos (Nat.two_pow_pos _))]
  · have hnum : a * 2 ^ i * 2 ^ n * 2 ^ (-e).toNat = a * 2 ^ j * 1 := by
      have : i + n + (-e).toNat = j := by omega
      rw [Nat.mul_assoc, Nat.mul_assoc, ← Nat.pow_add, ← Nat.pow_add, ← Nat.add_assoc, this,
        Nat.mul_one]
    rw [hnum, roundHalfEven_mul Nat.one_pos]

theorem roundToUnit_fraction {a i j n : Nat} {e : Int} (h : (i : Int) - n = j + e) :
    roundToUnit (a * 2 ^ i) (2 ^ n) e = a * 2 ^ j := by
  unfold roundToUnit
  simp only [Nat.pow_eq]
  split
  · have hnum : a * 2 ^ i = a * 2 ^ j * (2 ^ n * 2 ^ e.toNat) := by
      have : i = j + (n + e.toNat) := by omega
      rw [this, Nat.pow_add, Nat.pow_add]
      ring
    rw [hnum, roundHalfEven_mul (Nat.mul_pos (Nat.two_pow_pos _) (Nat.two_pow_pos _))]
  · have hnum : a * 2 ^ i * 2 ^ (-e).toNat = a * 2 ^ j * 2 ^ n := by
      have : i + (-e).toNat = j + n := by omega
      rw [Nat.mul_assoc, Nat.mul_assoc, ← Nat.pow_add, ← Nat.pow_add, this]
    rw [hnum, roundHalfEven_mul (Nat.two_pow_pos n)]

/--
A number is given as `a * 2 ^ i` units of `2 ^ e`. If it is also `a * 2 ^ j` of the format's own
units, its rank is where the format has that many of them.
-/
theorem ofScaled_of_eq {negative : Bool} {a i j : Nat} {e : Int} (ha : 0 < a)
    (h : (i : Int) + e = j + lastPlace f (a * 2 ^ i) e) :
    ofScaled f negative (a * 2 ^ i) e = ofRank negative
      ((lastPlace f (a * 2 ^ i) e - f.minExponent).toNat * 2 ^ (f.precision - 1) + a * 2 ^ j) := by
  have hm : 0 < a * 2 ^ i := Nat.mul_pos ha (Nat.two_pow_pos i)
  unfold ofScaled
  split
  · rename_i he
    -- a whole number, over one
    have hpos : 0 < a * 2 ^ i * 2 ^ e.toNat := Nat.mul_pos hm (Nat.two_pow_pos _)
    have hcast : ((e.toNat : Nat) : Int) = e := Int.toNat_of_nonneg he
    simp only [nearest, Nat.pow_eq, unitExponent_whole hm, hcast]
    rw [if_neg (by omega), roundToUnit_whole (by omega : (i : Int) + (e.toNat : Nat) = j + _)]
  · rename_i he
    -- a fraction, over a power of two
    have hpos : 0 < 2 ^ (-e).toNat := Nat.two_pow_pos _
    have hcast : -(((-e).toNat : Nat) : Int) = e := by omega
    simp only [nearest, Nat.pow_eq, unitExponent_fraction hm, hcast]
    rw [if_neg (by omega),
      roundToUnit_fraction (by omega : (i : Int) - ((-e).toNat : Nat) = j + _)]

theorem ofScaled_zero (negative : Bool) (e : Int) :
    ofScaled f negative 0 e = ofRank negative 0 := by
  unfold ofScaled nearest
  simp

/-! ### Ranks -/

section
variable (f) (rank : Nat)

/-- The rank counts the binades below and the units in the one that a value is in. -/
theorem rank_eq : (exponent f rank - f.minExponent).toNat * 2 ^ (f.precision - 1)
    + significand f rank = rank := by
  have hpos : 0 < 2 ^ (f.precision - 1) := Nat.two_pow_pos _
  have hdiv := Nat.div_add_mod rank (2 ^ (f.precision - 1))
  have hexp : (exponent f rank - f.minExponent).toNat = rank / 2 ^ (f.precision - 1) - 1 := by
    simp only [exponent, Nat.pow_eq]
    omega
  rw [hexp]
  simp only [significand, Nat.pow_eq]
  split
  · rename_i hlt
    rw [Nat.div_eq_of_lt hlt]
    omega
  · rename_i hge
    obtain ⟨q, hq⟩ : ∃ q, rank / 2 ^ (f.precision - 1) = q + 1 :=
      ⟨rank / 2 ^ (f.precision - 1) - 1, by
        have := Nat.div_pos (Nat.le_of_not_lt hge) hpos
        omega⟩
    rw [hq] at hdiv ⊢
    rw [Nat.add_sub_cancel, ← Nat.add_assoc, ← Nat.succ_mul, Nat.mul_comm]
    exact hdiv

theorem significand_lt : significand f rank < 2 * 2 ^ (f.precision - 1) := by
  have hmod := Nat.mod_lt rank (Nat.two_pow_pos (f.precision - 1))
  simp only [significand, Nat.pow_eq]
  split <;> omega

/-- A value is normal, or its last place is the last one of the format. -/
theorem normal_or_minExponent :
    2 ^ (f.precision - 1) ≤ significand f rank ∨ exponent f rank = f.minExponent := by
  simp only [significand, exponent, Nat.pow_eq]
  by_cases h : rank < 2 ^ (f.precision - 1)
  · right
    rw [Nat.div_eq_of_lt h]
    simp
  · left
    rw [if_neg h]
    omega

theorem minExponent_le_exponent : f.minExponent ≤ exponent f rank := by
  unfold exponent
  omega

end

theorem significand_eq_zero_iff {rank : Nat} : significand f rank = 0 ↔ rank = 0 := by
  have hpos := Nat.two_pow_pos (f.precision - 1)
  simp only [significand, Nat.pow_eq]
  by_cases h : rank < 2 ^ (f.precision - 1)
  · rw [if_pos h]
  · rw [if_neg h]
    omega

theorem log2_significand_lt {rank : Nat} (hp : 0 < f.precision) (h : 0 < significand f rank) :
    (significand f rank).log2 < f.precision := by
  refine (Nat.log2_lt (Nat.pos_iff_ne_zero.mp h)).mpr ?_
  have hlt := significand_lt f rank
  have htwo : 2 ^ f.precision = 2 * 2 ^ (f.precision - 1) := by
    rw [← Nat.pow_succ']
    congr 1
    omega
  omega

/-- A normal value is found again from its rank. -/
theorem significand_of_normal {k m : Nat} (hlow : 2 ^ (f.precision - 1) ≤ m)
    (hhigh : m < 2 * 2 ^ (f.precision - 1)) :
    significand f (k * 2 ^ (f.precision - 1) + m) = m ∧
      exponent f (k * 2 ^ (f.precision - 1) + m) = f.minExponent + k := by
  have hpos : 0 < 2 ^ (f.precision - 1) := Nat.two_pow_pos _
  obtain ⟨r, rfl⟩ := Nat.exists_eq_add_of_le hlow
  have hr : r < 2 ^ (f.precision - 1) := by omega
  have hsplit : k * 2 ^ (f.precision - 1) + (2 ^ (f.precision - 1) + r)
      = r + 2 ^ (f.precision - 1) * (k + 1) := by ring
  have hdiv : (r + 2 ^ (f.precision - 1) * (k + 1)) / 2 ^ (f.precision - 1) = k + 1 := by
    rw [Nat.add_mul_div_left _ _ hpos, Nat.div_eq_of_lt hr, Nat.zero_add]
  have hmod : (r + 2 ^ (f.precision - 1) * (k + 1)) % 2 ^ (f.precision - 1) = r := by
    rw [Nat.add_mul_mod_self_left, Nat.mod_eq_of_lt hr]
  have hge : ¬ r + 2 ^ (f.precision - 1) * (k + 1) < 2 ^ (f.precision - 1) := by
    rw [Nat.mul_add, Nat.mul_one]
    omega
  rw [hsplit]
  constructor
  · simp only [significand, Nat.pow_eq, hmod]
    rw [if_neg hge]
  · simp only [exponent, Nat.pow_eq, hdiv]
    omega

/-! ### There and back -/

/-- The unit of a value in its own format, whichever form the value is given in. -/
theorem lastPlace_of_rank {rank s : Nat} {e : Int} (hp : 0 < f.precision)
    (h : 0 < significand f rank) (he : exponent f rank = e + s) :
    lastPlace f (significand f rank * 2 ^ s) e = exponent f rank := by
  have hlog := log2_mul_two_pow h s
  have hbelow := log2_significand_lt hp h
  have hmin := minExponent_le_exponent f rank
  -- either the precision or the smallest exponent bounds the last place
  unfold lastPlace
  rcases normal_or_minExponent f rank with hnormal | hsub
  · have hhigh := (Nat.le_log2 (Nat.pos_iff_ne_zero.mp h)).mpr hnormal
    omega
  · omega

/-- In its own format a value is rounded to itself. -/
theorem ofScaled_of_rank {negative : Bool} {rank s : Nat} {e : Int} (hp : 0 < f.precision)
    (h : 0 < significand f rank) (he : exponent f rank = e + s) :
    ofScaled f negative (significand f rank * 2 ^ s) e = ofRank negative rank := by
  have hplace := lastPlace_of_rank hp h he
  have hunits : (s : Int) + e = (0 : Nat) + lastPlace f (significand f rank * 2 ^ s) e := by
    rw [hplace]
    omega
  rw [ofScaled_of_eq h hunits, hplace, Nat.pow_zero, Nat.mul_one, rank_eq]

/-- A format that holds the values of another one, all of them as normal numbers. -/
structure Format.Wider (g f : Format) : Prop where
  positive : 0 < f.precision
  precision : f.precision ≤ g.precision
  minExponent : g.minExponent + ((g.precision : Int) - 1) ≤ f.minExponent
  limit : ∀ rank < f.limit,
    ((exponent f rank - g.minExponent).toNat + 2) * 2 ^ (g.precision - 1) ≤ g.limit

/-- A value in a wider format has more units, each of them smaller. -/
theorem ofScaled_wider (hw : g.Wider f) {rank : Nat} (hrank : rank < f.limit)
    (hpos : 0 < significand f rank) (negative : Bool) :
    ∃ wide : Fin g.limit, ∃ s : Nat,
      ofScaled g negative (significand f rank) (exponent f rank) = .finite negative wide ∧
      significand g wide = significand f rank * 2 ^ s ∧
      exponent f rank = exponent g wide + s := by
  have hprec := hw.precision
  have hmin := hw.minExponent
  have hbelow := log2_significand_lt hw.positive hpos
  have hexp := minExponent_le_exponent f rank
  -- as many bits are added as fill the significand up
  obtain ⟨s, hs⟩ : ∃ s, s + (significand f rank).log2 = g.precision - 1 :=
    ⟨g.precision - 1 - (significand f rank).log2, by omega⟩
  obtain ⟨k, hk⟩ : ∃ k : Nat, exponent f rank = g.minExponent + k + s :=
    ⟨(exponent f rank - s - g.minExponent).toNat, by omega⟩
  have hlog := log2_mul_two_pow hpos s
  have hne : significand f rank * 2 ^ s ≠ 0 :=
    Nat.pos_iff_ne_zero.mp (Nat.mul_pos hpos (Nat.two_pow_pos s))
  have hlow : 2 ^ (g.precision - 1) ≤ significand f rank * 2 ^ s := by
    refine (Nat.le_log2 hne).mp ?_
    omega
  have hhigh : significand f rank * 2 ^ s < 2 * 2 ^ (g.precision - 1) := by
    rw [← Nat.pow_succ']
    refine (Nat.log2_lt hne).mp ?_
    omega
  obtain ⟨hsig, hexpg⟩ := significand_of_normal (k := k) hlow hhigh
  have hwide : k * 2 ^ (g.precision - 1) + significand f rank * 2 ^ s < g.limit := by
    have hlimit := hw.limit rank hrank
    have hle : (k + 2) * 2 ^ (g.precision - 1)
        ≤ ((exponent f rank - g.minExponent).toNat + 2) * 2 ^ (g.precision - 1) :=
      Nat.mul_le_mul_right _ (by omega)
    rw [Nat.add_mul] at hle
    omega
  have hplace : lastPlace g (significand f rank * 2 ^ 0) (exponent f rank) = g.minExponent + k := by
    simp only [lastPlace, Nat.pow_zero, Nat.mul_one]
    omega
  have hunits : ((0 : Nat) : Int) + exponent f rank
      = s + lastPlace g (significand f rank * 2 ^ 0) (exponent f rank) := by
    omega
  have hto : ofScaled g negative (significand f rank * 2 ^ 0) (exponent f rank) = _ :=
    ofScaled_of_eq hpos hunits
  have hcount : (g.minExponent + k - g.minExponent).toNat = k := by omega
  rw [hplace, hcount, ofRank, dif_pos hwide, Nat.pow_zero, Nat.mul_one] at hto
  refine ⟨⟨_, hwide⟩, s, hto, hsig, ?_⟩
  show exponent f rank = exponent g (k * 2 ^ (g.precision - 1) + significand f rank * 2 ^ s) + s
  rw [hexpg, hk]

/-- Widening and narrowing again gives the same value. -/
theorem convert_convert (hw : g.Wider f) (x : Binary f) : (x.convert g).convert f = x := by
  cases x with
  | nan => rfl
  | infinite negative => rfl
  | finite negative rank =>
      obtain ⟨rank, hrank⟩ := rank
      have hback : (ofRank negative rank : Binary f) = .finite negative ⟨rank, hrank⟩ := by
        rw [ofRank, dif_pos hrank]
      rcases Nat.eq_zero_or_pos (significand f rank) with hzero | hpos
      · -- zero has rank zero in both formats
        have hg : 0 < g.limit :=
          Nat.lt_of_lt_of_le (Nat.mul_pos (Nat.succ_pos _) (Nat.two_pow_pos (g.precision - 1)))
            (hw.limit rank hrank)
        obtain rfl : rank = 0 := significand_eq_zero_iff.mp hzero
        have hsig : significand g 0 = 0 := significand_eq_zero_iff.mpr rfl
        simp only [convert, hzero, ofScaled_zero, ofRank, dif_pos hg, hsig]
        exact hback
      · obtain ⟨wide, s, hto, hsig, hexp⟩ := ofScaled_wider hw hrank hpos negative
        simp only [convert, hto, hsig]
        rw [ofScaled_of_rank hw.positive hpos hexp, hback]

theorem wider_double_single : Format.double.Wider Format.single where
  positive := by decide
  precision := by decide
  minExponent := by decide
  limit := by
    intro rank hrank
    have hbinade : rank / 2 ^ 23 ≤ 254 := by
      have hlt : rank < 255 * 2 ^ 23 := hrank
      omega
    have hexp : exponent .single rank ≤ 105 := by
      simp only [exponent, Format.single, Nat.pow_eq]
      omega
    have hunits : (exponent .single rank - Format.double.minExponent).toNat + 2 ≤ 2047 := by
      simp only [Format.double]
      omega
    exact Nat.mul_le_mul_right _ hunits

end ShapeCodec.Binary
