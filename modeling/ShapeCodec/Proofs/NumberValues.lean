import Mathlib.Algebra.Field.Rat
import Mathlib.Algebra.GroupWithZero.Basic
import Mathlib.Data.Rat.Cast.Order
import Mathlib.Tactic.Ring
import ShapeCodec.Binary.Style
import ShapeCodec.Decimal

/-!
# The numbers that numerals denote

A numeral denotes a rational number, and so does a decimal. Writing a decimal as a numeral and
reading it back keeps the number, wherever the point and the exponent are put; two decimals that
count as the same denote the same number.
-/

namespace ShapeCodec

/-! ### Digits -/

namespace Digit

/-- Digits in front count by how many follow. -/
theorem valueFrom_eq (acc : Nat) (ds : List Digit) :
    valueFrom acc ds = acc * 10 ^ ds.length + valueFrom 0 ds := by
  induction ds generalizing acc with
  | nil => simp [valueFrom]
  | cons d ds ih =>
      have hcons (n : Nat) : valueFrom n (d :: ds) = valueFrom (10 * n + d.val) ds := rfl
      rw [hcons, hcons, ih, ih (10 * 0 + d.val), List.length_cons, Nat.pow_succ]
      ring

theorem valueFrom_listFrom {fuel n : Nat} (h : n < 10 ^ fuel) (rest : List Digit) :
    valueFrom 0 (listFrom fuel n rest) = n * 10 ^ rest.length + valueFrom 0 rest := by
  induction fuel generalizing n rest with
  | zero =>
      obtain rfl : n = 0 := by simpa using h
      simp [listFrom]
  | succ fuel ih =>
      have hlt : n / 10 < 10 ^ fuel := by
        rw [Nat.pow_succ] at h
        exact Nat.div_lt_of_lt_mul (by omega)
      have hlast : valueFrom 0 (⟨n % 10, Nat.mod_lt _ (by decide)⟩ :: rest) =
          n % 10 * 10 ^ rest.length + valueFrom 0 rest := by
        rw [show valueFrom 0 (⟨n % 10, Nat.mod_lt _ (by decide)⟩ :: rest) =
          valueFrom (10 * 0 + n % 10) rest from rfl, valueFrom_eq, Nat.mul_zero, Nat.zero_add]
      rw [listFrom]
      by_cases hn : n / 10 = 0
      · have hsmall : n % 10 = n := by omega
        simp only [hn, if_true]
        rw [hlast, hsmall]
      · simp only [hn, if_false]
        rw [ih hlt, hlast, List.length_cons, Nat.pow_succ]
        have hsplit : n / 10 * (10 ^ rest.length * 10) + n % 10 * 10 ^ rest.length =
            (10 * (n / 10) + n % 10) * 10 ^ rest.length := by ring
        rw [← Nat.add_assoc, hsplit, Nat.div_add_mod]

theorem length_listFrom_le {fuel n k : Nat} (hk : 0 < k) (h : n < 10 ^ k) (rest : List Digit) :
    (listFrom fuel n rest).length ≤ k + rest.length := by
  induction fuel generalizing n k rest with
  | zero => simp [listFrom]
  | succ fuel ih =>
      rw [listFrom]
      by_cases hn : n / 10 = 0
      · simp only [hn, if_true, List.length_cons]
        omega
      · simp only [hn, if_false]
        -- what is left in front has one digit less
        obtain ⟨k, rfl⟩ : ∃ i, k = i + 1 := ⟨k - 1, by omega⟩
        have hlt : n / 10 < 10 ^ k := by
          rw [Nat.pow_succ] at h
          exact Nat.div_lt_of_lt_mul (by omega)
        have hpos : 0 < k := by
          refine Nat.pos_of_ne_zero fun h0 => hn ?_
          rw [h0] at hlt
          omega
        refine (ih hpos hlt _).trans ?_
        simp only [List.length_cons]
        omega

theorem length_lt_listFrom (fuel n : Nat) (rest : List Digit) :
    rest.length < (listFrom (fuel + 1) n rest).length := by
  induction fuel generalizing n rest with
  | zero =>
      rw [listFrom]
      by_cases hn : n / 10 = 0 <;> simp [hn, listFrom]
  | succ fuel ih =>
      rw [listFrom]
      by_cases hn : n / 10 = 0
      · simp [hn]
      · simp only [hn, if_false]
        exact (Nat.lt_succ_self _).trans (ih _ (⟨n % 10, Nat.mod_lt _ (by decide)⟩ :: rest))

theorem countOf_pos (n : Nat) : 0 < countOf n :=
  length_lt_listFrom _ n []

theorem valueFrom_listOf (n : Nat) : valueFrom 0 (listOf n) = n := by
  have hlt : n < 10 ^ (n.log2 + 1) :=
    Nat.lt_log2_self.trans_le (Nat.pow_le_pow_left (by decide) _)
  rw [listOf, valueFrom_listFrom hlt]
  simp [valueFrom]

end Digit

namespace Digits

theorem toList_ofNat (n : Nat) : (ofNat n).toList = Digit.listOf n := by
  have hpos := Digit.countOf_pos n
  rw [Digit.countOf] at hpos
  rw [ofNat]
  cases h : Digit.listOf n with
  | nil => simp [h] at hpos
  | cons d ds => rfl

theorem value_ofNat (n : Nat) : (ofNat n).value = n := by
  rw [value, toList_ofNat, Digit.valueFrom_listOf]

/-- Padded digits have the width that was asked for, and keep the number. -/
theorem exists_padded {k n : Nat} (hk : 0 < k) (hn : n < 10 ^ k) :
    ∃ ds, padded? k n = some ds ∧ ds.length = k ∧
      ∀ whole, Digit.valueFrom whole ds.toList = whole * 10 ^ k + n := by
  have hpos := Digit.countOf_pos n
  have hle : (Digit.listOf n).length ≤ k := Digit.length_listFrom_le hk hn []
  rw [Digit.countOf] at hpos
  have hlength : (List.replicate (k - (Digit.listOf n).length) Digit.zero ++
      Digit.listOf n).length = k := by
    rw [List.length_append, List.length_replicate]
    omega
  have hzeros (i : Nat) : Digit.valueFrom 0 (List.replicate i Digit.zero) = 0 := by
    induction i with
    | zero => rfl
    | succ i ih => exact ih
  have hvalue : Digit.valueFrom 0 (List.replicate (k - (Digit.listOf n).length) Digit.zero ++
      Digit.listOf n) = n := by
    rw [Digit.valueFrom, List.foldl_append]
    show Digit.valueFrom (Digit.valueFrom 0 _) (Digit.listOf n) = n
    rw [hzeros, Digit.valueFrom_listOf]
  rw [padded?]
  generalize List.replicate (k - (Digit.listOf n).length) Digit.zero ++ Digit.listOf n = all at *
  cases all with
  | nil => simp at hlength; omega
  | cons d ds =>
      refine ⟨⟨d, ds⟩, rfl, hlength, fun whole => ?_⟩
      show Digit.valueFrom whole (d :: ds) = _
      rw [Digit.valueFrom_eq, hvalue, hlength]

end Digits

/-! ### Decimals -/

/-- The factor that a sign stands for. -/
def signOf (negative : Bool) : Rat :=
  if negative then -1 else 1

/-- A whole number is its size with its sign. -/
theorem signOf_mul_natAbs (i : Int) : signOf (i < 0) * (i.natAbs : Rat) = i := by
  rw [signOf]
  by_cases h : i < 0
  · obtain ⟨k, hk⟩ := Int.eq_ofNat_of_zero_le (show 0 ≤ -i by omega)
    obtain rfl : i = -(k : Int) := by omega
    rw [if_pos (by simpa using h), Int.natAbs_neg, Int.natAbs_natCast]
    push_cast
    ring
  · obtain ⟨k, rfl⟩ := Int.eq_ofNat_of_zero_le (show 0 ≤ i by omega)
    rw [if_neg (by simp), Int.natAbs_natCast, one_mul]
    rfl

namespace Decimal

theorem toRat_eq (d : Decimal) : d.toRat = d.digits * (10 : Rat) ^ (-d.scale) := by
  rw [toRat]
  by_cases h : 0 ≤ d.scale
  · obtain ⟨k, hk⟩ := Int.eq_ofNat_of_zero_le h
    rw [if_pos h, hk, Rat.mkRat_eq_div, zpow_neg, div_eq_mul_inv]
    simp
  · obtain ⟨k, hk⟩ := Int.eq_ofNat_of_zero_le (show 0 ≤ -d.scale by omega)
    rw [if_neg h, hk]
    simp

/-- Dropping zeros at the end of the digits keeps the number. -/
theorem trimTo_value (fuel n : Nat) (scale : Int) :
    ((trimTo fuel n scale).1 : Rat) * (10 : Rat) ^ (-(trimTo fuel n scale).2) =
      n * (10 : Rat) ^ (-scale) := by
  induction fuel generalizing n scale with
  | zero => rfl
  | succ fuel ih =>
      rw [trimTo]
      by_cases hn : n % 10 = 0
      · rw [if_pos hn, ih]
        have hten : (n : Rat) = (n / 10 : Nat) * 10 := by
          exact_mod_cast (Nat.div_mul_cancel (Nat.dvd_of_mod_eq_zero hn)).symm
        rw [hten, show -(scale - 1) = -scale + 1 by ring, zpow_add_one₀ (by norm_num)]
        ring
      · rw [if_neg hn]

/-- The number that a canonical form stands for. -/
def valueOf (c : Bool × Nat × Int) : Rat :=
  signOf c.1 * (c.2.1 * (10 : Rat) ^ (-c.2.2))

theorem valueOf_canonical (d : Decimal) : valueOf d.canonical = d.toRat := by
  rw [toRat_eq, canonical]
  by_cases h : d.digits = 0
  · simp [h, valueOf]
  · rw [if_neg h]
    show signOf (d.digits < 0) *
      (((trimTo _ _ _).1 : Rat) * (10 : Rat) ^ (-(trimTo _ _ _).2)) = _
    rw [trimTo_value, ← mul_assoc, signOf_mul_natAbs]

/-- Decimals that count as the same denote the same number. -/
theorem toRat_of_same {a b : Decimal} (h : a.same b = true) : a.toRat = b.toRat := by
  have hcanonical : a.canonical = b.canonical := by simpa [same] using h
  rw [← valueOf_canonical, ← valueOf_canonical, hcanonical]

end Decimal

/-! ### Numerals -/

namespace Numeral

/-- The rational number that a numeral denotes. -/
def toRat (n : Numeral) : Rat :=
  Decimal.toRat
    ⟨if n.negative then -(n.coefficient : Int) else n.coefficient,
      n.fractionLength - n.exponentValue⟩

theorem toRat_eq (n : Numeral) : n.toRat =
    signOf n.negative * (n.coefficient * (10 : Rat) ^ (n.exponentValue - n.fractionLength)) := by
  rw [toRat, Decimal.toRat_eq, neg_sub, ← mul_assoc, signOf]
  cases n.negative <;> simp

/-- The decimal that is made of a numeral denotes the same number. -/
theorem toRat_of_ofNumeral {n : Numeral} {d : Decimal} (h : Decimal.ofNumeral n = .ok d) :
    d.toRat = n.toRat := by
  unfold Decimal.ofNumeral at h
  dsimp only at h
  split at h
  · cases h
  split at h
  · cases h
  split at h
  · obtain rfl := Except.ok.inj h
    rfl
  · cases h

theorem toRat_of_toInt? {n : Numeral} {i : Int} (h : n.toInt? = some i) : n.toRat = i := by
  obtain ⟨negative, whole, fraction, exponent⟩ := n
  cases fraction with
  | some ds => simp [toInt?, isWhole] at h
  | none =>
      cases exponent with
      | some e => simp [toInt?, isWhole] at h
      | none =>
          have hi : (if negative then -(whole : Int) else whole) = i := by
            simpa [toInt?, isWhole] using h
          rw [toRat, Decimal.toRat_eq]
          simp [coefficient, fractionLength, exponentValue, ← hi]

/-- Digits stay what they are wherever the point is put between them. -/
theorem toRat_placed (negative : Bool) (n k : Nat) (exponent : Option (Bool × Digits)) :
    toRat { negative, whole := n / 10 ^ k,
            fraction := if k = 0 then none else Digits.padded? k (n % 10 ^ k), exponent } =
      signOf negative * (n * (10 : Rat) ^
        (exponentValue { negative, whole := n, exponent } - k)) := by
  by_cases hk : k = 0
  · subst hk
    rw [if_pos rfl, pow_zero, Nat.div_one, toRat_eq]
    rfl
  · obtain ⟨ds, hds, hlength, hvalue⟩ :=
      Digits.exists_padded (Nat.pos_of_ne_zero hk) (Nat.mod_lt n (Nat.pow_pos (by decide)))
    have hcoefficient : Digit.valueFrom (n / 10 ^ k) ds.toList = n := by
      rw [hvalue, Nat.mul_comm, Nat.div_add_mod]
    rw [if_neg hk, hds, toRat_eq]
    simp only [coefficient, fractionLength, hcoefficient, hlength]
    rfl

/-- The exponent that stands for the place of the first digit. -/
theorem exponentValue_ofNat (negative : Bool) (n : Nat) (place : Int) :
    exponentValue { negative, whole := n,
                    exponent := some (place < 0, Digits.ofNat place.natAbs) } = place := by
  show (if decide (place < 0) = true then -((Digits.ofNat place.natAbs).value : Int)
    else (Digits.ofNat place.natAbs).value) = place
  rw [Digits.value_ofNat]
  by_cases h : place < 0
  · rw [if_pos (by simpa using h)]
    omega
  · rw [if_neg (by simpa using h)]
    omega

/-- Zeros in front of the point count for what they are. -/
theorem toRat_scaled (negative : Bool) (n k : Nat) (exponent : Option (Bool × Digits)) :
    toRat { negative, whole := n * 10 ^ k, exponent } =
      signOf negative * (n * (10 : Rat) ^
        (k + exponentValue { negative, whole := n, exponent })) := by
  have hvalue : exponentValue { negative, whole := n * 10 ^ k, exponent } =
      exponentValue { negative, whole := n, exponent } := rfl
  rw [toRat_eq, hvalue, zpow_add₀ (by norm_num)]
  simp only [coefficient, fractionLength]
  push_cast
  rw [sub_zero, zpow_natCast]
  ring

end Numeral

/-! ### Numbers as numerals -/

namespace Decimal

/-- A decimal denotes what the numeral that it is written as does. -/
theorem toRat_numeral (d : Decimal) : d.numeral.toRat = d.toRat := by
  have hsign : signOf (d.digits < 0) * (d.digits.natAbs * (10 : Rat) ^ (-d.scale)) = d.toRat := by
    rw [← mul_assoc, signOf_mul_natAbs, toRat_eq]
  rw [numeral]
  by_cases hzero : d.digits.natAbs = 0
  · rw [if_pos hzero, ← hsign, hzero, Numeral.toRat_eq]
    simp [Numeral.coefficient]
  rw [if_neg hzero, ← hsign]
  by_cases hscientific : isScientific (Digit.countOf d.digits.natAbs) d.scale = true
  · have hcount := Digit.countOf_pos d.digits.natAbs
    rw [if_pos hscientific]
    refine (Numeral.toRat_placed ..).trans ?_
    rw [Numeral.exponentValue_ofNat]
    congr 3
    omega
  rw [if_neg hscientific]
  by_cases hmany : d.scale < -15
  · have hscaled := Numeral.toRat_scaled (d.digits < 0) d.digits.natAbs 0
      (some (false, Digits.ofNat d.scale.natAbs))
    rw [pow_zero, Nat.mul_one] at hscaled
    rw [if_pos hmany]
    refine hscaled.trans ?_
    congr 3
    show (0 : Int) + (Digits.ofNat d.scale.natAbs).value = -d.scale
    rw [Digits.value_ofNat]
    omega
  rw [if_neg hmany]
  by_cases hwhole : d.scale ≤ 0
  · rw [if_pos hwhole]
    refine (Numeral.toRat_scaled _ _ (-d.scale).toNat none).trans ?_
    congr 3
    show ((-d.scale).toNat : Int) + 0 = -d.scale
    omega
  · have hk : d.scale.toNat ≠ 0 := by omega
    have hplaced := Numeral.toRat_placed (d.digits < 0) d.digits.natAbs d.scale.toNat none
    rw [if_neg hk] at hplaced
    rw [if_neg hwhole]
    refine hplaced.trans ?_
    congr 3
    show 0 - (d.scale.toNat : Int) = -d.scale
    omega

end Decimal

namespace Binary

/-- The number that few digits denote. -/
def ShortDecimal.toRat (d : ShortDecimal) : Rat :=
  d.coefficient * (10 : Rat) ^ d.exponent

theorem ShortDecimal.toRat_trim (fuel : Nat) (d : ShortDecimal) : (d.trim fuel).toRat = d.toRat := by
  induction fuel generalizing d with
  | zero => rfl
  | succ fuel ih =>
      rw [trim]
      by_cases h : d.coefficient ≠ 0 ∧ d.coefficient % 10 = 0
      · have hten : (d.coefficient : Rat) = (d.coefficient / 10 : Nat) * 10 := by
          exact_mod_cast (Nat.div_mul_cancel (Nat.dvd_of_mod_eq_zero h.2)).symm
        rw [if_pos h, ih, toRat, toRat, hten, zpow_add_one₀ (by norm_num)]
        ring
      · rw [if_neg h]

/-- Whole numbers denote the same with `.0` as without. -/
theorem toRat_wholeFraction (style : Style) (negative : Bool) (n : Nat) :
    Numeral.toRat { negative, whole := n, fraction := style.wholeFraction } =
      signOf negative * n := by
  rw [Style.wholeFraction, Numeral.toRat_eq]
  cases style.pointZero with
  | true =>
      have hcoefficient : Digit.valueFrom n (Digits.toList ⟨.zero, []⟩) = n * 10 := by
        show 10 * n + 0 = n * 10
        omega
      simp [Numeral.coefficient, Numeral.fractionLength, Numeral.exponentValue, Digits.length,
        hcoefficient]
  | false => simp [Numeral.coefficient, Numeral.fractionLength, Numeral.exponentValue]

/-- Where the point and the exponent are put is up to the style, but not what is denoted. -/
theorem ShortDecimal.toRat_numeral (style : Style) (negative : Bool) (d : ShortDecimal) :
    (d.numeral style negative).toRat = signOf negative * d.toRat := by
  have hcount := Digit.countOf_pos d.coefficient
  rw [ShortDecimal.numeral, toRat]
  by_cases hplace :
      style.isPositional (d.exponent + Digit.countOf d.coefficient - 1) = true
  · rw [if_pos hplace]
    by_cases hexp : 0 ≤ d.exponent
    · obtain ⟨k, hk⟩ := Int.eq_ofNat_of_zero_le hexp
      rw [if_pos hexp, toRat_wholeFraction, hk]
      simp
    · have hk : (-d.exponent).toNat ≠ 0 := by omega
      have hplaced := Numeral.toRat_placed negative d.coefficient (-d.exponent).toNat none
      rw [if_neg hk] at hplaced
      rw [if_neg hexp]
      refine hplaced.trans ?_
      congr 3
      show 0 - ((-d.exponent).toNat : Int) = d.exponent
      omega
  · rw [if_neg hplace]
    refine (Numeral.toRat_placed ..).trans ?_
    rw [Numeral.exponentValue_ofNat]
    congr 3
    omega

/-- So styles write the same number, unless they disagree on which of two neighbours is nearer. -/
theorem toRat_numeralOf (style : Style) (f : Format) (negative : Bool) {rank : Nat}
    (h : rank ≠ 0) : (numeralOf style f negative rank).toRat =
      signOf negative * (shortest style.tie f rank).toRat := by
  rw [numeralOf, if_neg h, ShortDecimal.toRat_numeral, ShortDecimal.toRat_trim]

theorem toRat_numeralOf_zero (style : Style) (f : Format) (negative : Bool) :
    (numeralOf style f negative 0).toRat = 0 := by
  rw [numeralOf, if_pos rfl, toRat_wholeFraction, Nat.cast_zero, mul_zero]

end Binary
end ShapeCodec
