import ShapeCodec.Proofs.LateBinding
import ShapeCodec.Proofs.Rounding
import ShapeCodec.Proofs.UntypedJson

/-!
# Numbers read as decimals

Where JSON is read as a decimal right away, all digits of a number are kept. Where it becomes a
document first, integers and decimals keep them too. A float stands in for a number as soon as its
text is the number, but as a decimal it gives its binary value to the last digit. So digits are
lost on the way exactly if a number becomes a float and no float denotes it.
-/

namespace ShapeCodec

/-! ### Floats as decimals -/

namespace Decimal

/-- What is halved is made up for by the power of two that is counted. -/
theorem halve_spec (fuel m : Nat) :
    (halve fuel m).1 * 2 ^ (halve fuel m).2 = m ∧ (halve fuel m).2 ≤ fuel := by
  induction fuel generalizing m with
  | zero => simp [halve]
  | succ fuel ih =>
      obtain ⟨hproduct, hle⟩ := ih (m / 2)
      rw [halve]
      by_cases hm : m % 2 = 0
      · rw [if_pos hm]
        refine ⟨?_, Nat.succ_le_succ hle⟩
        show (halve fuel (m / 2)).1 * 2 ^ ((halve fuel (m / 2)).2 + 1) = m
        rw [Nat.pow_succ, ← Nat.mul_assoc, hproduct]
        omega
      · rw [if_neg hm]
        exact ⟨Nat.mul_one m, Nat.zero_le _⟩

/-- Fives over tens are halves, as many as there were before those that were counted. -/
theorem toRat_fives (negative : Bool) {m m' k places : Nat} (hm : m' * 2 ^ k = m)
    (hk : k ≤ places) :
    toRat ⟨(if negative then -1 else 1) * (m' * 5 ^ (places - k) : Nat), (places - k : Nat)⟩ =
      signOf negative * (m * (2 : Rat) ^ (-(places : Int))) := by
  obtain ⟨i, rfl⟩ := Nat.exists_eq_add_of_le hk
  have hten : (10 : Rat) ^ i = 5 ^ i * 2 ^ i := by
    rw [← mul_pow]
    norm_num
  have htwo : (2 : Rat) ^ k * (2 ^ (k + i))⁻¹ = (2 ^ i)⁻¹ := by
    rw [pow_add, mul_inv, mul_inv_cancel_left₀ (pow_ne_zero k (by norm_num))]
  have hfive : (5 : Rat) ^ i * (5 ^ i * 2 ^ i)⁻¹ = (2 ^ i)⁻¹ := by
    rw [mul_inv, mul_inv_cancel_left₀ (pow_ne_zero i (by norm_num))]
  rw [toRat_eq, Nat.add_sub_cancel_left, zpow_neg, zpow_neg, zpow_natCast, zpow_natCast, hten, ← hm]
  push_cast
  rw [mul_assoc, mul_assoc, hfive, mul_assoc, htwo]
  rfl

theorem toRat_whole (negative : Bool) (n : Nat) :
    toRat ⟨(if negative then -1 else 1) * n, 0⟩ = signOf negative * n := by
  rw [toRat_eq, neg_zero, zpow_zero, mul_one]
  cases negative <;> simp [signOf]

/-- A float is the decimal of the same value, if it has one. -/
theorem map_toRat_ofBinary? {f : Binary.Format} (x : Binary f) :
    (ofBinary? x).map toRat = x.toRat? := by
  cases x with
  | nan => rfl
  | infinite negative => rfl
  | finite negative rank =>
      rw [Binary.toRat?_finite, Binary.magnitude, ofBinary?]
      by_cases hzero : rank.val = 0
      · have hsignificand : Binary.significand f rank = 0 :=
          Binary.significand_eq_zero_iff.mpr hzero
        simp only [if_pos hzero, hsignificand, Nat.cast_zero, zero_mul, mul_zero]
        rfl
      rw [if_neg hzero]
      by_cases he : 0 ≤ Binary.exponent f rank
      · obtain ⟨i, hi⟩ := Int.eq_ofNat_of_zero_le he
        simp only [if_pos he, Option.map_some, Nat.pow_eq]
        rw [toRat_whole, hi, Int.toNat_natCast, zpow_natCast]
        push_cast
        rfl
      · obtain ⟨places, hplaces⟩ := Int.exists_eq_neg_ofNat (not_le.mp he).le
        rw [if_neg he]
        simp only [hplaces, neg_neg, Int.toNat_natCast, Nat.pow_eq, Option.map_some]
        by_cases hsub : rank.val < 2 ^ (f.precision - 1)
        · simp only [if_pos hsub]
          rw [toRat_fives negative (Nat.mul_one _) (Nat.zero_le places)]
        · obtain ⟨hproduct, hle⟩ := halve_spec places (Binary.significand f rank)
          simp only [if_neg hsub]
          rw [toRat_fives negative hproduct hle]

end Decimal

/-! ### Scalars as decimals -/

namespace Scalar

/-- The number that a scalar holds, if it holds one. -/
def toRat? : Scalar → Option Rat
  | integer _ n => some n.value
  | float x => x.toRat?
  | double x => x.toRat?
  | decimal d => some d.toRat
  | _ => none

/-- Numbers are decimals of the same value. -/
theorem asDecimal_of_toRat? {s : Scalar} {q : Rat} (h : s.toRat? = some q) :
    ∃ d, s.asDecimal = .ok d ∧ d.toRat = q := by
  have hfloat {f : Binary.Format} {x : Binary f} (t : Scalar) (hx : x.toRat? = some q) :
      ∃ d, asDecimal.finite t (Decimal.ofBinary? x) = .ok d ∧ d.toRat = q := by
    rw [← Decimal.map_toRat_ofBinary?] at hx
    obtain ⟨d, hd, hq⟩ := Option.map_eq_some_iff.mp hx
    exact ⟨d, by rw [hd]; rfl, hq⟩
  cases s with
  | integer width n =>
      refine ⟨.ofInt n.value, rfl, ?_⟩
      rw [← Option.some.inj h, Decimal.ofInt, Decimal.toRat_eq, neg_zero, zpow_zero, mul_one]
  | float x => exact hfloat _ h
  | double x => exact hfloat _ h
  | decimal d => exact ⟨d, rfl, Option.some.inj h⟩
  | boolean | string | blob | timestamp => cases h

end Scalar

namespace Numeral

variable {n : Numeral}

/-- The float that a number becomes is the nearest one. -/
theorem toDouble?_of_toScalar {x : Double} (h : n.toScalar = .double x) :
    n.toDouble? = some x := by
  unfold toScalar toFraction at h
  cases hi : n.toInt? with
  | some i =>
      obtain ⟨width, k, hscalar, -⟩ := toScalar_of_toInt? hi
      rw [toScalar, hi] at hscalar
      rw [hi] at h
      cases hscalar.symm.trans h
  | none =>
      rw [hi] at h
      cases hx : n.toDouble? with
      | none => cases hd : Decimal.ofNumeral n <;> simp [hx, hd] at h
      | some y =>
          cases hd : Decimal.ofNumeral n with
          | error e => simpa [hx, hd] using h
          | ok d =>
              by_cases ht : isTextOf y d = true
              · simpa [hx, hd, ht] using h
              · simp [hx, hd, ht] at h

/-- A number keeps its value as a scalar, unless it becomes a float and no float has that value. -/
theorem Parses.toRat?_toScalar (hn : n.Parses) :
    ∃ q, n.toScalar.toRat? = some q ∧
      (q = n.toRat ↔ ∀ x, n.toScalar = .double x → ∃ y : Double, y.toRat? = some n.toRat) := by
  rcases hn.toScalar_cases with ⟨width, k, hscalar, hk⟩ | ⟨negative, rank, hscalar, -⟩ |
    ⟨d, hscalar, hd⟩
  · rw [hscalar]
    exact ⟨k.value, rfl, iff_of_true hk nofun⟩
  · have hvalue := Binary.toRat?_finite negative rank
    refine ⟨_, by rw [hscalar]; exact hvalue, fun hq x hx => ?_, fun h => ?_⟩
    · exact ⟨.finite negative rank, hq ▸ hvalue⟩
    · obtain ⟨y, hy⟩ := h _ hscalar
      obtain ⟨x, hx, hxvalue⟩ := toDouble?_of_toRat? hy
      obtain rfl := Option.some.inj ((toDouble?_of_toScalar hscalar).symm.trans hx)
      exact Option.some.inj (hvalue.symm.trans hxvalue)
  · rw [hscalar]
    exact ⟨d.toRat, rfl, iff_of_true hd nofun⟩

end Numeral

/--
Read as a decimal from JSON, a number is what its text says. Read from the document that it makes
without a schema, it is what the scalar in that document holds, and that is the number again unless
it became a float and no float denotes it.
-/
theorem number_as_decimal {n : Numeral} (hn : n.Parses) :
    ∃ d e : Decimal, d.toRat = n.toRat ∧
      Json.readDecimal (.number n) = .ok d ∧
      (Json.number n).toDocument.asScalar .bigDecimal = .ok (.decimal e) ∧
      n.toScalar.toRat? = some e.toRat ∧
      (e.toRat = d.toRat ↔
        ∀ x, n.toScalar = .double x → ∃ y : Double, y.toRat? = some n.toRat) ∧
      ∀ (c : Codec) (m : Model) (S : SchemaRef), m.typeOf S = .bigDecimal →
        c.ofJson m S (.number n) = .ok (.leaf { schema := S } (.decimal d)) ∧
        (Json.number n).toDocument.readAs m c.config S =
          .ok (.leaf { schema := S } (.decimal e)) := by
  obtain ⟨q, hq, hexact⟩ := hn.toRat?_toScalar
  obtain ⟨e, he, rfl⟩ := Scalar.asDecimal_of_toRat? hq
  obtain ⟨d, hd⟩ := hn
  have hvalue := Numeral.toRat_of_ofNumeral hd
  have hread : Json.readDecimal (.number n) = .ok d := by
    unfold Json.readDecimal
    simp only [Json.asNumber, Result.ok_bind, hd]
    rfl
  have hlate : (Json.number n).toDocument.asScalar .bigDecimal = .ok (.decimal e) := by
    rw [Json.toDocument_number]
    show n.toScalar.asDecimal.map Scalar.decimal = _
    rw [he]
    rfl
  refine ⟨d, e, hvalue, hread, hlate, hq, hvalue ▸ hexact, fun c m S hS => ⟨?_, ?_⟩⟩
  · have hnull : (Json.number n).isNull = false := rfl
    refine (Reader.documentAt_scalar (by rw [hS]; rfl) hnull).trans ?_
    show ((Json.readDecimal (.number n)).map Scalar.decimal).map _ = _
    rw [hread]
    rfl
  · have hnull : (Json.number n).toDocument.isNull = false := Json.toDocument_isNull _
    refine (Reader.documentAt_scalar (by rw [hS]; rfl) hnull).trans ?_
    show ((Json.number n).toDocument.asScalar .bigDecimal).map _ = _
    rw [hlate]
    rfl

namespace Readings

theorem number_as_decimal_level :
    level.Parses ∧ ∃ d e : Decimal,
      Json.readDecimal (.number level) = .ok d ∧
      (Json.number level).toDocument.asScalar .bigDecimal = .ok (.decimal e) ∧
      d.toRat = 1 / 2 ∧ e.toRat = 1 / 2 := by
  have hparses : level.Parses := ⟨_, rfl⟩
  have hvalue : level.toRat = 1 / 2 := by
    show Decimal.toRat ⟨5, 1⟩ = _
    norm_num [Decimal.toRat_eq]
  have hhalf : (Binary.finite false half).toRat? = some level.toRat := by
    rw [hvalue]
    decide +kernel
  obtain ⟨d, e, hd, hread, hlate, -, hexact, -⟩ := number_as_decimal hparses
  exact ⟨hparses, d, e, hread, hlate, hd.trans hvalue,
    (hexact.mpr fun _ _ => ⟨_, hhalf⟩).trans (hd.trans hvalue)⟩

/-- The first number after the point that no float holds. -/
def tenth : Numeral :=
  { negative := false, whole := 0, fraction := some (.ofNat 1) }

/-- A tenth becomes a float, and as a decimal that is a little more than a tenth. -/
theorem tenth_gains_digits :
    tenth.Parses ∧ ∃ d e : Decimal,
      Json.readDecimal (.number tenth) = .ok d ∧
      (Json.number tenth).toDocument.asScalar .bigDecimal = .ok (.decimal e) ∧
      e = ⟨1000000000000000055511151231257827021181583404541015625, 55⟩ ∧
      d.toRat = tenth.toRat ∧ e.toRat ≠ tenth.toRat := by
  let e : Decimal := ⟨1000000000000000055511151231257827021181583404541015625, 55⟩
  have hscalar : tenth.toScalar.asDecimal = .ok e := by decide +kernel
  have hlate : (Json.number tenth).toDocument.asScalar .bigDecimal = .ok (.decimal e) := by
    rw [Json.toDocument_number]
    show tenth.toScalar.asDecimal.map Scalar.decimal = _
    rw [hscalar]
    rfl
  exact ⟨⟨_, rfl⟩, ⟨1, 1⟩, e, rfl, hlate, rfl, rfl, by decide +kernel⟩

end Readings
end ShapeCodec
