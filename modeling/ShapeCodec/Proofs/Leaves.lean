import ShapeCodec.Document.Access
import ShapeCodec.Json.Scalar
import ShapeCodec.Proofs.Base64
import ShapeCodec.Proofs.Binary
import ShapeCodec.Proofs.Result

/-!
# Leaves that survive

Which scalars come back from where they were written. A document gives every scalar back as it is,
a short float too, although that is read as a long one first. JSON gives back the plain ones: those
whose text has one reading.
-/

namespace ShapeCodec

theorem Binary.same_self {f : Binary.Format} {x : Binary f} (h : x.isNaN = false) :
    x.same x = true := by
  cases x with
  | nan => simp [isNaN] at h
  | infinite negative => simp [same]
  | finite negative rank => simp [same]

theorem Sized.ofInt?_value {width : IntWidth} (n : Sized width) :
    Sized.ofInt? width n.value = some n := by
  rw [ofInt?, dif_pos n.fits]

namespace Scalar

/-- Whether a value is a float that is no number. -/
def isNaN : Scalar → Bool
  | float x => x.isNaN
  | double x => x.isNaN
  | _ => false

/-- All but one value equal themselves. -/
theorem same_self {v : Scalar} (h : v.isNaN = false) : v.same v = true := by
  cases v with
  | float x => exact Binary.same_self h
  | double x => exact Binary.same_self h
  | decimal d => exact beq_self_eq_true _
  | _ => simp [same]

/-! ### Documents -/

/-- Read as what it is, a scalar is unchanged. -/
theorem as_type (v : Scalar) : v.as v.type = .ok v := by
  cases v with
  | integer width n =>
      have hfits : (integer width n).asInteger width = .ok n := by
        simp only [asInteger, Sized.ofInt?_value]
      show ((integer width n).asInteger width).map (integer width) = _
      rw [hfits]
      rfl
  | float x =>
      -- by way of the long float and back
      have hback : (float x).asSingle = .ok x := by
        show Except.ok ((x.convert .double).convert .single) = _
        rw [Binary.convert_convert Binary.wider_double_single]
      show (float x).asSingle.map float = _
      rw [hback]
      rfl
  | boolean b => rfl
  | double x => rfl
  | decimal d => rfl
  | string s => rfl
  | blob bytes => rfl
  | timestamp t => rfl

/-! ### JSON -/

/-- Scalars whose JSON has one reading: no floats, and timestamps only in whole seconds. -/
def Plain (format : TimestampFormat) : Scalar → Prop
  | boolean _ | integer .. | string _ | blob _ => True
  | timestamp t => format = .epochSeconds ∧ t.nanos = 0 ∧ Instant.inRange t.seconds = true
  | float _ | double _ | decimal _ => False

instance (format : TimestampFormat) (v : Scalar) : Decidable (v.Plain format) := by
  unfold Plain
  split <;> infer_instance

theorem Plain.isNaN {format : TimestampFormat} {v : Scalar} (h : v.Plain format) :
    v.isNaN = false := by
  cases v with
  | float x => exact absurd h id
  | double x => exact absurd h id
  | _ => rfl

end Scalar

theorem Numeral.toInt?_ofInt (n : Int) : (Numeral.ofInt n).toInt? = some n := by
  have hwhole : (Numeral.ofInt n).isWhole = true := rfl
  rw [toInt?, if_pos hwhole]
  by_cases hn : n < 0
  · simp only [ofInt, hn, decide_true, if_true]
    congr 1
    omega
  · simp only [ofInt, hn, decide_false, Bool.false_eq_true, if_false]
    congr 1
    omega

namespace Json

theorem readInteger_ofInt {width : IntWidth} (n : Sized width) :
    Json.readInteger width (.number (.ofInt n.value)) = .ok (.integer width n) := by
  have hwhole : (Numeral.ofInt n.value).isFractional = false := rfl
  have hfits : Scalar.ofInt? width n.value = some (.integer width n) := by
    rw [Scalar.ofInt?, Sized.ofInt?_value]
    rfl
  simp only [readInteger, asNumber, Result.ok_bind, hwhole, Numeral.toInt?_ofInt, hfits]
  rfl

/-- Seconds that have a date fit the integers that are read as seconds. -/
theorem instantOfNumber_ofInt {seconds : Int} (h : Instant.inRange seconds = true) :
    instantOfNumber (.ofInt seconds) = .ok ⟨seconds, 0⟩ := by
  obtain ⟨hfirst, hlast⟩ := Bool.and_eq_true_iff.mp h
  have hfirst : -8334601228800 ≤ seconds := of_decide_eq_true hfirst
  have hlast : seconds ≤ 8210266876799 := of_decide_eq_true hlast
  have hbound : Nat.pow 2 (64 - 1) = 9223372036854775808 := rfl
  have hfits : IntWidth.long.fits seconds = true := by
    simp only [IntWidth.fits, IntWidth.bits?, hbound, Bool.and_eq_true, decide_eq_true_eq]
    omega
  simp only [instantOfNumber, Numeral.toInt?_ofInt, Option.filter, hfits, if_true,
    Instant.ofSeconds, h]

/-- A plain scalar is read from its own JSON. -/
theorem readScalar_ofScalar {format : TimestampFormat} {v : Scalar} (h : v.Plain format) :
    Json.readScalar format v.type (Json.ofScalar format v) = .ok v := by
  cases v with
  | boolean b => rfl
  | integer width n => exact readInteger_ofInt n
  | string s => rfl
  | blob bytes =>
      show (decodeBlob (Base64.encode bytes)).map Scalar.blob = _
      rw [decodeBlob, Base64.decode_encode]
      rfl
  | timestamp t =>
      obtain ⟨rfl, hn, hr⟩ := h
      obtain ⟨seconds, nanos⟩ := t
      obtain rfl : nanos = 0 := hn
      show (instantOfNumber (.ofInt seconds)).map Scalar.timestamp = _
      rw [instantOfNumber_ofInt hr]
      rfl
  | float x => exact absurd h id
  | double x => exact absurd h id
  | decimal d => exact absurd h id

theorem ofScalar_isNull (format : TimestampFormat) (v : Scalar) :
    (Json.ofScalar format v).isNull = false := by
  cases v with
  | float x => cases x <;> rfl
  | double x => cases x <;> rfl
  | timestamp t =>
      cases format with
      | epochSeconds =>
          simp only [ofScalar, ofInstant]
          split
          · rfl
          · cases t.toDouble <;> rfl
      | dateTime => rfl
      | httpDate => rfl
  | _ => rfl

end Json
end ShapeCodec
