import ShapeCodec.Proofs.Printing
import ShapeCodec.Proofs.UntypedJson

/-!
# Integers

An integer keeps its value through every width that can hold it, in documents and in JSON. Reading
it in a width gives it back or says that it is out of range, and never another number: the bounds of
the width are all that counts, not the width it was stored in.
-/

namespace ShapeCodec

/-! ### Bounds -/

/-- A number lies within the bounds of a width, the lower of which belongs to it. -/
def IntWidth.Holds (width : IntWidth) (n : Int) : Prop :=
  ∀ bits, width.bits? = some bits →
    -(Nat.pow 2 (bits - 1) : Int) ≤ n ∧ n < (Nat.pow 2 (bits - 1) : Int)

theorem IntWidth.fits_iff {width : IntWidth} {n : Int} : width.fits n = true ↔ width.Holds n := by
  unfold fits Holds
  cases width.bits? with
  | none => simp
  | some bits => simp [and_comm]

/-- Read in a width, a number is itself if the width holds it and out of range otherwise. -/
structure ReadsExactly (target : IntWidth) (n : Int) (text : String) (r : Result Scalar) :
    Prop where
  held : target.Holds n → ∃ k : Sized target, k.value = n ∧ r = .ok (.integer target k)
  beyond : ¬ target.Holds n → r = .error (.outOfRange text (ScalarType.integer target).shapeType)

/-- A number that goes through the bounds of a width is read exactly. -/
theorem readsExactly_of_ofInt? {target : IntWidth} {n : Int} {text : String} {r : Result Scalar}
    (hok : ∀ k, Sized.ofInt? target n = some k → r = .ok (.integer target k))
    (herror : Sized.ofInt? target n = none →
      r = .error (.outOfRange text (ScalarType.integer target).shapeType)) :
    ReadsExactly target n text r := by
  constructor
  · intro h
    have hfits := IntWidth.fits_iff.mpr h
    exact ⟨⟨n, hfits⟩, rfl, hok _ (by rw [Sized.ofInt?, dif_pos hfits])⟩
  · intro h
    have hfits : ¬ target.fits n = true := fun hfits => h (IntWidth.fits_iff.mp hfits)
    exact herror (by rw [Sized.ofInt?, dif_neg hfits])

/-! ### Reading -/

/-- A document gives its integer in any width. -/
theorem Document.asScalar_integer {width : IntWidth} (target : IntWidth) (n : Sized width)
    (l : Label) : ReadsExactly target n.value (Scalar.rangeText (.integer width n))
      (Document.asScalar (.integer target) (.leaf l (.integer width n))) := by
  have hread : Document.asScalar (.integer target) (.leaf l (.integer width n)) =
      ((Scalar.integer width n).asInteger target).map (.integer target) := rfl
  refine readsExactly_of_ofInt? (fun k hk => ?_) fun hnone => ?_
  · rw [hread, Scalar.asInteger, hk]
    rfl
  · rw [hread, Scalar.asInteger, hnone]
    rfl

namespace Numeral

/-- The numeral of an integer is its decimal text. -/
theorem text_ofInt (n : Int) : (ofInt n).text = toString n := by
  cases n with
  | ofNat k =>
      show "" ++ toString k ++ "" ++ "" = toString k
      simp
  | negSucc k =>
      have hneg : decide (Int.negSucc k < 0) = true := decide_eq_true (Int.negSucc_lt_zero k)
      show (if decide (Int.negSucc k < 0) = true then "-" else "") ++ toString (k + 1) ++ "" ++ "" =
        "-" ++ toString (k + 1)
      rw [if_pos hneg]
      simp

end Numeral

namespace Json

/-- The text of an integer is the number. -/
theorem parse_toString (n : Int) :
    Codec.parse (Bytes.ofString (toString n)) = .ok (.number (.ofInt n)) := by
  have hnesting : (Json.number (.ofInt n)).nesting ≤ maxDepth := Nat.zero_le _
  have hparse := parse_print {} hnesting
  have hprint : ({} : Codec).print (.number (.ofInt n)) = (Numeral.ofInt n).text := rfl
  rw [hprint, Numeral.text_ofInt] at hparse
  exact hparse

/-- A number without fraction and exponent is read in any width. -/
theorem readInteger_whole (target : IntWidth) (n : Int) :
    ReadsExactly target n (toString n) (readInteger target (.number (.ofInt n))) := by
  have hwhole : (Numeral.ofInt n).isFractional = false := rfl
  refine readsExactly_of_ofInt? (fun k hk => ?_) fun hnone => ?_
  · simp only [readInteger, asNumber, Result.ok_bind, hwhole, Numeral.toInt?_ofInt, Scalar.ofInt?,
      hk]
    rfl
  · simp only [readInteger, asNumber, Result.ok_bind, hwhole, Numeral.toInt?_ofInt, Scalar.ofInt?,
      hnone]
    rw [← Numeral.text_ofInt]
    rfl

/-- A fraction is no integer of any width, even if its value is whole. -/
theorem readInteger_fractional {x : Numeral} (h : x.isFractional = true) (target : IntWidth) :
    readInteger target (.number x) = .error
      (.typeMismatch (ScalarType.integer target).shapeType.keyword "fractional number") := by
  simp only [readInteger, asNumber, Result.ok_bind, h, if_true]
  rfl

/-- Without a schema an integer is a long if that holds it, and big otherwise. -/
theorem toDocument_ofInt (n : Int) : ∃ width, ∃ k : Sized width,
    (Json.number (.ofInt n)).toDocument = .ofScalar (.integer width k) ∧ k.value = n ∧
      (IntWidth.long.Holds n → width = .long) ∧ (¬ IntWidth.long.Holds n → width = .big) := by
  rw [toDocument_number, Numeral.toScalar, Numeral.toInt?_ofInt]
  by_cases h : IntWidth.long.Holds n
  · have hfits := IntWidth.fits_iff.mpr h
    refine ⟨.long, ⟨n, hfits⟩, ?_, rfl, fun _ => rfl, fun hn => absurd h hn⟩
    simp only [Scalar.ofInt?, Sized.ofInt?, dif_pos hfits]
    rfl
  · have hfits : ¬ IntWidth.long.fits n = true := fun hfits => h (IntWidth.fits_iff.mp hfits)
    refine ⟨.big, .big n, ?_, rfl, fun hl => absurd hl h, fun _ => rfl⟩
    simp only [Scalar.ofInt?, Sized.ofInt?, dif_neg hfits]
    rfl

end Json

/-! ### Writing -/

/-- A scalar is written as it stands on the wire. -/
theorem Codec.toJson_scalar (c : Codec) (m : Model) (S : SchemaRef) (v : Scalar) :
    c.toJson m (.scalar S v) = .ok ((c.scope m).scalar S v) := by
  have hwrites : Writer.Writes m (c.scope m).sink (.scalar S v) S ((c.scope m).scalar S v) :=
    Writer.writes_scalar rfl
  exact hwrites.write_eq_ok

section
variable (c : Codec) (m : Model) {width : IntWidth} (n : Sized width)

/-- An integer is written as its number, whatever width it has and whatever schema it is under. -/
theorem Codec.toJson_integer (S : SchemaRef) :
    c.toJson m (.scalar S (.integer width n)) = .ok (.number (.ofInt n.value)) :=
  c.toJson_scalar m S _

/-- So is the document of an integer. -/
theorem Codec.encodeDocument_integer :
    c.encodeDocument m (.ofScalar (.integer width n)) = .ok (toString n.value) := by
  have hwrites : Writer.Writes m (c.scope m).sink
      ((Document.ofScalar (.integer width n)).calls m (.scalar (.integer width)))
      (.scalar (.integer width)) (.number (.ofInt n.value)) :=
    Json.writes_ofScalar (s := c.scope m) rfl
  have hjson : c.toJson m ((Document.ofScalar (.integer width n)).calls m
      (Document.ofScalar (.integer width n)).schema) = .ok (.number (.ofInt n.value)) :=
    hwrites.write_eq_ok
  rw [Codec.encodeDocument, Codec.encode, Codec.encodeCall, hjson]
  have hprint : c.print (.number (.ofInt n.value)) = (Numeral.ofInt n.value).text := by
    unfold Codec.print
    split <;> rfl
  show Except.ok (c.print (.number (.ofInt n.value))) = _
  rw [hprint, Numeral.text_ofInt]

end

/--
Integers are exact in every width. A document that holds one gives it in each width that holds it,
and is out of range for the others; the number that is its decimal text is read from JSON with the
same outcome; without a schema it is a long or, beyond the longs, a big integer; and from any width
it is written as that number again. Fractions that a float can hold are read in no width.
-/
theorem integers_exact :
    (∀ (width target : IntWidth) (n : Sized width) (l : Label),
      ReadsExactly target n.value (Scalar.rangeText (.integer width n))
        (Document.asScalar (.integer target) (.leaf l (.integer width n)))) ∧
    (∀ n : Int, Codec.parse (Bytes.ofString (toString n)) = .ok (.number (.ofInt n)) ∧
      (∀ (m : Model) (config : Config) (wireNames : Bool) (S : SchemaRef) (target : IntWidth),
        ReadsExactly target n (toString n)
          ((Json.source m config wireNames).scalar (.integer target) S (Json.number (.ofInt n)))) ∧
      ∃ width, ∃ k : Sized width,
        (Json.number (.ofInt n)).toDocument = .ofScalar (.integer width k) ∧ k.value = n ∧
          (IntWidth.long.Holds n → width = .long) ∧ (¬ IntWidth.long.Holds n → width = .big)) ∧
    (∀ (c : Codec) (m : Model) (width : IntWidth) (n : Sized width),
      (∀ S, c.toJson m (.scalar S (.integer width n)) = .ok (.number (.ofInt n.value))) ∧
      c.encodeDocument m (.ofScalar (.integer width n)) = .ok (toString n.value)) ∧
    ∀ x : Numeral, x.fraction.isSome = true ∨ x.exponent.isSome = true →
      x.toDouble?.isSome = true →
      ∀ (m : Model) (config : Config) (wireNames : Bool) (S : SchemaRef) (target : IntWidth),
        (Json.source m config wireNames).scalar (.integer target) S (Json.number x) = .error
          (.typeMismatch (ScalarType.integer target).shapeType.keyword "fractional number") := by
  refine ⟨fun width target n l => Document.asScalar_integer target n l, fun n =>
    ⟨Json.parse_toString n, fun m config wireNames S target => Json.readInteger_whole target n,
      Json.toDocument_ofInt n⟩,
    fun c m width n => ⟨c.toJson_integer m n, c.encodeDocument_integer m n⟩,
    fun x hx hfinite m config wireNames S target => ?_⟩
  have hwhole : x.isWhole = false := by
    rcases hx with hx | hx
    · simp [Numeral.isWhole, Option.isNone_eq_false_iff.mpr hx]
    · simp [Numeral.isWhole, Option.isNone_eq_false_iff.mpr hx]
  have hfractional : x.isFractional = true := by
    rw [Numeral.isFractional, hwhole, hfinite]
    rfl
  exact Json.readInteger_fractional hfractional target

namespace Readings

/-- A thousand, written with an exponent. -/
def thousand : Numeral :=
  { negative := false, whole := 1, exponent := some (false, .ofNat 3) }

/-- It is read in no width, although the shorts hold its value. -/
theorem integers_exact_thousand :
    (IntWidth.short.Holds 1000 ∧ thousand.exponent.isSome = true ∧
        thousand.toDouble?.isSome = true) ∧
      (Json.source {} {} true).scalar (.integer .short) default (Json.number thousand) =
        .error (.typeMismatch "short" "fractional number") := by
  have hfinite : thousand.toDouble?.isSome = true := by decide +kernel
  exact ⟨⟨IntWidth.fits_iff.mp (by decide), rfl, hfinite⟩,
    integers_exact.2.2.2 thousand (.inr rfl) hfinite {} {} true default .short⟩

end Readings
end ShapeCodec
