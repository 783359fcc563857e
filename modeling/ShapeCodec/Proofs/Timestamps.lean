import ShapeCodec.Gallery.Shapes
import ShapeCodec.Proofs.DateTexts
import ShapeCodec.Proofs.Integers
import ShapeCodec.Proofs.WholeFloats

/-!
# Timestamps on the wire

Instants come back from every format that keeps them: from internet timestamps with all
nanoseconds, from numbers of seconds and the dates of web servers if they are whole seconds. In JSON
the format is the one that is selected for the schema, the same for writing and reading, and the
value is a number for seconds and a text for the other two.
-/

namespace ShapeCodec

/-! ### Whole numbers as text -/

/-- The text of an integer is its digits after a sign. -/
theorem Digit.toList_toString_int (n : Int) : (toString n).toList =
    (if n < 0 then ['-'] else []) ++ (listOf n.natAbs).map toChar := by
  cases n with
  | ofNat k => exact toList_toString k
  | negSucc k =>
      rw [if_pos (Int.negSucc_lt_zero k), Int.natAbs_negSucc, ← toList_toString]
      show ("-" ++ toString (k + 1)).toList = _
      rw [String.toList_append]
      rfl

namespace Binary

variable {f : Format}

theorem spanDigits_digits (ds : List Digit) : spanDigits (ds.map Digit.toChar) = (ds, []) := by
  induction ds with
  | nil => rfl
  | cons d ds ih =>
      rw [List.map_cons, spanDigits, Digit.ofChar?_toChar]
      simp only [ih]

theorem spanSign_digits (negative : Bool) (d : Digit) (cs : List Char) :
    spanSign ((if negative then ['-'] else []) ++ d.toChar :: cs) =
      (negative, d.toChar :: cs) := by
  have key : ∀ d : Digit, d.toChar ≠ '-' ∧ d.toChar ≠ '+' := by decide
  cases negative with
  | true => rfl
  | false =>
      show spanSign (d.toChar :: cs) = _
      rw [spanSign.eq_3 _ (fun _ h => (key d).1 (List.cons.inj h).1)
        (fun _ h => (key d).2 (List.cons.inj h).1)]

/-- Digits after a sign are no name, so they are read as the number they denote. -/
theorem parse?_digits (negative : Bool) {text : String} {ds : List Digit} (hds : ds ≠ [])
    (htext : text.toList = (if negative then ['-'] else []) ++ ds.map Digit.toChar) :
    parse? f text = some (ofDecimal f negative (Digit.valueFrom 0 ds)
      (Digit.countOf (Digit.valueFrom 0 ds)) 0) := by
  have hletters : ∀ d : Digit, d.toChar.toLower ≠ 'n' ∧ d.toChar.toLower ≠ 'i' := by decide
  obtain ⟨d, rest, rfl⟩ := List.exists_cons_of_ne_nil hds
  have hname {c : Char} {cs : List Char} (h : d.toChar.toLower ≠ c) :
      String.ofList (((d :: rest).map Digit.toChar).map Char.toLower) ≠
        String.ofList (c :: cs) := by
    intro heq
    have hlist := congrArg String.toList heq
    simp only [String.toList_ofList, List.map_cons, List.cons.injEq] at hlist
    exact h hlist.1
  have hnan : _ ≠ "nan" := hname (hletters d).1
  have hinf : _ ≠ "inf" := hname (hletters d).2
  have hinfinity : _ ≠ "infinity" := hname (hletters d).2
  rw [parse?, htext, List.map_cons, spanSign_digits, ← List.map_cons]
  simp only
  rw [if_neg hnan, if_neg (not_or.mpr ⟨hinf, hinfinity⟩), unsigned?, spanDigits_digits]
  simp [literalFraction, literalExponent?]

/-- The text of a long is read as its float. -/
theorem parse?_toString {n : Int} (h : IntWidth.long.fits n = true) :
    parse? .double (toString n) = some (ofInt .double n) := by
  have hds : Digit.listOf n.natAbs ≠ [] := List.ne_nil_of_length_pos (Digit.countOf_pos n.natAbs)
  have htext : (toString n).toList = (if decide (n < 0) then ['-'] else []) ++
      (Digit.listOf n.natAbs).map Digit.toChar := by
    rw [Digit.toList_toString_int]
    simp only [decide_eq_true_eq]
  rw [parse?_digits _ hds htext, Digit.valueFrom_listOf, ofDecimal_natAbs h]

/-- Quotients below a power of two that is a float are not infinite. -/
theorem exists_ofRat {q : Rat} {k : Nat} (hk : k < 1024) (h : |q| < 2 ^ k) :
    ∃ negative rank, (ofRat .double q : Double) = .finite negative rank := by
  have hden : (0 : Rat) < q.den := Nat.cast_pos.mpr q.den_pos
  have hnum : q.num.natAbs < 2 ^ k * q.den := by
    rw [← Rat.num_div_den q, abs_div, abs_of_pos hden, div_lt_iff₀ hden, ← Int.cast_abs,
      Int.abs_eq_natAbs] at h
    exact_mod_cast h
  obtain ⟨rank, hrank, -⟩ := exists_nearest q.den_pos hk hnum (q.num < 0)
  exact ⟨_, rank, hrank⟩

end Binary

/-! ### Seconds as floats -/

namespace Instant

/-- The float of a whole number of seconds is that instant. -/
theorem ofDouble_ofInt {n : Int} (h : n.natAbs < 2 ^ 53) (hn : inRange n = true) :
    ofDouble (Binary.ofInt .double n) = .ok ⟨n, 0⟩ := by
  have hmillion : (Binary.ofInt .double 1000000 : Double).toRat? = some (1000000 : Int) :=
    Binary.toRat?_ofInt (by decide)
  have hzero : (Binary.ofRat .double 0 : Double).toRat? = some (0 : Int) :=
    Binary.toRat?_ofInt (n := 0) (by decide)
  have hrest : (n : Rat) - ((n : Rat).floor : Int) = 0 := by rw [Rat.floor_intCast, sub_self]
  have hscaled : ((Binary.mul? (Binary.ofRat .double 0) (Binary.ofInt .double 1000000)).bind
      Binary.toRat?).getD 0 = 0 := by
    rw [Binary.mul?, hzero, hmillion]
    simp only [Option.bind_eq_bind, Option.bind_some, Option.pure_def, Int.cast_zero, zero_mul,
      hzero, Option.getD_some]
  have hmicros : roundHalfUp 0 = 0 := by decide +kernel
  have hfew : ¬ (1000000 : Int) ≤ 0 := by decide
  rw [ofDouble]
  simp only [Binary.toRat?_ofInt h]
  rw [hrest, hscaled, hmicros, Rat.floor_intCast]
  simp only [if_neg hfew, hn, if_true]
  rfl

variable {t : Instant}

theorem Dated.fits (ht : t.Dated) : IntWidth.long.fits t.seconds = true := by
  have hlt := ht.natAbs_seconds_lt
  rw [IntWidth.fits_iff]
  intro bits hbits
  obtain rfl : 64 = bits := Option.some.inj hbits
  have hbound : Nat.pow 2 (64 - 1) = 9223372036854775808 := rfl
  rw [hbound]
  omega

/-- The seconds of an instant with a date are a float that is a number, fraction or not. -/
theorem Dated.exists_toDouble (ht : t.Dated) :
    ∃ negative rank, t.toDouble = .finite negative rank := by
  have hwhole : (Binary.ofInt .double t.seconds : Double).toRat? = some (t.seconds : Rat) :=
    Binary.toRat?_ofInt (ht.natAbs_seconds_lt.trans (by decide))
  have hnanos : t.nanos < 2 ^ 0 * 1000000000 := by simpa using ht.regular
  obtain ⟨rank, hrank, hle⟩ := Binary.exists_nearest (by decide) (by decide) hnanos false
  have hfraction := Binary.toRat?_finite (f := .double) false rank
  have hsmall := Binary.abs_signOf_mul false (Binary.magnitude_nonneg (f := .double) rank)
  have hmagnitude : Binary.magnitude .double rank < 2 ^ (0 + 1) :=
    Binary.magnitude_lt_of_rank_le hle
  have hseconds : |(t.seconds : Rat)| < 2 ^ 40 := by
    rw [← Int.cast_abs, Int.abs_eq_natAbs]
    exact_mod_cast ht.natAbs_seconds_lt
  have hsum : |(t.seconds : Rat) + signOf false * Binary.magnitude .double rank| < 2 ^ 41 :=
    calc _ ≤ |(t.seconds : Rat)| + |signOf false * Binary.magnitude .double rank| := abs_add_le _ _
      _ < 2 ^ 40 + 2 ^ (0 + 1) := add_lt_add hseconds (hsmall.trans_lt hmagnitude)
      _ ≤ 2 ^ 41 := by norm_num
  obtain ⟨negative, rank', hfinite⟩ := Binary.exists_ofRat (by decide) hsum
  refine ⟨negative, rank', ?_⟩
  rw [toDouble]
  simp only [hrank, Binary.add?, hwhole, hfraction]
  exact hfinite

end Instant

/-! ### Formats -/

namespace TimestampFormat

/-- What a format keeps of an instant is all of it. -/
def Keeps (f : TimestampFormat) (t : Instant) : Prop :=
  f = .dateTime ∨ t.nanos = 0

instance (f : TimestampFormat) (t : Instant) : Decidable (f.Keeps t) :=
  inferInstanceAs (Decidable (_ ∨ _))

variable {f : TimestampFormat} {t : Instant}

theorem Keeps.parse_format (hf : f.Keeps t) (ht : t.Dated) : f.parse (f.format t) = .ok t := by
  cases f with
  | dateTime =>
      simp only [parse, format, Instant.parse_dateTimeText ht]
  | httpDate =>
      have hwhole : t.nanos = 0 := hf.resolve_left (by decide)
      simp only [parse, format, Instant.parse_httpDateText ht hwhole]
  | epochSeconds =>
      have hwhole : t.nanos = 0 := hf.resolve_left (by decide)
      have hread := Instant.ofDouble_ofInt (ht.natAbs_seconds_lt.trans (by decide)) ht.inRange
      simp only [parse, format, if_pos hwhole, Binary.parse?_toString ht.fits, hread]
      rw [← hwhole]

theorem Keeps.readTimestamp_ofInstant (hf : f.Keeps t) (ht : t.Dated) :
    (Json.ofInstant f t).readTimestamp f = .ok t := by
  have hparse := hf.parse_format ht
  cases f with
  | dateTime => exact hparse
  | httpDate => exact hparse
  | epochSeconds =>
      have hwhole : t.nanos = 0 := hf.resolve_left (by decide)
      rw [Json.ofInstant, if_pos hwhole]
      refine (Json.instantOfNumber_ofInt ht.inRange).trans ?_
      rw [← hwhole]

/-- The kind of value tells whether seconds are meant. -/
theorem kind_ofInstant (ht : t.Dated) :
    (Json.ofInstant f t).kind = "number" ↔ f = .epochSeconds := by
  have htext : "string" ≠ "number" := by decide
  cases f with
  | dateTime => exact iff_of_false htext (by decide)
  | httpDate => exact iff_of_false htext (by decide)
  | epochSeconds =>
      refine iff_of_true ?_ rfl
      obtain ⟨negative, rank, hfinite⟩ := ht.exists_toDouble
      rw [Json.ofInstant]
      by_cases hwhole : t.nanos = 0
      · rw [if_pos hwhole]
        rfl
      · rw [if_neg hwhole, hfinite]
        rfl

end TimestampFormat

/-! ### The format of a schema -/

/-- A trait of the schema selects the format, else a trait of its target, else the configuration. -/
inductive Config.Selects (c : Config) (m : Model) (S : SchemaRef) : TimestampFormat → Prop
  | own {f : TimestampFormat} : (m.traits S).timestampFormat = some f → Selects c m S f
  | target {f : TimestampFormat} {T : SchemaRef} : (m.traits S).timestampFormat = none →
      m.target? S = some T → (m.traits T).timestampFormat = some f → Selects c m S f
  | configured : (m.traits S).timestampFormat = none →
      (∀ T, m.target? S = some T → (m.traits T).timestampFormat = none) →
      Selects c m S c.timestampFormat

theorem Config.selects_iff {c : Config} {m : Model} {S : SchemaRef} {f : TimestampFormat} :
    c.Selects m S f ↔ c.timestampFormatFor m S = f := by
  have hfor : c.timestampFormatFor m S = (((m.traits S).timestampFormat).or
      ((m.target? S).bind fun T => (m.traits T).timestampFormat)).getD c.timestampFormat := rfl
  rw [hfor]
  constructor
  · intro h
    cases h with
    | own h => simp [h]
    | target h hT h' => simp [h, hT, h']
    | configured h h' =>
        cases hT : m.target? S with
        | none => simp [h]
        | some T => simp [h, h' T hT]
  · rintro rfl
    cases h : (m.traits S).timestampFormat with
    | some f => exact .own h
    | none =>
        cases hT : m.target? S with
        | none => exact .configured h fun T hT' => by simp [hT] at hT'
        | some T =>
            cases h' : (m.traits T).timestampFormat with
            | some f => simpa [h'] using Selects.target h hT h'
            | none =>
                have hnone : ∀ T', m.target? S = some T' → (m.traits T').timestampFormat = none :=
                  fun T' hT' => Option.some.inj (hT.symm.trans hT') ▸ h'
                simpa [h'] using Selects.configured h hnone

/--
An instant with a date survives its wire formats. It is read from the text of every format that
keeps it. In JSON it is written in the format that is selected for the schema, as a number for
seconds and only for those, and if the format keeps it, it is read from there.
-/
theorem timestamps_survive {t : Instant} (ht : t.Dated) :
    (∀ f : TimestampFormat, f.Keeps t → f.parse (f.format t) = .ok t) ∧
    ∀ (c : Codec) (m : Model) (S : SchemaRef) (f : TimestampFormat), c.config.Selects m S f →
      ∃ j, c.toJson m (.scalar S (.timestamp t)) = .ok j ∧
        (j.kind = "number" ↔ f = .epochSeconds) ∧
        (f.Keeps t → (c.source m).scalar .timestamp S j = .ok (.timestamp t)) := by
  refine ⟨fun f hf => hf.parse_format ht, fun c m S f hselects => ?_⟩
  obtain rfl := Config.selects_iff.mp hselects
  refine ⟨_, c.toJson_scalar m S (.timestamp t), TimestampFormat.kind_ofInstant ht, fun hf => ?_⟩
  have hread := hf.readTimestamp_ofInstant ht
  exact congrArg (Except.map Scalar.timestamp) hread

namespace Gallery

/-- The member of an event that has a format of its own. -/
def stampedMember : SchemaRef :=
  .member (.declared 15) 1

/-- The last nanosecond of the leap day of the year zero. -/
def leapDayEnd : Instant :=
  ⟨-62162035201, 999999999⟩

/-- Its text on the wire. -/
def leapDayText : Json :=
  .string "0000-02-29T23:59:59.999999999Z"

/-- It comes back as it was, although seconds are what the configuration asks for. -/
theorem timestamps_survive_leapDay :
    (leapDayEnd.Dated ∧ TimestampFormat.dateTime.Keeps leapDayEnd ∧
        ({} : Codec).config.Selects model stampedMember .dateTime) ∧
      ({} : Codec).toJson model (.scalar stampedMember (.timestamp leapDayEnd)) =
        .ok leapDayText ∧
      (({} : Codec).source model).scalar .timestamp stampedMember leapDayText =
        .ok (.timestamp leapDayEnd) := by
  have hdated : leapDayEnd.Dated := by decide
  have hkeeps : TimestampFormat.dateTime.Keeps leapDayEnd := .inl rfl
  have hselects : ({} : Codec).config.Selects model stampedMember .dateTime := .own rfl
  obtain ⟨j, hj, -, hread⟩ := (timestamps_survive hdated).2 {} model stampedMember _ hselects
  obtain rfl : leapDayText = j := Except.ok.inj hj
  exact ⟨⟨hdated, hkeeps, hselects⟩, hj, hread hkeeps⟩

end Gallery
end ShapeCodec
