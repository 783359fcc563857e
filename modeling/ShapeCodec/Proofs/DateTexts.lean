import ShapeCodec.Proofs.Calendar
import ShapeCodec.Proofs.DateScanning

/-!
# Dates read back

An instant whose year has four digits is read back from both of its written forms. The internet
timestamp keeps every nanosecond, the date of a web server whole seconds. Each text is taken apart
into the pieces that it is read by, and the pieces make up the instant again.
-/

namespace ShapeCodec.Instant

open Calendar Time

variable {t : Instant}

/-- Instants whose year has four digits, other than those inside of a leap second. -/
structure Dated (t : Instant) : Prop where
  year_nonneg : 0 ≤ t.date.year
  year_le : t.date.year ≤ 9999
  regular : t.nanos < 1000000000

instance (t : Instant) : Decidable t.Dated :=
  decidable_of_iff (0 ≤ t.date.year ∧ t.date.year ≤ 9999 ∧ t.nanos < 1000000000)
    ⟨fun ⟨h, h', h''⟩ => ⟨h, h', h''⟩, fun ⟨h, h', h''⟩ => ⟨h, h', h''⟩⟩

/-! ### Date and time of day -/

theorem bounds_date (t : Instant) : (1 ≤ t.date.month ∧ t.date.month ≤ 12) ∧
    1 ≤ t.date.day ∧ t.date.day ≤ 31 :=
  bounds_ofDays _

theorem exists_date (t : Instant) : t.date.exists = true :=
  exists_ofDays _

theorem clock_lt (h : t.nanos < 1000000000) :
    t.clock.1 < 24 ∧ t.clock.2.1 < 60 ∧ t.clock.2.2 < 60 := by
  simp only [clock]
  omega

/-- Date and time of day make up the instant. -/
theorem assemble_clock (h : t.nanos < 1000000000) :
    assemble t.date t.clock.1 t.clock.2.1 t.clock.2.2 t.nanos 0 = t := by
  have hsecond : t.clock.2.2 ≠ 60 := Nat.ne_of_lt (clock_lt h).2.2
  obtain ⟨seconds, nanos⟩ := t
  rw [assemble, if_neg hsecond, date, toDays_ofDays]
  simp only [clock, Instant.mk.injEq] at *
  omega

namespace Dated

theorem year_toNat (ht : t.Dated) : (t.date.year.toNat : Int) = t.date.year :=
  Int.toNat_of_nonneg ht.year_nonneg

theorem year_lt (ht : t.Dated) : t.date.year.toNat < 10000 := by
  have hle := ht.year_le
  omega

theorem yearText_eq (ht : t.Dated) : yearText t.date.year = padded 4 t.date.year.toNat :=
  if_pos ⟨ht.year_nonneg, ht.year_le⟩

/-- Four digits of years are well within the numbers that floats hold. -/
theorem natAbs_seconds_lt (ht : t.Dated) : t.seconds.natAbs < 2 ^ 40 := by
  obtain ⟨hlow, hhigh, -⟩ := ht
  have hyears := year_ofDays (t.seconds / 86400)
  rw [date] at hlow hhigh
  omega

theorem inRange (ht : t.Dated) : inRange t.seconds = true := by
  have hlt := ht.natAbs_seconds_lt
  have hfirst : -8334601228800 ≤ t.seconds := by omega
  have hlast : t.seconds ≤ 8210266876799 := by omega
  exact Bool.and_eq_true_iff.mpr ⟨decide_eq_true hfirst, decide_eq_true hlast⟩

end Dated

/-! ### Internet timestamps -/

/-- Either there is no fraction, or the digits after the point are read as the nanoseconds. -/
theorem fractionText_cases (h : t.nanos < 1000000000) :
    (t.fractionText = "" ∧ t.nanos = 0) ∨ ∃ digits, t.fractionText.toList = '.' :: digits ∧
      nanoseconds (digits ++ ['Z']) = .ok (t.nanos, ['Z']) := by
  have hread {width n : Nat} (hw : 0 < width) (hnine : width ≤ 9) (hn : n < 10 ^ width)
      (hnanos : n * 10 ^ (9 - width) = t.nanos) :
      ∃ digits, ("." ++ padded width n).toList = '.' :: digits ∧
        nanoseconds (digits ++ ['Z']) = .ok (t.nanos, ['Z']) := by
    refine ⟨(padded width n).toList, by simp, ?_⟩
    rw [nanoseconds_padded hw hnine hn (NoDigit.cons (by decide) []) (by simp), hnanos]
  have hregular : t.nanos % 1000000000 = t.nanos := Nat.mod_eq_of_lt h
  rw [fractionText, hregular]
  by_cases hzero : t.nanos = 0
  · exact .inl ⟨if_pos hzero, hzero⟩
  refine .inr ?_
  rw [if_neg hzero]
  by_cases hmilli : t.nanos % 1000000 = 0
  · rw [if_pos hmilli]
    exact hread (by decide) (by decide) (by omega) (by omega)
  rw [if_neg hmilli]
  by_cases hmicro : t.nanos % 1000 = 0
  · rw [if_pos hmicro]
    exact hread (by decide) (by decide) (by omega) (by omega)
  · rw [if_neg hmicro]
    exact hread (by decide) (by decide) h (by omega)

theorem toList_dateTimeText (ht : t.Dated) : t.dateTimeText.toList =
    (padded 4 t.date.year.toNat).toList ++ '-' :: ((padded 2 t.date.month).toList ++
      '-' :: ((padded 2 t.date.day).toList ++ 'T' :: ((padded 2 t.clock.1).toList ++
        ':' :: ((padded 2 t.clock.2.1).toList ++ ':' :: ((padded 2 t.clock.2.2).toList ++
          (t.fractionText.toList ++ ['Z'])))))) := by
  rw [dateTimeText]
  simp only [ht.yearText_eq, clockText]
  simp [toString]

/-- The text is not too short to be looked at. -/
theorem byteLength_dateTimeText (ht : t.Dated) : ¬ byteLength t.dateTimeText.toList < 19 := by
  have hle := length_le_byteLength t.dateTimeText.toList
  obtain ⟨⟨-, hmonth⟩, -, hday⟩ := t.bounds_date
  obtain ⟨hhour, hminute, hsecond⟩ := clock_lt ht.regular
  have htwo {n : Nat} (h : n < 100) : (padded 2 n).toList.length = 2 :=
    length_padded (by decide) h
  have hfour : (padded 4 t.date.year.toNat).toList.length = 4 :=
    length_padded (by decide) ht.year_lt
  rw [toList_dateTimeText ht] at hle ⊢
  simp only [List.length_append, List.length_cons, hfour, htwo (hmonth.trans_lt (by decide)),
    htwo (hday.trans_lt (by decide)), htwo (hhour.trans (by decide)),
    htwo (hminute.trans (by decide)), htwo (hsecond.trans (by decide))] at hle
  omega

/-- An instant is read from its internet timestamp, with every nanosecond. -/
theorem parse_dateTimeText (ht : t.Dated) : parseDateTime t.dateTimeText = .ok t := by
  obtain ⟨⟨-, hmonths⟩, -, hdays⟩ := t.bounds_date
  have hmonth : t.date.month < 100 := hmonths.trans_lt (by decide)
  have hday : t.date.day < 100 := hdays.trans_lt (by decide)
  obtain ⟨hhours, hminutes, hseconds⟩ := clock_lt ht.regular
  have hhour : t.clock.1 < 100 := hhours.trans (by decide)
  have hminute : t.clock.2.1 < 100 := hminutes.trans (by decide)
  have hsecond : t.clock.2.2 < 100 := hseconds.trans (by decide)
  have hseparator (cs : List Char) : dateSeparator ('T' :: cs) = .ok cs := rfl
  have hclock : ¬ (24 ≤ t.clock.1 ∨ 60 ≤ t.clock.2.1 ∨ 61 ≤ t.clock.2.2) := by omega
  have hzone : zone ['Z'] = .ok (0, []) := rfl
  have hassemble := assemble_clock ht.regular
  have hlong := byteLength_dateTimeText ht
  rw [toList_dateTimeText ht] at hlong
  rw [parseDateTime]
  simp only [toList_dateTimeText ht, if_neg hlong, Result.ok_bind, mark_self, hseparator,
    fourDigits_padded ht.year_lt, twoDigits_padded hmonth, twoDigits_padded hday,
    twoDigits_padded hhour, twoDigits_padded hminute, twoDigits_padded hsecond, ht.year_toNat,
    t.exists_date]
  rcases fractionText_cases ht.regular with ⟨hnone, hzero⟩ | ⟨digits, htext, hread⟩
  · rw [hzero] at hassemble
    simp only [hnone, String.toList_empty, List.nil_append, Result.pure_eq_ok, Result.ok_bind,
      if_neg hclock, hzone]
    exact congrArg Except.ok hassemble
  · simp only [htext, List.cons_append, hread, Result.pure_eq_ok, Result.ok_bind, if_neg hclock,
      hzone]
    exact congrArg Except.ok hassemble

/-! ### Dates of web servers -/

theorem toList_httpDateText (ht : t.Dated) : t.httpDateText.toList =
    (weekdayNames.getD (weekdayOfDays (t.seconds / 86400)) "").toList ++
      ',' :: ' ' :: ((padded 2 t.date.day).toList ++
        ' ' :: ((monthNames.getD (t.date.month - 1) "").toList ++
          ' ' :: ((padded 4 t.date.year.toNat).toList ++ ' ' :: ((padded 2 t.clock.1).toList ++
            ':' :: ((padded 2 t.clock.2.1).toList ++ ':' :: ((padded 2 t.clock.2.2).toList ++
              ' ' :: "GMT".toList)))))) := by
  rw [httpDateText]
  simp only [ht.yearText_eq, clockText]
  simp [toString]

/-- A year of four digits is taken for what it is, since a blank follows it. -/
theorem year_padded {year : Nat} (h : year < 10000) (rest : List Char) :
    let cs := (padded 4 year).toList ++ ' ' :: rest
    number 2 cs.length cs = .ok (year, ' ' :: rest) ∧
      fullYear (cs.length - (' ' :: rest).length) year = year := by
  intro cs
  have hlength : cs.length = 4 + (' ' :: rest).length := by
    rw [List.length_append, length_padded (by decide) h]
  have hstop : NoDigit (' ' :: rest) := NoDigit.cons (by decide) rest
  refine ⟨number_padded _ (by decide) h (by decide) (by omega) (by decide) (.inr hstop), ?_⟩
  rw [hlength, Nat.add_sub_cancel]
  rfl

/-- An instant in whole seconds is read from its date for web servers. -/
theorem parse_httpDateText (ht : t.Dated) (hwhole : t.nanos = 0) :
    parseHttpDate t.httpDateText = .ok t := by
  obtain ⟨⟨hmonths, hmonths'⟩, hdays, hdays'⟩ := t.bounds_date
  have hday : t.date.day < 100 := hdays'.trans_lt (by decide)
  have hmonth : t.date.month - 1 < monthNames.length := by
    have hlength : monthNames.length = 12 := rfl
    omega
  have hweekday : weekdayOfDays (t.seconds / 86400) < weekdayNames.length := weekdayOfDays_lt _
  obtain ⟨hhours, hminutes, hseconds⟩ := clock_lt ht.regular
  have hhour : t.clock.1 < 100 := hhours.trans (by decide)
  have hminute : t.clock.2.1 < 100 := hminutes.trans (by decide)
  have hsecond : t.clock.2.2 < 100 := hseconds.trans (by decide)
  have htrim {n : Nat} (h : n < 100) (rest : List Char) :
      Text.trimStart ((padded 2 n).toList ++ rest) = (padded 2 n).toList ++ rest :=
    trimStart_padded (by decide) h rest
  have hyear (rest : List Char) : Text.trimStart ((padded 4 t.date.year.toNat).toList ++ rest) =
      (padded 4 t.date.year.toNat).toList ++ rest :=
    trimStart_padded (by decide) ht.year_lt rest
  have hgmt : Text.trimStart "GMT".toList = "GMT".toList := rfl
  have hzone : namedZone "GMT".toList = .ok (0, []) := rfl
  have hbig : ¬ Nat.pow 2 31 ≤ t.date.year.toNat :=
    Nat.not_le.mpr (ht.year_lt.trans (by decide))
  have hlast : ¬ lastYear < t.date.year.toNat :=
    Nat.not_lt.mpr (ht.year_lt.le.trans (by decide))
  have hdate : (⟨t.date.year.toNat, t.date.month - 1 + 1, t.date.day⟩ : Date) = t.date := by
    have hback : t.date.month - 1 + 1 = t.date.month := Nat.sub_add_cancel hmonths
    rw [ht.year_toNat, hback]
  have hback : t.date.toDays = t.seconds / 86400 := toDays_ofDays _
  have hassemble := assemble_clock ht.regular
  rw [hwhole] at hassemble
  rw [parseHttpDate]
  -- the text is read piece by piece, in the order in which it is written
  simp only [toList_httpDateText ht, Result.ok_bind, space_blank, trimStart_blank, mark_self,
    trimStart_colon, shortNames_weekday.trimStart hweekday, weekday_append hweekday,
    htrim hday, number_two_padded (Nat.le_succ 1) hday, bounded_of_le hdays hdays',
    shortNames_month.trimStart hmonth, shortNames_month.shortName hmonth,
    hyear, year_padded ht.year_lt, if_neg hbig,
    htrim hhour, number_two_padded (Nat.le_refl 2) hhour,
    bounded_of_le (Nat.zero_le _) (Nat.le_of_lt_succ hhours),
    htrim hminute, number_two_padded (Nat.le_refl 2) hminute,
    bounded_of_le (Nat.zero_le _) (Nat.le_of_lt_succ hminutes),
    optionalSeconds, number_two_padded (Nat.le_refl 2) hsecond,
    bounded_of_le (Nat.zero_le _) hseconds.le,
    hgmt, hzone, hdate, t.exists_date, hlast, hback, hassemble, ht.inRange]
  simp [skipComments]

end ShapeCodec.Instant
