import Mathlib.Tactic.IntervalCases
import Mathlib.Tactic.SplitIfs
import ShapeCodec.Time.Calendar

/-!
# Days and dates

Every day has a date that exists, and the date leads back to the day. A day is placed within its era
of four hundred years and then within a year that begins in March; both are found by divisions, so
the work is to show that the divisions find the right year.
-/

namespace ShapeCodec.Calendar

/-! ### Years of an era -/

/-- The days of an era that come before a year of it. -/
def daysBefore (year : Nat) : Nat :=
  365 * year + year / 4 - year / 100

/-- The year of an era that a day of it falls in. -/
def yearOfEra (day : Nat) : Nat :=
  (day - day / 1460 + day / 36524 - day / 146096) / 365

theorem yearOfEra_mono {a b : Nat} (h : a ≤ b) : yearOfEra a ≤ yearOfEra b := by
  have hfour (n : Nat) : n / 146096 = n / 36524 / 4 := by omega
  have hcentury : a / 36524 ≤ b / 36524 := Nat.div_le_div_right h
  have hday : a - a / 1460 ≤ b - b / 1460 := by omega
  refine Nat.div_le_div_right ?_
  rw [hfour, hfour]
  omega

/-- The first and the last day of every year fall in that year. -/
theorem yearOfEra_ends : ∀ year < 400, yearOfEra (daysBefore year) = year ∧
    yearOfEra (daysBefore (year + 1) + (year + 1) / 400 - 1) = year := by
  decide +kernel

/-- A year has 366 days if the one that it ends in is a leap year. -/
theorem daysBefore_succ : ∀ year < 400, daysBefore (year + 1) + (year + 1) / 400 =
    daysBefore year + if isLeapYear (year + 1) then 366 else 365 := by
  decide +kernel

/-- A day lies between the first days of its year and of the next one. -/
theorem daysBefore_le {day : Nat} (h : day < 146097) : yearOfEra day < 400 ∧
    daysBefore (yearOfEra day) ≤ day ∧
      day < daysBefore (yearOfEra day + 1) + (yearOfEra day + 1) / 400 := by
  have hlt : yearOfEra day < 400 := by
    have hlast : yearOfEra 146096 = 399 := by decide
    have hle : yearOfEra day ≤ yearOfEra 146096 := yearOfEra_mono (by omega)
    omega
  refine ⟨hlt, ?_, ?_⟩
  · -- any earlier day falls in the year before, or in one before that
    by_contra hlow
    obtain ⟨year, hyear⟩ : ∃ year, yearOfEra day = year + 1 := by
      refine ⟨yearOfEra day - 1, ?_⟩
      have hpos : yearOfEra day ≠ 0 := fun h0 => hlow (by simp [h0, daysBefore])
      omega
    rw [hyear] at hlt hlow
    have hzero : (year + 1) / 400 = 0 := Nat.div_eq_of_lt hlt
    have hend := (yearOfEra_ends year (by omega)).2
    rw [hzero, Nat.add_zero] at hend
    have hle : yearOfEra day ≤ yearOfEra (daysBefore (year + 1) - 1) := yearOfEra_mono (by omega)
    omega
  · by_contra hhigh
    by_cases hlast : yearOfEra day + 1 < 400
    · have hstart := (yearOfEra_ends (yearOfEra day + 1) hlast).1
      have hle : yearOfEra (daysBefore (yearOfEra day + 1)) ≤ yearOfEra day :=
        yearOfEra_mono (by omega)
      omega
    · have hyear : yearOfEra day = 399 := by omega
      simp only [hyear, daysBefore] at hhigh
      omega

/-- The place of a day within its year. -/
def dayOfYear (day : Nat) : Nat :=
  day - daysBefore (yearOfEra day)

theorem daysBefore_add_dayOfYear {day : Nat} (h : day < 146097) :
    daysBefore (yearOfEra day) + dayOfYear day = day :=
  Nat.add_sub_cancel' (daysBefore_le h).2.1

theorem dayOfYear_lt {day : Nat} (h : day < 146097) :
    dayOfYear day < if isLeapYear (yearOfEra day + 1) then 366 else 365 := by
  obtain ⟨hlt, -, hhigh⟩ := daysBefore_le h
  rw [daysBefore_succ _ hlt] at hhigh
  have hsplit := daysBefore_add_dayOfYear h
  omega

/-- Leap years come again with every era. -/
theorem isLeapYear_add (year era : Int) : isLeapYear (year + era * 400) = isLeapYear year := by
  have hfour : (year + era * 400) % 4 = year % 4 := by omega
  have hcentury : (year + era * 400) % 100 = year % 100 := by omega
  have hera : (year + era * 400) % 400 = year % 400 := by omega
  rw [isLeapYear, hfour, hcentury, hera, isLeapYear]

/-! ### The date of a day -/

/-- The date at a place within a year of an era; the year begins in March. -/
def dateAt (era : Int) (year place : Nat) : Date :=
  let fromMarch := (5 * place + 2) / 153
  let month := if fromMarch < 10 then fromMarch + 3 else fromMarch - 9
  { year := if month ≤ 2 then year + era * 400 + 1 else year + era * 400
    month
    day := place - (153 * fromMarch + 2) / 5 + 1 }

/-- A day is a day of some era, and its date is the one at its place. -/
theorem ofDays_eq (days : Int) : ∃ (era : Int) (day : Nat), day < 146097 ∧
    days = era * 146097 + day - 719468 ∧
      Date.ofDays days = dateAt era (yearOfEra day) (dayOfYear day) :=
  ⟨(days + 719468) / 146097, ((days + 719468) % 146097).toNat, by omega, by omega, rfl⟩

theorem toDays_dateAt {era : Int} {year place : Nat} (hyear : year < 400) (hplace : place < 366) :
    (dateAt era year place).toDays = era * 146097 + daysBefore year + place - 719468 := by
  obtain ⟨fromMarch, hmarch⟩ : ∃ i, (5 * place + 2) / 153 = i := ⟨_, rfl⟩
  obtain ⟨month, hmonth⟩ : ∃ i, (if fromMarch < 10 then fromMarch + 3 else fromMarch - 9) = i :=
    ⟨_, rfl⟩
  simp only [dateAt, Date.toDays, hmarch, hmonth]
  have hback : (month + 9) % 12 = fromMarch := by split at hmonth <;> omega
  have hfirst : (153 * fromMarch + 2) / 5 ≤ place := by omega
  have hstart : (if month ≤ 2 then
      (if month ≤ 2 then year + era * 400 + 1 else year + era * 400 : Int) - 1
      else (if month ≤ 2 then year + era * 400 + 1 else year + era * 400 : Int)) =
        year + era * 400 := by
    split <;> omega
  have hera : (year + era * 400) / 400 = era := by omega
  have hrest : (year + era * 400) % 400 = year := by omega
  rw [hback, hstart, hera, hrest, daysBefore]
  omega

/-- The date of a day leads back to the day. -/
theorem toDays_ofDays (days : Int) : (Date.ofDays days).toDays = days := by
  obtain ⟨era, day, hday, rfl, hdate⟩ := ofDays_eq days
  have hplace : dayOfYear day < 366 := (dayOfYear_lt hday).trans_le (by split <;> omega)
  have hsplit := daysBefore_add_dayOfYear hday
  rw [hdate, toDays_dateAt (daysBefore_le hday).1 hplace]
  omega

/-- Counted from March, a month ends where the next one begins, unless it is the last. -/
theorem start_add_daysInMonth (year : Int) {i : Nat} (hi : i < 11) :
    (153 * i + 2) / 5 + daysInMonth year (if i < 10 then i + 3 else i - 9) =
      (153 * (i + 1) + 2) / 5 := by
  interval_cases i <;> rfl

/-- The date of a day exists. -/
theorem exists_ofDays (days : Int) : (Date.ofDays days).exists = true := by
  obtain ⟨era, day, hday, -, hdate⟩ := ofDays_eq days
  have hlt := dayOfYear_lt hday
  rw [← isLeapYear_add _ era, add_right_comm] at hlt
  rw [hdate]
  generalize yearOfEra day = year at hlt
  generalize dayOfYear day = place at hlt
  obtain ⟨fromMarch, hmarch⟩ : ∃ i, (5 * place + 2) / 153 = i := ⟨_, rfl⟩
  simp only [dateAt, Date.exists, Bool.and_eq_true, decide_eq_true_eq, hmarch]
  have hlast : fromMarch ≤ 11 := by
    have hplace : place < 366 := hlt.trans_le (by split <;> omega)
    omega
  rcases hlast.lt_or_eq with hnext | rfl
  · generalize hmonth : (if fromMarch < 10 then fromMarch + 3 else fromMarch - 9) = month
    have hbounds : 1 ≤ month ∧ month ≤ 12 := by split at hmonth <;> omega
    have hend := start_add_daysInMonth (if month ≤ 2 then year + era * 400 + 1
      else year + era * 400) hnext
    rw [hmonth] at hend
    omega
  · -- February comes last, and its length depends on the year
    have hleap : daysInMonth (year + era * 400 + 1) 2 =
        if isLeapYear (year + era * 400 + 1) then 29 else 28 := rfl
    have hplace : place - 337 + 1 ≤ daysInMonth (year + era * 400 + 1) 2 := by
      rw [hleap]
      split at hlt
      · rw [if_pos ‹_›]
        omega
      · rw [if_neg ‹_›]
        omega
    exact ⟨⟨⟨by decide, by decide⟩, Nat.le_add_left 1 _⟩, hplace⟩

/-- The month and the day of the month of a date lie within their widest bounds. -/
theorem bounds_ofDays (days : Int) :
    (1 ≤ (Date.ofDays days).month ∧ (Date.ofDays days).month ≤ 12) ∧
      1 ≤ (Date.ofDays days).day ∧ (Date.ofDays days).day ≤ 31 := by
  have hexists := exists_ofDays days
  simp only [Date.exists, Bool.and_eq_true, decide_eq_true_eq] at hexists
  have hlongest : daysInMonth (Date.ofDays days).year (Date.ofDays days).month ≤ 31 := by
    unfold daysInMonth
    split_ifs <;> omega
  omega

/-- Years are counted on from the first one of the era. -/
theorem year_ofDays (days : Int) : 400 * ((days + 719468) / 146097) ≤ (Date.ofDays days).year ∧
    (Date.ofDays days).year ≤ 400 * ((days + 719468) / 146097) + 400 := by
  obtain ⟨era, day, hday, rfl, hdate⟩ := ofDays_eq days
  have hlt := (daysBefore_le hday).1
  rw [hdate, dateAt]
  simp only
  generalize yearOfEra day = year at hlt
  split <;> omega

theorem weekdayOfDays_lt (days : Int) : weekdayOfDays days < 7 := by
  unfold weekdayOfDays
  omega

end ShapeCodec.Calendar
