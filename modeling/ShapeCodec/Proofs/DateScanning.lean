import ShapeCodec.Proofs.NumberValues
import ShapeCodec.Proofs.Result
import ShapeCodec.Time.HttpDate

/-!
# Parts of dates read back

The small readers that dates are made of, each in front of whatever follows: numbers of a fixed
width, the names of months and weekdays, marks and blanks. Numbers with leading zeros come back as
the numbers, and the digits after a point as the nanoseconds they stand for.
-/

namespace ShapeCodec

/-! ### Digits -/

namespace Digit

theorem ofChar?_toChar (d : Digit) : ofChar? d.toChar = some d := by
  have key : ∀ d : Digit, ofChar? d.toChar = some d := by decide
  exact key d

theorem map_toChar_listFrom {fuel n : Nat} (h : n < 10 ^ (fuel + 1)) (rest : List Digit) :
    (listFrom (fuel + 1) n rest).map toChar = Nat.toDigits 10 n ++ rest.map toChar := by
  have hchar : ∀ d : Digit, Nat.digitChar d.val = d.toChar := by decide
  -- a number of one digit, whatever fuel is left
  have hone {fuel n : Nat} (rest : List Digit) (hn : n / 10 = 0) :
      (listFrom (fuel + 1) n rest).map toChar = Nat.toDigits 10 n ++ rest.map toChar := by
    have hlt : n < 10 := by omega
    have hmod : n % 10 = n := Nat.mod_eq_of_lt hlt
    simp [listFrom, hn, Nat.toDigits_of_lt_base hlt, ← hchar, hmod]
  induction fuel generalizing n rest with
  | zero => exact hone rest (by omega)
  | succ fuel ih =>
      by_cases hn : n / 10 = 0
      · exact hone rest hn
      · have hlt : n / 10 < 10 ^ (fuel + 1) := by
          rw [Nat.pow_succ] at h
          exact Nat.div_lt_of_lt_mul (by omega)
        rw [listFrom]
        simp only [hn, if_false]
        rw [ih hlt, Nat.toDigits_of_base_le (n := n) (by decide) (by omega), List.map_cons,
          ← hchar, List.append_assoc]
        rfl

/-- The text of a number is its digits. -/
theorem toList_toString (n : Nat) : (toString n).toList = (listOf n).map toChar := by
  have hlt : n < 10 ^ (n.log2 + 1) :=
    Nat.lt_log2_self.trans_le (Nat.pow_le_pow_left (by decide) _)
  rw [listOf, map_toChar_listFrom hlt, Nat.toString_eq_ofList_toDigits]
  simp

end Digit

theorem Digits.toList_of_ofList? {l : List Digit} {ds : Digits} (h : ofList? l = some ds) :
    ds.toList = l := by
  cases l with
  | nil => cases h
  | cons d l => exact Option.some.inj h ▸ rfl

namespace Time

/-- What follows a run of digits does not go on with it. -/
def NoDigit (rest : List Char) : Prop :=
  ∀ c ∈ rest.head?, Digit.ofChar? c = none

theorem NoDigit.cons {c : Char} (h : Digit.ofChar? c = none) (rest : List Char) :
    NoDigit (c :: rest) := by
  intro c' hc
  obtain rfl : c = c' := by simpa using hc
  exact h

theorem leadingDigits_append {limit : Nat} {ds : List Digit} {rest : List Char}
    (hlimit : ds.length ≤ limit) (hstop : ds.length = limit ∨ NoDigit rest) :
    leadingDigits limit (ds.map Digit.toChar ++ rest) = (ds, rest) := by
  induction ds generalizing limit with
  | nil =>
      rw [List.map_nil, List.nil_append]
      cases limit with
      | zero => rfl
      | succ limit =>
          cases rest with
          | nil => rfl
          | cons c rest =>
              have hc : Digit.ofChar? c = none := by
                rcases hstop with h | h
                · cases h
                · exact h c rfl
              rw [leadingDigits, hc]
  | cons d ds ih =>
      obtain ⟨limit, rfl⟩ : ∃ k, limit = k + 1 := ⟨limit - 1, by simp at hlimit; omega⟩
      have hrest : leadingDigits limit (ds.map Digit.toChar ++ rest) = (ds, rest) :=
        ih (by simpa using hlimit) (by simpa using hstop)
      rw [List.map_cons, List.cons_append, leadingDigits, Digit.ofChar?_toChar]
      simp only [hrest]

theorem length_le_byteLength (cs : List Char) : cs.length ≤ byteLength cs := by
  suffices h : ∀ n, n + cs.length ≤ cs.foldl (fun n c => n + c.utf8Size) n by
    simpa [byteLength] using h 0
  induction cs with
  | nil => simp
  | cons c cs ih =>
      intro n
      have hc := c.utf8Size_pos
      refine le_trans ?_ (ih (n + c.utf8Size))
      rw [List.length_cons]
      omega

/-! ### Numbers of a fixed width -/

section
variable {width n : Nat}

/-- A padded number has as many digits as were asked for, and they denote it. -/
theorem toList_padded (hw : 0 < width) (h : n < 10 ^ width) :
    ∃ ds : List Digit, (Calendar.padded width n).toList = ds.map Digit.toChar ∧
      ds.length = width ∧ Digit.valueFrom 0 ds = n := by
  obtain ⟨ds, hpad, hlength, hvalue⟩ := Digits.exists_padded hw h
  refine ⟨ds.toList, ?_, hlength, by simpa using hvalue 0⟩
  have hlen : (toString n).length = (Digit.listOf n).length := by
    rw [← String.length_toList, Digit.toList_toString, List.length_map]
  have hzero : Digit.zero.toChar = '0' := rfl
  rw [Calendar.padded, String.toList_append, String.toList_ofList, Digit.toList_toString, hlen,
    Digits.toList_of_ofList? hpad, List.map_append, List.map_replicate, hzero]

theorem length_padded (hw : 0 < width) (h : n < 10 ^ width) :
    (Calendar.padded width n).toList.length = width := by
  obtain ⟨ds, htext, hlength, -⟩ := toList_padded hw h
  rw [htext, List.length_map, hlength]

/-- A padded number is read back if its width is allowed and the reader knows where to stop. -/
theorem number_padded {least most : Nat} (rest : List Char) (hw : 0 < width)
    (h : n < 10 ^ width) (hleast : least ≤ width) (hmost : width ≤ most) (hfits : width ≤ 18)
    (hstop : width = most ∨ NoDigit rest) :
    number least most ((Calendar.padded width n).toList ++ rest) = .ok (n, rest) := by
  obtain ⟨ds, htext, hlength, hvalue⟩ := toList_padded hw h
  have hlong := length_le_byteLength (ds.map Digit.toChar ++ rest)
  rw [List.length_append, List.length_map] at hlong
  have hbound : n < Nat.pow 2 63 :=
    calc n < 10 ^ width := h
      _ ≤ 10 ^ 18 := Nat.pow_le_pow_right (by decide) hfits
      _ ≤ Nat.pow 2 63 := by decide
  rw [number, htext, if_neg (by omega), leadingDigits_append (by omega) (by rwa [hlength])]
  simp only [hvalue]
  rw [if_neg (by omega), if_neg (by omega)]

theorem number_two_padded {least : Nat} (hleast : least ≤ 2) (h : n < 100) (rest : List Char) :
    number least 2 ((Calendar.padded 2 n).toList ++ rest) = .ok (n, rest) :=
  number_padded rest (by decide) h hleast (by decide) (by decide) (.inl rfl)

theorem bounded_of_le {low high : Nat} (hlow : low ≤ n) (hhigh : n ≤ high) :
    bounded low high n = .ok () :=
  if_pos ⟨hlow, hhigh⟩

theorem oneDigit_toChar (d : Digit) (rest : List Char) :
    oneDigit (d.toChar :: rest) = .ok (d.val, rest) := by
  rw [oneDigit, Digit.ofChar?_toChar]

theorem twoDigits_padded (h : n < 100) (rest : List Char) :
    twoDigits ((Calendar.padded 2 n).toList ++ rest) = .ok (n, rest) := by
  have htwo : n < 10 ^ 2 := h
  obtain ⟨ds, htext, hlength, hvalue⟩ := toList_padded (by decide) htwo
  match ds, hlength with
  | [a, b], _ =>
    have hvalue : 10 * a.val + b.val = n := by simpa [Digit.valueFrom] using hvalue
    rw [htext]
    simp only [List.map_cons, List.map_nil, List.cons_append, List.nil_append, twoDigits,
      oneDigit_toChar, Result.ok_bind, Result.pure_eq_ok, hvalue]

theorem fourDigits_padded (h : n < 10000) (rest : List Char) :
    fourDigits ((Calendar.padded 4 n).toList ++ rest) = .ok (n, rest) := by
  have hfour : n < 10 ^ 4 := h
  obtain ⟨ds, htext, hlength, hvalue⟩ := toList_padded (by decide) hfour
  match ds, hlength with
  | [a, b, c, d], _ =>
    have hvalue : 100 * (10 * a.val + b.val) + (10 * c.val + d.val) = n := by
      simp only [Digit.valueFrom, List.foldl_cons, List.foldl_nil] at hvalue
      omega
    rw [htext]
    simp only [List.map_cons, List.map_nil, List.cons_append, List.nil_append, fourDigits,
      twoDigits, oneDigit_toChar, Result.ok_bind, Result.pure_eq_ok, hvalue]

/-- Digits after a point count down from the tenth of a second. -/
theorem nanoseconds_padded (hw : 0 < width) (hnine : width ≤ 9) (h : n < 10 ^ width)
    {rest : List Char} (hstop : NoDigit rest) (hrest : ∀ c ∈ rest.head?, c.isDigit = false) :
    nanoseconds ((Calendar.padded width n).toList ++ rest) = .ok (n * 10 ^ (9 - width), rest) := by
  have hnumber := number_padded rest hw h hw hnine (by omega) (.inr hstop)
  obtain ⟨ds, htext, hlength, hvalue⟩ := toList_padded hw h
  have hdrop : rest.dropWhile Char.isDigit = rest := by
    cases rest with
    | nil => rfl
    | cons c rest => rw [List.dropWhile_cons_of_neg (by simp [hrest c rfl])]
  rw [htext] at hnumber ⊢
  rw [nanoseconds, hnumber]
  simp only [Result.ok_bind, leadingDigits_append (hlength.trans_le hnine) (.inr hstop), hlength,
    hvalue, hdrop]
  rfl

end

/-! ### Marks and blanks -/

theorem mark_self (c : Char) (cs : List Char) : mark c (c :: cs) = .ok cs :=
  if_pos rfl

theorem space_blank (cs : List Char) : space (' ' :: cs) = .ok (Text.trimStart cs) := by
  have hblank : Text.isBlank ' ' = true := by decide
  rw [space, if_pos hblank]

theorem trimStart_blank (cs : List Char) : Text.trimStart (' ' :: cs) = Text.trimStart cs :=
  rfl

theorem trimStart_colon (cs : List Char) : Text.trimStart (':' :: cs) = ':' :: cs :=
  rfl

/-- What starts with something else than a blank has none to be dropped. -/
theorem trimStart_append {word : List Char} (h : word.head?.any (!Text.isBlank ·) = true)
    (rest : List Char) : Text.trimStart (word ++ rest) = word ++ rest := by
  cases word with
  | nil => cases h
  | cons c word =>
      have hc : Text.isBlank c = false := by simpa using h
      rw [List.cons_append, Text.trimStart, List.dropWhile_cons_of_neg (by simp [hc])]

theorem trimStart_padded {width n : Nat} (hw : 0 < width) (h : n < 10 ^ width) (rest : List Char) :
    Text.trimStart ((Calendar.padded width n).toList ++ rest) =
      (Calendar.padded width n).toList ++ rest := by
  have hdigit : ∀ d : Digit, Text.isBlank d.toChar = false := by decide
  obtain ⟨ds, htext, hlength, -⟩ := toList_padded hw h
  refine trimStart_append ?_ rest
  rw [htext]
  cases ds with
  | nil => simp at hlength; omega
  | cons d ds => simp [hdigit]

/-! ### Names -/

/-- A name of three letters is found among those that it belongs to. -/
theorem shortName_append {names : List String} {name : String} {i : Nat}
    (hname : name.toList.length = 3) (hi : names.findIdx? (sameLetters name.toList) = some i)
    (rest : List Char) : shortName names (name.toList ++ rest) = .ok (i, rest) := by
  have hlong := length_le_byteLength (name.toList ++ rest)
  rw [List.length_append] at hlong
  have htake : (name.toList ++ rest).take 3 = name.toList := by rw [← hname, List.take_left]
  have hdrop : (name.toList ++ rest).drop 3 = rest := by rw [← hname, List.drop_left]
  rw [shortName, if_neg (by omega), htake, hi, hdrop]

/-- Names of three letters that can be told apart, none of which starts with a blank. -/
structure ShortNames (names : List String) : Prop where
  length : ∀ i < names.length, (names.getD i "").toList.length = 3
  find : ∀ i < names.length,
    names.findIdx? (sameLetters (names.getD i "").toList) = some i
  head : ∀ i < names.length, (names.getD i "").toList.head?.any (!Text.isBlank ·) = true

theorem shortNames_month : ShortNames Calendar.monthNames := by
  constructor <;> decide

theorem shortNames_weekday : ShortNames Calendar.weekdayNames := by
  constructor <;> decide

namespace ShortNames

variable {names : List String} {i : Nat}

theorem shortName (h : ShortNames names) (hi : i < names.length) (rest : List Char) :
    shortName names ((names.getD i "").toList ++ rest) = .ok (i, rest) :=
  shortName_append (h.length i hi) (h.find i hi) rest

theorem trimStart (h : ShortNames names) (hi : i < names.length) (rest : List Char) :
    Text.trimStart ((names.getD i "").toList ++ rest) = (names.getD i "").toList ++ rest :=
  trimStart_append (h.head i hi) rest

end ShortNames

/-- A weekday is read with its comma. -/
theorem weekday_append {i : Nat} (hi : i < Calendar.weekdayNames.length) (rest : List Char) :
    weekday ((Calendar.weekdayNames.getD i "").toList ++ ',' :: rest) = .ok (some i, rest) := by
  rw [weekday, shortNames_weekday.shortName hi]
  rfl

end Time
end ShapeCodec
