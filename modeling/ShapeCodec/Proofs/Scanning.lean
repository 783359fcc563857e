import ShapeCodec.Json.Parser
import ShapeCodec.Json.Printer
import ShapeCodec.Proofs.Base64

/-!
# Words read back

The words of JSON text, scanned in front of whatever follows. Numbers come back with every digit
they were written with, and strings with every character, whether it was escaped or not.
-/

namespace ShapeCodec

theorem Bytes.ofString_eq (s : String) :
    Bytes.ofString s = s.toList.flatMap String.utf8EncodeChar := by
  rw [Bytes.ofString, String.toUTF8_eq_toByteArray, ← String.utf8Encode_toList, List.utf8Encode]
  simp

@[simp] theorem Bytes.ofString_append (s t : String) :
    Bytes.ofString (s ++ t) = Bytes.ofString s ++ Bytes.ofString t := by
  simp only [Bytes.ofString_eq, String.toList_append, List.flatMap_append]

@[simp] theorem Bytes.ofString_empty : Bytes.ofString "" = [] := rfl

namespace Json.Scanner

variable {α β : Type}

/-- A scanner goes on with what the one before it left. -/
theorem bind_of_ok {s : Scanner α} {f : α → Scanner β} {input rest : Bytes} {a : α}
    (h : s input = .ok (a, rest)) : (s >>= f) input = f a rest := by
  show (s input >>= fun p => f p.1 p.2) = _
  rw [h]
  rfl

theorem name_byte (cs : List Char) (rest : Bytes) :
    name cs (cs.map byte ++ rest) = .ok ((), rest) := by
  induction cs with
  | nil => rfl
  | cons c cs ih =>
      rw [name]
      refine (bind_of_ok (rfl : next? _ = .ok (some (byte c), _))).trans ?_
      simpa using ih

/-! ### Numbers -/

/-- The bytes of a run of digits. -/
def digitBytes (ds : List Digit) : Bytes :=
  ds.map fun d => byte d.toChar

theorem digit?_toChar (d : Digit) : digit? (byte d.toChar) = some d := by
  have key : ∀ d : Digit, digit? (byte d.toChar) = some d := by decide
  exact key d

theorem utf8EncodeChar_toChar (d : Digit) : String.utf8EncodeChar d.toChar = [byte d.toChar] := by
  have key : ∀ d : Digit, String.utf8EncodeChar d.toChar = [byte d.toChar] := by decide
  exact key d

theorem ofString_textOf (ds : List Digit) : Bytes.ofString (Digit.textOf ds) = digitBytes ds := by
  rw [Bytes.ofString_eq, Digit.textOf, String.toList_ofList]
  induction ds with
  | nil => rfl
  | cons d ds ih =>
      rw [List.map_cons, List.flatMap_cons, utf8EncodeChar_toChar, ih]
      rfl

/-- What follows a number does not go on with it. -/
def Delimited (rest : Bytes) : Prop :=
  ∀ b ∈ rest.head?, digit? b = none ∧ b ≠ byte '.' ∧ b ≠ byte 'e' ∧ b ≠ byte 'E'

/-- What follows a run of digits is no digit. -/
def NoDigit (rest : Bytes) : Prop :=
  ∀ b ∈ rest.head?, digit? b = none

theorem Delimited.noDigit {rest : Bytes} (h : Delimited rest) : NoDigit rest :=
  fun b hb => (h b hb).1

theorem NoDigit.cons {b : UInt8} (h : digit? b = none) (rest : Bytes) : NoDigit (b :: rest) := by
  intro b' hb
  obtain rfl : b = b' := by simpa using hb
  exact h

theorem spanDigits_append (ds : List Digit) {rest : Bytes} (h : NoDigit rest) :
    spanDigits (digitBytes ds ++ rest) = (ds, rest) := by
  induction ds with
  | nil =>
      cases rest with
      | nil => rfl
      | cons b rest =>
          show spanDigits (b :: rest) = _
          rw [spanDigits, h b (by simp)]
  | cons d ds ih =>
      show spanDigits (byte d.toChar :: (digitBytes ds ++ rest)) = _
      rw [spanDigits, digit?_toChar]
      simp only [ih]

theorem digits_append (ds : List Digit) {rest : Bytes} (h : NoDigit rest) :
    digits (digitBytes ds ++ rest) = .ok (ds, rest) :=
  congrArg Except.ok (spanDigits_append ds h)

theorem valueFrom_append (n : Nat) (ds : List Digit) (d : Digit) :
    Digit.valueFrom n (ds ++ [d]) = 10 * Digit.valueFrom n ds + d.val := by
  simp [Digit.valueFrom]

/-- The text of a whole number has no needless zeros in front. -/
theorem exists_digits (n : Nat) : ∃ d ds, Bytes.ofString (toString n) = digitBytes (d :: ds) ∧
    Digit.valueFrom 0 (d :: ds) = n ∧ (d.val = 0 → ds = []) := by
  suffices h : ∃ d ds, Nat.toDigits 10 n = (d :: ds).map Digit.toChar ∧
      Digit.valueFrom 0 (d :: ds) = n ∧ (d.val = 0 → ds = []) by
    obtain ⟨d, ds, htext, hvalue, hzero⟩ := h
    refine ⟨d, ds, ?_, hvalue, hzero⟩
    rw [Nat.toString_eq_ofList_toDigits, htext]
    exact ofString_textOf (d :: ds)
  have hchar : ∀ d : Digit, Nat.digitChar d.val = d.toChar := by decide
  induction n using Nat.strongRecOn with
  | ind n ih =>
      by_cases hn : n < 10
      · refine ⟨⟨n, hn⟩, [], ?_, by simp [Digit.valueFrom], fun _ => rfl⟩
        rw [Nat.toDigits_of_lt_base hn]
        exact congrArg (fun c => [c]) (hchar ⟨n, hn⟩)
      · obtain ⟨d, ds, htext, hvalue, hzero⟩ := ih (n / 10) (by omega)
        refine ⟨d, ds ++ [⟨n % 10, by omega⟩], ?_, ?_, fun hd => ?_⟩
        · rw [Nat.toDigits_of_base_le (by decide) (by omega), htext,
            hchar ⟨n % 10, by omega⟩]
          simp
        · rw [← List.cons_append, valueFrom_append, hvalue]
          show 10 * (n / 10) + n % 10 = n
          omega
        · -- a first digit of zero would be the only one of a number that is not zero
          obtain rfl := hzero hd
          simp only [Digit.valueFrom, List.foldl_cons, List.foldl_nil, hd] at hvalue
          omega

theorem whole_append {d : Digit} {ds : List Digit} {rest : Bytes} (hd : d.val = 0 → ds = [])
    (h : NoDigit rest) : whole (digitBytes (d :: ds) ++ rest) = .ok (d :: ds, rest) := by
  unfold whole
  refine (bind_of_ok (rfl : next? _ = .ok (some (byte d.toChar), digitBytes ds ++ rest))).trans ?_
  simp only [digit?_toChar]
  by_cases hzero : d.val = 0
  · obtain rfl := hd hzero
    obtain rfl : d = .zero := Fin.ext hzero
    simp only [hzero, if_true]
    refine (bind_of_ok (rfl : peek? _ = .ok (rest.head?, rest))).trans ?_
    have hnone : rest.head?.bind digit? = none := by
      cases rest with
      | nil => rfl
      | cons b rest => simpa using h b (by simp)
    rw [hnone]
    rfl
  · simp only [hzero, if_false]
    exact bind_of_ok (digits_append ds h)

/-- The bytes of the digits after the point, with the point. -/
def fractionBytes : Option Digits → Bytes
  | none => []
  | some ds => byte '.' :: digitBytes ds.toList

/-- The bytes of an exponent, with its mark and sign. -/
def exponentBytes : Option (Bool × Digits) → Bytes
  | none => []
  | some (negative, ds) =>
    byte 'e' :: (if negative then byte '-' else byte '+') :: digitBytes ds.toList

theorem fraction_append (ds : Option Digits) {rest : Bytes} (h : NoDigit rest)
    (hpoint : rest.head? ≠ some (byte '.')) :
    fraction (fractionBytes ds ++ rest) = .ok (ds, rest) := by
  unfold fraction
  cases ds with
  | none =>
      refine (bind_of_ok (rfl : peek? rest = .ok (rest.head?, rest))).trans ?_
      rw [if_neg hpoint]
      rfl
  | some ds =>
      refine (bind_of_ok (rfl : peek? _ = .ok (some (byte '.'), _))).trans ?_
      rw [if_pos rfl]
      refine (bind_of_ok (rfl : skip _ = .ok ((), digitBytes ds.toList ++ rest))).trans ?_
      exact bind_of_ok (digits_append ds.toList h)

theorem exponent_append (e : Option (Bool × Digits)) {rest : Bytes} (h : Delimited rest) :
    exponent (exponentBytes e ++ rest) = .ok (e, rest) := by
  unfold exponent
  match e with
  | none =>
      refine (bind_of_ok (rfl : peek? rest = .ok (rest.head?, rest))).trans ?_
      cases rest with
      | nil => rfl
      | cons b rest =>
          obtain ⟨-, -, hlower, hupper⟩ := h b (by simp)
          simp only [List.head?_cons, hlower, hupper, or_self, if_false]
          rfl
  | some (negative, ds) =>
      refine (bind_of_ok (rfl : peek? _ = .ok (some (byte 'e'), _))).trans ?_
      simp only [true_or, if_true]
      refine (bind_of_ok (rfl : skip _ = .ok ((), _))).trans ?_
      have hsign : exponentSign ((if negative then byte '-' else byte '+') ::
          (digitBytes ds.toList ++ rest)) = .ok (negative, digitBytes ds.toList ++ rest) := by
        cases negative <;> rfl
      refine (bind_of_ok hsign).trans ?_
      refine (bind_of_ok (rfl : next? _ = .ok (some (byte ds.first.toChar),
        digitBytes ds.rest ++ rest))).trans ?_
      simp only [digit?_toChar]
      exact bind_of_ok (digits_append ds.rest h.noDigit)

theorem exponentBytes_noDigit (e : Option (Bool × Digits)) {rest : Bytes} (h : Delimited rest) :
    NoDigit (exponentBytes e ++ rest) ∧ (exponentBytes e ++ rest).head? ≠ some (byte '.') := by
  match e with
  | none =>
      refine ⟨h.noDigit, fun hp => ?_⟩
      exact (h _ hp).2.1 rfl
  | some (negative, ds) => exact ⟨.cons (by decide) _, by simp [exponentBytes]; decide⟩

theorem fractionBytes_noDigit (ds : Option Digits) {rest : Bytes} (h : NoDigit rest) :
    NoDigit (fractionBytes ds ++ rest) := by
  cases ds with
  | none => exact h
  | some ds => exact .cons (by decide) _

/-- The bytes of a numeral are its sign, its whole part, its fraction and its exponent. -/
theorem ofString_numeral (n : Numeral) : Bytes.ofString n.text =
    (if n.negative then [byte '-'] else []) ++ Bytes.ofString (toString n.whole) ++
      fractionBytes n.fraction ++ exponentBytes n.exponent := by
  obtain ⟨negative, whole, fraction, exponent⟩ := n
  simp only [Numeral.text, Numeral.textWith, Bytes.ofString_append]
  have hsign : Bytes.ofString (if negative then "-" else "") =
      if negative then [byte '-'] else [] := by
    cases negative <;> rfl
  rw [hsign]
  congr 1
  · congr 1
    cases fraction with
    | none => rfl
    | some ds => simp only [Bytes.ofString_append, Digits.text, ofString_textOf]; rfl
  · match exponent with
    | none => rfl
    | some (negative, ds) =>
        simp only [Bytes.ofString_append, Digits.text, ofString_textOf]
        cases negative <;> rfl

/-- A number is read back digit by digit. -/
theorem number_append (n : Numeral) {rest : Bytes} (h : Delimited rest) :
    number n.negative (Bytes.ofString (toString n.whole) ++ fractionBytes n.fraction ++
      exponentBytes n.exponent ++ rest) = .ok (n, rest) := by
  obtain ⟨d, ds, htext, hvalue, hzero⟩ := exists_digits n.whole
  obtain ⟨hdigit, hpoint⟩ := exponentBytes_noDigit n.exponent h
  rw [htext, List.append_assoc, List.append_assoc]
  unfold number
  refine (bind_of_ok (whole_append hzero (fractionBytes_noDigit n.fraction hdigit))).trans ?_
  refine (bind_of_ok (fraction_append n.fraction hdigit hpoint)).trans ?_
  refine (bind_of_ok (exponent_append n.exponent h)).trans ?_
  rw [hvalue]
  rfl

/-! ### Strings -/

/-- A byte that stands for itself within a string. -/
def IsPlain (b : UInt8) : Prop :=
  b ≠ byte '"' ∧ b ≠ byte '\\' ∧ ¬ b < 32

theorem stringBytes_plain {bytes : Bytes} (h : ∀ b ∈ bytes, IsPlain b) (fuel : Nat)
    (read rest : Bytes) : stringBytes (fuel + bytes.length) read (bytes ++ rest) =
      stringBytes fuel (bytes.reverse ++ read) rest := by
  induction bytes generalizing read with
  | nil => rfl
  | cons b bytes ih =>
      obtain ⟨⟨hquote, hslash, hcontrol⟩, h⟩ := List.forall_mem_cons.mp h
      rw [List.length_cons, ← Nat.add_assoc, stringBytes]
      refine (bind_of_ok (rfl : next? _ = .ok (some b, bytes ++ rest))).trans ?_
      simp only [hquote, hslash, hcontrol, if_false]
      rw [ih h]
      simp

theorem stringBytes_escape {bytes : Bytes} {c : Char}
    (h : ∀ rest, escape (bytes ++ rest) = .ok (c, rest)) (fuel : Nat) (read rest : Bytes) :
    stringBytes (fuel + 1) read (byte '\\' :: (bytes ++ rest)) =
      stringBytes fuel ((String.utf8EncodeChar c).reverse ++ read) rest := by
  rw [stringBytes]
  refine (bind_of_ok (rfl : next? _ = .ok (some (byte '\\'), bytes ++ rest))).trans ?_
  have hne : byte '\\' ≠ byte '"' := by decide
  simp only [hne, if_false, if_true]
  exact bind_of_ok (h rest)

theorem hex4_append {bytes : Bytes} {n : Nat} (hl : bytes.length = 4)
    (hv : hexValue? bytes = some n) (rest : Bytes) : hex4 (bytes ++ rest) = .ok (n, rest) := by
  have hlt : ¬ (bytes ++ rest).length < 4 := by
    rw [List.length_append]
    omega
  rw [hex4, if_neg hlt, List.take_left' hl, List.drop_left' hl, hv]

/-- The escape of a control is its number. -/
theorem escape_control {c : Char} (h : c.toNat < 32) (rest : Bytes) :
    escape (byte 'u' :: (Bytes.ofString (Json.hex4 c.toNat) ++ rest)) = .ok (c, rest) := by
  have key : ∀ n : Fin 32, (Bytes.ofString (Json.hex4 n)).length = 4 ∧
      hexValue? (Bytes.ofString (Json.hex4 n)) = some n.val := by decide
  obtain ⟨hl, hv⟩ := key ⟨c.toNat, h⟩
  unfold escape
  refine (bind_of_ok (rfl : next? _ = .ok (some (byte 'u'), _))).trans ?_
  show hexEscape _ = _
  unfold hexEscape
  refine (bind_of_ok (hex4_append hl hv rest)).trans ?_
  have hlow : ¬ (0xDC00 ≤ c.toNat ∧ c.toNat ≤ 0xDFFF) := by omega
  have hplain : c.toNat < 0xD800 ∨ 0xDBFF < c.toNat := by omega
  simp only [hlow, hplain, if_false, if_true, Char.ofNat_toNat]
  rfl

theorem isPlain_iff {b : UInt8} : IsPlain b ↔ b.toNat ≠ 34 ∧ b.toNat ≠ 92 ∧ 32 ≤ b.toNat := by
  rw [IsPlain, UInt8.lt_iff_toNat_lt, Nat.not_lt, ne_eq, ← UInt8.toNat_inj, ne_eq,
    ← UInt8.toNat_inj]
  rfl

/-- A character that needs no escape is written in bytes that stand for themselves. -/
theorem isPlain_of_mem_utf8 {c : Char} (hquote : c ≠ '"') (hslash : c ≠ '\\')
    (hcontrol : ¬ c.toNat < 32) : ∀ b ∈ String.utf8EncodeChar c, IsPlain b := by
  have h34 : c.toNat ≠ 34 := fun h => hquote (Char.toNat_inj.mp h)
  have h92 : c.toNat ≠ 92 := fun h => hslash (Char.toNat_inj.mp h)
  have hv : c.val.toNat = c.toNat := rfl
  intro b hb
  rw [isPlain_iff]
  -- one byte is the character itself, and all others have their top bit set
  unfold String.utf8EncodeChar at hb
  simp only [hv] at hb
  split at hb
  · obtain rfl := List.mem_singleton.mp hb
    rw [UInt8.toNat_ofNat']
    omega
  · split at hb
    · simp only [List.mem_cons, List.not_mem_nil, or_false] at hb
      rcases hb with rfl | rfl <;> rw [UInt8.toNat_ofNat'] <;> omega
    · split at hb
      · simp only [List.mem_cons, List.not_mem_nil, or_false] at hb
        rcases hb with rfl | rfl | rfl <;> rw [UInt8.toNat_ofNat'] <;> omega
      · simp only [List.mem_cons, List.not_mem_nil, or_false] at hb
        rcases hb with rfl | rfl | rfl | rfl <;> rw [UInt8.toNat_ofNat'] <;> omega

/-- A character is escaped, or else written as it is. -/
theorem escapeChar_cases (c : Char) :
    (Bytes.ofString (escapeChar c) = String.utf8EncodeChar c ∧
      ∀ b ∈ String.utf8EncodeChar c, IsPlain b) ∨
    ∃ bytes, Bytes.ofString (escapeChar c) = byte '\\' :: bytes ∧
      ∀ rest, escape (bytes ++ rest) = .ok (c, rest) := by
  by_cases hquote : c = '"'
  · subst hquote
    exact .inr ⟨[byte '"'], by decide, fun _ => rfl⟩
  by_cases hslash : c = '\\'
  · subst hslash
    exact .inr ⟨[byte '\\'], by decide, fun _ => rfl⟩
  by_cases hback : c.toNat = 8
  · obtain rfl : c = Char.ofNat 8 := Char.toNat_inj.mp hback
    exact .inr ⟨[byte 'b'], by decide, fun _ => rfl⟩
  by_cases hfeed : c.toNat = 12
  · obtain rfl : c = Char.ofNat 12 := Char.toNat_inj.mp hfeed
    exact .inr ⟨[byte 'f'], by decide, fun _ => rfl⟩
  by_cases hline : c = '\n'
  · subst hline
    exact .inr ⟨[byte 'n'], by decide, fun _ => rfl⟩
  by_cases hreturn : c = '\r'
  · subst hreturn
    exact .inr ⟨[byte 'r'], by decide, fun _ => rfl⟩
  by_cases htab : c = '\t'
  · subst htab
    exact .inr ⟨[byte 't'], by decide, fun _ => rfl⟩
  have hescape : escapeChar c =
      if c.toNat < 32 then "\\u" ++ Json.hex4 c.toNat else c.toString := by
    simp only [escapeChar, hquote, hslash, hback, hfeed, hline, hreturn, htab, if_false]
  by_cases hcontrol : c.toNat < 32
  · rw [hescape, if_pos hcontrol, Bytes.ofString_append]
    exact .inr ⟨_, rfl, escape_control hcontrol⟩
  · rw [hescape, if_neg hcontrol]
    refine .inl ⟨?_, isPlain_of_mem_utf8 hquote hslash hcontrol⟩
    rw [Bytes.ofString_eq]
    simp [Char.toString]

/-- The bytes of a string between its quotes. -/
def contentBytes (cs : List Char) : Bytes :=
  cs.flatMap fun c => Bytes.ofString (escapeChar c)

theorem stringBytes_content (cs : List Char) {fuel : Nat} (h : (contentBytes cs).length < fuel)
    (read rest : Bytes) : stringBytes fuel read (contentBytes cs ++ byte '"' :: rest) =
      .ok ((cs.flatMap String.utf8EncodeChar).reverse ++ read, rest) := by
  induction cs generalizing fuel read with
  | nil =>
      obtain ⟨fuel, rfl⟩ := Nat.exists_eq_succ_of_ne_zero (Nat.ne_of_gt h)
      rw [stringBytes]
      exact bind_of_ok (rfl : next? _ = .ok (some (byte '"'), rest))
  | cons c cs ih =>
      have hcons : contentBytes (c :: cs) = Bytes.ofString (escapeChar c) ++ contentBytes cs :=
        List.flatMap_cons
      rw [hcons, List.length_append] at h
      rw [hcons, List.append_assoc]
      rcases escapeChar_cases c with ⟨hbytes, hplain⟩ | ⟨bytes, hbytes, hescape⟩
      · rw [hbytes] at h ⊢
        obtain ⟨more, rfl⟩ := Nat.exists_eq_add_of_lt h
        have hfuel : (String.utf8EncodeChar c).length + (contentBytes cs).length + more + 1 =
            (contentBytes cs).length + more + 1 + (String.utf8EncodeChar c).length := by omega
        rw [hfuel, stringBytes_plain hplain, ih (by omega)]
        simp
      · rw [hbytes] at h ⊢
        obtain ⟨more, rfl⟩ := Nat.exists_eq_add_of_lt h
        have hfuel : (byte '\\' :: bytes).length + (contentBytes cs).length + more + 1 =
            bytes.length + (contentBytes cs).length + more + 1 + 1 := by
          rw [List.length_cons]
          omega
        rw [hfuel, List.cons_append, stringBytes_escape hescape, ih (by omega)]
        simp

theorem utf8?_ofString (s : String) : utf8? (Bytes.ofString s) = some s := by
  have hbytes : (⟨(Bytes.ofString s).toArray⟩ : ByteArray) = s.toByteArray := by
    simp [Bytes.ofString]
  rw [utf8?, hbytes, String.fromUTF8?, dif_pos s.isValidUTF8]
  rfl

/-- The text of a string is its opening quote, its content and its closing quote. -/
theorem ofString_stringText (s : String) :
    Bytes.ofString (stringText s) = byte '"' :: (contentBytes s.toList ++ [byte '"']) := by
  have hjoin : Bytes.ofString (String.join (s.toList.map escapeChar)) = contentBytes s.toList := by
    rw [Bytes.ofString_eq, String.toList_join, List.flatMap_map, List.flatMap_assoc]
    simp only [contentBytes, Bytes.ofString_eq]
  rw [stringText, Bytes.ofString_append, Bytes.ofString_append, hjoin]
  rfl

/-- A string is read back character by character. -/
theorem string_append (s : String) (rest : Bytes) :
    string (contentBytes s.toList ++ byte '"' :: rest) = .ok (s, rest) := by
  have hscan : stringBytes ((contentBytes s.toList ++ byte '"' :: rest).length + 1) []
      (contentBytes s.toList ++ byte '"' :: rest) = .ok ((Bytes.ofString s).reverse, rest) := by
    rw [stringBytes_content s.toList (by rw [List.length_append]; omega), Bytes.ofString_eq]
    simp
  unfold string
  rw [hscan, Result.ok_bind]
  simp only [List.reverse_reverse, utf8?_ofString]
  rfl

end Json.Scanner
end ShapeCodec
