import ShapeCodec.Base64
import ShapeCodec.Proofs.Result

/-!
# Base64 round trip

Decoding gives back the bytes that were encoded. Whole groups of three bytes go through on their
own; the last group, which may be padded, is decoded by other code and treated apart.
-/

namespace ShapeCodec.Base64

/-! ### Symbols -/

theorem value?_symbol {v : Nat} (h : v < 64) : value? (symbol v) = some v := by
  have key : ∀ v : Fin 64, value? (symbol v) = some v.val := by decide
  exact key ⟨v, h⟩

theorem symbol_ne_pad {v : Nat} (h : v < 64) : symbol v ≠ pad := by
  have key : ∀ v : Fin 64, symbol v ≠ pad := by decide
  exact key ⟨v, h⟩

theorem symbol_lt {v : Nat} (h : v < 64) : (symbol v).toNat < 128 := by
  have key : ∀ v : Fin 64, (symbol v).toNat < 128 := by decide
  exact key ⟨v, h⟩

/-- Encoded bytes are characters of one byte each. -/
theorem encodeBytes_lt (bytes : Bytes) : ∀ b ∈ encodeBytes bytes, b.toNat < 128 := by
  induction bytes using encodeBytes.induct with
  | case1 => simp [encodeBytes]
  | case2 a =>
      have := a.toNat_lt
      simp only [encodeBytes, List.forall_mem_cons]
      exact ⟨symbol_lt (by omega), symbol_lt (by omega), by decide, by decide, by simp⟩
  | case3 a b =>
      have := a.toNat_lt
      have := b.toNat_lt
      simp only [encodeBytes, List.forall_mem_cons]
      exact ⟨symbol_lt (by omega), symbol_lt (by omega), symbol_lt (by omega), by decide, by simp⟩
  | case4 a b c rest ih =>
      have := a.toNat_lt
      have := b.toNat_lt
      have := c.toNat_lt
      simp only [encodeBytes, List.forall_mem_cons]
      exact ⟨symbol_lt (by omega), symbol_lt (by omega), symbol_lt (by omega),
        symbol_lt (by omega), ih⟩

private theorem utf8EncodeChar_of_lt {b : UInt8} (h : b.toNat < 128) :
    String.utf8EncodeChar (Char.ofNat b.toNat) = [b] := by
  have key : ∀ n : Fin 128, String.utf8EncodeChar (Char.ofNat n.val) = [UInt8.ofNat n.val] := by
    decide
  simpa using key ⟨b.toNat, h⟩

/-- The bytes of a text of such characters are what the text was made of. -/
theorem ofString_ofList {bytes : Bytes} (h : ∀ b ∈ bytes, b.toNat < 128) :
    Bytes.ofString (String.ofList (bytes.map fun b => Char.ofNat b.toNat)) = bytes := by
  have hflat : (bytes.map fun b => Char.ofNat b.toNat).flatMap String.utf8EncodeChar = bytes := by
    induction bytes with
    | nil => rfl
    | cons b bytes ih =>
        obtain ⟨hb, h⟩ := List.forall_mem_cons.mp h
        rw [List.map_cons, List.flatMap_cons, utf8EncodeChar_of_lt hb, ih h]
        rfl
  rw [Bytes.ofString, String.toUTF8_eq_toByteArray, String.toByteArray_ofList, List.utf8Encode,
    hflat]
  simp

/-! ### Bytes out of six-bit values -/

private theorem join_first (a b : UInt8) :
    UInt8.ofNat (a.toNat / 4 * 4 + (a.toNat % 4 * 16 + b.toNat / 16) / 16) = a := by
  have ha := a.toNat_lt
  have hb := b.toNat_lt
  apply UInt8.toNat_inj.mp
  rw [UInt8.toNat_ofNat']
  omega

private theorem join_second (a b c : UInt8) :
    UInt8.ofNat ((a.toNat % 4 * 16 + b.toNat / 16) % 16 * 16
      + (b.toNat % 16 * 4 + c.toNat / 64) / 4) = b := by
  have hb := b.toNat_lt
  have hc := c.toNat_lt
  apply UInt8.toNat_inj.mp
  rw [UInt8.toNat_ofNat']
  omega

private theorem join_third (b c : UInt8) :
    UInt8.ofNat ((b.toNat % 16 * 4 + c.toNat / 64) % 4 * 64 + c.toNat % 64) = c := by
  have hc := c.toNat_lt
  apply UInt8.toNat_inj.mp
  rw [UInt8.toNat_ofNat']
  omega

/-! ### Whole groups -/

/-- Groups of three bytes are decoded one by one. -/
theorem values_encodeBytes (front tail : Bytes) (h : front.length % 3 = 0) (offset : Nat) :
    encodeBytes (front ++ tail) = encodeBytes front ++ encodeBytes tail ∧
    (encodeBytes front).length % 4 = 0 ∧
    ∃ vs, values offset (encodeBytes front) = .ok vs ∧
      ∀ rest, join (vs ++ rest) = front ++ join rest := by
  induction front using encodeBytes.induct generalizing offset with
  | case1 => exact ⟨rfl, rfl, [], rfl, fun _ => rfl⟩
  | case2 a => simp at h
  | case3 a b => simp at h
  | case4 a b c front ih =>
      have hfront : front.length % 3 = 0 := by
        simp only [List.length_cons] at h
        omega
      obtain ⟨happ, hlen, vs, hvs, hjoin⟩ := ih hfront (offset + 4)
      have ha := a.toNat_lt
      have hb := b.toNat_lt
      have hc := c.toNat_lt
      -- three bytes fall into four values below 64, each of which has a symbol
      refine ⟨?_, ?_, a.toNat / 4 :: (a.toNat % 4 * 16 + b.toNat / 16)
        :: (b.toNat % 16 * 4 + c.toNat / 64) :: c.toNat % 64 :: vs, ?_, ?_⟩
      · simp only [List.cons_append, encodeBytes, happ]
      · simp only [encodeBytes, List.length_cons]
        omega
      · simp only [encodeBytes, values]
        rw [value?_symbol (by omega), value?_symbol (by omega), value?_symbol (by omega),
          value?_symbol (by omega), hvs]
      · intro rest
        simp only [List.cons_append, join, hjoin, join_first, join_second, join_third]

/-! ### The last group -/

/-- The last group is decoded with its padding. -/
theorem decodeTail_encodeBytes {tail : Bytes} (h : 0 < tail.length) (h3 : tail.length ≤ 3)
    (offset : Nat) :
    (encodeBytes tail).length = 4 ∧
    ∃ vs, decodeTail offset (encodeBytes tail) = .ok vs ∧ join vs = tail := by
  match tail, h, h3 with
  | [a], _, _ =>
      have ha := a.toNat_lt
      have h1 : a.toNat / 4 < 64 := by omega
      have h2 : a.toNat % 4 * 16 < 64 := by omega
      have hunused : a.toNat % 4 * 16 % 16 = 0 := by omega
      refine ⟨rfl, [a.toNat / 4, a.toNat % 4 * 16], ?_, ?_⟩
      · simp [decodeTail, encodeBytes, readTail, symbol_ne_pad h1, symbol_ne_pad h2,
          value?_symbol h1, value?_symbol h2, unusedBits]
      · simpa [join] using join_first a 0
  | [a, b], _, _ =>
      have ha := a.toNat_lt
      have hb := b.toNat_lt
      have h1 : a.toNat / 4 < 64 := by omega
      have h2 : a.toNat % 4 * 16 + b.toNat / 16 < 64 := by omega
      have h3 : b.toNat % 16 * 4 < 64 := by omega
      have hunused : b.toNat % 16 * 4 % 4 = 0 := by omega
      refine ⟨rfl, [a.toNat / 4, a.toNat % 4 * 16 + b.toNat / 16, b.toNat % 16 * 4], ?_, ?_⟩
      · simp [decodeTail, encodeBytes, readTail, symbol_ne_pad h1, symbol_ne_pad h2,
          symbol_ne_pad h3, value?_symbol h1, value?_symbol h2, value?_symbol h3, unusedBits]
      · have hlast : UInt8.ofNat ((a.toNat % 4 * 16 + b.toNat / 16) % 16 * 16
            + b.toNat % 16 * 4 / 4) = b := by
          simpa using join_second a b 0
        simp only [join, join_first, hlast]
  | [a, b, c], _, _ =>
      have ha := a.toNat_lt
      have hb := b.toNat_lt
      have hc := c.toNat_lt
      have h1 : a.toNat / 4 < 64 := by omega
      have h2 : a.toNat % 4 * 16 + b.toNat / 16 < 64 := by omega
      have h3 : b.toNat % 16 * 4 + c.toNat / 64 < 64 := by omega
      have h4 : c.toNat % 64 < 64 := by omega
      refine ⟨rfl, [a.toNat / 4, a.toNat % 4 * 16 + b.toNat / 16, b.toNat % 16 * 4 + c.toNat / 64,
        c.toNat % 64], ?_, ?_⟩
      · simp [decodeTail, encodeBytes, readTail, symbol_ne_pad h1, symbol_ne_pad h2,
          symbol_ne_pad h3, symbol_ne_pad h4, value?_symbol h1, value?_symbol h2, value?_symbol h3,
          value?_symbol h4, unusedBits]
      · simp only [join, join_first, join_second, join_third]

/-! ### The round trip -/

/-- The bytes fall into whole groups and a last one that is not empty. -/
private theorem exists_last_group {bytes : Bytes} (h : bytes ≠ []) :
    ∃ front tail, bytes = front ++ tail ∧ front.length % 3 = 0 ∧ 0 < tail.length ∧
      tail.length ≤ 3 := by
  have hpos : 0 < bytes.length := List.length_pos_iff.mpr h
  refine ⟨bytes.take ((bytes.length - 1) / 3 * 3), bytes.drop ((bytes.length - 1) / 3 * 3),
    (List.take_append_drop _ _).symm, ?_, ?_, ?_⟩
  · rw [List.length_take]
    omega
  · rw [List.length_drop]
    omega
  · rw [List.length_drop]
    omega

theorem decodeBytes_encodeBytes (bytes : Bytes) : decodeBytes (encodeBytes bytes) = .ok bytes := by
  by_cases hnil : bytes = []
  · subst hnil
    rfl
  obtain ⟨front, tail, rfl, hfront, hpos, hle⟩ := exists_last_group hnil
  obtain ⟨happ, hlen, vs, hvs, hjoin⟩ := values_encodeBytes front tail hfront 0
  obtain ⟨htail, ws, hws, hlast⟩ := decodeTail_encodeBytes hpos hle (encodeBytes front).length
  have hlength :
      (encodeBytes front ++ encodeBytes tail).length = (encodeBytes front).length + 4 := by
    rw [List.length_append, htail]
  have hempty : (encodeBytes front ++ encodeBytes tail).isEmpty = false := by
    rw [List.isEmpty_eq_false_iff, ← List.length_pos_iff]
    omega
  -- the padding makes the length a multiple of four, so the last four symbols are the last group
  have hrest : (encodeBytes front ++ encodeBytes tail).length % 4 = 0 := by omega
  have hstray : checkStray (encodeBytes front ++ encodeBytes tail) = .ok () := by
    rw [checkStray]
    split
    · rw [if_neg]
      omega
    · rfl
  have hwhole :
      (encodeBytes front ++ encodeBytes tail).length - 4 = (encodeBytes front).length := by
    omega
  rw [happ, decodeBytes, hempty, hstray]
  simp only [hrest, hwhole, List.take_left, List.drop_left, hvs, hws, Result.ok_bind,
    Result.pure_eq_ok, hjoin, hlast, if_true, Bool.false_eq_true, if_false]

/-- Decoding inverts encoding. -/
theorem decode_encode (bytes : Bytes) : decode (encode bytes) = .ok bytes := by
  rw [decode, encode, ofString_ofList (encodeBytes_lt bytes), decodeBytes_encodeBytes]

end ShapeCodec.Base64
