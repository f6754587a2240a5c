import Fumie.Base.Buffer

/-!
# Bytes written as text are read back

Four digits give back the three bytes they were cut from, and the two padded endings
give back one and two bytes. A text that is no byte order mark first survives UTF-8.
-/

namespace Fumie.Base

open Fumie.Lib List

/-! ## base64 -/

theorem base64Value?_digit : ∀ n < 64, base64Value? (base64Digit n) = some n := by
  decide +kernel

variable (a : UInt8)

theorem high_bits : a.toNat >>> 2 < 64 := by
  have := a.toNat_lt
  rw [Nat.shiftRight_eq_div_pow]
  omega

theorem and_63_lt (n : Nat) : n &&& 63 < 64 := Nat.lt_succ_of_le Nat.and_le_right

theorem toNat_testBit {i : Nat} (h : 8 ≤ i) : a.toNat.testBit i = false :=
  Nat.testBit_lt_two_pow (Nat.lt_of_lt_of_le a.toNat_lt (Nat.pow_le_pow_right (by decide) h))

theorem eq_of_bits {x : Nat} {a : UInt8} (h : ∀ i < 8, x.testBit i = a.toNat.testBit i) :
    UInt8.ofNat x = a := by
  refine UInt8.toNat_inj.mp ?_
  rw [UInt8.toNat_ofNat']
  refine Nat.eq_of_testBit_eq fun i => ?_
  rw [Nat.testBit_mod_two_pow]
  by_cases hi : i < 8
  · rw [h i hi]
    simp [hi]
  · rw [toNat_testBit a (Nat.le_of_not_lt hi)]
    simp [hi]

theorem testBit_and_63 (n i : Nat) : (n &&& 63).testBit i = (n.testBit i && decide (i < 6)) := by
  rw [Nat.testBit_and, show 63 = 2 ^ 6 - 1 from rfl, Nat.testBit_two_pow_sub_one]

theorem first_byte (b : UInt8) :
    UInt8.ofNat ((a.toNat >>> 2) <<< 2 ||| ((a.toNat <<< 4 ||| b.toNat >>> 4) &&& 63) >>> 4) =
      a := by
  refine eq_of_bits fun i hi => ?_
  simp only [Nat.testBit_or, Nat.testBit_shiftLeft, Nat.testBit_shiftRight, testBit_and_63]
  interval_cases i <;> simp [toNat_testBit]

theorem second_byte (b c : UInt8) :
    UInt8.ofNat (((a.toNat <<< 4 ||| b.toNat >>> 4) &&& 63) <<< 4 |||
      ((b.toNat <<< 2 ||| c.toNat >>> 6) &&& 63) >>> 2) = b := by
  refine eq_of_bits fun i hi => ?_
  simp only [Nat.testBit_or, Nat.testBit_shiftLeft, Nat.testBit_shiftRight, testBit_and_63]
  interval_cases i <;> simp [toNat_testBit]

theorem third_byte (b c : UInt8) :
    UInt8.ofNat (((b.toNat <<< 2 ||| c.toNat >>> 6) &&& 63) <<< 6 ||| (c.toNat &&& 63)) = c := by
  refine eq_of_bits fun i hi => ?_
  simp only [Nat.testBit_or, Nat.testBit_shiftLeft, Nat.testBit_shiftRight, testBit_and_63]
  interval_cases i <;> simp

section Digits

variable {digit : Nat → CodeUnit} {padTwo padOne : JsString}

theorem decodeBase64Digits_digit (hdigit : ∀ n < 64, base64Value? (digit n) = some n)
    (d : Base64Decoder) {n : Nat} (h : n < 64) (rest : JsString) :
    decodeBase64Digits d (digit n :: rest) = decodeBase64Digits (d.append n) rest := by
  rw [decodeBase64Digits, hdigit n h]

theorem decodeBase64Digits_encodeWith (hdigit : ∀ n < 64, base64Value? (digit n) = some n)
    (hpadTwo : ∀ d, decodeBase64Digits d padTwo = some d)
    (hpadOne : ∀ d, decodeBase64Digits d padOne = some d) (bytes : Bytes) (building : Nat)
    (buffer : Bytes) :
    (decodeBase64Digits ⟨building, 0, buffer⟩ (encodeBase64With digit padTwo padOne bytes)).map
        Base64Decoder.buffer = some (buffer ++ bytes) := by
  have hzero : (0 : UInt8).toNat = 0 := rfl
  fun_induction encodeBase64With digit padTwo padOne bytes generalizing building buffer with
  | case1 a b c rest ih =>
    rw [decodeBase64Digits_digit hdigit _ (high_bits a),
      decodeBase64Digits_digit hdigit _ (and_63_lt _),
      decodeBase64Digits_digit hdigit _ (and_63_lt _),
      decodeBase64Digits_digit hdigit _ (and_63_lt _)]
    simp only [Base64Decoder.append, first_byte, second_byte, third_byte]
    rw [ih]
    simp
  | case2 a b =>
    have hb := second_byte a b 0
    rw [hzero, Nat.zero_shiftRight, Nat.or_zero] at hb
    simp only [cons_append, nil_append]
    rw [decodeBase64Digits_digit hdigit _ (high_bits a),
      decodeBase64Digits_digit hdigit _ (and_63_lt _),
      decodeBase64Digits_digit hdigit _ (and_63_lt _), hpadOne]
    simp only [Base64Decoder.append, first_byte, hb]
    simp
  | case3 a =>
    have ha := first_byte a 0
    rw [hzero, Nat.zero_shiftRight, Nat.or_zero] at ha
    simp only [cons_append, nil_append]
    rw [decodeBase64Digits_digit hdigit _ (high_bits a),
      decodeBase64Digits_digit hdigit _ (and_63_lt _), hpadTwo]
    simp only [Base64Decoder.append, ha]
    simp
  | case4 => simp [decodeBase64Digits]

end Digits

theorem encodeBase64_eq (bytes : Bytes) :
    encodeBase64 bytes = encodeBase64With base64Digit [61, 61] [61] bytes := by
  fun_induction encodeBase64 bytes with
  | case1 a b c rest ih => rw [encodeBase64With, ih]
  | case2 a b => rfl
  | case3 a => rfl
  | case4 => rfl

variable (bytes : Bytes)

theorem decodeBase64_encodeBase64 : decodeBase64 (encodeBase64 bytes) = some bytes := by
  rw [encodeBase64_eq]
  exact decodeBase64Digits_encodeWith base64Value?_digit (fun _ => rfl) (fun _ => rfl) bytes 0 []

theorem base64UrlSafeDigit_spec : ∀ n < 64, base64Value? (base64UrlSafeDigit n) = some n ∧
    base64UrlSafeDigit n ≠ 37 ∧ base64UrlSafeDigit n ≠ 47 ∧ base64UrlSafeDigit n ≠ 63 ∧
    base64UrlSafeDigit n ≠ 35 := by
  decide +kernel

theorem decodeBase64_urlSafe : decodeBase64 (encodeBase64UrlSafe bytes) = some bytes :=
  decodeBase64Digits_encodeWith (fun n h => (base64UrlSafeDigit_spec n h).1) (fun _ => rfl)
    (fun _ => rfl) bytes 0 []

theorem mem_encodeBase64UrlSafe {bytes : Bytes} {u : CodeUnit}
    (h : u ∈ encodeBase64UrlSafe bytes) : u ≠ 37 ∧ u ≠ 47 ∧ u ≠ 63 ∧ u ≠ 35 := by
  have hdigit {n : Nat} (hn : n < 64) : base64UrlSafeDigit n ≠ 37 ∧ base64UrlSafeDigit n ≠ 47 ∧
      base64UrlSafeDigit n ≠ 63 ∧ base64UrlSafeDigit n ≠ 35 := (base64UrlSafeDigit_spec n hn).2
  unfold encodeBase64UrlSafe at h
  fun_induction encodeBase64With base64UrlSafeDigit [] [] bytes with
  | case1 a b c rest ih =>
    simp only [mem_cons] at h
    rcases h with rfl | rfl | rfl | rfl | h
    · exact hdigit (high_bits a)
    · exact hdigit (and_63_lt _)
    · exact hdigit (and_63_lt _)
    · exact hdigit (and_63_lt _)
    · exact ih h
  | case2 a b =>
    simp only [append_nil, mem_cons, not_mem_nil, or_false] at h
    rcases h with rfl | rfl | rfl
    · exact hdigit (high_bits a)
    · exact hdigit (and_63_lt _)
    · exact hdigit (and_63_lt _)
  | case3 a =>
    simp only [append_nil, mem_cons, not_mem_nil, or_false] at h
    rcases h with rfl | rfl
    · exact hdigit (high_bits a)
    · exact hdigit (and_63_lt _)
  | case4 => exact absurd h not_mem_nil

theorem length_encodeBase64UrlSafe : bytes.length ≤ (encodeBase64UrlSafe bytes).length := by
  unfold encodeBase64UrlSafe
  fun_induction encodeBase64With base64UrlSafeDigit [] [] bytes with
  | case1 a b c rest ih =>
    simp only [length_cons]
    omega
  | case2 a b => simp
  | case3 a => simp
  | case4 => exact Nat.le_refl 0

/-! ## UTF-8 -/

theorem utf8Decode_utf8Encode {text : List Char} (h : text.head? ≠ some '\uFEFF') :
    utf8Decode (utf8Encode text) = some text := by
  have hbytes : (utf8Encode text).toByteArray = text.utf8Encode := rfl
  unfold utf8Decode
  rw [hbytes, utf8Decode?_utf8Encode]
  cases text with
  | nil => rfl
  | cons c rest =>
    have hc : c ≠ '\uFEFF' := fun heq => h (heq ▸ rfl)
    simp only
    split
    · rename_i heq
      cases heq
      exact absurd rfl hc
    · rfl

end Fumie.Base
