import Fumie.Base.BufferText

/-!
# base64 is canonical

The four variants of the encoder are read back by the one decoder, and the decoder loses
nothing of a text without stray bits: encoding its result gives the symbols again. The
bytes it writes fit into the buffer whose length it estimates.
-/

namespace Fumie.Base

open Fumie.Lib List

/-- The length of the preallocated buffer. -/
def decodeBase64Capacity (encoded : JsString) : Nat := encoded.length * 3 / 4

/-- `encodeBase64` with its options `padded` and `urlSafe`. -/
def encodeBase64Option (padded urlSafe : Bool) : Bytes → JsString :=
  encodeBase64With (if urlSafe then base64UrlSafeDigit else base64Digit)
    (if padded then [61, 61] else []) (if padded then [61] else [])

/-- The symbols before the first `=`. -/
def base64Symbols (encoded : JsString) : JsString := encoded.takeWhile (· ≠ 61)

/-- How many low bits of the last of `n` symbols belong to no byte. -/
def unusedBits (n : Nat) : Nat :=
  match n % 4 with
  | 2 => 4
  | 3 => 2
  | _ => 0

def NoStrayBits (symbols : JsString) : Prop :=
  symbols.length % 4 ≠ 1 ∧ ∀ value, symbols.getLast?.bind base64Value? = some value →
    value % 2 ^ unusedBits symbols.length = 0

/-- The spelling of a symbol in one alphabet. -/
def respell (urlSafe : Bool) (code : CodeUnit) : CodeUnit :=
  if code = 43 ∨ code = 45 then if urlSafe then 45 else 43
  else if code = 47 ∨ code = 95 then if urlSafe then 95 else 47
  else code

/-! ## Symbols and their values -/

variable {code : CodeUnit} {d e : Base64Decoder} {rest encoded : JsString}
  {x k capacity digits : Nat}

theorem base64Value?_spec {value : Nat} (h : base64Value? code = some value) :
    value < 64 ∧ ∀ urlSafe : Bool,
      (if urlSafe then base64UrlSafeDigit else base64Digit) value = respell urlSafe code := by
  have hsmall : ∀ n : Fin 123, ∀ value ∈ base64Value? (Fin.castLE (by decide) n), value < 64 ∧
      ∀ urlSafe : Bool, (if urlSafe then base64UrlSafeDigit else base64Digit) value =
        respell urlSafe (Fin.castLE (by decide) n) := by
    decide +kernel
  have hcode : code.val < 123 := by
    simp only [base64Value?] at h
    split_ifs at h <;> omega
  exact hsmall ⟨code.val, hcode⟩ value h

theorem base64Value?_padding : base64Value? 61 = none := rfl

theorem appended (hcode : code ≠ 61) (h : decodeBase64Digits d (code :: rest) = some e) :
    ∃ value, base64Value? code = some value ∧
      decodeBase64Digits (d.append value) rest = some e := by
  rw [decodeBase64Digits] at h
  split at h
  · rename_i value hvalue
    exact ⟨value, hvalue, h⟩
  · split_ifs at h with h61
    exact absurd (Fin.ext h61) hcode

theorem decodeBase64Digits_symbols (h : decodeBase64Digits d encoded = some e) :
    decodeBase64Digits d (base64Symbols encoded) = some e := by
  induction encoded generalizing d with
  | nil => exact h
  | cons code rest ih =>
    by_cases hcode : code = 61
    · subst hcode
      rw [decodeBase64Digits, base64Value?_padding] at h
      exact h
    · obtain ⟨value, hvalue, hrest⟩ := appended hcode h
      rw [base64Symbols, takeWhile_cons_of_pos (by simpa using hcode), decodeBase64Digits, hvalue]
      exact ih hrest

/-! ## Four values and their three bytes -/

section Values

variable {v w : Nat}

theorem testBit_value {i : Nat} (h : v < 64) (hi : 6 ≤ i) : v.testBit i = false :=
  Nat.testBit_lt_two_pow (Nat.lt_of_lt_of_le h (Nat.pow_le_pow_right Nat.two_pos hi))

theorem toNat_ofNat_testBit (x i : Nat) :
    (UInt8.ofNat x).toNat.testBit i = (decide (i < 8) && x.testBit i) := by
  rw [UInt8.toNat_ofNat', Nat.testBit_mod_two_pow]

theorem eq_value (h : v < 64) (hx : x < 64) (hbits : ∀ i < 6, x.testBit i = v.testBit i) :
    x = v := by
  refine Nat.eq_of_testBit_eq fun i => ?_
  by_cases hi : i < 6
  · exact hbits i hi
  · rw [testBit_value hx (Nat.le_of_not_lt hi), testBit_value h (Nat.le_of_not_lt hi)]

theorem first_value (hv : v < 64) (hw : w < 64) :
    (UInt8.ofNat (v <<< 2 ||| w >>> 4)).toNat >>> 2 = v := by
  refine eq_value hv (high_bits _) fun i hi => ?_
  simp only [Nat.testBit_shiftRight, toNat_ofNat_testBit, Nat.testBit_or, Nat.testBit_shiftLeft]
  interval_cases i <;> simp [testBit_value hw]

theorem second_value (hw : w < 64) (hx : x < 64) :
    ((UInt8.ofNat (v <<< 2 ||| w >>> 4)).toNat <<< 4 |||
      (UInt8.ofNat (w <<< 4 ||| x >>> 2)).toNat >>> 4) &&& 63 = w := by
  refine eq_value hw (and_63_lt _) fun i hi => ?_
  simp only [testBit_and_63, Nat.testBit_shiftRight, toNat_ofNat_testBit, Nat.testBit_or,
    Nat.testBit_shiftLeft]
  interval_cases i <;> simp [testBit_value hx]

theorem third_value (hv : v < 64) (hw : w < 64) (x : Nat) :
    ((UInt8.ofNat (x <<< 4 ||| v >>> 2)).toNat <<< 2 |||
      (UInt8.ofNat (v <<< 6 ||| w)).toNat >>> 6) &&& 63 = v := by
  refine eq_value hv (and_63_lt _) fun i hi => ?_
  simp only [testBit_and_63, Nat.testBit_shiftRight, toNat_ofNat_testBit, Nat.testBit_or,
    Nat.testBit_shiftLeft]
  interval_cases i <;> simp [testBit_value hw]

theorem fourth_value (hw : w < 64) : (UInt8.ofNat (v <<< 6 ||| w)).toNat &&& 63 = w := by
  refine eq_value hw (and_63_lt _) fun i hi => ?_
  simp only [testBit_and_63, toNat_ofNat_testBit, Nat.testBit_or, Nat.testBit_shiftLeft]
  interval_cases i <;> simp

end Values

/-! ## The symbols of the result -/

theorem stray_byte (h : k % 256 = 0) : (UInt8.ofNat (k ||| 0)).toNat = 0 := by
  rw [Nat.or_zero, UInt8.toNat_ofNat']
  exact h

theorem NoStrayBits.tail {a b c f : CodeUnit} (h : NoStrayBits (a :: b :: c :: f :: rest)) :
    NoStrayBits rest := by
  have hlength : (a :: b :: c :: f :: rest).length % 4 = rest.length % 4 := by
    simp only [length_cons]
    omega
  refine ⟨hlength ▸ h.1, fun value hvalue => ?_⟩
  cases rest with
  | nil => cases hvalue
  | cons g rest =>
    have hbits := h.2 value hvalue
    rwa [unusedBits, hlength] at hbits

theorem encode_decoded (urlSafe : Bool) {building : Nat} {buffer : Bytes} {e : Base64Decoder}
    {symbols : JsString} (hsymbols : (61 : CodeUnit) ∉ symbols)
    (h : decodeBase64Digits ⟨building, 0, buffer⟩ symbols = some e)
    (hstray : NoStrayBits symbols) :
    ∃ bytes, e.buffer = buffer ++ bytes ∧
      encodeBase64Option false urlSafe bytes = symbols.map (respell urlSafe) := by
  induction hlength : symbols.length using Nat.strong_induction_on
    generalizing building buffer symbols with
  | _ n ih =>
    rcases symbols with _ | ⟨a, _ | ⟨b, rest⟩⟩
    · cases h
      exact ⟨[], (append_nil _).symm, rfl⟩
    · exact absurd rfl hstray.1
    · obtain ⟨ha, hsymbols⟩ := not_or.mp (mem_cons.not.mp hsymbols)
      obtain ⟨hb, hsymbols⟩ := not_or.mp (mem_cons.not.mp hsymbols)
      obtain ⟨v, hv, h⟩ := appended (Ne.symm ha) h
      obtain ⟨w, hw, h⟩ := appended (Ne.symm hb) h
      obtain ⟨hv, hdigitv⟩ := base64Value?_spec hv
      obtain ⟨hw', hdigitw⟩ := base64Value?_spec hw
      have hfirst := first_value hv hw'
      cases rest with
      | nil =>
        cases h
        have hbits : w % 16 = 0 := hstray.2 w hw
        have hsecond := second_value (v := v) hw' (x := 0) (by decide)
        rw [Nat.zero_shiftRight, stray_byte (by rw [Nat.shiftLeft_eq]; omega), Nat.zero_shiftRight,
          Nat.or_zero] at hsecond
        refine ⟨[UInt8.ofNat (v <<< 2 ||| w >>> 4)], rfl, ?_⟩
        simp only [encodeBase64Option, encodeBase64With, map_cons, map_nil, ← hdigitv, ← hdigitw,
          hfirst, hsecond]
        rfl
      | cons c rest =>
        obtain ⟨hc, hsymbols⟩ := not_or.mp (mem_cons.not.mp hsymbols)
        obtain ⟨x, hx, h⟩ := appended (Ne.symm hc) h
        obtain ⟨hx', hdigitx⟩ := base64Value?_spec hx
        have hsecond := second_value (v := v) hw' hx'
        cases rest with
        | nil =>
          cases h
          have hbits : x % 4 = 0 := hstray.2 x hx
          have hthird := third_value hx' (w := 0) (by decide) w
          rw [stray_byte (by rw [Nat.shiftLeft_eq]; omega), Nat.zero_shiftRight, Nat.or_zero]
            at hthird
          refine ⟨[UInt8.ofNat (v <<< 2 ||| w >>> 4), UInt8.ofNat (w <<< 4 ||| x >>> 2)],
            (append_assoc ..), ?_⟩
          simp only [encodeBase64Option, encodeBase64With, map_cons, map_nil, ← hdigitv, ← hdigitw,
            ← hdigitx, hfirst, hsecond, hthird]
          rfl
        | cons f rest =>
          obtain ⟨hf, hsymbols⟩ := not_or.mp (mem_cons.not.mp hsymbols)
          obtain ⟨y, hy, h⟩ := appended (Ne.symm hf) h
          obtain ⟨hy, hdigity⟩ := base64Value?_spec hy
          obtain ⟨bytes, hbuffer, hencode⟩ := ih rest.length
            (by simp only [← hlength, length_cons]; omega) hsymbols h hstray.tail rfl
          refine ⟨UInt8.ofNat (v <<< 2 ||| w >>> 4) :: UInt8.ofNat (w <<< 4 ||| x >>> 2) ::
            UInt8.ofNat (x <<< 6 ||| y) :: bytes,
            hbuffer.trans (by simp [Base64Decoder.append]), ?_⟩
          simp only [map_cons, ← hdigitv, ← hdigitw, ← hdigitx, ← hdigity, ← hencode]
          rw [encodeBase64Option, encodeBase64With, hfirst, hsecond, third_value hx' hy,
            fourth_value hy]

/-! ## The preallocated buffer -/

/-- Four digits make three bytes. -/
def Base64Decoder.Counts (d : Base64Decoder) (digits : Nat) : Prop :=
  d.remainder < 4 ∧ 4 * d.buffer.length + (4 - d.remainder) % 4 = 3 * digits

theorem counts_append {d : Base64Decoder} {digits : Nat} (h : d.Counts digits) (value : Nat) :
    (d.append value).Counts (digits + 1) := by
  obtain ⟨building, remainder, buffer⟩ := d
  obtain ⟨hremainder, hcount⟩ := h
  simp only at hremainder hcount
  interval_cases remainder
  all_goals
    refine ⟨by simp [Base64Decoder.append], ?_⟩
    simp [Base64Decoder.append]
    omega

theorem length_decodeBase64Digits {d e : Base64Decoder} {digits : Nat} {encoded : JsString}
    (h : d.Counts digits) (he : decodeBase64Digits d encoded = some e) :
    4 * e.buffer.length ≤ 3 * (digits + encoded.length) := by
  induction encoded generalizing d digits with
  | nil =>
    cases he
    exact Nat.le_of_add_right_le (Nat.le_of_eq h.2)
  | cons code rest ih =>
    rw [decodeBase64Digits] at he
    rw [length_cons]
    split at he
    · have := ih (counts_append h _) he
      omega
    · split_ifs at he
      cases he
      have := h.2
      omega

theorem base64_round_trip :
    (∀ padded urlSafe bytes,
      decodeBase64 (encodeBase64Option padded urlSafe bytes) = some bytes) ∧
    ∀ encoded bytes, decodeBase64 encoded = some bytes →
      bytes.length ≤ decodeBase64Capacity encoded ∧
      (NoStrayBits (base64Symbols encoded) → ∀ urlSafe, encodeBase64Option false urlSafe bytes =
        (base64Symbols encoded).map (respell urlSafe)) := by
  refine ⟨fun padded urlSafe bytes => ?_, fun encoded bytes h => ?_⟩
  · refine decodeBase64Digits_encodeWith ?_ ?_ ?_ bytes 0 []
    · cases urlSafe
      · exact base64Value?_digit
      · exact fun n hn => (base64UrlSafeDigit_spec n hn).1
    · cases padded <;> exact fun _ => rfl
    · cases padded <;> exact fun _ => rfl
  · obtain ⟨e, he, rfl⟩ := Option.map_eq_some_iff.mp h
    refine ⟨?_, fun hstray urlSafe => ?_⟩
    · have hcounts : Base64Decoder.Counts ⟨0, 0, []⟩ 0 := ⟨by decide, rfl⟩
      have hlength := length_decodeBase64Digits hcounts he
      rw [decodeBase64Capacity]
      omega
    · have hsymbols : (61 : CodeUnit) ∉ base64Symbols encoded := fun hmem => by
        simpa using mem_takeWhile_imp hmem
      obtain ⟨bytes, hbuffer, hencode⟩ :=
        encode_decoded urlSafe hsymbols (decodeBase64Digits_symbols he) hstray
      rw [hbuffer]
      exact hencode

end Fumie.Base
