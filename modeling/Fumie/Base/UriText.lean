import Fumie.Base.Uri

/-!
# Escapes written and read

What `encodeURIComponent` writes is read back by `decodeURIComponent` and by the
percent-decoding of `URI.parse`. Decoding makes a text shorter exactly where it has
escapes.
-/

namespace Fumie.Base

open Fumie.Lib List Option Char

/-! ## One escape -/

theorem hexDigitValue_upper : ∀ n < 16, hexDigitValue (upperHexDigit n) = some n := by decide

theorem escapedByte_escape (b : UInt8) (rest : JsString) :
    escapedByte (escapeByte b ++ rest) = some b := by
  have hb := b.toNat_lt
  have hhigh := hexDigitValue_upper (b.toNat / 16) (by omega)
  have hlow := hexDigitValue_upper (b.toNat % 16) (by omega)
  have hsum : b.toNat / 16 * 16 + b.toNat % 16 = b.toNat := by omega
  simp only [escapeByte, cons_append, nil_append, escapedByte, hhigh, hlow, if_true,
    bind_some, map_some, hsum]
  rw [UInt8.ofNat_toNat]

theorem escapedBytes_escape (bytes : Bytes) (rest : JsString) :
    escapedBytes bytes.length (bytes.flatMap escapeByte ++ rest) = some bytes := by
  induction bytes with
  | nil => rfl
  | cons b bytes ih =>
    have hdrop : (escapeByte b ++ (bytes.flatMap escapeByte ++ rest)).drop 3 =
        bytes.flatMap escapeByte ++ rest := rfl
    rw [flatMap_cons, append_assoc, length_cons, escapedBytes, escapedByte_escape,
      bind_some, hdrop, ih]
    rfl

/-! ## One character -/

def escapes (c : Char) : JsString := (String.utf8EncodeChar c).flatMap escapeByte

theorem length_flatMap_escapeByte (bytes : Bytes) :
    (bytes.flatMap escapeByte).length = 3 * bytes.length := by
  induction bytes with
  | nil => rfl
  | cons b bytes ih =>
    have hbyte : (escapeByte b).length = 3 := rfl
    rw [flatMap_cons, length_append, ih, length_cons, hbyte]
    omega

variable (c : Char)

theorem length_escapes : (escapes c).length = 3 * c.utf8Size := by
  rw [escapes, length_flatMap_escapeByte, String.length_utf8EncodeChar]

theorem lead_byte : ∀ n < 256, sequenceLength (UInt8.ofNat n &&& 0x1f ||| 0xc0) = 2 ∧
      sequenceLength (UInt8.ofNat n &&& 0x0f ||| 0xe0) = 3 ∧
      sequenceLength (UInt8.ofNat n &&& 0x07 ||| 0xf0) = 4 := by
  decide +kernel

theorem sequenceLength_lead (x : UInt8) :
    sequenceLength (x &&& 0x1f ||| 0xc0) = 2 ∧ sequenceLength (x &&& 0x0f ||| 0xe0) = 3 ∧
      sequenceLength (x &&& 0x07 ||| 0xf0) = 4 := by
  have := lead_byte x.toNat x.toNat_lt
  rwa [UInt8.ofNat_toNat] at this

theorem sequenceLength_utf8EncodeChar :
    ∃ b rest, String.utf8EncodeChar c = b :: rest ∧ sequenceLength b = c.utf8Size := by
  have hsize := c.utf8Size_le_four
  have hpos := c.utf8Size_pos
  have hcases : c.utf8Size = 1 ∨ c.utf8Size = 2 ∨ c.utf8Size = 3 ∨ c.utf8Size = 4 := by omega
  rcases hcases with h | h | h | h
  · refine ⟨_, _, String.utf8EncodeChar_eq_singleton h, ?_⟩
    have hsmall := utf8Size_eq_one_iff.mp h
    rw [h, sequenceLength, if_pos]
    rw [UInt32.toNat_toUInt8]
    have : c.val.toNat ≤ 127 := hsmall
    omega
  · exact ⟨_, _, String.utf8EncodeChar_eq_cons_cons h, by rw [h]; exact (sequenceLength_lead _).1⟩
  · exact ⟨_, _, String.utf8EncodeChar_eq_cons_cons_cons h, by
      rw [h]
      exact (sequenceLength_lead _).2.1⟩
  · exact ⟨_, _, String.utf8EncodeChar_eq_cons_cons_cons_cons h, by
      rw [h]
      exact (sequenceLength_lead _).2.2⟩

variable (rest : JsString)

theorem escapedChar_escapes : escapedChar (escapes c ++ rest) = some c := by
  obtain ⟨b, bytes, hbytes, hlength⟩ := sequenceLength_utf8EncodeChar c
  have hfirst : escapedByte (escapes c ++ rest) = some b := by
    rw [escapes, hbytes, flatMap_cons, append_assoc, escapedByte_escape]
  have hall : escapedBytes c.utf8Size (escapes c ++ rest) = some (String.utf8EncodeChar c) := by
    rw [← String.length_utf8EncodeChar c]
    exact escapedBytes_escape _ rest
  have hdecode := decodeChar?_append c []
  rw [append_nil] at hdecode
  have hpos := c.utf8Size_pos
  rw [escapedChar, hfirst, bind_some, hlength, if_neg (by omega), hall, bind_some, hdecode]
  simp [Option.filter]

theorem escapes_cons : ∃ rest, escapes c = PERCENT :: rest ∧ rest.length = 3 * c.utf8Size - 1 := by
  have hlength := length_escapes c
  obtain ⟨b, bytes, hbytes, -⟩ := sequenceLength_utf8EncodeChar c
  refine ⟨[upperHexDigit (b.toNat / 16), upperHexDigit (b.toNat % 16)] ++
    bytes.flatMap escapeByte, ?_, ?_⟩
  · rw [escapes, hbytes]
    rfl
  · rw [escapes, hbytes, flatMap_cons, escapeByte, cons_append, length_cons]
      at hlength
    have hpos := c.utf8Size_pos
    omega

/-! ## Characters left as they are -/

theorem unescaped_ascii : ∀ n < 128, isUnescaped (Char.ofNat n) = true →
    n ≠ 37 ∧ n ≠ 47 ∧ n ≠ 63 ∧ n ≠ 35 := by
  decide +kernel

theorem unescaped_cases {c : Char} (h : isUnescaped c = true) :
    c.toNat < 128 ∧ c.toNat ≠ 37 ∧ c.toNat ≠ 47 ∧ c.toNat ≠ 63 ∧ c.toNat ≠ 35 := by
  have hsmall : c.toNat < 128 := by
    unfold isUnescaped at h
    rw [Bool.or_eq_true] at h
    rcases h with h | h
    · simp only [isAlphanum, isAlpha, isUpper, isLower, isDigit, Bool.or_eq_true, Bool.and_eq_true,
        decide_eq_true_eq, ge_iff_le, UInt32.le_iff_toNat_le] at h
      rcases h with (⟨-, h⟩ | ⟨-, h⟩) | ⟨-, h⟩
      · exact Nat.lt_of_le_of_lt h (by decide)
      · exact Nat.lt_of_le_of_lt h (by decide)
      · exact Nat.lt_of_le_of_lt h (by decide)
    · simp only [mem_cons, not_mem_nil, or_false, decide_eq_true_eq] at h
      rcases h with rfl | rfl | rfl | rfl | rfl | rfl | rfl | rfl | rfl <;> decide
  have hchar : Char.ofNat c.toNat = c := ofNat_toNat c
  exact ⟨hsmall, unescaped_ascii c.toNat hsmall (by rw [hchar]; exact h)⟩

theorem unitsOf_unescaped {c : Char} (h : isUnescaped c = true) :
    ∃ u : CodeUnit, unitsOf c = [u] ∧ u ≠ PERCENT ∧ u ≠ SLASH ∧ u ≠ QUESTION ∧ u ≠ HASH := by
  obtain ⟨hsmall, hpercent, hslash, hquestion, hhash⟩ := unescaped_cases h
  have hunits : unitsOf c = [Fin.ofNat 0x10000 c.toNat] := by
    rw [unitsOf, if_pos (by omega)]
  have hne (v : CodeUnit) (hc : c.toNat ≠ v.val) : Fin.ofNat 0x10000 c.toNat ≠ v := by
    intro heq
    have := congrArg Fin.val heq
    simp only [Fin.val_ofNat] at this
    omega
  exact ⟨_, hunits, hne PERCENT hpercent, hne SLASH hslash, hne QUESTION hquestion, hne HASH hhash⟩

/-! ## Decoding what was encoded -/

variable {u : CodeUnit}

theorem decodeURIComponent_cons (h : u ≠ PERCENT) (rest : JsString) :
    decodeURIComponent (u :: rest) = (decodeURIComponent rest).map fun text => u :: text := by
  rw [decodeURIComponent, if_neg h]

theorem decodeURIComponent_escapes : decodeURIComponent (escapes c ++ rest) =
      (decodeURIComponent rest).map fun text => unitsOf c ++ text := by
  have hchar := escapedChar_escapes c rest
  obtain ⟨behind, hescapes, hlength⟩ := escapes_cons c
  rw [hescapes, cons_append] at hchar ⊢
  rw [decodeURIComponent, if_pos rfl, hchar]
  dsimp only
  rw [List.drop_left' hlength]

theorem encodeChar_of_unescaped {c : Char} (h : isUnescaped c = true) :
    encodeChar c = unitsOf c := by
  rw [encodeChar, if_pos h]

theorem encodeChar_of_escaped {c : Char} (h : isUnescaped c = false) :
    encodeChar c = escapes c := by
  rw [encodeChar, if_neg (by rw [h]; decide), escapes]

theorem decodeURIComponent_encoded (text : List Char) :
    decodeURIComponent (text.flatMap encodeChar) = some (unitsOfChars text) := by
  induction text with
  | nil => rw [flatMap_nil, decodeURIComponent]; rfl
  | cons c text ih =>
    rw [flatMap_cons]
    cases h : isUnescaped c with
    | true =>
      obtain ⟨u, hunits, hne, -⟩ := unitsOf_unescaped h
      rw [encodeChar_of_unescaped h, hunits, singleton_append, decodeURIComponent_cons hne, ih,
        unitsOfChars_cons, hunits]
      rfl
    | false =>
      rw [encodeChar_of_escaped h, decodeURIComponent_escapes, ih, unitsOfChars_cons]
      rfl

/-! ## Runs of escapes -/

theorem isHexLike_upper : ∀ n < 16, isHexLike (upperHexDigit n) = true := by decide

theorem escapeRun_escapeByte (b : UInt8) (rest : JsString) :
    escapeRun (escapeByte b ++ rest) = 3 + escapeRun rest := by
  have hb := b.toNat_lt
  rw [escapeByte, cons_append, cons_append, cons_append, nil_append, escapeRun,
    if_pos ⟨rfl, isHexLike_upper _ (by omega), isHexLike_upper _ (by omega)⟩]

theorem escapeRun_escapes (c : Char) (rest : JsString) :
    escapeRun (escapes c ++ rest) = (escapes c).length + escapeRun rest := by
  rw [escapes]
  induction String.utf8EncodeChar c with
  | nil => rw [flatMap_nil, nil_append, length_nil, Nat.zero_add]
  | cons b bytes ih =>
    rw [flatMap_cons, append_assoc, escapeRun_escapeByte, ih, length_append]
    have hbyte : (escapeByte b).length = 3 := rfl
    omega

theorem escapeRun_of_ne (h : u ≠ PERCENT) (rest : JsString) : escapeRun (u :: rest) = 0 := by
  unfold escapeRun
  split
  · next heq =>
    cases heq
    rw [if_neg fun hrun => h hrun.1]
  · rfl

theorem percentDecode_cons (h : u ≠ PERCENT) (rest : JsString) :
    percentDecode (u :: rest) = u :: percentDecode rest := by
  rw [percentDecode, if_pos (escapeRun_of_ne h rest)]

theorem percentDecode_append_plain {text : JsString} (h : PERCENT ∉ text) (rest : JsString) :
    percentDecode (text ++ rest) = text ++ percentDecode rest := by
  induction text with
  | nil => rfl
  | cons u text ih =>
    have hne : u ≠ PERCENT := fun heq => h (heq ▸ mem_cons_self ..)
    have hmem : PERCENT ∉ text := fun hmem => h (mem_cons_of_mem _ hmem)
    rw [cons_append, percentDecode_cons hne, ih hmem, cons_append]

theorem percentDecode_run {run : JsString} {text rest : JsString} (hne : run ≠ [])
    (hdecode : decodeURIComponent run = some text) (hrun : escapeRun (run ++ rest) = run.length) :
    percentDecode (run ++ rest) = text ++ percentDecode rest := by
  cases run with
  | nil => exact absurd rfl hne
  | cons u run =>
    have hgraceful : decodeURIComponentGraceful (u :: run) = text := by
      rw [decodeURIComponentGraceful, hdecode]
    have hlong : (u :: run).length ≠ 0 := Nat.succ_ne_zero _
    rw [cons_append] at hrun ⊢
    rw [percentDecode, hrun, if_neg hlong, ← cons_append, take_left, hgraceful]
    have hlength : (u :: run).length - 1 = run.length := rfl
    rw [hlength, drop_left]

theorem escapeRun_encoded (text : List Char) :
    (text.takeWhile fun c => !isUnescaped c).flatMap encodeChar ++
        (text.dropWhile fun c => !isUnescaped c).flatMap encodeChar = text.flatMap encodeChar ∧
      escapeRun (text.flatMap encodeChar) =
        ((text.takeWhile fun c => !isUnescaped c).flatMap encodeChar).length := by
  induction text with
  | nil => exact ⟨rfl, rfl⟩
  | cons c text ih =>
    cases h : isUnescaped c with
    | true =>
      obtain ⟨u, hunits, hne, -⟩ := unitsOf_unescaped h
      rw [takeWhile_cons_of_neg (by simp [h]), dropWhile_cons_of_neg (by simp [h]),
        flatMap_cons, encodeChar_of_unescaped h, hunits]
      exact ⟨rfl, escapeRun_of_ne hne _⟩
    | false =>
      rw [takeWhile_cons_of_pos (by simp [h]), dropWhile_cons_of_pos (by simp [h]),
        flatMap_cons, flatMap_cons, encodeChar_of_escaped h, escapeRun_escapes, ih.2,
        length_append, append_assoc, ih.1]
      exact ⟨rfl, rfl⟩

theorem percentDecode_encoded (text : List Char) :
    percentDecode (text.flatMap encodeChar) = unitsOfChars text := by
  induction hn : text.length using Nat.strongRecOn generalizing text with
  | _ n ih =>
    cases text with
    | nil => rw [flatMap_nil, percentDecode]; rfl
    | cons c text =>
      cases h : isUnescaped c with
      | true =>
        obtain ⟨u, hunits, hne, -⟩ := unitsOf_unescaped h
        rw [flatMap_cons, encodeChar_of_unescaped h, unitsOfChars_cons, hunits,
          singleton_append, percentDecode_cons hne,
          ih text.length (by rw [← hn]; exact Nat.lt_succ_self _) text rfl]
        rfl
      | false =>
        obtain ⟨hsplit, hrun⟩ := escapeRun_encoded (c :: text)
        have htake : (c :: text).takeWhile (fun c => !isUnescaped c) =
            c :: text.takeWhile fun c => !isUnescaped c :=
          takeWhile_cons_of_pos (by simp [h])
        have hdrop : (c :: text).dropWhile (fun c => !isUnescaped c) =
            text.dropWhile fun c => !isUnescaped c :=
          dropWhile_cons_of_pos (by simp [h])
        have hnonempty : ((c :: text).takeWhile fun c => !isUnescaped c).flatMap encodeChar ≠ [] := by
          obtain ⟨behind, hescapes, -⟩ := escapes_cons c
          rw [htake, flatMap_cons, encodeChar_of_escaped h, hescapes]
          exact cons_ne_nil _ _
        have hshorter : (text.dropWhile fun c => !isUnescaped c).length < n := by
          have := (dropWhile_suffix (l := text) fun c => !isUnescaped c).length_le
          rw [← hn, length_cons]
          omega
        rw [← hsplit] at hrun ⊢
        rw [percentDecode_run hnonempty (decodeURIComponent_encoded _) hrun, hdrop,
          ih _ hshorter _ rfl]
        rw [unitsOfChars, unitsOfChars, unitsOfChars, ← flatMap_append, ← hdrop,
          takeWhile_append_dropWhile]

/-! ## Lengths -/

theorem length_of_escapedByte {text : JsString} {b : UInt8} (h : escapedByte text = some b) :
    3 ≤ text.length := by
  unfold escapedByte at h
  split at h
  · simp only [length_cons]
    omega
  · cases h

theorem length_of_escapedBytes {n : Nat} {text : JsString} {bytes : Bytes}
    (h : escapedBytes n text = some bytes) : 3 * n ≤ text.length := by
  induction n generalizing text bytes with
  | zero => omega
  | succ n ih =>
    obtain ⟨b, hb, hmap⟩ := bind_eq_some_iff.mp h
    obtain ⟨rest, hrest, -⟩ := Option.map_eq_some_iff.mp hmap
    have hthree := length_of_escapedByte hb
    have hdrop := ih hrest
    rw [length_drop] at hdrop
    omega

theorem length_of_escapedChar {text : JsString} {c : Char} (h : escapedChar text = some c) :
    3 * c.utf8Size ≤ text.length := by
  obtain ⟨b, -, hchar⟩ := bind_eq_some_iff.mp h
  split at hchar
  · cases hchar
  · obtain ⟨bytes, hbytes, hdecode⟩ := bind_eq_some_iff.mp hchar
    have hsize := of_decide_eq_true (filter_eq_some_iff.mp hdecode).2
    rw [hsize]
    exact length_of_escapedBytes hbytes

theorem length_unitsOf : 1 ≤ (unitsOf c).length ∧ (unitsOf c).length ≤ 2 := by
  unfold unitsOf
  split
  · exact ⟨Nat.le_refl 1, Nat.le_succ 1⟩
  · exact ⟨Nat.le_succ 1, Nat.le_refl 2⟩

theorem length_decodeURIComponent {text decoded : JsString}
    (h : decodeURIComponent text = some decoded) :
    decoded.length ≤ text.length ∧ text.length ≤ 12 * decoded.length ∧
      (decoded.length = text.length → PERCENT ∉ text) := by
  induction hn : text.length using Nat.strongRecOn generalizing text decoded with
  | _ n ih =>
    cases text with
    | nil =>
      rw [decodeURIComponent] at h
      cases h
      exact ⟨Nat.zero_le _, by rw [← hn, length_nil], fun _ => not_mem_nil⟩
    | cons u rest =>
      rw [length_cons] at hn
      by_cases hu : u = PERCENT
      · rw [decodeURIComponent, if_pos hu] at h
        cases hchar : escapedChar (u :: rest) with
        | none =>
          rw [hchar] at h
          cases h
        | some c =>
          rw [hchar] at h
          obtain ⟨behind, hbehind, rfl⟩ := Option.map_eq_some_iff.mp h
          have hlong := length_of_escapedChar hchar
          have hpos := c.utf8Size_pos
          have hfour := c.utf8Size_le_four
          obtain ⟨hone, htwo⟩ := length_unitsOf c
          rw [length_cons] at hlong
          have hdrop : (rest.drop (3 * c.utf8Size - 1)).length =
              rest.length - (3 * c.utf8Size - 1) := length_drop ..
          obtain ⟨hle, hge, -⟩ := ih _ (by omega) hbehind rfl
          rw [length_append]
          refine ⟨by omega, by omega, fun heq => ?_⟩
          omega
      · rw [decodeURIComponent_cons hu] at h
        obtain ⟨behind, hbehind, rfl⟩ := Option.map_eq_some_iff.mp h
        obtain ⟨hle, hge, hplain⟩ := ih rest.length (by omega) hbehind rfl
        rw [length_cons]
        refine ⟨by omega, by omega, fun heq hmem => ?_⟩
        rcases mem_cons.mp hmem with rfl | hmem
        · exact hu rfl
        · exact hplain (by omega) hmem

theorem decodeURIComponent_plain {text : JsString} (h : PERCENT ∉ text) :
    decodeURIComponent text = some text := by
  induction text with
  | nil => rw [decodeURIComponent]
  | cons u text ih =>
    have hne : u ≠ PERCENT := fun heq => h (heq ▸ mem_cons_self ..)
    rw [decodeURIComponent_cons hne, ih fun hmem => h (mem_cons_of_mem _ hmem)]
    rfl

variable (text : JsString)

theorem decodeURIComponent_self_iff : decodeURIComponent text = some text ↔ PERCENT ∉ text :=
  ⟨fun h => (length_decodeURIComponent h).2.2 rfl, decodeURIComponent_plain⟩

theorem length_graceful : (decodeURIComponentGraceful text).length ≤ text.length := by
  induction hn : text.length using Nat.strongRecOn generalizing text with
  | _ n ih =>
    rw [decodeURIComponentGraceful]
    split
    · next decoded hdecoded =>
      rw [← hn]
      exact (length_decodeURIComponent hdecoded).1
    · split
      · next hlong =>
        have hdrop : (text.drop 3).length = text.length - 3 := length_drop ..
        have := ih _ (by omega) (text.drop 3) rfl
        rw [length_append, length_take]
        omega
      · omega

theorem escapeRun_le (text : JsString) : escapeRun text ≤ text.length := by
  fun_induction escapeRun text with
  | case1 u h l rest _ ih =>
    simp only [length_cons]
    omega
  | case2 => exact Nat.zero_le _
  | case3 => exact Nat.zero_le _

theorem length_percentDecode : (percentDecode text).length ≤ text.length := by
  induction hn : text.length using Nat.strongRecOn generalizing text with
  | _ n ih =>
    cases text with
    | nil =>
      rw [percentDecode]
      exact Nat.zero_le _
    | cons u rest =>
      rw [length_cons] at hn
      rw [percentDecode]
      split
      · have := ih rest.length (by omega) rest rfl
        rw [length_cons]
        omega
      · next hrun =>
        have hle := escapeRun_le (u :: rest)
        have hgraceful := length_graceful ((u :: rest).take (escapeRun (u :: rest)))
        have hdrop : (rest.drop (escapeRun (u :: rest) - 1)).length =
            rest.length - (escapeRun (u :: rest) - 1) := length_drop ..
        have := ih _ (by omega) (rest.drop (escapeRun (u :: rest) - 1)) rfl
        rw [length_take] at hgraceful
        rw [length_append]
        rw [length_cons] at hgraceful hle
        omega

/-! ## Around a slash -/

theorem escapeRun_slash (text rest : JsString) :
    escapeRun (text ++ SLASH :: rest) = escapeRun text := by
  fun_induction escapeRun text with
  | case1 u h l behind hrun ih =>
    rw [cons_append, cons_append, cons_append, escapeRun, if_pos hrun, ih]
  | case2 u h l behind hrun =>
    rw [cons_append, cons_append, cons_append, escapeRun, if_neg hrun]
  | case3 text hshort =>
    cases text with
    | nil => exact escapeRun_of_ne (by decide) _
    | cons u text =>
      cases text with
      | nil =>
        cases rest with
        | nil => rfl
        | cons v rest => exact if_neg fun hrun => absurd hrun.2.1 (by decide)
      | cons h text =>
        cases text with
        | nil => exact if_neg fun hrun => absurd hrun.2.2 (by decide)
        | cons l text => exact absurd rfl (hshort u h l text)

theorem percentDecode_slash (rest : JsString) :
    percentDecode (text ++ SLASH :: rest) = percentDecode text ++ SLASH :: percentDecode rest := by
  induction hn : text.length using Nat.strongRecOn generalizing text with
  | _ n ih =>
    cases text with
    | nil =>
      have hnil : percentDecode [] = [] := by rw [percentDecode]
      rw [nil_append, percentDecode_cons (by decide), hnil, nil_append]
    | cons u text =>
      rw [length_cons] at hn
      have hrun := escapeRun_slash (u :: text) rest
      have hle := escapeRun_le (u :: text)
      rw [cons_append] at hrun ⊢
      rw [percentDecode, percentDecode, hrun]
      split
      · rw [ih text.length (by omega) text rfl, cons_append]
      · rw [← cons_append, take_append_of_le_length hle, append_assoc]
        rw [length_cons] at hle
        have hdrop : (text.drop (escapeRun (u :: text) - 1)).length =
            text.length - (escapeRun (u :: text) - 1) := length_drop ..
        rw [drop_append_of_le_length (by omega), ih _ (by omega) _ rfl]

end Fumie.Base
