import Fumie.Lib.JsonText
import Fumie.Base.Buffer

/-!
# Strings in buffers

`VSBuffer.fromString` and `VSBuffer.toString`. A lone surrogate has no UTF-8 and becomes
the replacement character, as do bytes that are no UTF-8; a byte order mark is text. A
string comes back from its buffer exactly when it has no lone surrogate.
-/

namespace Fumie.Base

open Fumie.Lib List Bool

def replacementChar : Char := '\uFFFD'

def scalars : JsString → List Char
  | [] => []
  | [u] => [if isHighSurrogate u || isLowSurrogate u then replacementChar else Char.ofNat u.val]
  | u :: v :: rest =>
    if isHighSurrogate u && isLowSurrogate v then pairChar u v :: scalars rest
    else if isHighSurrogate u || isLowSurrogate u then replacementChar :: scalars (v :: rest)
    else Char.ofNat u.val :: scalars (v :: rest)

def isWellFormed : JsString → Bool
  | [] => true
  | [u] => !(isHighSurrogate u || isLowSurrogate u)
  | u :: v :: rest =>
    if isHighSurrogate u && isLowSurrogate v then isWellFormed rest
    else !(isHighSurrogate u || isLowSurrogate u) && isWellFormed (v :: rest)

def unitsOfChars (text : List Char) : JsString := text.flatMap unitsOf

def bufferFromString (source : JsString) : Bytes := utf8Encode (scalars source)

/-! ## Reading bytes -/

def decodeChar? (bytes : Bytes) : Option Char := bytes.toByteArray.utf8DecodeChar? 0

def isContinuation (b : UInt8) (low high : Nat) : Bool := low ≤ b.toNat && b.toNat ≤ high

def truncatedLength : Bytes → Nat
  | [] => 0
  | b :: rest =>
    let low := if b.toNat = 0xE0 then 0xA0 else if b.toNat = 0xF0 then 0x90 else 0x80
    let high := if b.toNat = 0xED then 0x9F else if b.toNat = 0xF4 then 0x8F else 0xBF
    if 0xE0 ≤ b.toNat ∧ b.toNat ≤ 0xF4 then
      match rest with
      | c :: d :: _ =>
        if isContinuation c low high then
          if 0xF0 ≤ b.toNat ∧ isContinuation d 0x80 0xBF then 3 else 2
        else 1
      | [c] => if isContinuation c low high then 2 else 1
      | [] => 1
    else 1

def utf8DecodeLossy : Bytes → List Char
  | [] => []
  | b :: rest =>
    match decodeChar? (b :: rest) with
    | some c => c :: utf8DecodeLossy (rest.drop (c.utf8Size - 1))
    | none => replacementChar :: utf8DecodeLossy (rest.drop (truncatedLength (b :: rest) - 1))
termination_by bytes => bytes.length
decreasing_by
  all_goals
    simp only [length_drop, length_cons]
    omega

def bufferToString (buffer : Bytes) : JsString := unitsOfChars (utf8DecodeLossy buffer)

/-! ## There and back -/

variable (c : Char) (source : JsString) (text : List Char)

theorem decodeChar?_append (bytes : Bytes) :
    decodeChar? (String.utf8EncodeChar c ++ bytes) = some c := by
  rw [decodeChar?, toByteArray_append]
  exact ByteArray.utf8DecodeChar?_utf8EncodeChar_append

theorem utf8EncodeChar_cons :
    ∃ b rest, String.utf8EncodeChar c = b :: rest ∧ rest.length = c.utf8Size - 1 := by
  have hlength := String.length_utf8EncodeChar c
  have hpos := c.utf8Size_pos
  cases hbytes : String.utf8EncodeChar c with
  | nil =>
    rw [hbytes, length_nil] at hlength
    omega
  | cons b rest =>
    rw [hbytes, length_cons] at hlength
    exact ⟨b, rest, rfl, by omega⟩

theorem utf8DecodeLossy_char (bytes : Bytes) :
    utf8DecodeLossy (String.utf8EncodeChar c ++ bytes) = c :: utf8DecodeLossy bytes := by
  have hdecode := decodeChar?_append c bytes
  obtain ⟨b, rest, hbytes, hlength⟩ := utf8EncodeChar_cons c
  rw [hbytes, cons_append] at hdecode ⊢
  rw [utf8DecodeLossy, hdecode]
  dsimp only
  rw [List.drop_left' hlength]

theorem utf8DecodeLossy_utf8Encode : utf8DecodeLossy (utf8Encode text) = text := by
  induction text with
  | nil => rw [utf8Encode, flatMap_nil, utf8DecodeLossy]
  | cons c text ih =>
    rw [utf8Encode] at ih ⊢
    rw [flatMap_cons, utf8DecodeLossy_char, ih]

theorem bufferToString_fromString :
    bufferToString (bufferFromString source) = unitsOfChars (scalars source) := by
  rw [bufferToString, bufferFromString, utf8DecodeLossy_utf8Encode]

theorem unitsOf_replacementChar : unitsOf replacementChar = [0xFFFD] := by decide

theorem unitsOfChars_cons : unitsOfChars (c :: text) = unitsOf c ++ unitsOfChars text := rfl

theorem unitsOf_replaced {u : CodeUnit} (h : (isHighSurrogate u || isLowSurrogate u) = true)
    (rest rest' : JsString) : unitsOf replacementChar ++ rest ≠ u :: rest' := by
  rw [unitsOf_replacementChar]
  intro heq
  cases heq
  revert h
  decide

theorem unitsOfChars_scalars : unitsOfChars (scalars source) = source ↔ isWellFormed source := by
  fun_induction scalars source with
  | case1 => exact ⟨fun _ => rfl, fun _ => rfl⟩
  | case2 u =>
    rw [unitsOfChars_cons, isWellFormed]
    cases hlone : isHighSurrogate u || isLowSurrogate u with
    | true =>
      rw [if_pos rfl]
      exact ⟨fun h => absurd h (unitsOf_replaced hlone _ _), fun h => absurd h (by decide)⟩
    | false =>
      obtain ⟨hhigh, hlow⟩ := or_eq_false_iff.mp hlone
      rw [if_neg (by decide), unitsOf_unit hhigh hlow]
      exact ⟨fun _ => rfl, fun _ => rfl⟩
  | case3 u v rest hpair ih =>
    rw [isWellFormed, if_pos hpair, ← ih]
    obtain ⟨hhigh, hlow⟩ := and_eq_true_iff.mp hpair
    rw [unitsOfChars_cons, unitsOf_pairChar hhigh hlow]
    simp
  | case4 u v rest hpair hlone ih =>
    rw [isWellFormed, if_neg hpair, unitsOfChars_cons, hlone]
    exact ⟨fun h => absurd h (unitsOf_replaced hlone _ _), fun h => absurd h (by simp)⟩
  | case5 u v rest hpair hlone ih =>
    obtain ⟨hhigh, hlow⟩ := or_eq_false_iff.mp (eq_false_iff.mpr hlone)
    rw [isWellFormed, if_neg hpair, unitsOfChars_cons, unitsOf_unit hhigh hlow,
      eq_false_iff.mpr hlone, Bool.not_false, Bool.true_and, ← ih]
    simp

end Fumie.Base
