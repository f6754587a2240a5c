import Fumie.Lib.Json

/-!
# Bytes as text

The base64 and UTF-8 codecs of the base library. A byte slice is a list of bytes; the
base64 decoder keeps the state of the source's loop, the bits of a byte under
construction and how far the group of four digits has come, and accepts the URL-safe
digits beside the standard ones.
-/

namespace Fumie.Base

open Fumie.Lib JsString

abbrev Bytes := List UInt8

/-! ## base64 -/

def base64Alphabet : JsString :=
  ofString "ABCDEFGHIJKLMNOPQRSTUVWXYZabcdefghijklmnopqrstuvwxyz0123456789+/"

def base64Digit (n : Nat) : CodeUnit := base64Alphabet.getD n 0

def encodeBase64 : Bytes → JsString
  | a :: b :: c :: rest =>
    base64Digit (a.toNat >>> 2) :: base64Digit ((a.toNat <<< 4 ||| b.toNat >>> 4) &&& 63) ::
      base64Digit ((b.toNat <<< 2 ||| c.toNat >>> 6) &&& 63) :: base64Digit (c.toNat &&& 63) ::
      encodeBase64 rest
  | [a, b] =>
    [base64Digit (a.toNat >>> 2), base64Digit ((a.toNat <<< 4 ||| b.toNat >>> 4) &&& 63),
      base64Digit (b.toNat <<< 2 &&& 63), 61]
  | [a] => [base64Digit (a.toNat >>> 2), base64Digit (a.toNat <<< 4 &&& 63), 61, 61]
  | [] => []

def encodeBase64With (digit : Nat → CodeUnit) (padTwo padOne : JsString) : Bytes → JsString
  | a :: b :: c :: rest =>
    digit (a.toNat >>> 2) :: digit ((a.toNat <<< 4 ||| b.toNat >>> 4) &&& 63) ::
      digit ((b.toNat <<< 2 ||| c.toNat >>> 6) &&& 63) :: digit (c.toNat &&& 63) ::
      encodeBase64With digit padTwo padOne rest
  | [a, b] =>
    [digit (a.toNat >>> 2), digit ((a.toNat <<< 4 ||| b.toNat >>> 4) &&& 63),
      digit (b.toNat <<< 2 &&& 63)] ++ padOne
  | [a] => [digit (a.toNat >>> 2), digit (a.toNat <<< 4 &&& 63)] ++ padTwo
  | [] => []

def base64UrlSafeAlphabet : JsString :=
  ofString "ABCDEFGHIJKLMNOPQRSTUVWXYZabcdefghijklmnopqrstuvwxyz0123456789-_"

def base64UrlSafeDigit (n : Nat) : CodeUnit := base64UrlSafeAlphabet.getD n 0

/-- `encodeBase64(buffer, false, true)`. -/
def encodeBase64UrlSafe (bytes : Bytes) : JsString := encodeBase64With base64UrlSafeDigit [] [] bytes

structure Base64Decoder where
  building : Nat
  remainder : Nat
  buffer : Bytes

namespace Base64Decoder

def append (d : Base64Decoder) (value : Nat) : Base64Decoder :=
  match d.remainder with
  | 3 =>
    { d with buffer := d.buffer ++ [UInt8.ofNat (d.building ||| value)], remainder := 0 }
  | 2 =>
    { buffer := d.buffer ++ [UInt8.ofNat (d.building ||| value >>> 2)]
      building := value <<< 6
      remainder := 3 }
  | 1 =>
    { buffer := d.buffer ++ [UInt8.ofNat (d.building ||| value >>> 4)]
      building := value <<< 4
      remainder := 2 }
  | _ => { d with building := value <<< 2, remainder := 1 }

end Base64Decoder

def base64Value? (code : CodeUnit) : Option Nat :=
  if 65 ≤ code.val ∧ code.val ≤ 90 then some (code.val - 65)
  else if 97 ≤ code.val ∧ code.val ≤ 122 then some (code.val - 97 + 26)
  else if 48 ≤ code.val ∧ code.val ≤ 57 then some (code.val - 48 + 52)
  else if code.val = 43 ∨ code.val = 45 then some 62
  else if code.val = 47 ∨ code.val = 95 then some 63
  else none

def decodeBase64Digits (d : Base64Decoder) : JsString → Option Base64Decoder
  | [] => some d
  | code :: rest =>
    match base64Value? code with
    | some value => decodeBase64Digits (d.append value) rest
    | none => if code.val = 61 then some d else none

def decodeBase64 (encoded : JsString) : Option Bytes :=
  (decodeBase64Digits ⟨0, 0, []⟩ encoded).map Base64Decoder.buffer

/-! ## UTF-8 -/

def utf8Encode (text : List Char) : Bytes := text.flatMap String.utf8EncodeChar

def utf8Decode (bytes : Bytes) : Option (List Char) :=
  match bytes.toByteArray.utf8Decode? with
  | none => none
  | some text =>
    match text.toList with
    | '\uFEFF' :: text => some text
    | text => some text

end Fumie.Base
