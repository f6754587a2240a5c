import Fumie.Base.BufferStrings
import Fumie.Base.Strings

/-!
# URIs

Percent-encoding and `URI.parse`. `encodeURIComponent` fails on a lone surrogate and
`decodeURIComponent` on an escape that is no UTF-8, which `URI.parse` tolerates: there a
run of escapes that cannot be decoded is decoded behind its first escape, or kept.
-/

namespace Fumie.Base

open Fumie.Lib List JsString

def PERCENT : CodeUnit := 37

/-! ## Percent-encoding -/

/-- What `encodeURIComponent` leaves as it is: letters, digits and `-_.!~*'()`. -/
def isUnescaped (c : Char) : Bool :=
  c.isAlphanum || c ∈ ['-', '_', '.', '!', '~', '*', '\'', '(', ')']

def upperHexDigit (n : Nat) : CodeUnit :=
  if n < 10 then Fin.ofNat 0x10000 (48 + n) else Fin.ofNat 0x10000 (55 + n)

def escapeByte (b : UInt8) : JsString :=
  [PERCENT, upperHexDigit (b.toNat / 16), upperHexDigit (b.toNat % 16)]

def encodeChar (c : Char) : JsString :=
  if isUnescaped c then unitsOf c else (String.utf8EncodeChar c).flatMap escapeByte

def encodeURIComponent (text : JsString) : Option JsString :=
  if isWellFormed text then some ((scalars text).flatMap encodeChar) else none

def hexDigitValue (u : CodeUnit) : Option Nat :=
  if 48 ≤ u.val ∧ u.val ≤ 57 then some (u.val - 48)
  else if 65 ≤ u.val ∧ u.val ≤ 70 then some (u.val - 55)
  else if 97 ≤ u.val ∧ u.val ≤ 102 then some (u.val - 87)
  else none

def escapedByte : JsString → Option UInt8
  | u :: h :: l :: _ =>
    if u = PERCENT then
      (hexDigitValue h).bind fun high =>
        (hexDigitValue l).map fun low => UInt8.ofNat (high * 16 + low)
    else none
  | _ => none

def sequenceLength (b : UInt8) : Nat :=
  if b.toNat < 0x80 then 1 else if b.toNat < 0xC0 then 0 else if b.toNat < 0xE0 then 2
  else if b.toNat < 0xF0 then 3 else if b.toNat < 0xF8 then 4 else 0

def escapedBytes : Nat → JsString → Option Bytes
  | 0, _ => some []
  | n + 1, text =>
    (escapedByte text).bind fun b => (escapedBytes n (text.drop 3)).map fun bytes => b :: bytes

def escapedChar (text : JsString) : Option Char :=
  (escapedByte text).bind fun b =>
    if sequenceLength b = 0 then none
    else
      (escapedBytes (sequenceLength b) text).bind fun bytes =>
        (decodeChar? bytes).filter fun c => c.utf8Size = sequenceLength b

def decodeURIComponent : JsString → Option JsString
  | [] => some []
  | u :: rest =>
    if u = PERCENT then
      match escapedChar (u :: rest) with
      | none => none
      | some c =>
        (decodeURIComponent (rest.drop (3 * c.utf8Size - 1))).map fun text => unitsOf c ++ text
    else (decodeURIComponent rest).map fun text => u :: text
termination_by text => text.length
decreasing_by
  all_goals
    simp only [length_drop, length_cons]
    omega

def decodeURIComponentGraceful (text : JsString) : JsString :=
  match decodeURIComponent text with
  | some decoded => decoded
  | none =>
    if text.length > 3 then text.take 3 ++ decodeURIComponentGraceful (text.drop 3) else text
termination_by text.length
decreasing_by
  simp only [length_drop]
  omega

def isHexLike (u : CodeUnit) : Bool := isAsciiLetter u || isDecimalDigit u

/-- How much of a string the expression `(%[0-9A-Za-z][0-9A-Za-z])+` matches at its start. -/
def escapeRun : JsString → Nat
  | u :: h :: l :: rest => if u = PERCENT ∧ isHexLike h ∧ isHexLike l then 3 + escapeRun rest else 0
  | _ => 0

def percentDecode : JsString → JsString
  | [] => []
  | u :: rest =>
    if escapeRun (u :: rest) = 0 then u :: percentDecode rest
    else
      decodeURIComponentGraceful ((u :: rest).take (escapeRun (u :: rest))) ++
        percentDecode (rest.drop (escapeRun (u :: rest) - 1))
termination_by text => text.length
decreasing_by
  all_goals
    simp only [length_drop, length_cons]
    omega

/-! ## Parsing -/

structure Uri where
  scheme : JsString
  authority : JsString
  path : JsString
  query : JsString
  fragment : JsString
  deriving DecidableEq

def COLON : CodeUnit := 58
def SLASH : CodeUnit := 47
def QUESTION : CodeUnit := 63
def HASH : CodeUnit := 35

/-- `_schemePattern`, `/^\w[\w\d+.-]*$/`. -/
def isWordUnit (u : CodeUnit) : Bool := isAsciiLetter u || isDecimalDigit u || u = 95

def schemePattern : JsString → Bool
  | [] => false
  | u :: rest => isWordUnit u && rest.all fun v => isWordUnit v || v = 43 || v = 46 || v = 45

/-- `_validateUri` without `_strict`. -/
def validateUri (uri : Uri) : Bool :=
  (uri.scheme.isEmpty || schemePattern uri.scheme) &&
    (uri.path.isEmpty ||
      if uri.authority.isEmpty then !startsWith uri.path [SLASH, SLASH]
      else startsWith uri.path [SLASH])

/-- `_schemeFix` without `_strict`. -/
def schemeFix (scheme : JsString) : JsString :=
  if scheme.isEmpty then ofString "file" else scheme

def referenceResolution (scheme path : JsString) : JsString :=
  if scheme ∈ [ofString "https", ofString "http", ofString "file"] then
    if startsWith path [SLASH] then path else SLASH :: path
  else path

def Uri.new (scheme authority path query fragment : JsString) : Option Uri :=
  let uri : Uri :=
    { scheme := schemeFix scheme
      authority
      path := referenceResolution (schemeFix scheme) path
      query
      fragment }
  if validateUri uri then some uri else none

/-- The parts `_regexp` finds: scheme, authority, path, query and fragment. -/
structure UriParts where
  scheme : JsString
  authority : JsString
  path : JsString
  query : JsString
  fragment : JsString

variable (value : JsString)

/-- `([^:/?#]+?):` at the start, and what follows it. -/
def splitScheme : JsString × JsString :=
  let name := value.takeWhile fun u => !(u = COLON || u = SLASH || u = QUESTION || u = HASH)
  match value.dropWhile fun u => !(u = COLON || u = SLASH || u = QUESTION || u = HASH) with
  | u :: rest => if u = COLON ∧ name ≠ [] then (name, rest) else ([], value)
  | [] => ([], value)

/-- `\/\/([^/?#]*)` at the start, and what follows it. -/
def splitAuthority : JsString × JsString :=
  if startsWith value [SLASH, SLASH] then
    ((value.drop 2).takeWhile fun u => !(u = SLASH || u = QUESTION || u = HASH),
      (value.drop 2).dropWhile fun u => !(u = SLASH || u = QUESTION || u = HASH))
  else ([], value)

/-- `_regexp`. -/
def uriParts : UriParts :=
  let (scheme, rest) := splitScheme value
  let (authority, rest) := splitAuthority rest
  let path := rest.takeWhile fun u => !(u = QUESTION || u = HASH)
  let rest := rest.dropWhile fun u => !(u = QUESTION || u = HASH)
  let (query, rest) :=
    if startsWith rest [QUESTION] then
      ((rest.drop 1).takeWhile fun u => !(u = HASH), (rest.drop 1).dropWhile fun u => !(u = HASH))
    else ([], rest)
  let fragment :=
    if startsWith rest [HASH] then (rest.drop 1).takeWhile fun u => !isLineTerminator u else []
  { scheme, authority, path, query, fragment }

def Uri.parse : Option Uri :=
  let parts := uriParts value
  Uri.new parts.scheme (percentDecode parts.authority) (percentDecode parts.path)
    (percentDecode parts.query) (percentDecode parts.fragment)

end Fumie.Base
