import Fumie.Lib.Json

/-!
# Strings of the language

The string functions the sources call: trimming, searching and the character classes
of regular expressions, over code units.
-/

namespace Fumie.Base

open Fumie.Lib

def isStrWhiteSpace (u : CodeUnit) : Bool :=
  u.val ∈ [9, 10, 11, 12, 13, 32, 0xA0, 0x1680, 0x2028, 0x2029, 0x202F, 0x205F, 0x3000, 0xFEFF] ||
    0x2000 ≤ u.val && u.val ≤ 0x200A

def isLineTerminator (u : CodeUnit) : Bool := u.val ∈ [10, 13, 0x2028, 0x2029]

def isDecimalDigit (u : CodeUnit) : Bool := 48 ≤ u.val && u.val ≤ 57

def isAsciiLetter (u : CodeUnit) : Bool := 65 ≤ u.val && u.val ≤ 90 || 97 ≤ u.val && u.val ≤ 122

variable (text : JsString)

def trimStart : JsString := text.dropWhile isStrWhiteSpace

def trim : JsString := ((trimStart text).reverse.dropWhile isStrWhiteSpace).reverse

def asciiLowerCase : JsString :=
  text.map fun u => if 65 ≤ u.val ∧ u.val ≤ 90 then u + 32 else u

def startsWith (text start : JsString) : Bool := start.isPrefixOf text

def endsWith (text ending : JsString) : Bool := ending.isSuffixOf text

/-- `data.indexOf(needle)`. -/
def indexOf (needle : JsString) : JsString → Option Nat
  | [] => if needle.isEmpty then some 0 else none
  | u :: rest =>
    if needle.isPrefixOf (u :: rest) then some 0 else (indexOf needle rest).map (· + 1)

def words : List JsString := text.splitOnP isStrWhiteSpace

end Fumie.Base
