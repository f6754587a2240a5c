import Mathlib

/-!
# JSON values and texts

`JsonValue` is what `JSON.parse` can return. A string is its UTF-16 code units, since
a JavaScript string need not be well-formed Unicode; a text is a list of Unicode
scalar values. `stringify` writes a surrogate pair as one character and escapes a lone
surrogate, and `parse` takes either form back.

An integer of ordinary size is a number by its value and any other number by the text
`String(n)` gives for it, so two numbers are equal when their texts are.
-/

namespace Fumie.Lib

/-! ## Strings of code units -/

abbrev CodeUnit := Fin 0x10000

instance neZero_codeUnits : NeZero 0x10000 := ⟨by decide⟩

abbrev JsString := List CodeUnit

instance lawfulBEq_jsString : LawfulBEq JsString := inferInstance

def unitsOf (c : Char) : JsString :=
  if c.toNat < 0x10000 then [Fin.ofNat 0x10000 c.toNat]
  else
    [Fin.ofNat 0x10000 (0xD800 + (c.toNat - 0x10000) / 0x400),
     Fin.ofNat 0x10000 (0xDC00 + (c.toNat - 0x10000) % 0x400)]

def JsString.ofString (s : String) : JsString := s.toList.flatMap unitsOf

def isHighSurrogate (u : CodeUnit) : Bool := 0xD800 ≤ u.val && u.val < 0xDC00

def isLowSurrogate (u : CodeUnit) : Bool := 0xDC00 ≤ u.val && u.val < 0xE000

def pairChar (high low : CodeUnit) : Char :=
  Char.ofNat (0x10000 + (high.val - 0xD800) * 0x400 + (low.val - 0xDC00))

/-! ## Values -/

def isNumeralChar (c : Char) : Bool := c.isDigit || c = '-' || c = '+' || c = '.' || c = 'e' || c = 'E'

section

variable (text : List Char)

def spanDigits : List Char × List Char := text.span Char.isDigit

/-- `int frac? exp?` of the JSON grammar, without its sign. -/
def isUnsignedNumeral : Bool :=
  let (whole, rest) := spanDigits text
  let rest? :=
    match rest with
    | '.' :: rest =>
      let (fraction, rest) := spanDigits rest
      if fraction.isEmpty then none else some rest
    | rest => some rest
  let exponent (rest : List Char) : Bool :=
    let (digits, rest) := spanDigits rest
    !digits.isEmpty && rest.isEmpty
  !whole.isEmpty && !(whole.length > 1 && whole.head? = some '0') &&
    match rest? with
    | none => false
    | some [] => true
    | some (c :: rest) =>
      (c = 'e' || c = 'E') &&
        match rest with
        | '+' :: rest => exponent rest
        | '-' :: rest => exponent rest
        | rest => exponent rest

def unsigned : List Char :=
  match text with
  | '-' :: rest => rest
  | text => text

def isNumeral : Bool := text.all isNumeralChar && isUnsignedNumeral (unsigned text)

def isIntegral : Bool := (unsigned text).all Char.isDigit

end

/-- The text of a number that is no plain integer. -/
structure Numeral where
  text : List Char
  numeral : isNumeral text = true
  fractional : isIntegral text = false
  deriving DecidableEq

inductive JsNumber where
  | integer (n : Int)
  | other (numeral : Numeral)
  deriving DecidableEq

inductive JsonValue where
  | null
  | boolean (b : Bool)
  | number (n : JsNumber)
  | string (s : JsString)
  | array (items : List JsonValue)
  | object (entries : List (JsString × JsonValue))

namespace JsonValue

def field? (key : JsString) : JsonValue → Option JsonValue
  | .object entries => (entries.find? fun entry => entry.1 = key).map Prod.snd
  | _ => none

mutual

/-- The keys of every object are distinct, as those of a JavaScript object are. -/
def Proper : JsonValue → Prop
  | .array items => ProperItems items
  | .object entries => (entries.map Prod.fst).Nodup ∧ ProperEntries entries
  | _ => True

def ProperItems : List JsonValue → Prop
  | [] => True
  | item :: rest => item.Proper ∧ ProperItems rest

def ProperEntries : List (JsString × JsonValue) → Prop
  | [] => True
  | (_, value) :: rest => value.Proper ∧ ProperEntries rest

end

/-! ## `JSON.stringify` -/

def hexDigit (n : Nat) : Char := if n < 10 then Char.ofNat (48 + n) else Char.ofNat (87 + n)

def escapeUnit (u : CodeUnit) : List Char :=
  ['\\', 'u', hexDigit (u.val / 4096), hexDigit (u.val / 256 % 16), hexDigit (u.val / 16 % 16),
    hexDigit (u.val % 16)]

def quoteUnit (u : CodeUnit) : List Char :=
  if u.val = 0x22 then ['\\', '"']
  else if u.val = 0x5C then ['\\', '\\']
  else if u.val = 0x08 then ['\\', 'b']
  else if u.val = 0x0C then ['\\', 'f']
  else if u.val = 0x0A then ['\\', 'n']
  else if u.val = 0x0D then ['\\', 'r']
  else if u.val = 0x09 then ['\\', 't']
  else if u.val < 0x20 || isHighSurrogate u || isLowSurrogate u then escapeUnit u
  else [Char.ofNat u.val]

def quoteUnits : JsString → List Char
  | [] => []
  | [u] => quoteUnit u
  | u :: v :: rest =>
    if isHighSurrogate u && isLowSurrogate v then pairChar u v :: quoteUnits rest
    else quoteUnit u ++ quoteUnits (v :: rest)

def quote (s : JsString) : List Char := '"' :: quoteUnits s ++ ['"']

def printNumber : JsNumber → List Char
  | .integer (.ofNat n) => Nat.toDigits 10 n
  | .integer (.negSucc n) => '-' :: Nat.toDigits 10 (n + 1)
  | .other numeral => numeral.text

mutual

def stringify : JsonValue → List Char
  | .null => ['n', 'u', 'l', 'l']
  | .boolean true => ['t', 'r', 'u', 'e']
  | .boolean false => ['f', 'a', 'l', 's', 'e']
  | .number n => printNumber n
  | .string s => quote s
  | .array [] => ['[', ']']
  | .array (item :: rest) => '[' :: (stringify item ++ stringifyItems rest)
  | .object [] => ['{', '}']
  | .object ((key, value) :: rest) =>
    '{' :: (quote key ++ ':' :: (stringify value ++ stringifyEntries rest))

def stringifyItems : List JsonValue → List Char
  | [] => [']']
  | item :: rest => ',' :: (stringify item ++ stringifyItems rest)

def stringifyEntries : List (JsString × JsonValue) → List Char
  | [] => ['}']
  | (key, value) :: rest => ',' :: (quote key ++ ':' :: (stringify value ++ stringifyEntries rest))

end

/-! ## `JSON.parse` -/

def isWhitespace (c : Char) : Bool := c = ' ' || c = '\t' || c = '\n' || c = '\r'

def skipWhitespace (text : List Char) : List Char := text.dropWhile isWhitespace

def hexValue? (c : Char) : Option Nat :=
  if '0' ≤ c ∧ c ≤ '9' then some (c.toNat - 48)
  else if 'a' ≤ c ∧ c ≤ 'f' then some (c.toNat - 87)
  else if 'A' ≤ c ∧ c ≤ 'F' then some (c.toNat - 55)
  else none

def hexUnit? (a b c d : Char) : Option CodeUnit :=
  match hexValue? a, hexValue? b, hexValue? c, hexValue? d with
  | some a, some b, some c, some d => some (Fin.ofNat 0x10000 (a * 4096 + b * 256 + c * 16 + d))
  | _, _, _, _ => none

def escapedUnit? : Char → Option CodeUnit
  | '"' => some 0x22
  | '\\' => some 0x5C
  | '/' => some 0x2F
  | 'b' => some 0x08
  | 'f' => some 0x0C
  | 'n' => some 0x0A
  | 'r' => some 0x0D
  | 't' => some 0x09
  | _ => none

def parseUnits : List Char → Option (JsString × List Char)
  | [] => none
  | '"' :: rest => some ([], rest)
  | '\\' :: 'u' :: a :: b :: c :: d :: rest =>
    match hexUnit? a b c d, parseUnits rest with
    | some u, some (units, rest) => some (u :: units, rest)
    | _, _ => none
  | '\\' :: e :: rest =>
    match escapedUnit? e, parseUnits rest with
    | some u, some (units, rest) => some (u :: units, rest)
    | _, _ => none
  | c :: rest =>
    if c.toNat < 0x20 || c = '\\' then none
    else (parseUnits rest).map fun p => (unitsOf c ++ p.1, p.2)

def integerOf (text : List Char) : Int :=
  match text with
  | '-' :: digits => -(Nat.ofDigitChars 10 digits 0 : Int)
  | digits => Nat.ofDigitChars 10 digits 0

def parseNumber (text : List Char) : Option (JsonValue × List Char) :=
  let numeral := text.takeWhile isNumeralChar
  let rest := text.dropWhile isNumeralChar
  if h : isNumeral numeral = true then
    if h' : isIntegral numeral = true then some (.number (.integer (integerOf numeral)), rest)
    else some (.number (.other ⟨numeral, h, Bool.eq_false_iff.mpr h'⟩), rest)
  else none

def setEntry (entries : List (JsString × JsonValue)) (entry : JsString × JsonValue) :
    List (JsString × JsonValue) :=
  if entry.1 ∈ entries.map Prod.fst then
    entries.map fun e => if e.1 = entry.1 then entry else e
  else entries ++ [entry]

mutual

def parseValue : Nat → List Char → Option (JsonValue × List Char)
  | 0, _ => none
  | fuel + 1, text =>
    match text with
    | 'n' :: 'u' :: 'l' :: 'l' :: rest => some (.null, rest)
    | 't' :: 'r' :: 'u' :: 'e' :: rest => some (.boolean true, rest)
    | 'f' :: 'a' :: 'l' :: 's' :: 'e' :: rest => some (.boolean false, rest)
    | '"' :: rest => (parseUnits rest).map fun p => (.string p.1, p.2)
    | '[' :: rest =>
      match skipWhitespace rest with
      | ']' :: rest => some (.array [], rest)
      | rest => (parseItems fuel rest).map fun p => (.array p.1, p.2)
    | '{' :: rest =>
      match skipWhitespace rest with
      | '}' :: rest => some (.object [], rest)
      | rest => (parseEntries fuel rest).map fun p => (.object (p.1.foldl setEntry []), p.2)
    | text => parseNumber text

def parseItems : Nat → List Char → Option (List JsonValue × List Char)
  | 0, _ => none
  | fuel + 1, text =>
    match parseValue fuel (skipWhitespace text) with
    | none => none
    | some (item, rest) =>
      match skipWhitespace rest with
      | ',' :: rest => (parseItems fuel rest).map fun p => (item :: p.1, p.2)
      | ']' :: rest => some ([item], rest)
      | _ => none

def parseEntries : Nat → List Char → Option (List (JsString × JsonValue) × List Char)
  | 0, _ => none
  | fuel + 1, text =>
    match skipWhitespace text with
    | '"' :: rest =>
      match parseUnits rest with
      | none => none
      | some (key, rest) =>
        match skipWhitespace rest with
        | ':' :: rest =>
          match parseValue fuel (skipWhitespace rest) with
          | none => none
          | some (value, rest) =>
            match skipWhitespace rest with
            | ',' :: rest => (parseEntries fuel rest).map fun p => ((key, value) :: p.1, p.2)
            | '}' :: rest => some ([(key, value)], rest)
            | _ => none
        | _ => none
    | _ => none

end

def parse (text : List Char) : Option JsonValue :=
  match parseValue (2 * text.length + 1) (skipWhitespace text) with
  | some (value, rest) => if (skipWhitespace rest).isEmpty then some value else none
  | none => none

end JsonValue

end Fumie.Lib
