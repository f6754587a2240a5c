import Fumie.Base.UriText
import Fumie.Lib.Record

/-!
# URI templates

Expansion of a parsed RFC 6570 template. `pctEncode` writes each UTF-16 code unit as one
escape of its value, whatever its size, where a URI carries the bytes of UTF-8: the text
comes back where all its units are ASCII, and nowhere else. The variables are the
properties of a plain object, which inherits those of `Object.prototype`.
-/

namespace Fumie.Base

open Fumie.Lib List JsString Char

namespace UriTemplate

inductive Operator
  | simple
  | reserved
  | fragment
  | label
  | path
  | param
  | form
  | formCont
  deriving DecidableEq

inductive Value
  | text (text : JsString)
  | list (items : List JsString)
  | object (entries : List (JsString × JsString))

structure Variable where
  name : JsString
  explodable : Bool
  prefixLength : Option Nat

structure Expression where
  expression : JsString
  operator : Operator
  varSpecs : List Variable

inductive Component
  | literal (text : JsString)
  | expression (e : Expression)

/-! ## Encoding -/

def isUnreserved (u : CodeUnit) : Bool :=
  isAsciiLetter u || isDecimalDigit u || u = 0x2d || u = 0x2e || u = 0x5f || u = 0x7e

/-- `n.toString(16).toUpperCase()`. -/
def upperHex (n : Nat) : JsString :=
  if n < 16 then [upperHexDigit n] else upperHex (n / 16) ++ [upperHexDigit (n % 16)]
termination_by n
decreasing_by exact Nat.div_lt_self (by omega) (by omega)

def pctUnit (u : CodeUnit) : JsString :=
  if isUnreserved u then [u]
  else PERCENT :: (replicate (2 - (upperHex u.val).length) 48 ++ upperHex u.val)

def pctEncode (str : JsString) : JsString := str.flatMap pctUnit

def encodeURI (text : JsString) : Option JsString :=
  if isWellFormed text then
    some ((scalars text).flatMap fun c =>
      if isUnescaped c || c ∈ ";/?:@&=+$,#".toList then unitsOf c else escapes c)
  else none

def encode (str : JsString) (reserved : Bool) : Option JsString :=
  if reserved then encodeURI str else some (pctEncode str)

/-! ## Expansion -/

def COMMA : CodeUnit := 44
def DOT : CodeUnit := 46
def SEMICOLON : CodeUnit := 59
def EQUALS : CodeUnit := 61
def AMPERSAND : CodeUnit := 38

/-- `items.join(separator)`. -/
def join (separator : CodeUnit) (items : List JsString) : JsString := [separator].intercalate items

def isReserved (op : Operator) : Bool := op = .reserved || op = .fragment

def explodedSeparator : Operator → CodeUnit
  | .label => DOT
  | .param => SEMICOLON
  | .form | .formCont => AMPERSAND
  | _ => COMMA

def pair (key value : JsString) : JsString := key ++ EQUALS :: value

def expandObject (op : Operator) (v : Variable) (entries : List (JsString × JsString)) :
    Option JsString :=
  if v.explodable then
    match op with
    | .param | .form | .formCont | .label =>
      some (join (explodedSeparator op) (entries.map fun e => pair e.1 e.2))
    | .path =>
      (entries.mapM fun e => (encode e.2 false).map fun x => SLASH :: pair e.1 x).map flatten
    | _ => (entries.mapM fun e => (encode e.2 (isReserved op)).map (pair e.1)).map (join COMMA)
  else
    let joined := join COMMA (entries.flatMap fun e => [e.1, e.2])
    match op with
    | .param | .form | .formCont => some (pair v.name joined)
    | _ => some joined

def expandList (op : Operator) (v : Variable) (items : List JsString) : Option JsString :=
  match op with
  | .label => some (join (if v.explodable then DOT else COMMA) items)
  | .param | .form | .formCont =>
    some (if v.explodable then join (explodedSeparator op) (items.map (pair v.name))
      else pair v.name (join COMMA items))
  | .path =>
    if v.explodable then (items.mapM fun x => (encode x false).map (SLASH :: ·)).map flatten
    else (items.mapM (encode · false)).map (join COMMA)
  | _ => (items.mapM (encode · (isReserved op))).map (join COMMA)

def expandText (op : Operator) (name encoded : JsString) : JsString :=
  match op with
  | .param | .form | .formCont => pair name encoded
  | .path => SLASH :: encoded
  | _ => encoded

def expandVariable (op : Operator) (v : Variable) (value : Option Value) (defined : Bool) :
    Option (List JsString) :=
  match value with
  | none =>
    match op with
    | .param => some (if defined then [v.name] else [])
    | .form | .formCont => some (if defined then [pair v.name []] else [])
    | _ => some []
  | some (.list []) =>
    match op with
    | .form | .formCont => some (if defined then [pair v.name []] else [])
    | _ => some []
  | some (.object entries) => (expandObject op v entries).map fun x => [x]
  | some (.list items) => (expandList op v items).map fun x => [x]
  | some (.text text) =>
    let str := match v.prefixLength with
      | some n => text.take n
      | none => text
    (encode str (isReserved op)).map fun x => [expandText op v.name x]

/-- `v.replace(/=\s*$/, '')`. -/
def dropEmptyValue (value : JsString) : JsString :=
  let kept := (value.reverse.dropWhile isStrWhiteSpace).reverse
  if kept.getLast? = some EQUALS then kept.dropLast else value

def joined (op : Operator) (vals : List JsString) : JsString :=
  match op with
  | .label =>
    let filtered := vals.filter (· ≠ [])
    if filtered.isEmpty then [] else DOT :: join DOT filtered
  | .path =>
    let text := (vals.filter (· ≠ [])).flatten
    if text ≠ [] ∧ text.head? ≠ some SLASH then SLASH :: text else text
  | .param => if vals.isEmpty then [] else SEMICOLON :: join SEMICOLON (vals.map dropEmptyValue)
  | .form => if vals.isEmpty then [] else QUESTION :: join AMPERSAND vals
  | .formCont => if vals.isEmpty then [] else AMPERSAND :: join AMPERSAND vals
  | .fragment => HASH :: join COMMA vals
  | .reserved | .simple => join COMMA vals

def objectPrototype (name : JsString) : Option Value :=
  if name = ofString "__proto__" then some (.object [])
  else if name = ofString "constructor" then
    some (.text (ofString "function Object() \x7b [native code] \x7d"))
  else if name ∈ ["__defineGetter__", "__defineSetter__", "hasOwnProperty", "__lookupGetter__",
      "__lookupSetter__", "isPrototypeOf", "propertyIsEnumerable", "toString", "valueOf",
      "toLocaleString"].map ofString then
    some (.text (ofString "function " ++ name ++ ofString "() \x7b [native code] \x7d"))
  else none

section

variable (vars : Record JsString (Option Value))

def lookup (name : JsString) : Option Value :=
  match vars.get name with
  | some value => value
  | none => objectPrototype name

def contribution (op : Operator) (v : Variable) : Option (List JsString) :=
  expandVariable op v (lookup vars v.name) (vars.get v.name).isSome

def expand (e : Expression) : Option JsString :=
  if e.varSpecs.isEmpty then some e.expression
  else (e.varSpecs.mapM (contribution vars e.operator)).map fun vals =>
    joined e.operator vals.flatten

def resolve (components : List Component) : Option JsString :=
  (components.mapM fun (c : Component) => match c with
    | .literal text => some text
    | .expression e => expand vars e).map flatten

end

/-! ## Percent-decoding -/

def percentBytes : JsString → Bytes
  | [] => []
  | u :: rest =>
    match escapedByte (u :: rest) with
    | some b => b :: percentBytes (rest.drop 2)
    | none => UInt8.ofNat u.val :: percentBytes rest
termination_by text => text.length
decreasing_by
  all_goals
    simp only [length_drop, length_cons]
    omega

/-- Unreserved characters and percent triplets only. -/
inductive Encoded : JsString → Prop
  | nil : Encoded []
  | unreserved {u : CodeUnit} {rest : JsString} (hu : isUnreserved u = true) (h : Encoded rest) :
      Encoded (u :: rest)
  | triplet {high low : Nat} {rest : JsString} (hhigh : high < 16) (hlow : low < 16)
      (h : Encoded rest) : Encoded (PERCENT :: upperHexDigit high :: upperHexDigit low :: rest)

variable {u : CodeUnit} {rest : JsString}

theorem percentBytes_plain (h : u ≠ PERCENT) :
    percentBytes (u :: rest) = UInt8.ofNat u.val :: percentBytes rest := by
  have hnone : escapedByte (u :: rest) = none := by
    match rest with
    | [] | [_] => rfl
    | _ :: _ :: _ => exact if_neg h
  rw [percentBytes, hnone]

theorem percentBytes_triplet {high low : Nat} (hhigh : high < 16) (hlow : low < 16) :
    percentBytes (PERCENT :: upperHexDigit high :: upperHexDigit low :: rest) =
      UInt8.ofNat (high * 16 + low) :: percentBytes rest := by
  have hsome : escapedByte (PERCENT :: upperHexDigit high :: upperHexDigit low :: rest) =
      some (UInt8.ofNat (high * 16 + low)) := by
    simp only [escapedByte, if_true, hexDigitValue_upper _ hhigh, hexDigitValue_upper _ hlow]
    rfl
  rw [percentBytes, hsome]
  rfl

theorem hexDigit_facts : ∀ n < 16, isUnreserved (upperHexDigit n) = true ∧
    upperHexDigit n ≠ PERCENT ∧ (upperHexDigit n).val < 128 := by
  decide

theorem unreserved_facts : ∀ n : CodeUnit, isUnreserved n = true → n ≠ PERCENT ∧ n.val < 128 := by
  intro n h
  unfold isUnreserved isAsciiLetter isDecimalDigit at h
  simp only [Bool.or_eq_true, Bool.and_eq_true, decide_eq_true_eq] at h
  refine ⟨?_, ?_⟩
  · rintro rfl
    revert h
    decide
  · rcases h with ((((h | h) | h) | h) | h) | h
    all_goals first | omega | (rw [h]; decide)

/-! ## One unit -/

theorem pctUnit_wide (h : 256 ≤ u.val) : ∃ high low d : Nat, ∃ more : List Nat,
    high < 16 ∧ low < 16 ∧ d < 16 ∧ (∀ e ∈ more, e < 16) ∧
      pctUnit u = PERCENT :: upperHexDigit high :: upperHexDigit low :: upperHexDigit d ::
        more.map upperHexDigit := by
  have hu : ¬isUnreserved u = true := fun hu => absurd (unreserved_facts u hu).2 (by omega)
  have hlt := u.isLt
  unfold pctUnit
  rw [if_neg hu]
  by_cases h3 : u.val < 4096
  · refine ⟨u.val / 256, u.val / 16 % 16, u.val % 16, [], by omega, by omega, by omega, nofun, ?_⟩
    have hhex : upperHex u.val =
        [upperHexDigit (u.val / 256), upperHexDigit (u.val / 16 % 16), upperHexDigit (u.val % 16)] := by
      rw [upperHex, if_neg (by omega), upperHex, if_neg (by omega), upperHex, if_pos (by omega)]
      rw [Nat.div_div_eq_div_mul]
      rfl
    rw [hhex]
    rfl
  · refine ⟨u.val / 4096, u.val / 256 % 16, u.val / 16 % 16, [u.val % 16], by omega, by omega,
      by omega, ?_, ?_⟩
    · intro e he
      rw [mem_singleton.mp he]
      omega
    · have hhex : upperHex u.val = [upperHexDigit (u.val / 4096), upperHexDigit (u.val / 256 % 16),
          upperHexDigit (u.val / 16 % 16), upperHexDigit (u.val % 16)] := by
        rw [upperHex, if_neg (by omega), upperHex, if_neg (by omega), upperHex, if_neg (by omega),
          upperHex, if_pos (by omega)]
        simp only [Nat.div_div_eq_div_mul]
        rfl
      rw [hhex]
      rfl

theorem pctUnit_small (h : u.val < 256) : pctUnit u = [u] ∧ isUnreserved u = true ∨
    pctUnit u = [PERCENT, upperHexDigit (u.val / 16), upperHexDigit (u.val % 16)] := by
  unfold pctUnit
  by_cases hu : isUnreserved u = true
  · exact .inl ⟨if_pos hu, hu⟩
  · right
    rw [if_neg hu]
    by_cases hsmall : u.val < 16
    · rw [upperHex, if_pos hsmall, Nat.div_eq_of_lt hsmall, Nat.mod_eq_of_lt hsmall]
      rfl
    · have hhex : upperHex u.val = [upperHexDigit (u.val / 16), upperHexDigit (u.val % 16)] := by
        rw [upperHex, if_neg hsmall, upperHex, if_pos (by omega)]
        rfl
      rw [hhex]
      rfl

theorem percentBytes_small (h : u.val < 256) :
    percentBytes (pctUnit u ++ rest) = UInt8.ofNat u.val :: percentBytes rest := by
  rcases pctUnit_small h with ⟨hplain, hu⟩ | htriplet
  · rw [hplain]
    exact percentBytes_plain (unreserved_facts u hu).1
  · rw [htriplet]
    show percentBytes (PERCENT :: upperHexDigit _ :: upperHexDigit _ :: rest) = _
    rw [percentBytes_triplet (by omega) (Nat.mod_lt _ (by omega)), Nat.div_add_mod' u.val 16]

theorem percentBytes_wide (h : 256 ≤ u.val) : ∃ a x more, x.toNat < 128 ∧
    percentBytes (pctUnit u ++ rest) = a :: x :: more := by
  obtain ⟨high, low, d, more, hhigh, hlow, hd, -, hunit⟩ := pctUnit_wide h
  obtain ⟨-, hpercent, hsmall⟩ := hexDigit_facts d hd
  refine ⟨UInt8.ofNat (high * 16 + low), UInt8.ofNat (upperHexDigit d).val,
    percentBytes (more.map upperHexDigit ++ rest), ?_, ?_⟩
  · rw [UInt8.toNat_ofNat']
    omega
  · rw [hunit]
    show percentBytes (PERCENT :: upperHexDigit high :: upperHexDigit low :: upperHexDigit d ::
      (more.map upperHexDigit ++ rest)) = _
    rw [percentBytes_triplet hhigh hlow, percentBytes_plain hpercent]

theorem Encoded.append_digits (h : Encoded rest) {more : List Nat} (hmore : ∀ e ∈ more, e < 16) :
    Encoded (more.map upperHexDigit ++ rest) := by
  induction more with
  | nil => exact h
  | cons e more ih =>
    exact .unreserved (hexDigit_facts e (hmore e mem_cons_self)).1
      (ih fun e he => hmore e (mem_cons_of_mem _ he))

theorem encoded_pctEncode (str : JsString) : Encoded (pctEncode str) := by
  induction str with
  | nil => exact .nil
  | cons u str ih =>
    have hcons : pctEncode (u :: str) = pctUnit u ++ pctEncode str := flatMap_cons
    rw [hcons]
    by_cases h : u.val < 256
    · rcases pctUnit_small h with ⟨hplain, hu⟩ | htriplet
      · rw [hplain]
        exact .unreserved hu ih
      · rw [htriplet]
        exact .triplet (by omega) (Nat.mod_lt _ (by omega)) ih
    · obtain ⟨high, low, d, more, hhigh, hlow, hd, hmore, hunit⟩ := pctUnit_wide (not_lt.mp h)
      rw [hunit]
      exact .triplet hhigh hlow (.unreserved (hexDigit_facts d hd).1 (ih.append_digits hmore))

/-! ## Which texts come back -/

variable {c : Char}

theorem high_bytes : ∀ n < 256, 128 ≤ (UInt8.ofNat n &&& 0x3f ||| 0x80).toNat ∧
    128 ≤ (UInt8.ofNat n &&& 0x1f ||| 0xc0).toNat ∧ 128 ≤ (UInt8.ofNat n &&& 0x0f ||| 0xe0).toNat ∧
      128 ≤ (UInt8.ofNat n &&& 0x07 ||| 0xf0).toNat := by
  decide +kernel

theorem high_byte (x : UInt8) : 128 ≤ (x &&& 0x3f ||| 0x80).toNat ∧
    128 ≤ (x &&& 0x1f ||| 0xc0).toNat ∧ 128 ≤ (x &&& 0x0f ||| 0xe0).toNat ∧
      128 ≤ (x &&& 0x07 ||| 0xf0).toNat := by
  have h := high_bytes x.toNat x.toNat_lt
  rwa [UInt8.ofNat_toNat] at h

theorem utf8_small (h : c.toNat < 128) : String.utf8EncodeChar c = [UInt8.ofNat c.toNat] := by
  rw [String.utf8EncodeChar_eq_singleton (utf8Size_eq_one_iff.mpr (show c.toNat ≤ 127 by omega))]
  rfl

theorem utf8_high (h : 128 ≤ c.toNat) : ∃ a b more, String.utf8EncodeChar c = a :: b :: more ∧
    (∀ x ∈ a :: b :: more, 128 ≤ x.toNat) ∧ (c.toNat < 256 → more = []) := by
  have hsize := c.utf8Size_le_four
  have hpos := c.utf8Size_pos
  have hone : c.utf8Size ≠ 1 := fun h1 =>
    absurd (show c.toNat ≤ 127 from utf8Size_eq_one_iff.mp h1) (by omega)
  have htwo : c.toNat < 256 → c.utf8Size = 2 := fun hc => utf8Size_eq_two_iff.mpr
    ⟨show 127 < c.toNat by omega, show c.toNat ≤ 2047 by omega⟩
  have hcases : c.utf8Size = 2 ∨ c.utf8Size = 3 ∨ c.utf8Size = 4 := by omega
  rcases hcases with h2 | h3 | h4
  · refine ⟨_, _, _, String.utf8EncodeChar_eq_cons_cons h2, ?_, fun _ => rfl⟩
    simp only [mem_cons, not_mem_nil, or_false, forall_eq_or_imp, forall_eq]
    exact ⟨(high_byte _).2.1, (high_byte _).1⟩
  · refine ⟨_, _, _, String.utf8EncodeChar_eq_cons_cons_cons h3, ?_, fun hc => ?_⟩
    · simp only [mem_cons, not_mem_nil, or_false, forall_eq_or_imp, forall_eq]
      exact ⟨(high_byte _).2.2.1, (high_byte _).1, (high_byte _).1⟩
    · have := htwo hc
      omega
  · refine ⟨_, _, _, String.utf8EncodeChar_eq_cons_cons_cons_cons h4, ?_, fun hc => ?_⟩
    · simp only [mem_cons, not_mem_nil, or_false, forall_eq_or_imp, forall_eq]
      exact ⟨(high_byte _).2.2.2, (high_byte _).1, (high_byte _).1, (high_byte _).1⟩
    · have := htwo hc
      omega

def sentBytes (text : List Char) : Bytes := percentBytes (pctEncode (unitsOfChars text))

theorem sentBytes_small (h : c.toNat < 256) (text : List Char) :
    sentBytes (c :: text) = UInt8.ofNat c.toNat :: sentBytes text := by
  have hunits : unitsOf c = [Fin.ofNat 0x10000 c.toNat] := if_pos (by omega)
  have hval : (Fin.ofNat 0x10000 c.toNat).val = c.toNat := Nat.mod_eq_of_lt (by omega)
  unfold sentBytes
  rw [unitsOfChars_cons, hunits]
  show percentBytes (pctUnit _ ++ pctEncode (unitsOfChars text)) = _
  rw [percentBytes_small (by omega), hval]

theorem sentBytes_wide (h : 256 ≤ c.toNat) (text : List Char) : ∃ a x more, x.toNat < 128 ∧
    sentBytes (c :: text) = a :: x :: more := by
  have hunits : ∃ u more, unitsOf c = u :: more ∧ 256 ≤ u.val := by
    unfold unitsOf
    split
    · refine ⟨_, _, rfl, ?_⟩
      rw [Fin.val_ofNat, Nat.mod_eq_of_lt ‹_›]
      exact h
    · have hvalid : c.toNat < 0xd800 ∨ 0xdfff < c.toNat ∧ c.toNat < 0x110000 := c.valid
      refine ⟨_, _, rfl, ?_⟩
      rw [Fin.val_ofNat, Nat.mod_eq_of_lt (by omega)]
      omega
  obtain ⟨u, more, hu, hwide⟩ := hunits
  unfold sentBytes
  rw [unitsOfChars_cons, hu]
  exact percentBytes_wide hwide

theorem sentBytes_ne (text : List Char) {pending : Bytes} (hne : pending ≠ [])
    (hhigh : ∀ b ∈ pending, 128 ≤ b.toNat) : sentBytes text ≠ pending ++ utf8Encode text := by
  induction text generalizing pending with
  | nil =>
    intro h
    have hnil : sentBytes [] = [] := by
      unfold sentBytes
      exact percentBytes.eq_1
    rw [hnil] at h
    exact hne (append_eq_nil_iff.mp h.symm).1
  | cons c text ih =>
    intro h
    obtain ⟨p, ps, rfl⟩ := exists_cons_of_ne_nil hne
    have hp := hhigh p mem_cons_self
    have hutf : utf8Encode (c :: text) = String.utf8EncodeChar c ++ utf8Encode text := flatMap_cons
    rw [hutf] at h
    by_cases hc : c.toNat < 256
    · rw [sentBytes_small hc, cons_append] at h
      obtain ⟨hcp, hrest⟩ := cons.inj h
      have hval : p.toNat = c.toNat := by rw [← hcp, UInt8.toNat_ofNat', Nat.mod_eq_of_lt hc]
      obtain ⟨a, b, more, hbytes, hall, -⟩ := utf8_high (hval ▸ hp)
      refine @ih (ps ++ String.utf8EncodeChar c) ?_ ?_ ?_
      · rw [hbytes]
        simp
      · intro x hx
        rcases mem_append.mp hx with hx | hx
        · exact hhigh x (mem_cons_of_mem _ hx)
        · exact hall x (hbytes ▸ hx)
      · rw [hrest, append_assoc]
    · obtain ⟨a, x, more, hx, hwide⟩ := sentBytes_wide (not_lt.mp hc) text
      obtain ⟨a', b', more', hbytes, hall, -⟩ := @utf8_high c (by omega)
      rw [hwide, cons_append] at h
      have hrest := (cons.inj h).2
      cases ps with
      | nil =>
        rw [nil_append, hbytes] at hrest
        have := hall a' mem_cons_self
        rw [← (cons.inj hrest).1] at this
        omega
      | cons q qs =>
        have := hhigh q (mem_cons_of_mem _ mem_cons_self)
        rw [← (cons.inj hrest).1] at this
        omega

theorem sentBytes_eq_iff (text : List Char) :
    sentBytes text = utf8Encode text ↔ ∀ c ∈ text, c.toNat < 128 := by
  induction text with
  | nil =>
    refine iff_of_true ?_ nofun
    unfold sentBytes
    exact percentBytes.eq_1
  | cons c text ih =>
    have hutf : utf8Encode (c :: text) = String.utf8EncodeChar c ++ utf8Encode text := flatMap_cons
    rw [hutf, forall_mem_cons, ← ih]
    by_cases hsmall : c.toNat < 128
    · rw [sentBytes_small (by omega), utf8_small hsmall, singleton_append]
      exact ⟨fun h => ⟨hsmall, (cons.inj h).2⟩, fun h => by rw [h.2]⟩
    · refine iff_of_false (fun h => ?_) fun h => hsmall h.1
      obtain ⟨a, b, more, hbytes, hall, hmore⟩ := utf8_high (not_lt.mp hsmall)
      rw [hbytes] at h
      by_cases hc : c.toNat < 256
      · rw [sentBytes_small hc, hmore hc] at h
        refine sentBytes_ne text (cons_ne_nil b []) (fun x hx => ?_) (cons.inj h).2
        rw [mem_singleton.mp hx]
        exact hall b (mem_cons_of_mem _ mem_cons_self)
      · obtain ⟨a', x, more', hx, hwide⟩ := sentBytes_wide (not_lt.mp hc) text
        rw [hwide] at h
        have := hall b (mem_cons_of_mem _ mem_cons_self)
        rw [← (cons.inj (cons.inj h).2).1] at this
        omega

/-! ## Assigned and missing variables -/

variable {vars : Record JsString (Option Value)} {components : List Component}

/-- Literals and simple, path and query expressions, without prefix lengths. -/
def Plain (components : List Component) : Prop :=
  ∀ e, .expression e ∈ components → e.operator ∈ [.simple, .path, .form] ∧
    ∀ v ∈ e.varSpecs, v.prefixLength = none

/-- An assigned text comes back from what its variable adds, and a variable that is not assigned
adds nothing. -/
def Reversible (vars : Record JsString (Option Value)) (components : List Component) : Prop :=
  ∀ e, .expression e ∈ components → ∀ v ∈ e.varSpecs,
    (∀ text, vars.get v.name = some (some (.text (unitsOfChars text))) →
      ∃ value, contribution vars e.operator v = some [expandText e.operator v.name value] ∧
        Encoded value ∧ percentBytes value = utf8Encode text) ∧
    (vars.get v.name = none → contribution vars e.operator v = some [])

theorem expandText_inj {op : Operator} {name x y : JsString}
    (h : expandText op name x = expandText op name y) : x = y := by
  unfold expandText pair at h
  split at h
  · exact (cons.inj (append_cancel_left h)).2
  · exact (cons.inj (append_cancel_left h)).2
  · exact (cons.inj (append_cancel_left h)).2
  · exact (cons.inj h).2
  · exact h

variable {op : Operator} {v : Variable}

theorem not_isReserved (hop : op ∈ [.simple, .path, .form]) : isReserved op = false := by
  simp only [mem_cons, not_mem_nil, or_false] at hop
  rcases hop with rfl | rfl | rfl <;> rfl

theorem contribution_assigned (hop : op ∈ [.simple, .path, .form]) (hv : v.prefixLength = none)
    {text : JsString} (h : vars.get v.name = some (some (.text text))) :
    contribution vars op v = some [expandText op v.name (pctEncode text)] := by
  unfold contribution lookup expandVariable encode
  rw [h]
  rw [hv, not_isReserved hop]
  rfl

theorem contribution_missing_iff (hop : op ∈ [.simple, .path, .form]) (h : vars.get v.name = none) :
    contribution vars op v = some [] ↔ objectPrototype v.name = none := by
  unfold contribution lookup
  rw [h]
  cases hproto : objectPrototype v.name with
  | none =>
    refine iff_of_true ?_ rfl
    simp only [mem_cons, not_mem_nil, or_false] at hop
    rcases hop with rfl | rfl | rfl <;> rfl
  | some value =>
    refine iff_of_false (fun hnil => ?_) nofun
    cases value with
    | text text =>
      unfold expandVariable at hnil
      obtain ⟨x, -, hx⟩ := Option.map_eq_some_iff.mp hnil
      exact cons_ne_nil _ _ hx
    | object entries =>
      unfold expandVariable at hnil
      obtain ⟨x, -, hx⟩ := Option.map_eq_some_iff.mp hnil
      exact cons_ne_nil _ _ hx
    | list items =>
      unfold objectPrototype at hproto
      split at hproto
      · cases hproto
      · split at hproto
        · cases hproto
        · split at hproto
          · cases hproto
          · cases hproto

def sampleTemplate : List Component :=
  [.expression ⟨ofString "{name}", .simple, [⟨ofString "name", false, none⟩]⟩]

theorem plain_sampleTemplate : Plain sampleTemplate := by
  intro e he
  obtain ⟨rfl⟩ := mem_singleton.mp he
  exact ⟨mem_cons_self, fun v hv => by rw [mem_singleton.mp hv]⟩

def sampleVariables (text : String) : Record JsString (Option Value) :=
  Record.empty.set (ofString "name") (some (.text (ofString text)))

end UriTemplate

end Fumie.Base
