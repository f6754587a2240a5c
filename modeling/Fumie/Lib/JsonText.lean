import Fumie.Lib.Json

/-!
# `parse` reads back what `stringify` writes

A number ends where its text does only if no numeral character follows, so the
lemma on values speaks of any continuation that starts with none. The fuel of the
parser is bounded by twice the text it has still to read.
-/

namespace Fumie.Lib

open List Char

/-! ## Strings -/

variable {n fuel : Nat} {c : Char} {numeral : List Char}

theorem toNat_ofNat_of_lt (h : n < 0xD800) : (Char.ofNat n).toNat = n := by
  rw [Char.ofNat, dif_pos (.inl h)]
  rfl

theorem toNat_ofNat_of_gt (h : 0xDFFF < n) (h' : n < 0x110000) : (Char.ofNat n).toNat = n := by
  rw [Char.ofNat, dif_pos (.inr ⟨h, h'⟩)]
  rfl

theorem toNat_ofNat_unit {u : CodeUnit} (hhigh : isHighSurrogate u = false)
    (hlow : isLowSurrogate u = false) : (Char.ofNat u.val).toNat = u.val := by
  unfold isHighSurrogate at hhigh
  unfold isLowSurrogate at hlow
  have := u.isLt
  simp only [Bool.and_eq_false_iff, decide_eq_false_iff_not] at hhigh hlow
  by_cases h : u.val < 0xD800
  · exact toNat_ofNat_of_lt h
  · exact toNat_ofNat_of_gt (by omega) (by omega)

theorem unitsOf_unit {u : CodeUnit} (hhigh : isHighSurrogate u = false)
    (hlow : isLowSurrogate u = false) : unitsOf (Char.ofNat u.val) = [u] := by
  have := u.isLt
  unfold unitsOf
  rw [toNat_ofNat_unit hhigh hlow, if_pos this]
  exact congrArg (fun x => [x]) (Fin.ext (Nat.mod_eq_of_lt this))

theorem toNat_pairChar {u v : CodeUnit} (hu : isHighSurrogate u = true)
    (hv : isLowSurrogate v = true) :
    (pairChar u v).toNat = 0x10000 + (u.val - 0xD800) * 0x400 + (v.val - 0xDC00) := by
  unfold isHighSurrogate at hu
  unfold isLowSurrogate at hv
  simp only [Bool.and_eq_true, decide_eq_true_eq] at hu hv
  exact toNat_ofNat_of_gt (by omega) (by omega)

theorem unitsOf_pairChar {u v : CodeUnit} (hu : isHighSurrogate u = true)
    (hv : isLowSurrogate v = true) : unitsOf (pairChar u v) = [u, v] := by
  have hchar := toNat_pairChar hu hv
  unfold isHighSurrogate at hu
  unfold isLowSurrogate at hv
  simp only [Bool.and_eq_true, decide_eq_true_eq] at hu hv
  unfold unitsOf
  rw [if_neg (by omega), hchar]
  have hhigh : Fin.ofNat 0x10000 (0xD800 + (0x10000 + (u.val - 0xD800) * 0x400 +
      (v.val - 0xDC00) - 0x10000) / 0x400) = u := by
    refine Fin.ext ?_
    show _ % 0x10000 = u.val
    omega
  have hlow : Fin.ofNat 0x10000 (0xDC00 + (0x10000 + (u.val - 0xD800) * 0x400 +
      (v.val - 0xDC00) - 0x10000) % 0x400) = v := by
    refine Fin.ext ?_
    show _ % 0x10000 = v.val
    omega
  rw [hhigh, hlow]

namespace JsonValue

theorem hexValue?_hexDigit : ∀ n, n < 16 → hexValue? (hexDigit n) = some n := by decide

variable (u : CodeUnit)

theorem hexUnit?_escape : hexUnit? (hexDigit (u.val / 4096))
    (hexDigit (u.val / 256 % 16)) (hexDigit (u.val / 16 % 16)) (hexDigit (u.val % 16)) =
      some u := by
  have := u.isLt
  unfold hexUnit?
  rw [hexValue?_hexDigit _ (by omega), hexValue?_hexDigit _ (by omega),
    hexValue?_hexDigit _ (by omega), hexValue?_hexDigit _ (by omega)]
  refine congrArg some (Fin.ext ?_)
  show _ % 0x10000 = u.val
  omega

theorem parseUnits_char (hcontrol : 0x20 ≤ c.toNat) (hquote : c ≠ '"') (hescape : c ≠ '\\')
    (text : List Char) :
    parseUnits (c :: text) = (parseUnits text).map fun p => (unitsOf c ++ p.1, p.2) := by
  rw [parseUnits.eq_def]
  split
  · rename_i h
    cases h
  · rename_i h
    cases h
    exact absurd rfl hquote
  · rename_i h
    cases h
    exact absurd rfl hescape
  · rename_i h
    cases h
    exact absurd rfl hescape
  · rename_i h
    cases h
    rw [if_neg]
    simp only [Bool.or_eq_true, decide_eq_true_eq, not_or]
    exact ⟨by omega, hescape⟩

theorem parseUnits_escapeUnit (text : List Char) :
    parseUnits (escapeUnit u ++ text) = (parseUnits text).map fun p => (u :: p.1, p.2) := by
  show parseUnits ('\\' :: 'u' :: _ :: _ :: _ :: _ :: text) = _
  rw [parseUnits, hexUnit?_escape]
  cases parseUnits text with
  | none | some _ => rfl

theorem parseUnits_escape {e : Char} {u : CodeUnit} (he : escapedUnit? e = some u) (hu : e ≠ 'u')
    (text : List Char) :
    parseUnits ('\\' :: e :: text) = (parseUnits text).map fun p => (u :: p.1, p.2) := by
  rw [parseUnits.eq_def]
  split
  · rename_i h
    cases h
  · rename_i h
    cases h
  · rename_i h
    cases h
    exact absurd rfl hu
  · rename_i h
    cases h
    rw [he]
    cases parseUnits text with
    | none | some _ => rfl
  · rename_i hnot h
    cases h
    exact (hnot e text rfl rfl).elim

theorem parseUnits_quoteUnit (text : List Char) :
    parseUnits (quoteUnit u ++ text) = (parseUnits text).map fun p => (u :: p.1, p.2) := by
  have hunit : ∀ {n : Nat} (h : n < 0x10000), u.val = n → u = ⟨n, h⟩ := fun _ h => Fin.ext h
  unfold quoteUnit
  split_ifs with h₁ h₂ h₃ h₄ h₅ h₆ h₇ h₈
  · rw [hunit (by decide) h₁]
    exact parseUnits_escape rfl (by decide) text
  · rw [hunit (by decide) h₂]
    exact parseUnits_escape rfl (by decide) text
  · rw [hunit (by decide) h₃]
    exact parseUnits_escape rfl (by decide) text
  · rw [hunit (by decide) h₄]
    exact parseUnits_escape rfl (by decide) text
  · rw [hunit (by decide) h₅]
    exact parseUnits_escape rfl (by decide) text
  · rw [hunit (by decide) h₆]
    exact parseUnits_escape rfl (by decide) text
  · rw [hunit (by decide) h₇]
    exact parseUnits_escape rfl (by decide) text
  · exact parseUnits_escapeUnit u text
  · simp only [Bool.or_eq_true, decide_eq_true_eq, not_or, Bool.not_eq_true] at h₈
    obtain ⟨⟨hcontrol, hhigh⟩, hlow⟩ := h₈
    have hnat := toNat_ofNat_unit hhigh hlow
    have hne : ∀ {c : Char}, u.val ≠ c.toNat → Char.ofNat u.val ≠ c := by
      intro c hc h
      rw [← h, hnat] at hc
      exact hc rfl
    show parseUnits (Char.ofNat u.val :: text) = _
    rw [parseUnits_char (by omega) (hne h₁) (hne h₂), unitsOf_unit hhigh hlow]
    rfl

theorem parseUnits_pairChar {u v : CodeUnit} (hu : isHighSurrogate u = true)
    (hv : isLowSurrogate v = true) (text : List Char) :
    parseUnits (pairChar u v :: text) = (parseUnits text).map fun p => (u :: v :: p.1, p.2) := by
  have hnat := toNat_pairChar hu hv
  have hne : ∀ {c : Char}, c.toNat < 0x10000 → pairChar u v ≠ c := by
    intro c hc h
    rw [← h, hnat] at hc
    omega
  rw [parseUnits_char (by omega) (hne (by decide)) (hne (by decide)), unitsOf_pairChar hu hv]
  rfl

theorem parseUnits_quoteUnits (s : JsString) (rest : List Char) :
    parseUnits (quoteUnits s ++ '"' :: rest) = some (s, rest) := by
  fun_induction quoteUnits s with
  | case1 => rfl
  | case2 u =>
    rw [parseUnits_quoteUnit]
    rfl
  | case3 u v tail hpair ih =>
    rw [Bool.and_eq_true] at hpair
    rw [cons_append, parseUnits_pairChar hpair.1 hpair.2, ih]
    rfl
  | case4 u v tail hpair ih =>
    rw [append_assoc, parseUnits_quoteUnit, ih]
    rfl

/-! ## Numbers -/

def Ends (text : List Char) : Prop := ∀ c ∈ text.head?, isNumeralChar c = false

variable {rest : List Char}

theorem takeWhile_numeral (h : numeral.all isNumeralChar = true) (hrest : Ends rest) :
    (numeral ++ rest).takeWhile isNumeralChar = numeral ∧
      (numeral ++ rest).dropWhile isNumeralChar = rest := by
  have hstop : rest.takeWhile isNumeralChar = [] ∧ rest.dropWhile isNumeralChar = rest := by
    cases rest with
    | nil => exact ⟨rfl, rfl⟩
    | cons c rest =>
      have hc := hrest c rfl
      exact ⟨takeWhile_cons_of_neg (by simp [hc]), dropWhile_cons_of_neg (by simp [hc])⟩
  rw [all_eq_true] at h
  rw [takeWhile_append_of_pos h, dropWhile_append_of_pos h, hstop.1, hstop.2, append_nil]
  exact ⟨rfl, rfl⟩

variable {text : List Char}

theorem spanDigits_of_all (h : text.all isDigit = true) : spanDigits text = (text, []) := by
  rw [all_eq_true] at h
  unfold spanDigits
  rw [span_eq_takeWhile_dropWhile, takeWhile_eq_self_iff.mpr h, dropWhile_eq_nil_iff.mpr h]

theorem isUnsignedNumeral_of_digits (h : text.all isDigit = true) (hne : text ≠ [])
    (hzero : text.length > 1 → text.head? ≠ some '0') : isUnsignedNumeral text = true := by
  unfold isUnsignedNumeral
  rw [spanDigits_of_all h]
  have hempty : text.isEmpty = false := by
    cases text with
    | nil => exact absurd rfl hne
    | cons c text => rfl
  have hlead : (decide (text.length > 1) && decide (text.head? = some '0')) = false := by
    by_cases hlen : text.length > 1
    · simp [hzero hlen]
    · simp [hlen]
  simp only [hempty, hlead]
  rfl

theorem head?_toDigits (h : 0 < n) : (Nat.toDigits 10 n).head? ≠ some '0' := by
  induction n using Nat.strongRecOn with
  | ind n ih =>
    by_cases hlt : n < 10
    · rw [Nat.toDigits_of_lt_base hlt]
      intro hzero
      have hdigits : ∀ m < 10, 0 < m → Nat.digitChar m ≠ '0' := by decide
      exact hdigits n hlt h (Option.some.inj hzero)
    · rw [Nat.toDigits_of_base_le (by decide) (Nat.le_of_not_lt hlt)]
      have hrec := ih (n / 10) (by omega) (by omega)
      cases hdigits : Nat.toDigits 10 (n / 10) with
      | nil => exact absurd hdigits Nat.toDigits_ne_nil
      | cons c rest =>
        rw [hdigits] at hrec
        exact hrec

theorem all_toDigits (n : Nat) : (Nat.toDigits 10 n).all isDigit = true :=
  all_eq_true.mpr fun _ h => Nat.isDigit_of_mem_toDigits (by decide) (by decide) h

theorem isUnsignedNumeral_toDigits (n : Nat) : isUnsignedNumeral (Nat.toDigits 10 n) = true := by
  refine isUnsignedNumeral_of_digits (all_toDigits n) Nat.toDigits_ne_nil fun hlen => ?_
  refine head?_toDigits ?_
  by_contra hzero
  obtain rfl : n = 0 := by omega
  exact absurd hlen (by decide)

theorem minus_notMem_digits (h : text.all isDigit = true) : text ≠ '-' :: rest := by
  rintro rfl
  exact absurd h (by simp [isDigit])

theorem unsigned_of_digits (h : text.all isDigit = true) : unsigned text = text := by
  unfold unsigned
  split
  · exact absurd rfl (minus_notMem_digits h)
  · rfl

theorem integerOf_of_digits (h : text.all isDigit = true) :
    integerOf text = Nat.ofDigitChars 10 text 0 := by
  unfold integerOf
  split
  · exact absurd rfl (minus_notMem_digits h)
  · rfl

theorem all_isNumeralChar (h : text.all isDigit = true) : text.all isNumeralChar = true := by
  rw [all_eq_true] at h ⊢
  intro c hc
  simp [isNumeralChar, h c hc]

theorem parseNumber_numeral (h : isNumeral numeral = true) (hrest : Ends rest) :
    parseNumber (numeral ++ rest) =
      if h' : isIntegral numeral = true then some (.number (.integer (integerOf numeral)), rest)
      else some (.number (.other ⟨numeral, h, Bool.eq_false_iff.mpr h'⟩), rest) := by
  have hall : numeral.all isNumeralChar = true := (Bool.and_eq_true_iff.mp h).1
  obtain ⟨htake, hdrop⟩ := takeWhile_numeral hall hrest
  unfold parseNumber
  simp only [htake, hdrop]
  rw [dif_pos h]

theorem parseNumber_printNumber (n : JsNumber) (hrest : Ends rest) :
    parseNumber (printNumber n ++ rest) = some (.number n, rest) := by
  rcases n with (n | n) | numeral
  · have hdigits := all_toDigits n
    have hnumeral : isNumeral (Nat.toDigits 10 n) = true := by
      unfold isNumeral
      rw [all_isNumeralChar hdigits, unsigned_of_digits hdigits, isUnsignedNumeral_toDigits]
      rfl
    have hintegral : isIntegral (Nat.toDigits 10 n) = true := by
      unfold isIntegral
      rw [unsigned_of_digits hdigits]
      exact hdigits
    show parseNumber (Nat.toDigits 10 n ++ rest) = _
    rw [parseNumber_numeral hnumeral hrest, dif_pos hintegral, integerOf_of_digits hdigits,
      Nat.ofDigitChars_ten_toDigits]
    rfl
  · have hdigits := all_toDigits (n + 1)
    have hnumeral : isNumeral ('-' :: Nat.toDigits 10 (n + 1)) = true := by
      unfold isNumeral
      rw [all_cons, all_isNumeralChar hdigits]
      exact isUnsignedNumeral_toDigits (n + 1)
    show parseNumber (('-' :: Nat.toDigits 10 (n + 1)) ++ rest) = _
    have hintegral : isIntegral ('-' :: Nat.toDigits 10 (n + 1)) = true := hdigits
    rw [parseNumber_numeral hnumeral hrest, dif_pos hintegral]
    show some (JsonValue.number (.integer (-(Nat.ofDigitChars 10 (Nat.toDigits 10 (n + 1)) 0 : Int))),
      rest) = _
    rw [Nat.ofDigitChars_ten_toDigits]
    rfl
  · show parseNumber (numeral.text ++ rest) = _
    rw [parseNumber_numeral numeral.numeral hrest,
      dif_neg (Bool.eq_false_iff.mp numeral.fractional)]

/-! ## Values -/

def Starts (text : List Char) : Prop :=
  ∃ c rest, text = c :: rest ∧ isWhitespace c = false ∧ c ≠ ']' ∧ c ≠ '\uFEFF'

theorem Starts.skipWhitespace (h : Starts text) (rest : List Char) :
    skipWhitespace (text ++ rest) = text ++ rest := by
  obtain ⟨c, tail, rfl, hc, -⟩ := h
  exact dropWhile_cons_of_neg (by simp [hc])

theorem isNumeralChar_cases (h : isNumeralChar c = true) :
    isWhitespace c = false ∧ (c ≠ ']' ∧ c ≠ '\uFEFF') ∧ c ≠ 'n' ∧ c ≠ 't' ∧ c ≠ 'f' ∧ c ≠ '"' ∧
      c ≠ '[' ∧ c ≠ '{' := by
  have hne : ∀ {d : Char}, isNumeralChar d = false → c ≠ d := by
    rintro d hd rfl
    rw [h] at hd
    cases hd
  refine ⟨?_, ⟨hne (by decide), hne (by decide)⟩, hne (by decide), hne (by decide), hne (by decide), hne (by decide),
    hne (by decide), hne (by decide)⟩
  unfold isWhitespace
  have h₁ := hne (d := ' ') (by decide)
  have h₂ := hne (d := '\t') (by decide)
  have h₃ := hne (d := '\n') (by decide)
  have h₄ := hne (d := '\r') (by decide)
  simp [h₁, h₂, h₃, h₄]

theorem printNumber_cons (n : JsNumber) :
    ∃ c rest, printNumber n = c :: rest ∧ isNumeralChar c = true := by
  have hcons : ∀ {text : List Char}, text.all isNumeralChar = true → text ≠ [] →
      ∃ c rest, text = c :: rest ∧ isNumeralChar c = true := by
    intro text hall hne
    cases text with
    | nil => exact absurd rfl hne
    | cons c rest => exact ⟨c, rest, rfl, (Bool.and_eq_true_iff.mp hall).1⟩
  rcases n with (n | n) | numeral
  · exact hcons (all_isNumeralChar (all_toDigits n)) Nat.toDigits_ne_nil
  · exact ⟨'-', _, rfl, rfl⟩
  · refine hcons (Bool.and_eq_true_iff.mp numeral.numeral).1 fun hnil => ?_
    have hnumeral := numeral.numeral
    rw [show numeral.text = [] from hnil] at hnumeral
    exact absurd hnumeral (by decide)

theorem parseValue_number (fuel : Nat) (h : isNumeralChar c = true) (text : List Char) :
    parseValue (fuel + 1) (c :: text) = parseNumber (c :: text) := by
  obtain ⟨-, -, hn, ht, hf, hq, hb, ho⟩ := isNumeralChar_cases h
  rw [parseValue.eq_def]
  dsimp only
  split
  · rename_i heq
    cases heq
    exact absurd rfl hn
  · rename_i heq
    cases heq
    exact absurd rfl ht
  · rename_i heq
    cases heq
    exact absurd rfl hf
  · rename_i heq
    cases heq
    exact absurd rfl hq
  · rename_i heq
    cases heq
    exact absurd rfl hb
  · rename_i heq
    cases heq
    exact absurd rfl ho
  · rfl

theorem stringify_starts (v : JsonValue) : Starts (stringify v) := by
  cases v with
  | null => exact ⟨'n', _, rfl, by decide, by decide, by decide⟩
  | boolean b =>
    cases b with
    | false => exact ⟨'f', _, rfl, by decide, by decide, by decide⟩
    | true => exact ⟨'t', _, rfl, by decide, by decide, by decide⟩
  | number n =>
    obtain ⟨c, rest, htext, hc⟩ := printNumber_cons n
    obtain ⟨hspace, hbracket, -⟩ := isNumeralChar_cases hc
    exact ⟨c, rest, htext, hspace, hbracket⟩
  | string s => exact ⟨'"', _, rfl, by decide, by decide, by decide⟩
  | array items =>
    cases items with
    | nil => exact ⟨'[', _, rfl, by decide, by decide, by decide⟩
    | cons item rest => exact ⟨'[', _, by rw [stringify], by decide, by decide, by decide⟩
  | object entries =>
    cases entries with
    | nil => exact ⟨'{', _, rfl, by decide, by decide, by decide⟩
    | cons entry rest => exact ⟨'{', _, by rw [stringify], by decide, by decide, by decide⟩

theorem ends_stringifyItems (items : List JsonValue) (rest : List Char) :
    Ends (stringifyItems items ++ rest) := by
  cases items with
  | nil | cons _ _ =>
    rw [stringifyItems]
    rintro c ⟨⟩
    rfl

theorem ends_stringifyEntries (entries : List (JsString × JsonValue)) (rest : List Char) :
    Ends (stringifyEntries entries ++ rest) := by
  cases entries with
  | nil | cons _ _ =>
    rw [stringifyEntries]
    rintro c ⟨⟩
    rfl

theorem foldl_setEntry (entries acc : List (JsString × JsonValue))
    (h : ((acc ++ entries).map Prod.fst).Nodup) : entries.foldl setEntry acc = acc ++ entries := by
  induction entries generalizing acc with
  | nil => exact (append_nil acc).symm
  | cons entry rest ih =>
    have hnew : entry.1 ∉ acc.map Prod.fst := by
      rw [map_append, nodup_append] at h
      exact fun hmem => h.2.2 entry.1 hmem entry.1 mem_cons_self rfl
    have hset : setEntry acc entry = acc ++ [entry] := if_neg hnew
    rw [foldl_cons, hset, ih _ (by rwa [append_assoc]), append_assoc]
    rfl

theorem Starts.append (h : Starts text) (rest : List Char) : Starts (text ++ rest) := by
  obtain ⟨c, tail, rfl, hc⟩ := h
  exact ⟨c, tail ++ rest, rfl, hc⟩

theorem parseValue_array (fuel : Nat) {text : List Char} (h : Starts text) :
    parseValue (fuel + 1) ('[' :: text) =
      (parseItems fuel text).map fun p => (.array p.1, p.2) := by
  have hskip := h.skipWhitespace []
  rw [append_nil] at hskip
  obtain ⟨c, tail, rfl, -, hc, -⟩ := h
  rw [parseValue, hskip]
  split
  · rename_i heq
    cases heq
    exact absurd rfl hc
  · rfl

theorem parseValue_object (fuel : Nat) (text : List Char) :
    parseValue (fuel + 1) ('{' :: '"' :: text) =
      (parseEntries fuel ('"' :: text)).map fun p => (.object (p.1.foldl setEntry []), p.2) := by
  rw [parseValue]
  rfl

theorem parseItems_cons {text rest : List Char} {item : JsonValue}
    (h : parseValue fuel (skipWhitespace text) = some (item, rest)) :
    parseItems (fuel + 1) text =
      match skipWhitespace rest with
      | ',' :: rest => (parseItems fuel rest).map fun p => (item :: p.1, p.2)
      | ']' :: rest => some ([item], rest)
      | _ => none := by
  have hstep := parseItems.eq_def (fuel + 1) text
  simp only [h] at hstep
  exact hstep

theorem parseEntries_cons {key : JsString} {text rest : List Char} {value : JsonValue}
    (h : parseValue fuel (skipWhitespace text) = some (value, rest)) :
    parseEntries (fuel + 1) (quote key ++ ':' :: text) =
      match skipWhitespace rest with
      | ',' :: rest => (parseEntries fuel rest).map fun p => ((key, value) :: p.1, p.2)
      | '}' :: rest => some ([(key, value)], rest)
      | _ => none := by
  have hskip : skipWhitespace (quote key ++ ':' :: text) =
      '"' :: (quoteUnits key ++ '"' :: ':' :: text) := by
    unfold quote
    rw [append_assoc]
    rfl
  have hcolon : skipWhitespace (':' :: text) = ':' :: text := rfl
  have hstep := parseEntries.eq_def (fuel + 1) (quote key ++ ':' :: text)
  simp only [hskip, parseUnits_quoteUnits, hcolon, h] at hstep
  exact hstep

structure Parses (fuel : Nat) : Prop where
  value : ∀ v : JsonValue, v.Proper → 2 * (stringify v).length ≤ fuel →
    ∀ rest, Ends rest → parseValue fuel (stringify v ++ rest) = some (v, rest)
  items : ∀ (item : JsonValue) (items : List JsonValue), item.Proper → ProperItems items →
    2 * (stringify item ++ stringifyItems items).length + 1 ≤ fuel →
    ∀ rest, parseItems fuel (stringify item ++ (stringifyItems items ++ rest)) =
      some (item :: items, rest)
  entries : ∀ (key : JsString) (value : JsonValue) (entries : List (JsString × JsonValue)),
    value.Proper → ProperEntries entries →
    2 * (stringify value ++ stringifyEntries entries).length + 1 ≤ fuel →
    ∀ rest, parseEntries fuel
        (quote key ++ ':' :: (stringify value ++ (stringifyEntries entries ++ rest))) =
      some ((key, value) :: entries, rest)

theorem stringify_length_pos (v : JsonValue) : 0 < (stringify v).length := by
  obtain ⟨c, tail, htext, -⟩ := stringify_starts v
  rw [htext]
  exact Nat.succ_pos _

theorem Parses.value_succ (h : Parses fuel) (v : JsonValue) (hv : v.Proper)
    (hfuel : 2 * (stringify v).length ≤ fuel + 1) (rest : List Char) (hrest : Ends rest) :
    parseValue (fuel + 1) (stringify v ++ rest) = some (v, rest) := by
  match v with
  | .null => rfl
  | .boolean true => rfl
  | .boolean false => rfl
  | .number n =>
    obtain ⟨c, tail, htext, hc⟩ := printNumber_cons n
    have hparse := parseNumber_printNumber n hrest
    rw [stringify, htext]
    rw [htext] at hparse
    exact (parseValue_number fuel hc _).trans hparse
  | .string s =>
    have hparse := parseUnits_quoteUnits s rest
    rw [stringify, quote, append_assoc]
    show (parseUnits (quoteUnits s ++ (['"'] ++ rest))).map _ = _
    rw [singleton_append, hparse]
    rfl
  | .array [] => rfl
  | .array (item :: items) =>
    rw [stringify] at hfuel ⊢
    rw [length_cons] at hfuel
    have hparse := h.items item items hv.1 hv.2 (by omega) rest
    rw [cons_append, append_assoc, parseValue_array fuel ((stringify_starts item).append _), hparse]
    rfl
  | .object [] => rfl
  | .object ((key, value) :: entries) =>
    rw [stringify] at hfuel ⊢
    obtain ⟨hkeys, hvalue, hentries⟩ := hv
    rw [length_cons, length_append, length_cons] at hfuel
    have hparse := h.entries key value entries hvalue hentries (by omega) rest
    have hobject : ∀ text, parseValue (fuel + 1) ('{' :: (quote key ++ text)) =
        (parseEntries fuel (quote key ++ text)).map fun p =>
          (.object (p.1.foldl setEntry []), p.2) := fun text => parseValue_object fuel _
    rw [cons_append, append_assoc, cons_append, append_assoc, hobject, hparse]
    show some (JsonValue.object (((key, value) :: entries).foldl setEntry []), rest) = _
    rw [foldl_setEntry _ [] hkeys]
    rfl

theorem Parses.items_succ (h : Parses fuel) (item : JsonValue) (items : List JsonValue)
    (hitem : item.Proper) (hitems : ProperItems items)
    (hfuel : 2 * (stringify item ++ stringifyItems items).length + 1 ≤ fuel + 1)
    (rest : List Char) :
    parseItems (fuel + 1) (stringify item ++ (stringifyItems items ++ rest)) =
      some (item :: items, rest) := by
  rw [length_append] at hfuel
  have hvalue := h.value item hitem (by omega) (stringifyItems items ++ rest)
    (ends_stringifyItems items rest)
  rw [← (stringify_starts item).skipWhitespace] at hvalue
  rw [parseItems_cons hvalue]
  match items with
  | [] =>
    rw [stringifyItems]
    rfl
  | next :: items =>
    rw [stringifyItems] at hfuel ⊢
    rw [length_cons] at hfuel
    have hnext := h.items next items hitems.1 hitems.2 (by omega) rest
    show (parseItems fuel ((stringify next ++ stringifyItems items) ++ rest)).map _ = _
    rw [append_assoc, hnext]
    rfl

theorem Parses.entries_succ (h : Parses fuel) (key : JsString) (value : JsonValue)
    (entries : List (JsString × JsonValue)) (hvalue : value.Proper)
    (hentries : ProperEntries entries)
    (hfuel : 2 * (stringify value ++ stringifyEntries entries).length + 1 ≤ fuel + 1)
    (rest : List Char) :
    parseEntries (fuel + 1)
        (quote key ++ ':' :: (stringify value ++ (stringifyEntries entries ++ rest))) =
      some ((key, value) :: entries, rest) := by
  rw [length_append] at hfuel
  have hparse := h.value value hvalue (by omega) (stringifyEntries entries ++ rest)
    (ends_stringifyEntries entries rest)
  rw [← (stringify_starts value).skipWhitespace] at hparse
  rw [parseEntries_cons hparse]
  match entries with
  | [] =>
    rw [stringifyEntries]
    rfl
  | (next, nextValue) :: entries =>
    rw [stringifyEntries] at hfuel ⊢
    rw [length_cons, length_append, length_cons] at hfuel
    have hnext := h.entries next nextValue entries hentries.1 hentries.2 (by omega) rest
    show (parseEntries fuel
      ((quote next ++ ':' :: (stringify nextValue ++ stringifyEntries entries)) ++ rest)).map _ = _
    rw [append_assoc, cons_append, append_assoc, hnext]
    rfl

theorem parses (fuel : Nat) : Parses fuel := by
  induction fuel with
  | zero =>
    refine ⟨fun v _ hfuel => ?_, fun item items _ _ hfuel => ?_, fun key value entries _ _ hfuel => ?_⟩
    · have := stringify_length_pos v
      omega
    · omega
    · omega
  | succ fuel ih => exact ⟨ih.value_succ, ih.items_succ, ih.entries_succ⟩

theorem parse_stringify {v : JsonValue} (hv : v.Proper) : parse (stringify v) = some v := by
  have hparse := (parses (2 * (stringify v).length + 1)).value v hv (by omega) [] nofun
  have hskip := (stringify_starts v).skipWhitespace []
  rw [append_nil] at hparse hskip
  unfold parse
  rw [hskip, hparse]
  rfl

end JsonValue

end Fumie.Lib
