import Fumie.Base.Strings

/-!
# Line starts and the characters of a text

A text is read as a list of its line ends and other units, with `\r\n` as one of them.
What a buffer knows about a text (its line starts, how many line ends of each kind it
has, the text with other line ends) is read off that list, and the list of two texts
in a row is the two lists in a row unless the cut falls inside a `\r\n`.
-/

namespace Fumie.Editor

open Fumie.Lib Fumie.Base List Bool

def carriageReturn : CodeUnit := 13

def lineFeed : CodeUnit := 10

def tab : CodeUnit := 9

/-! ## Units and line ends -/

inductive TextUnit
  | crlf
  | unit (u : CodeUnit)
  deriving DecidableEq, Repr

def textUnits : JsString → List TextUnit
  | [] => []
  | [u] => [.unit u]
  | u :: v :: rest =>
    if u = carriageReturn ∧ v = lineFeed then .crlf :: textUnits rest
    else .unit u :: textUnits (v :: rest)

def SafeCut (front back : JsString) : Prop :=
  ∀ u ∈ front.getLast?, ∀ v ∈ back.head?,
    ¬(u = carriageReturn ∧ v = lineFeed) ∧ ¬(isHighSurrogate u = true ∧ isLowSurrogate v = true)

theorem SafeCut.nil_left (back : JsString) : SafeCut [] back := by
  intro u hu
  cases hu

theorem SafeCut.nil_right (front : JsString) : SafeCut front [] := by
  intro u _ v hv
  cases hv

variable {u v : CodeUnit} {rest back front : JsString} {texts : List JsString}

theorem SafeCut.tail (h : SafeCut (u :: v :: rest) back) : SafeCut (v :: rest) back := by
  intro w hw
  refine h w ?_
  rw [getLast?_cons_cons]
  exact hw

theorem textUnits_cons (h : ∀ v ∈ rest.head?, ¬(u = carriageReturn ∧ v = lineFeed)) :
    textUnits (u :: rest) = .unit u :: textUnits rest := by
  cases rest with
  | nil => rfl
  | cons v rest => rw [textUnits, if_neg (h v rfl)]

theorem textUnits_append (h : SafeCut front back) :
    textUnits (front ++ back) = textUnits front ++ textUnits back := by
  induction front using textUnits.induct with
  | case1 => rfl
  | case2 u =>
    rw [singleton_append, textUnits_cons fun v hv => (h u rfl v hv).1]
    rfl
  | case3 u v rest hcrlf ih =>
    have htail : SafeCut rest back := by
      cases rest with
      | nil => exact SafeCut.nil_left back
      | cons w rest => exact h.tail.tail
    rw [cons_append, cons_append, textUnits, if_pos hcrlf, ih htail, textUnits,
      if_pos hcrlf, cons_append]
  | case4 u v rest hplain ih =>
    have hrest := ih h.tail
    rw [cons_append] at hrest
    rw [cons_append, cons_append, textUnits, if_neg hplain, hrest, textUnits,
      if_neg hplain, cons_append]

theorem safeCut_flatten {text : JsString} {rest : List JsString} (hne : ∀ t ∈ text :: rest, t ≠ [])
    (hcuts : (text :: rest).IsChain SafeCut) : SafeCut text rest.flatten := by
  cases rest with
  | nil => exact SafeCut.nil_right text
  | cons next rest =>
    have hnext := hne next (mem_cons_of_mem _ mem_cons_self)
    intro u hu v hv
    refine (isChain_cons_cons.mp hcuts).1 u hu v ?_
    rw [flatten_cons, head?_append_of_ne_nil _ hnext] at hv
    exact hv

theorem textUnits_flatten (hne : ∀ text ∈ texts, text ≠ []) (hcuts : texts.IsChain SafeCut) :
    textUnits texts.flatten = texts.flatMap textUnits := by
  induction texts with
  | nil => rfl
  | cons text rest ih =>
    have hrest := ih (fun t ht => hne t (mem_cons_of_mem _ ht)) hcuts.tail
    have hcut := safeCut_flatten hne hcuts
    rw [flatten_cons, textUnits_append hcut, hrest, flatMap_cons]

/-! ## Line starts -/

structure LineStarts where
  lineStarts : List Nat
  cr : Nat
  lf : Nat
  crlf : Nat
  isBasicASCII : Bool
  deriving DecidableEq, Repr

def isBasicUnit (chr : CodeUnit) : Bool := chr = tab || 32 ≤ chr.val && chr.val ≤ 126

def LineStarts.next (r : LineStarts) (i : Nat) (chr : CodeUnit) : LineStarts :=
  if chr = carriageReturn then { r with cr := r.cr + 1, lineStarts := r.lineStarts ++ [i + 1] }
  else if chr = lineFeed then { r with lf := r.lf + 1, lineStarts := r.lineStarts ++ [i + 1] }
  else { r with isBasicASCII := r.isBasicASCII && isBasicUnit chr }

def scanLineStarts (r : LineStarts) (i : Nat) : JsString → LineStarts
  | [] => r
  | [chr] => r.next i chr
  | chr :: next :: rest =>
    if chr = carriageReturn ∧ next = lineFeed then
      scanLineStarts { r with crlf := r.crlf + 1, lineStarts := r.lineStarts ++ [i + 2] } (i + 2) rest
    else scanLineStarts (r.next i chr) (i + 1) (next :: rest)

section

variable (str : JsString)

def createLineStarts : LineStarts := scanLineStarts ⟨[0], 0, 0, 0, true⟩ 0 str

def scanLineStartsFast (r : List Nat) (i : Nat) : JsString → List Nat
  | [] => r
  | [chr] => if chr = carriageReturn ∨ chr = lineFeed then r ++ [i + 1] else r
  | chr :: next :: rest =>
    if chr = carriageReturn ∧ next = lineFeed then scanLineStartsFast (r ++ [i + 2]) (i + 2) rest
    else if chr = carriageReturn ∨ chr = lineFeed then
      scanLineStartsFast (r ++ [i + 1]) (i + 1) (next :: rest)
    else scanLineStartsFast r (i + 1) (next :: rest)

def createLineStartsFast : List Nat := scanLineStartsFast [0] 0 str

def TextUnit.isBasic : TextUnit → Bool
  | crlf => true
  | unit u => u = carriageReturn || u = lineFeed || isBasicUnit u

def crCount : Nat := (textUnits str).count (.unit carriageReturn)

def lfCount : Nat := (textUnits str).count (.unit lineFeed)

def crlfCount : Nat := (textUnits str).count .crlf

def isBasicASCII : Bool := (textUnits str).all TextUnit.isBasic

end

variable (r : LineStarts) (i : Nat)

theorem next_fields (chr : CodeUnit) :
    (r.next i chr).cr = r.cr + [TextUnit.unit chr].count (.unit carriageReturn) ∧
    (r.next i chr).lf = r.lf + [TextUnit.unit chr].count (.unit lineFeed) ∧
    (r.next i chr).crlf = r.crlf ∧
    (r.next i chr).isBasicASCII = (r.isBasicASCII && (TextUnit.unit chr).isBasic) ∧
    (r.next i chr).lineStarts =
      if chr = carriageReturn ∨ chr = lineFeed then r.lineStarts ++ [i + 1] else r.lineStarts := by
  rw [LineStarts.next]
  by_cases hcr : chr = carriageReturn
  · subst hcr
    simp [TextUnit.isBasic, carriageReturn, lineFeed]
  · by_cases hlf : chr = lineFeed
    · subst hlf
      simp [TextUnit.isBasic, carriageReturn, lineFeed]
    · simp [hcr, hlf, TextUnit.isBasic]

theorem scanLineStarts_fields (str : JsString) :
    (scanLineStarts r i str).cr = r.cr + crCount str ∧
    (scanLineStarts r i str).lf = r.lf + lfCount str ∧
    (scanLineStarts r i str).crlf = r.crlf + crlfCount str ∧
    (scanLineStarts r i str).isBasicASCII = (r.isBasicASCII && isBasicASCII str) ∧
    (scanLineStarts r i str).lineStarts = scanLineStartsFast r.lineStarts i str := by
  induction r, i, str using scanLineStarts.induct with
  | case1 r i => simp [scanLineStarts, scanLineStartsFast, crCount, lfCount, crlfCount, isBasicASCII,
      textUnits]
  | case2 r i chr =>
    obtain ⟨hcr, hlf, hcrlf, hbasic, hstarts⟩ := next_fields r i chr
    rw [scanLineStarts, hcr, hlf, hcrlf, hbasic, hstarts, scanLineStartsFast, crCount, lfCount,
      crlfCount, isBasicASCII, textUnits]
    simp
  | case3 r i chr next rest hcrlf ih =>
    obtain ⟨hcr, hlf, hcount, hbasic, hstarts⟩ := ih
    rw [scanLineStarts, if_pos hcrlf, hcr, hlf, hcount, hbasic, hstarts, scanLineStartsFast,
      if_pos hcrlf, crCount, crCount, lfCount, lfCount, crlfCount, crlfCount, isBasicASCII,
      isBasicASCII, textUnits, if_pos hcrlf]
    simp [TextUnit.isBasic]
    omega
  | case4 r i chr next rest hplain ih =>
    obtain ⟨hcr, hlf, hcount, hbasic, hstarts⟩ := ih
    obtain ⟨ncr, nlf, ncrlf, nbasic, nstarts⟩ := next_fields r i chr
    rw [scanLineStarts, if_neg hplain, hcr, hlf, hcount, hbasic, hstarts, ncr, nlf, ncrlf, nbasic,
      nstarts, scanLineStartsFast, if_neg hplain, crCount, crCount, lfCount, lfCount, crlfCount,
      crlfCount, isBasicASCII, isBasicASCII, textUnits, if_neg hplain]
    refine ⟨?_, ?_, ?_, ?_, ?_⟩
    · simp only [count_cons, count_nil]
      omega
    · simp only [count_cons, count_nil]
      omega
    · rw [count_cons_of_ne (by simp)]
    · rw [all_cons, Bool.and_assoc]
    · split <;> rfl

theorem createLineStarts_fields (str : JsString) :
    (createLineStarts str).cr = crCount str ∧ (createLineStarts str).lf = lfCount str ∧
    (createLineStarts str).crlf = crlfCount str ∧
    (createLineStarts str).isBasicASCII = isBasicASCII str ∧
    (createLineStarts str).lineStarts = createLineStartsFast str := by
  obtain ⟨hcr, hlf, hcrlf, hbasic, hstarts⟩ := scanLineStarts_fields ⟨[0], 0, 0, 0, true⟩ 0 str
  simp only [Nat.zero_add, Bool.true_and] at hcr hlf hcrlf hbasic
  exact ⟨hcr, hlf, hcrlf, hbasic, hstarts⟩

theorem scanLineStartsFast_spec (r : List Nat) (i : Nat) (str : JsString) :
    ∃ starts, scanLineStartsFast r i str = r ++ starts ∧ ∀ n ∈ starts, n ≤ i + str.length := by
  induction r, i, str using scanLineStartsFast.induct with
  | case1 r i => exact ⟨[], by rw [scanLineStartsFast, append_nil], by simp⟩
  | case2 r i chr hend => exact ⟨[i + 1], by rw [scanLineStartsFast, if_pos hend], by simp⟩
  | case3 r i chr hplain =>
    exact ⟨[], by rw [scanLineStartsFast, if_neg hplain, append_nil], by simp⟩
  | case4 r i chr next rest hcrlf ih =>
    obtain ⟨starts, heq, hle⟩ := ih
    refine ⟨(i + 2) :: starts, ?_, ?_⟩
    · rw [scanLineStartsFast, if_pos hcrlf, heq, append_assoc, singleton_append]
    · intro n hn
      rw [length_cons, length_cons]
      rcases mem_cons.mp hn with rfl | hn
      · omega
      · have := hle n hn
        omega
  | case5 r i chr next rest hplain hend ih =>
    obtain ⟨starts, heq, hle⟩ := ih
    refine ⟨(i + 1) :: starts, ?_, ?_⟩
    · rw [scanLineStartsFast, if_neg hplain, if_pos hend, heq, append_assoc, singleton_append]
    · intro n hn
      rw [length_cons]
      rcases mem_cons.mp hn with rfl | hn
      · omega
      · have := hle n hn
        omega
  | case6 r i chr next rest hplain hother ih =>
    obtain ⟨starts, heq, hle⟩ := ih
    refine ⟨starts, ?_, ?_⟩
    · rw [scanLineStartsFast, if_neg hplain, if_neg hother, heq]
    · intro n hn
      have := hle n hn
      rw [length_cons]
      omega

theorem createLineStartsFast_spec (str : JsString) :
    ∃ starts, createLineStartsFast str = 0 :: starts ∧ ∀ n ∈ starts, n ≤ str.length := by
  obtain ⟨starts, heq, hle⟩ := scanLineStartsFast_spec [0] 0 str
  refine ⟨starts, heq, fun n hn => ?_⟩
  have := hle n hn
  omega

/-! ## Other line ends -/

/-- `'\r\n' | '\n'`. -/
inductive EndOfLine
  | crlf
  | lf
  deriving DecidableEq, Repr

def EndOfLine.text : EndOfLine → JsString
  | crlf => [carriageReturn, lineFeed]
  | lf => [lineFeed]

def TextUnit.replaced (eol : EndOfLine) : TextUnit → JsString
  | crlf => eol.text
  | unit u => if u = carriageReturn ∨ u = lineFeed then eol.text else [u]

/-- `str.replace(/\r\n|\r|\n/g, eol)`. -/
def replaceEOL (eol : EndOfLine) (str : JsString) : JsString :=
  (textUnits str).flatMap (TextUnit.replaced eol)

/-! ## Right-to-left text and unusual line terminators -/

def rtlUnits : List (Nat × Nat) :=
  [(0x05BE, 0x05BE), (0x05C0, 0x05C0), (0x05C3, 0x05C3), (0x05C6, 0x05C6), (0x05D0, 0x05F4),
    (0x0608, 0x0608), (0x060B, 0x060B), (0x060D, 0x060D), (0x061B, 0x064A), (0x066D, 0x066F),
    (0x0671, 0x06D5), (0x06E5, 0x06E6), (0x06EE, 0x06EF), (0x06FA, 0x0710), (0x0712, 0x072F),
    (0x074D, 0x07A5), (0x07B1, 0x07EA), (0x07F4, 0x07F5), (0x07FA, 0x07FA), (0x07FE, 0x0815),
    (0x081A, 0x081A), (0x0824, 0x0824), (0x0828, 0x0828), (0x0830, 0x0858), (0x085E, 0x088E),
    (0x08A0, 0x08C9), (0x200F, 0x200F), (0xFB1D, 0xFB1D), (0xFB1F, 0xFB28), (0xFB2A, 0xFD3D),
    (0xFD50, 0xFDC7), (0xFDF0, 0xFDFC), (0xFE70, 0xFEFC)]

def rtlPairs : List (Nat × List (Nat × Nat)) :=
  [(0xD802, [(0xDC00, 0xDD1B), (0xDD20, 0xDE00), (0xDE10, 0xDE35), (0xDE40, 0xDEE4),
      (0xDEEB, 0xDF35), (0xDF40, 0xDFFF)]),
    (0xD803, [(0xDC00, 0xDD23), (0xDE80, 0xDEA9), (0xDEAD, 0xDF45), (0xDF51, 0xDF81),
      (0xDF86, 0xDFF6)]),
    (0xD83A, [(0xDC00, 0xDCCF), (0xDD00, 0xDD43), (0xDD4B, 0xDFFF)]),
    (0xD83B, [(0xDC00, 0xDEBB)])]

def inRanges (ranges : List (Nat × Nat)) (u : CodeUnit) : Bool :=
  ranges.any fun range => range.1 ≤ u.val && u.val ≤ range.2

def isRtlUnit (u : CodeUnit) : Bool := inRanges rtlUnits u

def isRtlPair (u v : CodeUnit) : Bool := rtlPairs.any fun pair => u.val = pair.1 && inRanges pair.2 v

def containsRTL : JsString → Bool
  | [] => false
  | [u] => isRtlUnit u
  | u :: v :: rest => isRtlUnit u || isRtlPair u v || containsRTL (v :: rest)

/-- `/[\u2028\u2029]/.test(str)`. -/
def containsUnusualLineTerminators (str : JsString) : Bool :=
  str.any fun u => u.val = 0x2028 || u.val = 0x2029

theorem pair_of_isRtlPair (h : isRtlPair u v = true) :
    isHighSurrogate u = true ∧ isLowSurrogate v = true := by
  have hall : ∀ pair ∈ rtlPairs, (0xD800 ≤ pair.1 ∧ pair.1 < 0xDC00) ∧
      ∀ range ∈ pair.2, 0xDC00 ≤ range.1 ∧ range.2 < 0xE000 := by decide
  obtain ⟨pair, hmem, hpair⟩ := any_eq_true.mp h
  rw [and_eq_true] at hpair
  obtain ⟨range, hrange, hin⟩ := any_eq_true.mp hpair.2
  obtain ⟨hhigh, hlow⟩ := hall pair hmem
  have hu := of_decide_eq_true hpair.1
  have hbounds := hlow range hrange
  simp only [and_eq_true, decide_eq_true_eq] at hin
  simp only [isHighSurrogate, isLowSurrogate, and_eq_true, decide_eq_true_eq]
  omega

theorem containsRTL_append (h : SafeCut front back) :
    containsRTL (front ++ back) = (containsRTL front || containsRTL back) := by
  induction front using containsRTL.induct with
  | case1 => rfl
  | case2 u =>
    cases back with
    | nil => rw [append_nil, containsRTL, containsRTL, Bool.or_false]
    | cons v back =>
      have hpair : isRtlPair u v = false := by
        by_contra hnot
        exact (h u rfl v rfl).2 (pair_of_isRtlPair (of_not_eq_false hnot))
      have hunit : containsRTL [u] = isRtlUnit u := rfl
      rw [singleton_append, hunit, containsRTL, hpair, Bool.or_false]
  | case3 u v rest ih =>
    have hrest := ih h.tail
    rw [cons_append] at hrest
    rw [cons_append, cons_append, containsRTL, hrest, containsRTL]
    simp only [Bool.or_assoc]

theorem containsRTL_flatten (hne : ∀ text ∈ texts, text ≠ []) (hcuts : texts.IsChain SafeCut) :
    containsRTL texts.flatten = texts.any containsRTL := by
  induction texts with
  | nil => rfl
  | cons text rest ih =>
    have hrest := ih (fun t ht => hne t (mem_cons_of_mem _ ht)) hcuts.tail
    have hcut := safeCut_flatten hne hcuts
    rw [flatten_cons, containsRTL_append hcut, hrest, any_cons]

/-- A unit in a text whose line ends are all `eol`. -/
def TextUnit.withEol (eol : EndOfLine) : TextUnit → TextUnit
  | crlf => if eol = .crlf then .crlf else .unit lineFeed
  | unit u =>
    if u = carriageReturn ∨ u = lineFeed then if eol = .crlf then .crlf else .unit lineFeed
    else .unit u

theorem textUnits_replaced (eol : EndOfLine) (units : List TextUnit) :
    textUnits (units.flatMap (TextUnit.replaced eol)) = units.map (TextUnit.withEol eol) := by
  induction units with
  | nil => rfl
  | cons unit units ih =>
    have heol : textUnits (eol.text ++ units.flatMap (TextUnit.replaced eol)) =
        (if eol = .crlf then .crlf else .unit lineFeed) :: units.map (TextUnit.withEol eol) := by
      rw [← ih]
      cases eol with
      | crlf => rfl
      | lf => exact textUnits_cons fun _ _ h => absurd h.1 (by decide)
    rw [flatMap_cons, map_cons]
    cases unit with
    | crlf => exact heol
    | unit u =>
      by_cases hend : u = carriageReturn ∨ u = lineFeed
      · simpa only [TextUnit.replaced, TextUnit.withEol, if_pos hend] using heol
      · simp only [TextUnit.replaced, TextUnit.withEol, if_neg hend, singleton_append]
        rw [textUnits_cons fun _ _ h => hend (.inl h.1), ih]

end Fumie.Editor
