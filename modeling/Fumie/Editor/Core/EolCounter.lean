import Fumie.Editor.Core.Positions

/-!
# Counting line ends

`countEOL` reads a text once and says how many line ends it has, how long its first and
last lines are and of which kinds its line ends are. That is all a position needs to be
moved over the text, and where all line ends are of one kind the text is not changed by
replacing them with it.
-/

namespace Fumie.Editor

open Fumie.Lib Fumie.Base List TextUnit

abbrev StringEOL := BitVec 2

namespace StringEOL

def Unknown : StringEOL := 0

def Invalid : StringEOL := 3

def LF : StringEOL := 1

def CRLF : StringEOL := 2

end StringEOL

structure EolScan where
  eolCount : Nat
  firstLineLength : Nat
  lastLineStart : Nat
  eol : StringEOL

def EolScan.lineEnd (r : EolScan) (i next : Nat) (kind : StringEOL) : EolScan where
  firstLineLength := if r.eolCount = 0 then i else r.firstLineLength
  eolCount := r.eolCount + 1
  lastLineStart := next
  eol := r.eol ||| kind

def EolScan.unit (r : EolScan) (i : Nat) (chr : CodeUnit) : EolScan :=
  if chr = carriageReturn then r.lineEnd i (i + 1) .Invalid
  else if chr = lineFeed then r.lineEnd i (i + 1) .LF
  else r

def scanEOL (r : EolScan) (i : Nat) : JsString → EolScan
  | [] => r
  | [chr] => r.unit i chr
  | chr :: next :: rest =>
    if chr = carriageReturn ∧ next = lineFeed then
      scanEOL (r.lineEnd i (i + 2) .CRLF) (i + 2) rest
    else scanEOL (r.unit i chr) (i + 1) (next :: rest)

structure EolCount where
  eolCount : Nat
  firstLineLength : Nat
  lastLineLength : Nat
  eol : StringEOL

def countEOL (text : JsString) : EolCount :=
  let r := scanEOL ⟨0, 0, 0, .Unknown⟩ 0 text
  ⟨r.eolCount, if r.eolCount = 0 then text.length else r.firstLineLength,
    text.length - r.lastLineStart, r.eol⟩

/-! ## Moving a position -/

/-- What the rest of a text does to the loop and to a position. -/
structure EolScan.Moves (r r' : EolScan) (i : Nat) (s : JsString) : Prop where
  count : r.eolCount ≤ r'.eolCount
  same : r'.eolCount = r.eolCount → r'.lastLineStart = r.lastLineStart
  start : r'.eolCount ≠ r.eolCount → i ≤ r'.lastLineStart ∧ r'.lastLineStart ≤ i + s.length
  position : ∀ p : Position, p.advance s =
    if r'.eolCount = r.eolCount then ⟨p.lineNumber, p.column + s.length⟩
    else ⟨p.lineNumber + (r'.eolCount - r.eolCount), i + s.length - r'.lastLineStart + 1⟩

theorem EolScan.unit_lineEnd {r : EolScan} {i : Nat} {chr : CodeUnit}
    (h : (TextUnit.unit chr).isEnd = true) : ∃ kind, r.unit i chr = r.lineEnd i (i + 1) kind := by
  rw [EolScan.unit]
  by_cases hcr : chr = carriageReturn
  · exact ⟨_, if_pos hcr⟩
  · have hlf : chr = lineFeed := by simpa [isEnd, hcr] using h
    exact ⟨_, by rw [if_neg hcr, if_pos hlf]⟩

variable {r r' : EolScan} {i : Nat} {chr : CodeUnit} {u : TextUnit} {s rest text : JsString}
  {eol : EndOfLine}

theorem EolScan.unit_plain (h : (TextUnit.unit chr).isEnd = false) : r.unit i chr = r := by
  have hplain : ¬chr = carriageReturn ∧ ¬chr = lineFeed := by simpa [isEnd] using h
  rw [EolScan.unit, if_neg hplain.1, if_neg hplain.2]

theorem EolScan.moves_lineEnd {n : Nat} {kind : StringEOL}
    (hunits : textUnits s = u :: textUnits rest) (hu : u.isEnd = true)
    (hlength : s.length = n + rest.length) (h : (r.lineEnd i (i + n) kind).Moves r' (i + n) rest) :
    r.Moves r' i s := by
  obtain ⟨hcount, hsame, hstart, hposition⟩ := h
  have hcounted : (r.lineEnd i (i + n) kind).eolCount = r.eolCount + 1 := rfl
  have hstarted : (r.lineEnd i (i + n) kind).lastLineStart = i + n := rfl
  refine ⟨by omega, by omega, by omega, fun p => ?_⟩
  have hfirst : p.advance s = Position.advance ⟨p.lineNumber + 1, 1⟩ rest := by
    rw [Position.advance, hunits, foldl_cons, Position.next, if_pos hu]
    rfl
  rw [hfirst, hposition, if_neg (show ¬r'.eolCount = r.eolCount by omega)]
  by_cases hnone : r'.eolCount = (r.lineEnd i (i + n) kind).eolCount
  · have hlast := hsame hnone
    rw [if_pos hnone]
    simp only [Position.mk.injEq]
    omega
  · rw [if_neg hnone]
    simp only [Position.mk.injEq]
    omega

theorem EolScan.moves_plain (hunits : textUnits s = u :: textUnits rest) (hu : u.isEnd = false)
    (hlength : s.length = 1 + rest.length) (h : r.Moves r' (i + 1) rest) : r.Moves r' i s := by
  obtain ⟨hcount, hsame, hstart, hposition⟩ := h
  refine ⟨hcount, hsame, by omega, fun p => ?_⟩
  have hfirst : p.advance s = Position.advance ⟨p.lineNumber, p.column + 1⟩ rest := by
    rw [Position.advance, hunits, foldl_cons, Position.next, if_neg (by rw [hu]; decide)]
    rfl
  rw [hfirst, hposition]
  by_cases hnone : r'.eolCount = r.eolCount
  · rw [if_pos hnone, if_pos hnone]
    simp only [Position.mk.injEq, true_and]
    omega
  · rw [if_neg hnone, if_neg hnone]
    simp only [Position.mk.injEq, true_and]
    omega

theorem EolScan.moves_nil (r : EolScan) (i : Nat) : r.Moves r i [] :=
  ⟨Nat.le_refl _, fun _ => rfl, fun h => absurd rfl h, fun _ => by rw [if_pos rfl]; rfl⟩

theorem EolScan.moves_unit (hunits : textUnits s = .unit chr :: textUnits rest)
    (hlength : s.length = 1 + rest.length) (h : (r.unit i chr).Moves r' (i + 1) rest) :
    r.Moves r' i s := by
  cases hu : (TextUnit.unit chr).isEnd with
  | false =>
    rw [EolScan.unit_plain hu] at h
    exact EolScan.moves_plain hunits hu hlength h
  | true =>
    obtain ⟨kind, heq⟩ := @EolScan.unit_lineEnd r i chr hu
    rw [heq] at h
    exact EolScan.moves_lineEnd hunits hu hlength h

theorem scanEOL_moves (r : EolScan) (i : Nat) (s : JsString) : r.Moves (scanEOL r i s) i s := by
  induction r, i, s using scanEOL.induct with
  | case1 r i => exact EolScan.moves_nil r i
  | case2 r i chr => exact EolScan.moves_unit rfl rfl (EolScan.moves_nil _ _)
  | case3 r i chr next rest hcrlf ih =>
    rw [scanEOL, if_pos hcrlf]
    refine EolScan.moves_lineEnd (u := .crlf) ?_ rfl ?_ ih
    · rw [textUnits, if_pos hcrlf]
    · rw [length_cons, length_cons, Nat.add_assoc, Nat.add_comm]
  | case4 r i chr next rest hplain ih =>
    rw [scanEOL, if_neg hplain]
    refine EolScan.moves_unit ?_ ?_ ih
    · rw [textUnits, if_neg hplain]
    · rw [length_cons, Nat.add_comm]

variable (p : Position)

theorem advance_countEOL (text : JsString) : p.advance text =
    if (countEOL text).eolCount = 0 then ⟨p.lineNumber, p.column + (countEOL text).firstLineLength⟩
    else ⟨p.lineNumber + (countEOL text).eolCount, (countEOL text).lastLineLength + 1⟩ := by
  obtain ⟨-, -, -, hposition⟩ := scanEOL_moves ⟨0, 0, 0, .Unknown⟩ 0 text
  rw [hposition, countEOL]
  simp only [Nat.zero_add, Nat.sub_zero]
  split_ifs with hsame
  · rfl
  · rfl

theorem advance_replaceEOL (eol : EndOfLine) (text : JsString) :
    p.advance (replaceEOL eol text) = p.advance text := by
  rw [replaceEOL, Position.advance, Position.advance]
  generalize textUnits text = units
  induction units generalizing p with
  | nil => rfl
  | cons u units ih =>
    have hend : ∀ rest, u.isEnd = true →
        textUnits (u.replaced eol ++ rest) = eol.unit :: textUnits rest := by
      intro rest hu
      have hreplaced : u.replaced eol = eol.text := by
        cases u with
        | crlf => rfl
        | unit u =>
          rw [replaced, if_pos]
          simpa [isEnd] using hu
      rw [hreplaced, Normal.textUnits_lineEnd]
    rw [flatMap_cons]
    cases hu : u.isEnd with
    | true =>
      rw [hend _ hu, foldl_cons, foldl_cons, Position.next, Position.next, hu, eol.unit_isEnd, ih]
    | false =>
      cases u with
      | crlf => cases hu
      | unit u =>
        have hplain : ¬u = carriageReturn ∧ ¬u = lineFeed := by simpa [isEnd] using hu
        rw [replaced, if_neg (not_or.mpr hplain), singleton_append,
          Normal.textUnits_unit hplain.1, foldl_cons, foldl_cons, ih]

theorem isBefore_advance (h : text ≠ []) : p.isBefore (p.advance text) = true := by
  have hpos := length_pos_iff.mpr h
  rw [advance_countEOL, Position.isBefore_iff]
  split_ifs with hnone
  · have hlength : (countEOL text).firstLineLength = text.length := if_pos hnone
    exact .inr ⟨rfl, by rw [hlength]; exact Nat.lt_add_of_pos_right hpos⟩
  · exact .inl (Nat.lt_add_of_pos_right (Nat.pos_of_ne_zero hnone))

theorem advance_shift (p' : Position) (text : JsString) : p'.advance text =
    if p.lineNumber = (p.advance text).lineNumber then
      ⟨p'.lineNumber, p'.column + ((p.advance text).column - p.column)⟩
    else
      ⟨p'.lineNumber + ((p.advance text).lineNumber - p.lineNumber), (p.advance text).column⟩ := by
  rw [advance_countEOL p', advance_countEOL p]
  by_cases hnone : (countEOL text).eolCount = 0
  · rw [if_pos hnone, if_pos hnone, if_pos rfl, Nat.add_sub_cancel_left]
  · have hline : ¬p.lineNumber = p.lineNumber + (countEOL text).eolCount := by omega
    rw [if_neg hnone, if_neg hnone, if_neg hline, Nat.add_sub_cancel_left]

theorem length_of_sameLine {p : Position} {text : JsString}
    (h : p.lineNumber = (p.advance text).lineNumber) :
    (p.advance text).column - p.column = text.length := by
  rw [advance_countEOL] at h ⊢
  by_cases hnone : (countEOL text).eolCount = 0
  · have hlength : (countEOL text).firstLineLength = text.length := if_pos hnone
    rw [if_pos hnone, Nat.add_sub_cancel_left, hlength]
  · rw [if_neg hnone] at h
    have hsame : p.lineNumber = p.lineNumber + (countEOL text).eolCount := h
    omega

/-! ## Kinds of line ends -/

def TextUnit.kind : TextUnit → StringEOL
  | crlf => .CRLF
  | unit u => if u = carriageReturn then .Invalid else if u = lineFeed then .LF else .Unknown

def eolKinds (units : List TextUnit) : StringEOL := units.foldr (fun u kinds => u.kind ||| kinds) 0

theorem EolScan.unit_eol (r : EolScan) (i : Nat) (chr : CodeUnit) :
    (r.unit i chr).eol = r.eol ||| (TextUnit.unit chr).kind := by
  rw [EolScan.unit, TextUnit.kind]
  split_ifs
  · rfl
  · rfl
  · exact (BitVec.or_zero).symm

theorem scanEOL_eol (r : EolScan) (i : Nat) (s : JsString) :
    (scanEOL r i s).eol = r.eol ||| eolKinds (textUnits s) := by
  induction r, i, s using scanEOL.induct with
  | case1 r i => exact (BitVec.or_zero).symm
  | case2 r i chr =>
    rw [scanEOL, EolScan.unit_eol, textUnits]
    exact congrArg (r.eol ||| ·) (BitVec.or_zero).symm
  | case3 r i chr next rest hcrlf ih =>
    rw [scanEOL, if_pos hcrlf, ih, textUnits, if_pos hcrlf]
    exact BitVec.or_assoc ..
  | case4 r i chr next rest hplain ih =>
    rw [scanEOL, if_neg hplain, ih, textUnits, if_neg hplain, EolScan.unit_eol]
    exact BitVec.or_assoc ..

def EndOfLine.kind : EndOfLine → StringEOL
  | crlf => .CRLF
  | lf => .LF

theorem kind_or {a b : StringEOL} (h : a ||| b = .Unknown ∨ a ||| b = eol.kind) :
    (a = .Unknown ∨ a = eol.kind) ∧ (b = .Unknown ∨ b = eol.kind) := by
  revert a b
  cases eol <;> decide

theorem replaced_of_kind (h : u.kind = .Unknown ∨ u.kind = eol.kind) : u.replaced eol = u.text := by
  cases u with
  | crlf =>
    cases eol with
    | crlf => rfl
    | lf => exact absurd h (by decide)
  | unit u =>
    rw [TextUnit.kind] at h
    by_cases hcr : u = carriageReturn
    · rw [if_pos hcr] at h
      cases eol <;> exact absurd h (by decide)
    · by_cases hlf : u = lineFeed
      · rw [if_neg hcr, if_pos hlf] at h
        cases eol with
        | crlf => exact absurd h (by decide)
        | lf =>
          rw [replaced, if_pos (.inr hlf), hlf]
          rfl
      · rw [replaced, if_neg (not_or.mpr ⟨hcr, hlf⟩)]
        rfl

theorem replaceEOL_of_kinds (h : (countEOL text).eol = .Unknown ∨ (countEOL text).eol = eol.kind) :
    replaceEOL eol text = text := by
  have hkinds : (countEOL text).eol = .Unknown ||| eolKinds (textUnits text) :=
    scanEOL_eol ⟨0, 0, 0, .Unknown⟩ 0 text
  rw [hkinds] at h
  have hrest := (kind_or h).2
  have hall : ∀ units : List TextUnit, eolKinds units = .Unknown ∨ eolKinds units = eol.kind →
      units.flatMap (replaced eol) = units.flatMap TextUnit.text := by
    intro units
    induction units with
    | nil => exact fun _ => rfl
    | cons u units ih =>
      intro hu
      obtain ⟨hfirst, hothers⟩ := kind_or hu
      rw [flatMap_cons, flatMap_cons, replaced_of_kind hfirst, ih hothers]
  rw [replaceEOL, hall _ hrest, flatMap_textUnits]

end Fumie.Editor
