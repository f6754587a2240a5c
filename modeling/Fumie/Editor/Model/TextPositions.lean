import Fumie.Editor.Model.ApplyEdits

/-!
# Positions and offsets of a buffer

The position of every front part of a text leads back to its length by the line starts,
and every line and column of the text is the position of a front part. So positions of one
text are compared as its front parts are, and the text between two of them is what stands
between the parts.
-/

namespace Fumie.Editor

open Fumie.Lib Fumie.Base List TextUnit Range

/-! ## Line starts -/

def endsAt (i : Nat) : List TextUnit → List Nat
  | [] => []
  | u :: units =>
    if u.isEnd then (i + u.text.length) :: endsAt (i + u.text.length) units
    else endsAt (i + u.text.length) units

theorem endsAt_append (i : Nat) (a b : List TextUnit) :
    endsAt i (a ++ b) = endsAt i a ++ endsAt (i + (a.flatMap TextUnit.text).length) b := by
  induction a generalizing i with
  | nil => rfl
  | cons u a ih =>
    rw [cons_append, endsAt, endsAt, flatMap_cons, length_append, ← Nat.add_assoc, ih]
    split_ifs
    · rfl
    · rfl

theorem scanLineStartsFast_eq (r : List Nat) (i : Nat) (str : JsString) :
    scanLineStartsFast r i str = r ++ endsAt i (textUnits str) := by
  have hend : ∀ u : CodeUnit, (TextUnit.unit u).isEnd = true ↔ u = carriageReturn ∨ u = lineFeed := by
    intro u
    simp [isEnd]
  induction r, i, str using scanLineStartsFast.induct with
  | case1 r i => exact (append_nil r).symm
  | case2 r i chr hchr =>
    rw [scanLineStartsFast, if_pos hchr, textUnits, endsAt, if_pos ((hend chr).mpr hchr)]
    rfl
  | case3 r i chr hchr =>
    rw [scanLineStartsFast, if_neg hchr, textUnits, endsAt, if_neg (mt (hend chr).mp hchr)]
    exact (append_nil r).symm
  | case4 r i chr next rest hcrlf ih =>
    rw [scanLineStartsFast, if_pos hcrlf, ih, textUnits, if_pos hcrlf, endsAt,
      if_pos (show TextUnit.crlf.isEnd = true from rfl), append_assoc]
    rfl
  | case5 r i chr next rest hplain hchr ih =>
    rw [scanLineStartsFast, if_neg hplain, if_pos hchr, ih, textUnits, if_neg hplain, endsAt,
      if_pos ((hend chr).mpr hchr), append_assoc]
    rfl
  | case6 r i chr next rest hplain hchr ih =>
    rw [scanLineStartsFast, if_neg hplain, if_neg hchr, ih, textUnits, if_neg hplain, endsAt,
      if_neg (mt (hend chr).mp hchr)]
    rfl

theorem lineStart_advance (units : List TextUnit) {s i : Nat} {p : Position} (hle : s ≤ i)
    (hcolumn : p.column = i - s + 1) :
    p.lineNumber ≤ (units.foldl Position.next p).lineNumber ∧ ∃ lineStart,
      (s :: endsAt i units)[(units.foldl Position.next p).lineNumber - p.lineNumber]? =
        some lineStart ∧
      lineStart + (units.foldl Position.next p).column - 1 =
        i + (units.flatMap TextUnit.text).length := by
  induction units generalizing s i p with
  | nil =>
    refine ⟨Nat.le_refl _, s, ?_, ?_⟩
    · rw [foldl_nil, Nat.sub_self]
      rfl
    · rw [foldl_nil, hcolumn]
      exact (by omega : s + (i - s + 1) - 1 = i)
  | cons u units ih =>
    rw [foldl_cons, endsAt, Position.next, flatMap_cons, length_append]
    cases hu : u.isEnd with
    | true =>
      obtain ⟨hline, lineStart, hget, hoffset⟩ :=
        @ih (i + u.text.length) (i + u.text.length) ⟨p.lineNumber + 1, 1⟩ (Nat.le_refl _)
          (by rw [Nat.sub_self])
      rw [if_pos rfl, if_pos rfl]
      generalize units.foldl Position.next ⟨p.lineNumber + 1, 1⟩ = q at hline hget hoffset
      have hless : p.lineNumber + 1 ≤ q.lineNumber := hline
      refine ⟨by omega, lineStart, ?_, by omega⟩
      have hindex : q.lineNumber - p.lineNumber = q.lineNumber - (p.lineNumber + 1) + 1 := by omega
      rw [hindex, getElem?_cons_succ]
      exact hget
    | false =>
      have hlength : u.text.length = 1 := by
        cases u with
        | crlf => cases hu
        | unit u => rfl
      obtain ⟨hline, lineStart, hget, hoffset⟩ :=
        @ih s (i + u.text.length) ⟨p.lineNumber, p.column + 1⟩ (by omega)
          (by rw [hcolumn, hlength]; exact (by omega : i - s + 1 + 1 = i + 1 - s + 1))
      rw [if_neg (by decide), if_neg (by decide)]
      exact ⟨hline, lineStart, hget, by rw [hoffset, Nat.add_assoc]⟩

namespace TextBuffer

variable {buffer : TextBuffer} {eol : EndOfLine}

theorem getOffsetAt_endPosition {front back : JsString} (htext : buffer.text = front ++ back)
    (hfront : Normal eol front) :
    buffer.getOffsetAt (endPosition front).lineNumber (endPosition front).column =
      front.length := by
  obtain ⟨-, lineStart, hget, hoffset⟩ :=
    @lineStart_advance (textUnits front) 0 0 ⟨1, 1⟩ (Nat.le_refl _) rfl
  rw [flatMap_textUnits, Nat.zero_add] at hoffset
  have hindex := (List.getElem?_eq_some_iff.mp hget).1
  have hstarts : (createLineStartsFast buffer.text)[(endPosition front).lineNumber - 1]? =
      some lineStart := by
    rw [createLineStartsFast, scanLineStartsFast_eq, htext, hfront.textUnits_append, endsAt_append,
      ← append_assoc]
    exact (getElem?_append_left hindex).trans hget
  rw [getOffsetAt, hstarts]
  exact hoffset

/-! ## Positions of a text -/

def ValidPosition (text : JsString) (p : Position) : Prop :=
  1 ≤ p.lineNumber ∧ 1 ≤ p.column ∧
    ∃ content, (textLines text)[p.lineNumber - 1]? = some content ∧ p.column ≤ content.length + 1

structure ValidRange (text : JsString) (range : Range) : Prop where
  start : ValidPosition text range.getStartPosition
  stop : ValidPosition text range.getEndPosition
  order : range.getStartPosition.isBeforeOrEqual range.getEndPosition = true

theorem unitLines_ne_nil (units : List TextUnit) : unitLines units ≠ [] := by
  cases units with
  | nil => exact cons_ne_nil _ _
  | cons u units =>
    rw [unitLines]
    split
    · exact cons_ne_nil _ _
    · split
      · exact cons_ne_nil _ _
      · exact cons_ne_nil _ _

theorem front_of_line {text : JsString} (h : Normal eol text) {line c : Nat} {content : JsString}
    (hline : (textLines text)[line]? = some content) (hc : c ≤ content.length) :
    ∃ front back, text = front ++ back ∧ Normal eol front ∧ Normal eol back ∧
      ∀ q : Position, q.advance front =
        if line = 0 then ⟨q.lineNumber, q.column + c⟩ else ⟨q.lineNumber + line, c + 1⟩ := by
  induction h generalizing line c content with
  | nil =>
    obtain ⟨hlt, -⟩ := List.getElem?_eq_some_iff.mp hline
    have hzero : line = 0 := Nat.lt_one_iff.mp hlt
    subst hzero
    cases hline
    have hnone : c = 0 := Nat.le_zero.mp hc
    subst hnone
    exact ⟨[], [], rfl, .nil, .nil, fun _ => rfl⟩
  | @lineEnd rest hrest ih =>
    rw [textLines, Normal.textUnits_lineEnd, unitLines, if_pos eol.unit_isEnd] at hline
    cases line with
    | zero =>
      cases hline
      have hnone : c = 0 := Nat.le_zero.mp hc
      subst hnone
      exact ⟨[], eol.text ++ rest, rfl, .nil, hrest.lineEnd, fun _ => rfl⟩
    | succ line =>
      rw [getElem?_cons_succ] at hline
      obtain ⟨front, back, rfl, hfront, hback, hadvance⟩ := ih hline hc
      refine ⟨eol.text ++ front, back, (append_assoc ..).symm, hfront.lineEnd, hback, fun q => ?_⟩
      have hfirst : q.advance (eol.text ++ front) =
          Position.advance ⟨q.lineNumber + 1, 1⟩ front := by
        rw [Position.advance, Normal.textUnits_lineEnd, foldl_cons, Position.next,
          if_pos eol.unit_isEnd]
        rfl
      rw [hfirst, hadvance, if_neg (Nat.succ_ne_zero line)]
      split_ifs with hzero
      · rw [hzero, Nat.add_comm 1 c]
      · rw [Nat.add_assoc, Nat.add_comm 1 line]
  | @unit u rest hcr hlf hrest ih =>
    have hplain : (TextUnit.unit u).isEnd = false := by simp [isEnd, hcr, hlf]
    have hfirst : ∀ (q : Position) (front : JsString), q.advance (u :: front) =
        Position.advance ⟨q.lineNumber, q.column + 1⟩ front := by
      intro q front
      rw [Position.advance, Normal.textUnits_unit hcr, foldl_cons, Position.next,
        if_neg (by rw [hplain]; decide)]
      rfl
    obtain ⟨l, ls, hlines⟩ := exists_cons_of_ne_nil (unitLines_ne_nil (textUnits rest))
    rw [textLines, Normal.textUnits_unit hcr, unitLines, if_neg (by rw [hplain]; decide),
      hlines] at hline
    rw [textLines, hlines] at ih
    cases line with
    | zero =>
      cases hline
      cases c with
      | zero => exact ⟨[], u :: rest, rfl, .nil, hrest.unit hcr hlf, fun _ => rfl⟩
      | succ c =>
        have hle : c ≤ l.length := Nat.le_of_succ_le_succ hc
        obtain ⟨front, back, rfl, hfront, hback, hadvance⟩ := @ih 0 c l rfl hle
        refine ⟨u :: front, back, rfl, hfront.unit hcr hlf, hback, fun q => ?_⟩
        rw [hfirst, hadvance, if_pos rfl, if_pos rfl, Nat.add_assoc, Nat.add_comm 1 c]
    | succ line =>
      have hnext : (l :: ls)[line + 1]? = some content := hline
      obtain ⟨front, back, rfl, hfront, hback, hadvance⟩ := ih hnext hc
      refine ⟨u :: front, back, rfl, hfront.unit hcr hlf, hback, fun q => ?_⟩
      rw [hfirst, hadvance, if_neg (Nat.succ_ne_zero line), if_neg (Nat.succ_ne_zero line)]

theorem front_of_validPosition {text : JsString} (h : Normal eol text) {p : Position}
    (hp : ValidPosition text p) :
    ∃ front back, text = front ++ back ∧ Normal eol front ∧ Normal eol back ∧
      endPosition front = p := by
  obtain ⟨hline, hcolumn, content, hcontent, hle⟩ := hp
  obtain ⟨front, back, heq, hfront, hback, hadvance⟩ :=
    @front_of_line eol text h (p.lineNumber - 1) (p.column - 1) content hcontent (by omega)
  refine ⟨front, back, heq, hfront, hback, ?_⟩
  rw [endPosition, hadvance]
  split_ifs with hzero
  · obtain ⟨line, column⟩ := p
    simp only [Position.mk.injEq] at *
    omega
  · obtain ⟨line, column⟩ := p
    simp only [Position.mk.injEq] at *
    omega

theorem front_of_not_isBefore {a a' c c' : JsString} (heq : a ++ a' = c ++ c') (ha : Normal eol a)
    (hc : Normal eol c) (h : (endPosition c).isBefore (endPosition a) = false) :
    ∃ gap, c = a ++ gap ∧ Normal eol gap := by
  rcases append_eq_append_iff.mp heq with ⟨gap, rfl, -⟩ | ⟨gap, rfl, -⟩
  · exact ⟨gap, rfl, ha.behind hc⟩
  · cases gap with
    | nil => exact ⟨[], by rw [append_nil, append_nil], .nil⟩
    | cons u gap =>
      have hbefore := isBefore_advance (endPosition c) (cons_ne_nil u gap)
      rw [endPosition, endPosition, hc.advance_append] at h
      exact absurd (hbefore.symm.trans h) (by decide)

/-! ## The text between two positions -/

theorem between_isEmpty {p : Position} {old : JsString} :
    (between p (p.advance old)).isEmpty = true ↔ old = [] := by
  constructor
  · intro h
    by_contra hne
    have hbefore := Position.isBefore_iff.mp (isBefore_advance p hne)
    rw [Range.isEmpty, Bool.and_eq_true, decide_eq_true_eq, decide_eq_true_eq] at h
    have hline : p.lineNumber = (p.advance old).lineNumber := h.1
    have hcolumn : p.column = (p.advance old).column := h.2
    omega
  · rintro rfl
    simp [Range.isEmpty, between, Position.advance, textUnits]

section Between

variable {front old back : JsString}

theorem getValueInRange_between (hnormalized : buffer.EOLNormalized = true)
    (htext : buffer.text = front ++ (old ++ back)) (hfront : Normal eol front)
    (hold : Normal eol old) :
    buffer.getValueInRange (.between (endPosition front) (endPosition (front ++ old))) = old := by
  have hwhole : buffer.text = front ++ old ++ back := by rw [htext, append_assoc]
  have hstart := getOffsetAt_endPosition htext hfront
  have hstop := getOffsetAt_endPosition hwhole (hfront.append hold)
  have hempty := @between_isEmpty (endPosition front) old
  rw [endPosition, ← hfront.advance_append, ← endPosition, ← endPosition] at hempty
  rw [getValueInRange]
  by_cases hnil : old = []
  · rw [if_pos (hempty.mpr hnil), hnil]
  · rw [if_neg (mt hempty.mp hnil), hnormalized, if_pos rfl]
    simp only [between, hstart, hstop, hwhole]
    rw [take_left, drop_left]

theorem getValueLengthInRange_between (htext : buffer.text = front ++ (old ++ back))
    (hfront : Normal eol front) (hold : Normal eol old) :
    buffer.getValueLengthInRange (.between (endPosition front) (endPosition (front ++ old))) =
      old.length := by
  have hwhole : buffer.text = front ++ old ++ back := by rw [htext, append_assoc]
  have hstart := getOffsetAt_endPosition htext hfront
  have hstop := getOffsetAt_endPosition hwhole (hfront.append hold)
  have hempty := @between_isEmpty (endPosition front) old
  have hline := @length_of_sameLine (endPosition front) old
  rw [endPosition, ← hfront.advance_append, ← endPosition, ← endPosition] at hempty hline
  rw [getValueLengthInRange]
  by_cases hnil : old = []
  · rw [if_pos (hempty.mpr hnil), hnil]
    rfl
  · rw [if_neg (mt hempty.mp hnil)]
    simp only [between, hstart, hstop]
    split_ifs with hsame
    · exact hline hsame
    · rw [length_append, Nat.add_sub_cancel_left]

end Between

end TextBuffer

end Fumie.Editor
