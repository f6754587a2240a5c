import Fumie.Editor.Core.TextLines
import Fumie.Editor.Edits.TextComposition

/-!
# Line edits

A line edit replaces ranges of lines. Its constructor throws for replacements that are not
sorted, and the constructor of `LineRange` for an end in front of the start; both are `none`
here. As a string edit each replacement takes the line feeds that go with its lines: the one
behind a line, or the one in front of it where the lines reach the end of the text.
-/

namespace Fumie.Editor

open Fumie.Lib Fumie.Base PositionOffsetTransformer List TextEdit

structure LineRange where
  startLineNumber : Nat
  endLineNumberExclusive : Nat
  le : startLineNumber ≤ endLineNumberExclusive
  deriving DecidableEq, Repr

namespace LineRange

def new (startLineNumber endLineNumberExclusive : Nat) : Option LineRange :=
  if h : startLineNumber ≤ endLineNumberExclusive then
    some ⟨startLineNumber, endLineNumberExclusive, h⟩
  else none

def ofLength (startLineNumber length : Nat) : LineRange :=
  ⟨startLineNumber, startLineNumber + length, Nat.le_add_right _ _⟩

def isEmpty (r : LineRange) : Bool := r.startLineNumber = r.endLineNumberExclusive

def length (r : LineRange) : Nat := r.endLineNumberExclusive - r.startLineNumber

end LineRange

structure LineReplacement where
  lineRange : LineRange
  newLines : List JsString
  deriving DecidableEq, Repr

namespace LineReplacement

def toSingleTextEdit (r : LineReplacement) (text : JsString) : TextReplacement :=
  if r.newLines = [] then
    if r.lineRange.endLineNumberExclusive = (textLength text).lineCount + 2 then
      ⟨rangeOf
        (if 1 < r.lineRange.startLineNumber then
          ⟨r.lineRange.startLineNumber - 1,
            getLineLength text (r.lineRange.startLineNumber - 1) + 1⟩
        else ⟨1, 1⟩)
        (endPositionExclusive text), []⟩
    else
      ⟨rangeOf ⟨r.lineRange.startLineNumber, 1⟩ ⟨r.lineRange.endLineNumberExclusive, 1⟩, []⟩
  else if r.lineRange.isEmpty then
    if r.lineRange.startLineNumber = (textLength text).lineCount + 2 then
      ⟨rangeOf
        ⟨r.lineRange.startLineNumber - 1, getLineLength text (r.lineRange.startLineNumber - 1) + 1⟩
        ⟨r.lineRange.startLineNumber - 1,
          getLineLength text (r.lineRange.startLineNumber - 1) + 1⟩, openedLines r.newLines⟩
    else
      ⟨rangeOf ⟨r.lineRange.startLineNumber, 1⟩ ⟨r.lineRange.startLineNumber, 1⟩,
        closedLines r.newLines⟩
  else
    ⟨rangeOf ⟨r.lineRange.startLineNumber, 1⟩
      ⟨r.lineRange.endLineNumberExclusive - 1,
        getLineLength text (r.lineRange.endLineNumberExclusive - 1) + 1⟩, joinLines r.newLines⟩

instance : Rewrite LineReplacement JsString where
  start r := r.lineRange.startLineNumber
  stop r := r.lineRange.endLineNumberExclusive
  text r := r.newLines

end LineReplacement

def sortedLines (endLineNumberExclusive : Nat) : List LineReplacement → Bool
  | [] => true
  | r :: rs => endLineNumberExclusive ≤ r.lineRange.startLineNumber &&
      sortedLines r.lineRange.endLineNumberExclusive rs

structure LineEdit where
  replacements : List LineReplacement
  sorted : sortedLines 0 replacements = true
  deriving DecidableEq, Repr

variable {rs : List LineReplacement}

namespace LineEdit

def new (replacements : List LineReplacement) : Option LineEdit :=
  if h : sortedLines 0 replacements = true then some ⟨replacements, h⟩ else none

section

variable (e : LineEdit)

def toEdit (text : JsString) : Option StringEdit :=
  (getStringReplacements text (e.replacements.map (·.toSingleTextEdit text))).bind StringEdit.new

def applyFrom (lines : List JsString) (currentLineIndex : Nat) :
    List LineReplacement → List JsString
  | [] => lines.drop currentLineIndex
  | r :: rs =>
    (lines.drop currentLineIndex).take (r.lineRange.startLineNumber - 1 - currentLineIndex) ++
      (r.newLines ++ applyFrom lines (r.lineRange.endLineNumberExclusive - 1) rs)

def apply (lines : List JsString) : List JsString := applyFrom lines 0 e.replacements

def newLineRangesFrom (offset : Int) : List LineReplacement → List LineRange
  | [] => []
  | r :: rs =>
    .ofLength (r.lineRange.startLineNumber + offset).toNat r.newLines.length ::
      newLineRangesFrom (offset + (r.newLines.length - r.lineRange.length)) rs

def getNewLineRanges : List LineRange := newLineRangesFrom 0 e.replacements

variable (originalLines : List JsString)

def inverseAt (r : LineReplacement) (newRange : LineRange) : LineReplacement :=
  ⟨newRange, (originalLines.drop (r.lineRange.startLineNumber - 1)).take r.lineRange.length⟩

def inverse : Option LineEdit :=
  new (zipWith (inverseAt originalLines) e.replacements e.getNewLineRanges)

def InLines (lines : List JsString) : Prop :=
  ∀ r ∈ e.replacements, 1 ≤ r.lineRange.startLineNumber ∧
    r.lineRange.endLineNumberExclusive ≤ lines.length + 1

end

instance (e : LineEdit) (lines : List JsString) : Decidable (e.InLines lines) :=
  inferInstanceAs (Decidable (∀ r ∈ e.replacements, _))

/-! ## Applying -/

open Rewrite

theorem sortedLines_iff {line : Nat} : sortedLines line rs = true ↔ Sorted (line : Int) rs := by
  induction rs generalizing line with
  | nil => exact ⟨fun _ => trivial, fun _ => rfl⟩
  | cons r rs ih =>
    rw [sortedLines, Bool.and_eq_true, decide_eq_true_eq, ih]
    refine ⟨fun h => ⟨Int.ofNat_le.mpr h.1, Int.ofNat_le.mpr r.lineRange.le, h.2⟩,
      fun h => ⟨Int.ofNat_le.mp h.1, h.2.2⟩⟩

theorem new_of_sorted (h : Sorted (1 : Int) rs) : ∃ e, new rs = some e ∧ e.replacements = rs := by
  have hsorted : sortedLines 0 rs = true := sortedLines_iff.mpr (h.mono (by decide))
  exact ⟨⟨rs, hsorted⟩, dif_pos hsorted, rfl⟩

theorem applyFrom_eq {currentLineIndex : Nat} {front s t : List JsString}
    (h : Turns ((currentLineIndex : Int) + 1) rs s t) (hfront : front.length = currentLineIndex) :
    applyFrom (front ++ s) currentLineIndex rs = t := by
  subst hfront
  induction rs generalizing front s t with
  | nil =>
    obtain rfl : t = s := h
    rw [applyFrom, drop_left]
  | cons r rs ih =>
    obtain ⟨gap, old, s', t', hstart, hstop, rfl, rfl, hrest⟩ := h
    have hstart' : (r.lineRange.startLineNumber : Int) = front.length + 1 + gap.length := hstart
    have hstop' : (r.lineRange.endLineNumberExclusive : Int) =
        r.lineRange.startLineNumber + old.length := hstop
    have hgap : r.lineRange.startLineNumber - 1 - front.length = gap.length := by omega
    have hend : r.lineRange.endLineNumberExclusive - 1 = (front ++ (gap ++ old)).length := by
      simp only [length_append]
      omega
    have hassoc : front ++ (gap ++ (old ++ s')) = front ++ (gap ++ old) ++ s' := by
      simp only [append_assoc]
    have hrest' : Turns (((front ++ (gap ++ old)).length : Int) + 1) rs s' t' := by
      have hpos : stop r = ((front ++ (gap ++ old)).length : Int) + 1 := by
        simp only [length_append, Nat.cast_add]
        omega
      rw [← hpos]
      exact hrest
    rw [applyFrom, drop_left, hgap, take_left, hend, hassoc, ih hrest']
    rfl

variable {lines : List JsString}

theorem InLines.turns {e : LineEdit} (h : e.InLines lines) :
    Turns (1 : Int) e.replacements lines (e.apply lines) := by
  have hsorted : Sorted (1 : Int) e.replacements := by
    have hzero := sortedLines_iff.mp e.sorted
    cases hreplacements : e.replacements with
    | nil => trivial
    | cons r rs =>
      rw [hreplacements] at hzero
      have hr := h r (by rw [hreplacements]; exact mem_cons_self)
      exact ⟨Int.ofNat_le.mpr hr.1, hzero.2⟩
  obtain ⟨t, ht⟩ := hsorted.turns (s := lines) fun r hr => by
    have hle := Int.ofNat_le.mpr (h r hr).2
    rw [Nat.cast_add, Nat.cast_one] at hle
    rw [Int.add_comm]
    exact hle
  have happly : applyFrom ([] ++ lines) 0 e.replacements = t := applyFrom_eq ht rfl
  rw [LineEdit.apply, ← nil_append lines, happly]
  exact ht

/-! ## The inverse -/

theorem inverse_turns {p offset : Int} {rs : List LineReplacement} {front s t : List JsString}
    (h : Turns p rs s t) (hp : p = front.length + 1) (hpos : 0 ≤ p + offset) :
    Turns (p + offset) (zipWith (inverseAt (front ++ s)) rs (newLineRangesFrom offset rs)) t s := by
  induction rs generalizing p offset front s t with
  | nil => exact Eq.symm h
  | cons r rs ih =>
    obtain ⟨gap, old, s', t', hstart, hstop, rfl, rfl, hrest⟩ := h
    have hstart' : (r.lineRange.startLineNumber : Int) = p + gap.length := hstart
    have hstop' : (r.lineRange.endLineNumberExclusive : Int) =
        r.lineRange.startLineNumber + old.length := hstop
    have hlength : r.lineRange.length = old.length := by
      rw [LineRange.length]
      omega
    have hassoc : front ++ (gap ++ (old ++ s')) = front ++ (gap ++ old) ++ s' := by
      simp only [append_assoc]
    have hfront : stop r = ((front ++ (gap ++ old)).length : Int) + 1 := by
      simp only [length_append, Nat.cast_add]
      omega
    have hdelta : stop r + (offset + (r.newLines.length - r.lineRange.length)) =
        p + offset + gap.length + r.newLines.length := by
      rw [hlength]
      omega
    have hnext := @ih (stop r) (offset + (r.newLines.length - r.lineRange.length))
      (front ++ (gap ++ old)) s' t' hrest hfront (by omega)
    rw [← hassoc, hdelta] at hnext
    have hnewStart : ((r.lineRange.startLineNumber + offset).toNat : Int) =
        p + offset + gap.length := by
      rw [Int.toNat_of_nonneg (by omega)]
      omega
    refine ⟨gap, r.newLines, t', s', hnewStart, ?_, rfl, ?_, ?_⟩
    · show (((r.lineRange.startLineNumber + offset).toNat + r.newLines.length : Nat) : Int) =
        ((r.lineRange.startLineNumber + offset).toNat : Int) + r.newLines.length
      rw [Nat.cast_add]
    · have hdrop : (front ++ (gap ++ (old ++ s'))).drop (r.lineRange.startLineNumber - 1) =
          old ++ s' := by
        have hindex : r.lineRange.startLineNumber - 1 = (front ++ gap).length := by
          rw [length_append]
          omega
        rw [hindex, ← append_assoc, drop_left]
      show _ = gap ++ ((take _ _) ++ s')
      rw [hdrop, hlength, take_left]
    · show Turns (((r.lineRange.startLineNumber + offset).toNat + r.newLines.length : Nat) : Int)
        _ t' s'
      rw [Nat.cast_add, hnewStart]
      exact hnext

theorem InLines.inverse {e : LineEdit} (h : e.InLines lines) :
    ∃ inv, e.inverse lines = some inv ∧ inv.apply (e.apply lines) = lines := by
  have hturns := @inverse_turns 1 0 _ [] _ _ h.turns rfl (by decide)
  rw [nil_append, Int.add_zero] at hturns
  obtain ⟨inv, hinv, hreplacements⟩ := new_of_sorted hturns.sorted
  refine ⟨inv, hinv, ?_⟩
  rw [← hreplacements] at hturns
  have happly : applyFrom ([] ++ e.apply lines) 0 inv.replacements = lines :=
    applyFrom_eq hturns rfl
  exact happly

/-! ## The texts of replacements -/

theorem marks_of_offset {text front : JsString} {p : Position} (hp : IsPosition text p)
    (hfront : front <+: text) (hoffset : getOffset text p = front.length) : Marks text front p := by
  obtain ⟨front', hfront', hwalk, hlength⟩ := marks_of_isPosition hp
  have hsame : front' = front :=
    (prefix_of_prefix_length_le hfront' hfront (by omega)).eq_of_length (by omega)
  subst hsame
  exact ⟨hfront', hwalk, hlength⟩

theorem getStringReplacement_of_marks {text a b newText : JsString} {p q : Position}
    (hp : Marks text a p) (hq : Marks text b q) (hle : a.length ≤ b.length) :
    ∃ x, getStringReplacement text ⟨rangeOf p q, newText⟩ = some x ∧
      x.replaceRange.start = a.length ∧ x.replaceRange.endExclusive = b.length ∧
      x.newText = newText := by
  obtain ⟨mid, rfl⟩ := prefix_of_prefix_length_le hp.1 hq.1 hle
  obtain ⟨range, hrange, hstart, hend⟩ := getOffsetRange_of_marks hp hq
  refine ⟨⟨range, newText⟩, ?_, hstart, hend, rfl⟩
  rw [getStringReplacement, rangeOf_eq (isBeforeOrEqual_of_marks hp hq), hrange, Option.map_some]

section

variable {front old back : List JsString} {r : LineReplacement}

theorem marks_lineStart (h : ∀ x ∈ front ++ back, IsLine x) (hback : back ≠ []) :
    Marks (joinLines (front ++ back)) (closedLines front) ⟨front.length + 1, 1⟩ := by
  cases back with
  | nil => exact absurd rfl hback
  | cons line back =>
    refine marks_of_offset (isPosition_joinLines h (Nat.zero_le line.length)) ?_
      (getOffset_joinLines h (Nat.zero_le line.length))
    rw [joinLines_front front hback]
    exact prefix_append _ _

theorem marks_lineEnd (h : ∀ x ∈ front ++ back, IsLine x) (hfront : front ≠ []) :
    Marks (joinLines (front ++ back)) (joinLines front)
      ⟨front.length, getLineLength (joinLines (front ++ back)) front.length + 1⟩ := by
  have hprefix : joinLines front <+: joinLines (front ++ back) := by
    rw [joinLines_behind hfront]
    exact prefix_append _ _
  obtain ⟨first, line, rfl⟩ : ∃ first line, front = first ++ [line] :=
    ⟨front.dropLast, front.getLast hfront, (dropLast_append_getLast hfront).symm⟩
  have hlength : (first ++ [line]).length = first.length + 1 := length_append
  have hassoc : first ++ [line] ++ back = first ++ line :: back := by
    rw [append_assoc, singleton_append]
  rw [hassoc] at h hprefix ⊢
  rw [hlength, getLineLength_joinLines h]
  refine marks_of_offset (isPosition_joinLines h (Nat.le_refl _)) hprefix ?_
  rw [getOffset_joinLines h (Nat.le_refl _), joinLines_front first (cons_ne_nil line []),
    length_append, joinLines, openedLines_nil, append_nil]

theorem toSingleEdit_inner (h : ∀ x ∈ front ++ (old ++ back), IsLine x)
    (hstart : r.lineRange.startLineNumber = front.length + 1)
    (hend : r.lineRange.endLineNumberExclusive = r.lineRange.startLineNumber + old.length)
    (hflat : r.newLines = [] ∨ old = []) (hback : back ≠ []) :
    ∃ x, getStringReplacement (joinLines (front ++ (old ++ back)))
        (r.toSingleTextEdit (joinLines (front ++ (old ++ back)))) = some x ∧
      x.replaceRange.start = (closedLines front).length ∧
      x.replaceRange.endExclusive = (closedLines (front ++ old)).length ∧
      x.newText = closedLines r.newLines := by
  have hcount := lineCount_joinLines
    (append_ne_nil_of_right_ne_nil front (append_ne_nil_of_right_ne_nil old hback)) h
  have hpos : 0 < back.length := length_pos_of_ne_nil hback
  rw [length_append, length_append] at hcount
  have hmarks := marks_lineStart h (append_ne_nil_of_right_ne_nil old hback)
  rw [← append_assoc] at h
  have hmarks' := marks_lineStart h hback
  rw [append_assoc] at hmarks'
  have hedit : r.toSingleTextEdit (joinLines (front ++ (old ++ back))) =
      ⟨rangeOf ⟨front.length + 1, 1⟩ ⟨(front ++ old).length + 1, 1⟩, closedLines r.newLines⟩ := by
    have hlength : (front ++ old).length + 1 = r.lineRange.endLineNumberExclusive := by
      rw [length_append]
      omega
    rw [LineReplacement.toSingleTextEdit, hlength, ← hstart]
    by_cases hnil : r.newLines = []
    · rw [if_pos hnil, if_neg (by omega), hnil]
      rfl
    · obtain rfl := hflat.resolve_left hnil
      have hsame : r.lineRange.startLineNumber = r.lineRange.endLineNumberExclusive := hend.symm
      have hempty : r.lineRange.isEmpty = true := decide_eq_true hsame
      rw [if_neg hnil, if_pos hempty, if_neg (by omega), ← hsame]
  rw [hedit]
  refine getStringReplacement_of_marks hmarks hmarks' ?_
  rw [closedLines_append, length_append]
  exact Nat.le_add_right _ _

theorem toSingleEdit_atEnd (h : ∀ x ∈ front ++ old, IsLine x)
    (hstart : r.lineRange.startLineNumber = front.length + 1)
    (hend : r.lineRange.endLineNumberExclusive = r.lineRange.startLineNumber + old.length)
    (hflat : r.newLines = [] ∨ old = []) (hfront : front ≠ []) :
    ∃ x, getStringReplacement (joinLines (front ++ old))
        (r.toSingleTextEdit (joinLines (front ++ old))) = some x ∧
      x.replaceRange.start = (joinLines front).length ∧
      x.replaceRange.endExclusive = (joinLines (front ++ old)).length ∧
      x.newText = openedLines r.newLines := by
  have hcount := lineCount_joinLines (append_ne_nil_of_left_ne_nil hfront old) h
  have hpos : 0 < front.length := length_pos_of_ne_nil hfront
  rw [length_append] at hcount
  have hmarks := marks_lineEnd h hfront
  have hline : r.lineRange.startLineNumber - 1 = front.length := by omega
  have hle : (joinLines front).length ≤ (joinLines (front ++ old)).length := by
    rw [joinLines_behind hfront, length_append]
    exact Nat.le_add_right _ _
  rw [LineReplacement.toSingleTextEdit]
  by_cases hnil : r.newLines = []
  · rw [if_pos hnil, if_pos (by omega), if_pos (by omega), hline, hnil]
    exact getStringReplacement_of_marks hmarks (marks_end _) hle
  · obtain rfl := hflat.resolve_left hnil
    have hsame : r.lineRange.startLineNumber = r.lineRange.endLineNumberExclusive := hend.symm
    have hempty : r.lineRange.isEmpty = true := decide_eq_true hsame
    rw [if_neg hnil, if_pos hempty, if_pos (by omega), hline]
    have hsameText : (joinLines front).length = (joinLines (front ++ [])).length := by
      rw [append_nil]
    rw [← hsameText]
    exact getStringReplacement_of_marks hmarks hmarks (Nat.le_refl _)

theorem toSingleEdit_all (h : ∀ x ∈ old, IsLine x) (hold : old ≠ [])
    (hstart : r.lineRange.startLineNumber = 1)
    (hend : r.lineRange.endLineNumberExclusive = r.lineRange.startLineNumber + old.length)
    (hnil : r.newLines = []) :
    ∃ x, getStringReplacement (joinLines old) (r.toSingleTextEdit (joinLines old)) = some x ∧
      x.replaceRange.start = 0 ∧ x.replaceRange.endExclusive = (joinLines old).length ∧
      x.newText = [] := by
  have hcount := lineCount_joinLines hold h
  rw [LineReplacement.toSingleTextEdit, if_pos hnil, if_pos (by omega), if_neg (by omega)]
  exact getStringReplacement_of_marks (marks_nil _) (marks_end _) (Nat.zero_le _)

theorem toSingleEdit_lines (h : ∀ x ∈ front ++ (old ++ back), IsLine x)
    (hstart : r.lineRange.startLineNumber = front.length + 1)
    (hend : r.lineRange.endLineNumberExclusive = r.lineRange.startLineNumber + old.length)
    (hnil : r.newLines ≠ []) (hold : old ≠ []) :
    ∃ x, getStringReplacement (joinLines (front ++ (old ++ back)))
        (r.toSingleTextEdit (joinLines (front ++ (old ++ back)))) = some x ∧
      x.replaceRange.start = (closedLines front).length ∧
      x.replaceRange.endExclusive = (joinLines (front ++ old)).length ∧
      x.newText = joinLines r.newLines := by
  have hmarks := marks_lineStart h (append_ne_nil_of_left_ne_nil hold back)
  rw [← append_assoc] at h
  have hmarks' := marks_lineEnd h (append_ne_nil_of_right_ne_nil front hold)
  rw [append_assoc] at hmarks'
  have hpos : 0 < old.length := length_pos_of_ne_nil hold
  have hempty : ¬r.lineRange.isEmpty = true := by
    rw [LineRange.isEmpty, decide_eq_true_eq]
    omega
  have hline : r.lineRange.endLineNumberExclusive - 1 = (front ++ old).length := by
    rw [length_append]
    omega
  rw [LineReplacement.toSingleTextEdit, if_neg hnil, if_neg hempty, hline, hstart]
  refine getStringReplacement_of_marks hmarks hmarks' ?_
  rw [joinLines_front front hold, length_append]
  exact Nat.le_add_right _ _

end

end LineEdit

end Fumie.Editor
