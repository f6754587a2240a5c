import Fumie.Editor.Core.PositionOffsetTransformer
import Fumie.Editor.Edits.Composition

/-!
# Text edits

A text edit replaces ranges of lines and columns. Its constructor only reports replacements
that are not sorted; `rangeFromPositions` throws for positions in the wrong order, which is
`none` here. A valid edit lays the text out in gaps and replaced parts, each of which is
found again from the positions at its ends.
-/

namespace Fumie.Editor

open Fumie.Lib Fumie.Base PositionOffsetTransformer List Position Option

structure TextReplacement where
  range : Range
  text : JsString
  deriving DecidableEq, Repr

variable (r : TextReplacement) (e : TextEdit) (text : JsString)

namespace TextReplacement

def start : Position := r.range.getStartPosition

def stop : Position := r.range.getEndPosition

def isEmpty : Bool := r.range.isEmpty && r.text.isEmpty

end TextReplacement

/-- The column `Number.MAX_SAFE_INTEGER`, which no position of a text has, is left out. -/
def rangeFromPositions (start stop : Position) : Option Range :=
  if start.isBeforeOrEqual stop then
    some (Range.new start.lineNumber start.column stop.lineNumber stop.column)
  else none

/-! ## Texts -/

def getValueOfRange (range : Range) : Option JsString :=
  (getOffsetRange text range).map fun r => substring text r.start r.endExclusive

def keptText (start stop : Position) : Option JsString :=
  (rangeFromPositions start stop).bind fun r =>
    if r.isEmpty then some [] else getValueOfRange text r

structure TextEdit where
  replacements : List TextReplacement
  deriving DecidableEq, Repr

variable {whole front s mid t : JsString} {p q lastEditEnd : Position} {rs : List TextReplacement}

namespace TextEdit

def applyFrom (text : JsString) (lastEditEnd : Position) : List TextReplacement → Option JsString
  | [] => keptText text lastEditEnd (endPositionExclusive text)
  | r :: rs =>
    (keptText text lastEditEnd r.start).bind fun kept =>
      (applyFrom text r.stop rs).map fun rest => kept ++ (r.text ++ rest)

def applyToString : Option JsString :=
  applyFrom text ⟨1, 1⟩ e.replacements

def getStringReplacement (r : TextReplacement) : Option StringReplacement :=
  (getOffsetRange text r.range).map fun range => ⟨range, r.text⟩

def getStringReplacements (text : JsString) : List TextReplacement → Option (List StringReplacement)
  | [] => some []
  | r :: rs =>
    (getStringReplacement text r).bind fun replacement =>
      (getStringReplacements text rs).map (replacement :: ·)

def getStringEdit (e : TextEdit) : Option StringEdit :=
  (getStringReplacements text e.replacements).bind StringEdit.new

/-! ## Valid edits -/

def ValidFrom (text : JsString) (lastEditEnd : Position) : List TextReplacement → Prop
  | [] => True
  | r :: rs => IsPosition text r.start ∧ IsPosition text r.stop ∧
      lastEditEnd.isBeforeOrEqual r.start = true ∧ r.start.isBeforeOrEqual r.stop = true ∧
      ValidFrom text r.stop rs

def ValidOn : Prop := ValidFrom text ⟨1, 1⟩ e.replacements

instance decidableValidFrom (text : JsString) (lastEditEnd : Position) :
    (rs : List TextReplacement) → Decidable (ValidFrom text lastEditEnd rs)
  | [] => isTrue trivial
  | r :: rs =>
    have := decidableValidFrom text r.stop rs
    inferInstanceAs (Decidable (_ ∧ _))

instance (e : TextEdit) (text : JsString) : Decidable (e.ValidOn text) :=
  decidableValidFrom text ⟨1, 1⟩ e.replacements

def TurnsAt (whole front : JsString) : List TextReplacement → JsString → JsString → Prop
  | [], s, t => t = s
  | r :: rs, s, t => ∃ gap old s' t', s = gap ++ (old ++ s') ∧ t = gap ++ (r.text ++ t') ∧
      Marks whole (front ++ gap) r.start ∧ Marks whole (front ++ (gap ++ old)) r.stop ∧
      TurnsAt whole (front ++ (gap ++ old)) rs s' t'

theorem prefix_of_marks {a b : JsString} (ha : Marks whole a p) (hb : Marks whole b q)
    (h : p.isBeforeOrEqual q = true) : a <+: b := by
  obtain ⟨hawhole, rfl, -⟩ := ha
  obtain ⟨hbwhole, rfl, -⟩ := hb
  rw [isBeforeOrEqual_iff_not, walk_isBefore hbwhole hawhole] at h
  exact prefix_of_prefix_length_le hawhole hbwhole (Nat.not_lt.mp h)

theorem turnsAt_of_validFrom (hwhole : front ++ s = whole)
    (hfront : Marks whole front lastEditEnd) (h : ValidFrom whole lastEditEnd rs) :
    ∃ t, TurnsAt whole front rs s t := by
  induction rs generalizing front s lastEditEnd with
  | nil => exact ⟨s, rfl⟩
  | cons r rs ih =>
    obtain ⟨hstart, hstop, hbefore, hrange, hrest⟩ := h
    obtain ⟨a, ha⟩ := marks_of_isPosition hstart
    obtain ⟨b, hb⟩ := marks_of_isPosition hstop
    obtain ⟨gap, rfl⟩ := prefix_of_marks hfront ha hbefore
    obtain ⟨old, rfl⟩ := prefix_of_marks ha hb hrange
    obtain ⟨s', hs'⟩ := hb.1
    rw [← hs', append_assoc, append_assoc] at hwhole
    obtain rfl := append_cancel_left hwhole
    have hassoc : front ++ gap ++ old = front ++ (gap ++ old) := append_assoc ..
    rw [hassoc] at hb hs'
    obtain ⟨t', ht'⟩ := ih hs' hb hrest
    exact ⟨_, gap, old, s', t', rfl, rfl, ha, hb, ht'⟩

/-! ## Applying -/

theorem substring_of_marks (hp : Marks whole front p) (hq : Marks whole (front ++ mid) q) :
    substring whole (getOffset whole p) (getOffset whole q) = mid := by
  obtain ⟨back, rfl⟩ := hq.1
  rw [hp.2.2, hq.2.2]
  rw [append_assoc]
  exact substring_mid rfl (by rw [length_append, Nat.cast_add])

theorem isBeforeOrEqual_of_marks (hp : Marks whole front p) (hq : Marks whole (front ++ mid) q) :
    p.isBeforeOrEqual q = true := by
  obtain ⟨-, rfl, -⟩ := hp
  obtain ⟨-, rfl, -⟩ := hq
  rw [walk_append]
  exact walk_isBeforeOrEqual _ mid

theorem getOffsetRange_of_marks (hp : Marks whole front p) (hq : Marks whole (front ++ mid) q) :
    ∃ range, getOffsetRange whole (Range.between p q) = some range ∧
      range.start = front.length ∧ range.endExclusive = (front ++ mid).length := by
  have hle : (getOffset whole p : Int) ≤ getOffset whole q := by
    rw [hp.2.2, hq.2.2, length_append]
    omega
  refine ⟨⟨_, _, hle⟩, dif_pos hle, ?_, ?_⟩
  · exact congrArg Nat.cast hp.2.2
  · exact congrArg Nat.cast hq.2.2

theorem getValueOfRange_of_marks (hp : Marks whole front p) (hq : Marks whole (front ++ mid) q) :
    getValueOfRange whole (Range.between p q) = some mid := by
  obtain ⟨range, hrange, hstart, hend⟩ := getOffsetRange_of_marks hp hq
  rw [getValueOfRange, hrange, map_some, hstart, hend, ← hp.2.2, ← hq.2.2, substring_of_marks hp hq]

theorem rangeFromPositions_eq (h : p.isBeforeOrEqual q = true) :
    rangeFromPositions p q = some (Range.between p q) := by
  rw [rangeFromPositions, if_pos h, Range.new]
  rw [isBeforeOrEqual_iff] at h
  rw [if_neg (by omega)]
  rfl

theorem keptText_of_marks (hp : Marks whole front p) (hq : Marks whole (front ++ mid) q) :
    keptText whole p q = some mid := by
  rw [keptText, rangeFromPositions_eq (isBeforeOrEqual_of_marks hp hq), bind_some]
  split_ifs with hempty
  · rw [Range.isEmpty, Bool.and_eq_true, decide_eq_true_eq, decide_eq_true_eq] at hempty
    have heq : p = q := by
      obtain ⟨pLine, pColumn⟩ := p
      obtain ⟨qLine, qColumn⟩ := q
      rw [Position.mk.injEq]
      exact hempty
    subst heq
    have hlength := hp.2.2.symm.trans hq.2.2
    rw [length_append] at hlength
    rw [eq_nil_of_length_eq_zero (by omega : mid.length = 0)]
  · exact getValueOfRange_of_marks hp hq

theorem applyFrom_of_turnsAt (hwhole : front ++ s = whole)
    (hend : Marks whole whole (endPositionExclusive whole))
    (hfront : Marks whole front lastEditEnd) (h : TurnsAt whole front rs s t) :
    applyFrom whole lastEditEnd rs = some t := by
  induction rs generalizing front s t lastEditEnd with
  | nil =>
    obtain rfl : t = s := h
    have hend' : Marks whole (front ++ t) (endPositionExclusive whole) := by
      rw [hwhole]
      exact hend
    exact keptText_of_marks hfront hend'
  | cons r rs ih =>
    obtain ⟨gap, old, s', t', rfl, rfl, hstart, hstop, hrest⟩ := h
    have hwhole' : front ++ (gap ++ old) ++ s' = whole := by
      rw [append_assoc, append_assoc]
      exact hwhole
    rw [applyFrom, keptText_of_marks hfront hstart, bind_some, ih hwhole' hstop hrest, map_some]

theorem ValidOn.turnsAt {e : TextEdit} (h : e.ValidOn s) :
    ∃ t, TurnsAt s [] e.replacements s t ∧ e.applyToString s = some t := by
  obtain ⟨t, ht⟩ := turnsAt_of_validFrom (nil_append s) (marks_nil s) h
  exact ⟨t, ht, applyFrom_of_turnsAt (nil_append s) (marks_end s) (marks_nil s) ht⟩

/-! ## The string edit of a text edit -/

open Rewrite in
theorem getStringReplacements_of_turnsAt (h : TurnsAt whole front rs s t) :
    ∃ replacements, getStringReplacements whole rs = some replacements ∧
      Turns (front.length : Int) replacements s t := by
  induction rs generalizing front s t with
  | nil => exact ⟨[], rfl, h⟩
  | cons r rs ih =>
    obtain ⟨gap, old, s', t', rfl, rfl, hstart, hstop, hrest⟩ := h
    obtain ⟨replacements, hreplacements, hturns⟩ := ih hrest
    have hassoc : front ++ gap ++ old = front ++ (gap ++ old) := append_assoc ..
    rw [← hassoc] at hstop
    obtain ⟨range, hrange, hrangeStart, hrangeEnd⟩ := getOffsetRange_of_marks hstart hstop
    have hr : getOffsetRange whole r.range = some range := hrange
    refine ⟨⟨range, r.text⟩ :: replacements, ?_, gap, old, s', t', ?_, ?_, rfl, rfl, ?_⟩
    · rw [getStringReplacements, getStringReplacement, hr, map_some, bind_some,
        hreplacements, map_some]
    · show range.start = _
      rw [hrangeStart, length_append, Nat.cast_add]
    · show range.endExclusive = range.start + _
      rw [hrangeStart, hrangeEnd, @length_append _ (front ++ gap), Nat.cast_add]
    · show Turns range.endExclusive replacements s' t'
      rw [hrangeEnd, hassoc]
      exact hturns

open Rewrite in
theorem getStringEdit_of_turnsAt {e : TextEdit} (h : TurnsAt s [] e.replacements s t) :
    ∃ edit, getStringEdit s e = some edit ∧ Turns (0 : Int) edit.replacements s t := by
  obtain ⟨replacements, hreplacements, hturns⟩ := getStringReplacements_of_turnsAt h
  obtain ⟨edit, hedit, heq⟩ := StringEdit.new_of_sorted hturns.sorted
  refine ⟨edit, ?_, ?_⟩
  · rw [getStringEdit, hreplacements, bind_some, hedit]
  · rw [heq]
    exact hturns

end TextEdit

end Fumie.Editor
