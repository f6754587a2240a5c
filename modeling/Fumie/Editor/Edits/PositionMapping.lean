import Fumie.Editor.Edits.TextEdit

/-!
# Mapping positions through text edits

`mapPosition` carries a line and a column delta over the replacements in front of a position.
The line delta is always right. The column delta can be wrong behind a replacement on the
position's line: a range over several lines whose text stays on one line loses the columns in
front of the range, a text with a line feed counts its column from the start of the line
instead of from the end of the range, and a surrogate pair counts as one column. `columnError`
adds up by how much.
-/

namespace Fumie.Editor

open Fumie.Lib Fumie.Base PositionOffsetTransformer List TextLength Option Range

structure MappedPosition where
  lineNumber : Int
  column : Int
  deriving DecidableEq, Repr

namespace MappedPosition

def ofPosition (p : Position) : MappedPosition := ⟨p.lineNumber, p.column⟩

def isBeforeOrEqual (a b : MappedPosition) : Bool :=
  if a.lineNumber < b.lineNumber then true
  else if b.lineNumber < a.lineNumber then false
  else a.column ≤ b.column

end MappedPosition

def TextLength.addToMapped (len : TextLength) (p : MappedPosition) : MappedPosition :=
  if len.lineCount = 0 then ⟨p.lineNumber, p.column + len.columnCount⟩
  else ⟨p.lineNumber + len.lineCount, len.columnCount + 1⟩

inductive MapResult where
  | position (p : MappedPosition)
  | range (start stop : MappedPosition)
  deriving DecidableEq, Repr

namespace MapResult

def getStart : MapResult → MappedPosition
  | position p => p
  | range start _ => start

def getEnd : MapResult → MappedPosition
  | position p => p
  | range _ stop => stop

end MapResult

structure MapState where
  lineDelta : Int
  curLine : Int
  columnDeltaInCurLine : Int

namespace MapState

variable (st : MapState)

def map (p : Position) : MappedPosition :=
  ⟨p.lineNumber + st.lineDelta,
    p.column + if p.lineNumber + st.lineDelta = st.curLine then st.columnDeltaInCurLine else 0⟩

variable (r : TextReplacement)

def nextLineDelta : Int :=
  st.lineDelta + ((TextLength.ofText r.text).lineCount -
    ((r.stop.lineNumber : Int) - r.start.lineNumber))

def nextColumnDelta : Int :=
  if (TextLength.ofText r.text).lineCount = 0 then
    (if r.start.lineNumber + st.lineDelta = st.curLine then st.columnDeltaInCurLine else 0) +
      if r.stop.lineNumber ≠ r.start.lineNumber then
        (TextLength.ofText r.text).columnCount - ((r.stop.column : Int) - 1)
      else (TextLength.ofText r.text).columnCount - ((r.stop.column : Int) - r.start.column)
  else (TextLength.ofText r.text).columnCount

def next : MapState :=
  ⟨st.nextLineDelta r, r.stop.lineNumber + st.nextLineDelta r, st.nextColumnDelta r⟩

end MapState

variable (e : TextEdit) (text : JsString)

namespace TextEdit

def mapLoop (position : Position) (st : MapState) : List TextReplacement → MapResult
  | [] => .position (st.map position)
  | r :: rs =>
    if position.isBeforeOrEqual r.start then .position (st.map position)
    else if position.isBefore r.stop then
      .range (st.map r.start) ((TextLength.ofText r.text).addToMapped (st.map r.start))
    else mapLoop position (st.next r) rs

def mapPosition (position : Position) : MapResult :=
  mapLoop position ⟨0, 0, 0⟩ e.replacements

def mapRange (range : Range) : Option (MappedPosition × MappedPosition) :=
  if (e.mapPosition range.getStartPosition).getStart.isBeforeOrEqual
      (e.mapPosition range.getEndPosition).getEnd then
    some ((e.mapPosition range.getStartPosition).getStart,
      (e.mapPosition range.getEndPosition).getEnd)
  else none

end TextEdit

namespace StringEdit

def applyToOffsetFrom (originalOffset accumulatedDelta : Int) : List StringReplacement → Int
  | [] => originalOffset + accumulatedDelta
  | r :: rs =>
    if r.replaceRange.start ≤ originalOffset then
      if originalOffset < r.replaceRange.endExclusive then
        r.replaceRange.start + accumulatedDelta
      else
        applyToOffsetFrom originalOffset
          (accumulatedDelta + (r.getNewLength - r.replaceRange.length)) rs
    else originalOffset + accumulatedDelta

def applyToOffset (e : StringEdit) (originalOffset : Int) : Int :=
  applyToOffsetFrom originalOffset 0 e.replacements

end StringEdit

/-! ## What goes wrong -/

def errorBehind (r : TextReplacement) (error : Int) : Int :=
  (TextLength.ofText r.text).columnCount - (TextLength.ofUnits r.text).columnCount +
    if (TextLength.ofText r.text).lineCount = 0 then
      error - if r.stop.lineNumber ≠ r.start.lineNumber then (r.start.column : Int) - 1 else 0
    else (r.stop.column : Int) - 1

def columnError (endLine : Nat) (error : Int) (position : Position) : List TextReplacement → Int
  | [] => if position.lineNumber = endLine then error else 0
  | r :: rs =>
    if position.isBeforeOrEqual r.start then
      if position.lineNumber = endLine then error else 0
    else
      columnError r.stop.lineNumber
        (errorBehind r (if r.start.lineNumber = endLine then error else 0)) position rs

namespace TextLength

theorem scanText_lineCount (line column column' : Nat) (text : JsString) :
    (scanText line column text).lineCount = (scanUnits line column' text).lineCount := by
  induction text using twoStepInduction generalizing line column column' with
  | nil => rfl
  | singleton u =>
    rw [scanText, scanUnits]
    split_ifs
    · rfl
    · rfl
  | cons_cons u v rest ih ih' =>
    rw [scanText, scanUnits]
    by_cases hpair : (isHighSurrogate u && isLowSurrogate v) = true
    · rw [if_pos hpair]
      rw [Bool.and_eq_true] at hpair
      have hu : ¬u = lineFeed := fun h => by
        subst h
        exact absurd hpair.1 (by decide)
      have hv : ¬v = lineFeed := fun h => by
        subst h
        exact absurd hpair.2 (by decide)
      rw [if_neg hu, scanUnits, if_neg hv]
      exact ih _ _ _
    · rw [if_neg hpair]
      split_ifs
      · exact ih' v _ _ _
      · exact ih' v _ _ _

theorem ofText_lineCount :
    (ofText text).lineCount = (ofUnits text).lineCount := scanText_lineCount 0 0 0 text

end TextLength

/-! ## Following the positions -/

structure Follows (st : MapState) (p q : Position) (endLine : Nat) (error : Int) : Prop where
  line : st.lineDelta = (q.lineNumber : Int) - p.lineNumber
  cur : st.curLine = endLine + st.lineDelta
  column : st.columnDeltaInCurLine = (q.column : Int) - p.column + error
  same : endLine = p.lineNumber ∨ endLine < p.lineNumber ∧ q.column = p.column ∧ error = 0

variable {error : Int}

variable {p q : Position} {edit : StringEdit} {rs : List TextReplacement}

theorem Follows.map {st : MapState} {endLine : Nat} (h : Follows st p q endLine error)
    (x : JsString) :
    st.map (p.walk x) = ⟨(q.walk x).lineNumber,
      (q.walk x).column + if (p.walk x).lineNumber = endLine then error else 0⟩ := by
  obtain ⟨hline, hcur, hcolumn, hsame⟩ := h
  rw [MapState.map, ← ofUnits_addToPosition, ← ofUnits_addToPosition,
    addToPosition, addToPosition, MappedPosition.mk.injEq]
  by_cases hzero : (TextLength.ofUnits x).lineCount = 0
  · rw [if_pos hzero, if_pos hzero]
    refine ⟨?_, ?_⟩
    · show (p.lineNumber : Int) + st.lineDelta = q.lineNumber
      omega
    · show ((p.column + (TextLength.ofUnits x).columnCount : Nat) : Int) +
          (if (p.lineNumber : Int) + st.lineDelta = st.curLine then st.columnDeltaInCurLine
            else 0) =
        ((q.column + (TextLength.ofUnits x).columnCount : Nat) : Int) +
          if p.lineNumber = endLine then error else 0
      split_ifs
      · omega
      · omega
      · omega
      · omega
  · rw [if_neg hzero, if_neg hzero]
    refine ⟨?_, ?_⟩
    · show ((p.lineNumber + (TextLength.ofUnits x).lineCount : Nat) : Int) + st.lineDelta =
        ((q.lineNumber + (TextLength.ofUnits x).lineCount : Nat) : Int)
      omega
    · show (((TextLength.ofUnits x).columnCount + 1 : Nat) : Int) +
          (if ((p.lineNumber + (TextLength.ofUnits x).lineCount : Nat) : Int) + st.lineDelta =
            st.curLine then st.columnDeltaInCurLine else 0) =
        (((TextLength.ofUnits x).columnCount + 1 : Nat) : Int) +
          if p.lineNumber + (TextLength.ofUnits x).lineCount = endLine then error else 0
      split_ifs
      · omega
      · omega
      · omega
      · omega

theorem Follows.next {st : MapState} {endLine : Nat} (h : Follows st p q endLine error)
    {r : TextReplacement} {gap : JsString} (hstart : r.start = p.walk gap) :
    Follows (st.next r) r.stop ((q.walk gap).walk r.text) r.stop.lineNumber
      (errorBehind r (if r.start.lineNumber = endLine then error else 0)) := by
  have hmap := h.map gap
  obtain ⟨hline, hcur, hcolumn, hsame⟩ := h
  rw [MapState.map, ← hstart, MappedPosition.mk.injEq] at hmap
  obtain ⟨hmapLine, hmapColumn⟩ := hmap
  have htext := ofUnits_addToPosition (q.walk gap) r.text
  rw [addToPosition] at htext
  have hlines := TextLength.ofText_lineCount r.text
  refine ⟨?_, rfl, ?_, .inl rfl⟩
  · show st.nextLineDelta r = _
    rw [MapState.nextLineDelta, ← htext]
    split_ifs with hzero
    · show _ = ((q.walk gap).lineNumber : Int) - r.stop.lineNumber
      omega
    · show _ = (((q.walk gap).lineNumber + (TextLength.ofUnits r.text).lineCount : Nat) : Int) -
        r.stop.lineNumber
      omega
  · show st.nextColumnDelta r = _
    rw [MapState.nextColumnDelta, errorBehind, ← htext, hlines]
    by_cases hzero : (TextLength.ofUnits r.text).lineCount = 0
    · rw [if_pos hzero, if_pos hzero, if_pos hzero]
      show _ = (((q.walk gap).column + (TextLength.ofUnits r.text).columnCount : Nat) : Int) -
        r.stop.column + _
      split_ifs at hmapColumn ⊢
      all_goals omega
    · rw [if_neg hzero, if_neg hzero, if_neg hzero]
      show _ = (((TextLength.ofUnits r.text).columnCount + 1 : Nat) : Int) - r.stop.column + _
      omega

namespace TextEdit

def Kept (rs : List TextReplacement) (p : Position) : Prop :=
  ∀ r ∈ rs, p.isBefore r.start = true ∨ r.stop.isBeforeOrEqual p = true ∧ r.start ≠ p

instance (rs : List TextReplacement) (p : Position) : Decidable (Kept rs p) :=
  inferInstanceAs (Decidable (∀ r ∈ rs, _))

def Clear (rs : List TextReplacement) (p q : Position) : Prop :=
  ∀ r ∈ rs, r.stop.isBeforeOrEqual p = true ∨ q.isBefore r.start = true

section

variable {whole front gap old rest x : JsString} {r : TextReplacement}

theorem front_of_isBefore (hstart : Marks whole (front ++ gap) r.start)
    (hx : x <+: gap ++ (old ++ rest)) (hxwhole : front ++ x <+: whole)
    (hbefore : (Position.walk ⟨1, 1⟩ (front ++ x)).isBefore r.start = true) :
    x <+: gap ∧ x.length < gap.length ∧
      (Position.walk ⟨1, 1⟩ (front ++ x)).isBeforeOrEqual r.start = true := by
  rw [hstart.2.1, Position.walk_isBefore hxwhole hstart.1, length_append, length_append] at hbefore
  refine ⟨prefix_of_prefix_length_le hx (prefix_append gap _) (by omega), by omega, ?_⟩
  rw [Position.isBeforeOrEqual_iff_not, hstart.2.1, Position.walk_isBefore hstart.1 hxwhole,
    length_append, length_append]
  omega

theorem behind_of_isBeforeOrEqual (hstart : Marks whole (front ++ gap) r.start)
    (hstop : Marks whole (front ++ (gap ++ old)) r.stop) (hx : x <+: gap ++ (old ++ rest))
    (hxwhole : front ++ x <+: whole)
    (hbehind : r.stop.isBeforeOrEqual (Position.walk ⟨1, 1⟩ (front ++ x)) = true)
    (hne : r.start ≠ Position.walk ⟨1, 1⟩ (front ++ x)) :
    ∃ x', x = gap ++ old ++ x' ∧ x' <+: rest ∧
      ¬(Position.walk ⟨1, 1⟩ (front ++ x)).isBefore r.stop = true ∧
      ¬(Position.walk ⟨1, 1⟩ (front ++ x)).isBeforeOrEqual r.start = true := by
  have hge := hbehind
  rw [Position.isBeforeOrEqual_iff_not, hstop.2.1, Position.walk_isBefore hxwhole hstop.1,
    length_append, length_append, length_append] at hge
  obtain ⟨x', rfl⟩ : gap ++ old <+: x := by
    refine prefix_of_prefix_length_le ?_ hx ?_
    · rw [← append_assoc]
      exact prefix_append _ _
    · rw [length_append]
      omega
  refine ⟨x', rfl, ?_, Position.isBeforeOrEqual_iff_not.mp hbehind, ?_⟩
  · rw [← append_assoc] at hx
    exact (prefix_append_right_inj _).mp hx
  · rw [Position.isBeforeOrEqual_iff_not, not_not, hstart.2.1,
      Position.walk_isBefore hstart.1 hxwhole]
    by_contra hnot
    simp only [length_append] at hnot
    have hempty : old ++ x' = [] := eq_nil_of_length_eq_zero (by
      rw [length_append]
      omega)
    refine hne ?_
    rw [hstart.2.1, append_assoc gap, hempty, append_nil]

end

theorem mapLoop_spec {whole front s t x : JsString} {rs : List TextReplacement}
    {replacements : List StringReplacement} {st : MapState} {q : Position} {endLine : Nat}
    {error acc : Int} (h : TurnsAt whole front rs s t) (hwhole : front ++ s = whole)
    (hx : x <+: s) (hreplacements : getStringReplacements whole rs = some replacements)
    (hkept : Kept rs (Position.walk ⟨1, 1⟩ (front ++ x)))
    (hst : Follows st (Position.walk ⟨1, 1⟩ front) q endLine error) :
    ∃ y, y <+: t ∧ StringEdit.applyToOffsetFrom (front.length + x.length) acc replacements =
        front.length + acc + y.length ∧
      mapLoop (Position.walk ⟨1, 1⟩ (front ++ x)) st rs =
        .position ⟨(q.walk y).lineNumber, (q.walk y).column +
          columnError endLine error (Position.walk ⟨1, 1⟩ (front ++ x)) rs⟩ ∧
      ∀ mid, x ++ mid <+: s →
        Clear rs (Position.walk ⟨1, 1⟩ (front ++ x)) (Position.walk ⟨1, 1⟩ (front ++ (x ++ mid))) →
          y ++ mid <+: t := by
  induction rs generalizing front s t x replacements st q endLine error acc with
  | nil =>
    obtain rfl : t = s := h
    cases hreplacements
    refine ⟨x, hx, ?_, ?_, fun mid hmid _ => hmid⟩
    · rw [StringEdit.applyToOffsetFrom]
      omega
    · rw [mapLoop, Position.walk_append, hst.map, columnError]
  | cons r rs ih =>
    obtain ⟨gap, old, s', t', rfl, rfl, hstart, hstop, hrest⟩ := h
    have hassoc : front ++ gap ++ old = front ++ (gap ++ old) := append_assoc ..
    have hstop' := hstop
    rw [← hassoc] at hstop'
    obtain ⟨range, hrange, hrangeStart, hrangeEnd⟩ := getOffsetRange_of_marks hstart hstop'
    have hr : getOffsetRange whole r.range = some range := hrange
    rw [getStringReplacements, getStringReplacement, hr, map_some, bind_some]
      at hreplacements
    obtain ⟨rest, hrestReplacements, rfl⟩ := map_eq_some_iff.mp hreplacements
    have hxwhole : front ++ x <+: whole := by
      rw [← hwhole]
      exact (prefix_append_right_inj front).mpr hx
    simp only [length_append] at hrangeStart hrangeEnd
    rcases hkept r mem_cons_self with hbefore | ⟨hbehind, hne⟩
    · -- the position lies in the gap in front of the replacement
      obtain ⟨hxgap, hlt, hle⟩ := front_of_isBefore hstart hx hxwhole hbefore
      refine ⟨x, hxgap.trans (prefix_append gap _), ?_, ?_, fun mid hmid hclear => ?_⟩
      · rw [StringEdit.applyToOffsetFrom, if_neg]
        · omega
        · show ¬range.start ≤ _
          omega
      · rw [mapLoop, if_pos hle, columnError, if_pos hle, Position.walk_append, hst.map]
      · refine List.IsPrefix.trans ?_ (prefix_append gap _)
        refine prefix_of_prefix_length_le hmid (prefix_append gap _) ?_
        rcases hclear r mem_cons_self with hbehind | hahead
        · rw [Position.isBeforeOrEqual_iff_not, hstop.2.1, Position.walk_isBefore hxwhole hstop.1]
            at hbehind
          simp only [length_append] at hbehind
          omega
        · have hmidWhole : front ++ (x ++ mid) <+: whole := by
            rw [← hwhole]
            exact (prefix_append_right_inj front).mpr hmid
          rw [hstart.2.1, Position.walk_isBefore hmidWhole hstart.1] at hahead
          simp only [length_append] at hahead ⊢
          omega
    · -- the position lies behind the replacement
      obtain ⟨x', rfl, hx', hnotStop, hnotStart⟩ :=
        behind_of_isBeforeOrEqual hstart hstop hx hxwhole hbehind hne
      have hposition : front ++ (gap ++ old ++ x') = front ++ (gap ++ old) ++ x' :=
        (append_assoc ..).symm
      have hwalk : r.start = (Position.walk ⟨1, 1⟩ front).walk gap := by
        rw [hstart.2.1, Position.walk_append]
      have hfollows := hst.next hwalk
      rw [hstop.2.1] at hfollows
      rw [hposition] at hkept hnotStop hnotStart ⊢
      have hwhole' : front ++ (gap ++ old) ++ s' = whole := by
        rw [← hwhole]
        simp only [append_assoc]
      obtain ⟨y, hy, hoffset, hmapped, hcopied⟩ :=
        @ih _ _ _ _ _ _ _ _ _ (acc + ((r.text.length : Int) - range.length)) hrest hwhole' hx'
          hrestReplacements (fun r' hr' => hkept r' (mem_cons_of_mem _ hr')) hfollows
      have hrangeLength : range.length = old.length := by
        rw [OffsetRange.length, hrangeStart, hrangeEnd]
        omega
      refine ⟨gap ++ (r.text ++ y), ?_, ?_, ?_, ?_⟩
      · exact (prefix_append_right_inj gap).mpr ((prefix_append_right_inj _).mpr hy)
      · rw [hrangeLength] at hoffset
        have hstartLe : range.start ≤ (front.length : Int) + (gap ++ old ++ x').length := by
          rw [hrangeStart]
          simp only [length_append]
          omega
        have hend : ¬(front.length : Int) + (gap ++ old ++ x').length < range.endExclusive := by
          rw [hrangeEnd]
          simp only [length_append]
          omega
        rw [StringEdit.applyToOffsetFrom, if_pos hstartLe, if_neg hend]
        show StringEdit.applyToOffsetFrom _ (acc + ((r.text.length : Int) - range.length)) rest = _
        rw [hrangeLength]
        simp only [length_append, Nat.cast_add] at hoffset ⊢
        have hsum : (front.length : Int) + (gap.length + old.length + x'.length) =
            front.length + (gap.length + old.length) + x'.length := by omega
        rw [hsum, hoffset]
        omega
      · have hwalk : q.walk (gap ++ (r.text ++ y)) = ((q.walk gap).walk r.text).walk y := by
          rw [Position.walk_append, Position.walk_append]
        rw [mapLoop, if_neg hnotStart, if_neg hnotStop, hmapped, columnError, if_neg hnotStart,
          hwalk, hstop.2.1]
      · intro mid hmid hclear
        have hmid' : x' ++ mid <+: s' := by
          rw [append_assoc (gap ++ old), ← append_assoc gap old s'] at hmid
          exact (prefix_append_right_inj _).mp hmid
        have hpositionMid : front ++ (gap ++ old ++ x' ++ mid) =
            front ++ (gap ++ old) ++ (x' ++ mid) := by
          simp only [append_assoc]
        rw [hpositionMid] at hclear
        have htext := hcopied mid hmid' fun r' hr' => hclear r' (mem_cons_of_mem _ hr')
        rw [append_assoc, append_assoc]
        exact (prefix_append_right_inj gap).mpr ((prefix_append_right_inj _).mpr htext)

theorem applyToOffsetFrom_shift {whole a mid : JsString} {lastEditEnd : Position}
    {rs : List TextReplacement} {replacements : List StringReplacement} {acc : Int}
    (hvalid : ValidFrom whole lastEditEnd rs) (hmid : a ++ mid <+: whole)
    (hreplacements : getStringReplacements whole rs = some replacements)
    (hclear : Clear rs (Position.walk ⟨1, 1⟩ a) (Position.walk ⟨1, 1⟩ (a ++ mid))) :
    StringEdit.applyToOffsetFrom (a ++ mid).length acc replacements =
      StringEdit.applyToOffsetFrom a.length acc replacements + mid.length := by
  have ha : a <+: whole := (prefix_append a mid).trans hmid
  induction rs generalizing replacements acc lastEditEnd with
  | nil =>
    cases hreplacements
    rw [StringEdit.applyToOffsetFrom, StringEdit.applyToOffsetFrom, length_append]
    omega
  | cons r rs ih =>
    obtain ⟨hstart, hstop, -, hrange, hrest⟩ := hvalid
    obtain ⟨front, hfront⟩ := marks_of_isPosition hstart
    obtain ⟨back, hback⟩ := marks_of_isPosition hstop
    obtain ⟨old, rfl⟩ := prefix_of_marks hfront hback hrange
    obtain ⟨range, hgetRange, hrangeStart, hrangeEnd⟩ := getOffsetRange_of_marks hfront hback
    have hr : getOffsetRange whole r.range = some range := hgetRange
    rw [getStringReplacements, getStringReplacement, hr, map_some, bind_some]
      at hreplacements
    obtain ⟨rest, hrestReplacements, rfl⟩ := map_eq_some_iff.mp hreplacements
    simp only [length_append] at hrangeEnd
    rw [StringEdit.applyToOffsetFrom, StringEdit.applyToOffsetFrom]
    rcases hclear r mem_cons_self with hbehind | hahead
    · rw [Position.isBeforeOrEqual_iff_not, hback.2.1, Position.walk_isBefore ha hback.1,
        length_append] at hbehind
      have hlength : ((a ++ mid).length : Int) = a.length + mid.length := by
        rw [length_append, Nat.cast_add]
      have hle : range.start ≤ (a.length : Int) := by omega
      have hnot : ¬(a.length : Int) < range.endExclusive := by omega
      have hle' : range.start ≤ ((a ++ mid).length : Int) := by omega
      have hnot' : ¬((a ++ mid).length : Int) < range.endExclusive := by omega
      rw [if_pos hle', if_neg hnot', if_pos hle, if_neg hnot]
      exact ih hrest hrestReplacements fun r' hr' => hclear r' (mem_cons_of_mem _ hr')
    · rw [hfront.2.1, Position.walk_isBefore hmid hfront.1] at hahead
      have hlength : ((a ++ mid).length : Int) = a.length + mid.length := by
        rw [length_append, Nat.cast_add]
      have hnot : ¬range.start ≤ ((a ++ mid).length : Int) := by omega
      have hnot' : ¬range.start ≤ (a.length : Int) := by omega
      rw [if_neg hnot, if_neg hnot']
      omega

def ColumnKept (p : Position) : Prop := columnError 0 0 p e.replacements = 0

instance (e : TextEdit) (p : Position) : Decidable (e.ColumnKept p) :=
  inferInstanceAs (Decidable (_ = _))

theorem replacements_of_new {replacements : List StringReplacement}
    (h : StringEdit.new replacements = some edit) : edit.replacements = replacements := by
  rw [StringEdit.new] at h
  split_ifs at h
  exact congrArg StringEdit.replacements (Option.some.inj h).symm

theorem mapPosition_spec {e : TextEdit} {s t x : JsString} (h : TurnsAt s [] e.replacements s t)
    (hx : x <+: s) (hedit : getStringEdit s e = some edit)
    (hkept : Kept e.replacements (Position.walk ⟨1, 1⟩ x)) :
    ∃ y, y <+: t ∧ edit.applyToOffset x.length = y.length ∧
      e.mapPosition (Position.walk ⟨1, 1⟩ x) = .position ⟨(Position.walk ⟨1, 1⟩ y).lineNumber,
        (Position.walk ⟨1, 1⟩ y).column + columnError 0 0 (Position.walk ⟨1, 1⟩ x) e.replacements⟩ ∧
      ∀ mid, x ++ mid <+: s → Clear e.replacements (Position.walk ⟨1, 1⟩ x)
        (Position.walk ⟨1, 1⟩ (x ++ mid)) → y ++ mid <+: t := by
  obtain ⟨replacements, hreplacements, hnew⟩ := bind_eq_some_iff.mp hedit
  have hstart : Follows ⟨0, 0, 0⟩ (Position.walk ⟨1, 1⟩ []) ⟨1, 1⟩ 0 0 :=
    ⟨rfl, rfl, rfl, .inr ⟨Nat.one_pos, rfl, rfl⟩⟩
  obtain ⟨y, hy, hoffset, hmapped, hcopied⟩ :=
    @mapLoop_spec s [] s t x _ replacements _ _ _ _ 0 h (nil_append s) hx hreplacements hkept hstart
  have heq : edit.replacements = replacements := replacements_of_new hnew
  refine ⟨y, hy, ?_, hmapped, hcopied⟩
  rw [StringEdit.applyToOffset, heq]
  simp only [length_nil, Nat.cast_zero, Int.zero_add, Int.add_zero] at hoffset
  exact hoffset

theorem mapped_isBeforeOrEqual (h : p.isBeforeOrEqual q = true) :
    (MappedPosition.ofPosition p).isBeforeOrEqual (.ofPosition q) = true := by
  rw [Position.isBeforeOrEqual_iff] at h
  rw [MappedPosition.isBeforeOrEqual, MappedPosition.ofPosition, MappedPosition.ofPosition]
  simp only [Nat.cast_lt, Nat.cast_le]
  split_ifs
  · rfl
  · omega
  · rw [decide_eq_true_eq]
    omega

theorem ValidFrom.start_le {text : JsString} {lastEditEnd : Position}
    (h : ValidFrom text lastEditEnd rs) : ∀ r ∈ rs, r.start.isBeforeOrEqual r.stop = true := by
  induction rs generalizing lastEditEnd with
  | nil =>
    exact nofun
  | cons r rs ih =>
    obtain ⟨-, -, -, hrange, hrest⟩ := h
    intro r' hr'
    rcases mem_cons.mp hr' with rfl | hr'
    · exact hrange
    · exact ih hrest r' hr'

theorem kept_of_untouched {a b : Position}
    (hranges : ∀ r ∈ rs, r.start.isBeforeOrEqual r.stop = true) (hab : a.isBeforeOrEqual b = true)
    (h : ∀ r ∈ rs, r.stop.isBefore a = true ∨ b.isBefore r.start = true) :
    Kept rs a ∧ Kept rs b ∧ Clear rs a b := by
  simp only [Kept, Clear, Position.isBefore_iff, Position.isBeforeOrEqual_iff] at h hranges hab ⊢
  refine ⟨fun r hr => ?_, fun r hr => ?_, fun r hr => ?_⟩
  · rcases h r hr with hbefore | hbehind
    · refine .inr ⟨by omega, fun heq => ?_⟩
      have hrange := hranges r hr
      rw [heq] at hrange
      omega
    · exact .inl (by omega)
  · rcases h r hr with hbefore | hbehind
    · refine .inr ⟨by omega, fun heq => ?_⟩
      have hrange := hranges r hr
      rw [heq] at hrange
      omega
    · exact .inl hbehind
  · rcases h r hr with hbefore | hbehind
    · exact .inl (by omega)
    · exact .inr hbehind

theorem mapped_iff :
    MapResult.position ⟨p.lineNumber, p.column + error⟩ = .position (.ofPosition p) ↔
      error = 0 := by
  rw [MappedPosition.ofPosition, MapResult.position.injEq, MappedPosition.mk.injEq]
  omega

end TextEdit

end Fumie.Editor
