import Fumie.Editor.Edits.TextEdit

/-!
# New ranges and inverses of text edits

`getNewRanges` carries line and column offsets over the replacements; the inverse puts the
old texts at the new ranges. The start of a range is right as long as the ends in front of it
are, and an end is wrong when `ofText` counts the last line of the text with a surrogate pair
as one column. A border between a carriage return and a line feed has no position at all.
-/

namespace Fumie.Editor

open Fumie.Lib Fumie.Base PositionOffsetTransformer Position Range TextLength List Option

variable (len : TextLength) (previousEditEndLineNumber : Nat) (lineOffset columnOffset : Int)

def TextLength.createRange (startPosition : Position) : Range :=
  if len.lineCount = 0 then
    Range.new startPosition.lineNumber startPosition.column startPosition.lineNumber
      (startPosition.column + len.columnCount)
  else
    Range.new startPosition.lineNumber startPosition.column
      (startPosition.lineNumber + len.lineCount) (len.columnCount + 1)

variable {back text gap : JsString} {p : Position}

namespace TextEdit

def newRangeStart (p : Position) : Position :=
  ⟨(p.lineNumber + lineOffset).toNat,
    (p.column + if p.lineNumber = previousEditEndLineNumber then columnOffset else 0).toNat⟩

def newRange (r : TextReplacement) : Range :=
  (TextLength.ofText r.text).createRange
    (newRangeStart previousEditEndLineNumber lineOffset columnOffset r.start)

def newRangesFrom (previousEditEndLineNumber : Nat) (lineOffset columnOffset : Int) :
    List TextReplacement → List Range
  | [] => []
  | r :: rs =>
    newRange previousEditEndLineNumber lineOffset columnOffset r ::
      newRangesFrom r.range.endLineNumber
        ((newRange previousEditEndLineNumber lineOffset columnOffset r).endLineNumber -
          r.range.endLineNumber)
        ((newRange previousEditEndLineNumber lineOffset columnOffset r).endColumn -
          r.range.endColumn) rs

def getNewRanges (e : TextEdit) : List Range := newRangesFrom 0 0 0 e.replacements

def inverseReplacements (doc : JsString) :
    List TextReplacement → List Range → Option (List TextReplacement)
  | e :: es, range :: ranges =>
    (getValueOfRange doc e.range).bind fun text =>
      (inverseReplacements doc es ranges).map (⟨range, text⟩ :: ·)
  | _, _ => some []

def inverse (e : TextEdit) (doc : JsString) : Option TextEdit :=
  (inverseReplacements doc e.replacements e.getNewRanges).map TextEdit.mk

/-! ## Where the texts stand -/

def places (text : JsString) (delta : Int) : List TextReplacement → List OffsetRange
  | [] => []
  | r :: rs => .ofStartAndLength (getOffset text r.start + delta) r.text.length ::
      places text (delta + r.text.length - (getOffset text r.stop - getOffset text r.start)) rs

def IsAt (text : JsString) (range : Range) (place : OffsetRange) : Prop :=
  range = between (getPosition text place.start) (getPosition text place.endExclusive) ∧
    IsPosition text range.getStartPosition ∧ IsPosition text range.getEndPosition

def SplitsAt (text : JsString) (offset : Int) : Prop :=
  Splits false (text.take offset.toNat) (text.drop offset.toNat)

instance (text : JsString) (offset : Int) : Decidable (SplitsAt text offset) :=
  inferInstanceAs (Decidable (_ ∧ _))

theorem splitsAt_length {front : JsString} :
    SplitsAt (front ++ back) front.length ↔ Splits false front back := by
  rw [SplitsAt, Int.toNat_natCast, take_left, drop_left]

/-! ## The loop -/

theorem addToPosition_inj {a b : TextLength} (h : a.addToPosition p = b.addToPosition p) :
    a = b := by
  obtain ⟨aLines, aColumns⟩ := a
  obtain ⟨bLines, bColumns⟩ := b
  rw [addToPosition, addToPosition] at h
  split_ifs at h <;> simp only [Position.mk.injEq, TextLength.mk.injEq] at * <;> omega

theorem createRange_eq (p : Position) : len.createRange p = between p (len.addToPosition p) := by
  rw [TextLength.createRange, addToPosition, Range.new, Range.new]
  split_ifs
  · omega
  · rfl
  · omega
  · rfl

theorem newRangeStart_walk (p q : Position) (gap : JsString) :
    newRangeStart p.lineNumber (q.lineNumber - p.lineNumber) (q.column - p.column) (p.walk gap) =
      q.walk gap := by
  rw [← ofUnits_addToPosition, ← ofUnits_addToPosition, newRangeStart, addToPosition, addToPosition]
  split_ifs with hline hsame hsame
  · simp only [Position.mk.injEq]
    omega
  · exact absurd rfl hsame
  · simp only at hsame
    omega
  · simp only [Position.mk.injEq]
    omega

variable {front front' whole whole' s t : JsString}

theorem isAt_iff_walk {range : Range} (hwhole : front ++ text ++ back = whole) :
    IsAt whole range (.ofStartAndLength front.length text.length) ↔
      range = between (walk ⟨1, 1⟩ front) (walk ⟨1, 1⟩ (front ++ text)) ∧
        IsPosition whole range.getStartPosition ∧ IsPosition whole range.getEndPosition := by
  have hlength : (front.length + text.length : Int) = ((front ++ text).length : Nat) := by
    rw [length_append, Nat.cast_add]
  have hstart := getPosition_eq front (text ++ back)
  rw [← append_assoc, hwhole] at hstart
  have hstop := getPosition_eq (front ++ text) back
  rw [hwhole] at hstop
  show range = between (getPosition whole front.length)
    (getPosition whole (front.length + text.length : Int)) ∧ _ ↔ _
  rw [hlength, hstart, hstop]

theorem IsAt.marks {range : Range} (hwhole : front ++ text ++ back = whole)
    (h : IsAt whole range (.ofStartAndLength front.length text.length)) :
    Marks whole front range.getStartPosition ∧ Marks whole (front ++ text) range.getEndPosition := by
  obtain ⟨rfl, hstart, hstop⟩ := (isAt_iff_walk hwhole).mp h
  subst hwhole
  refine ⟨?_, hstop.marks⟩
  rw [append_assoc] at hstart ⊢
  exact hstart.marks

theorem isAt_createRange_iff {len : TextLength} (hwhole : front ++ text ++ back = whole) :
    IsAt whole (len.createRange (walk ⟨1, 1⟩ front)) (.ofStartAndLength front.length text.length) ↔
      len = ofUnits text ∧ ¬SplitsAt whole front.length ∧
        ¬SplitsAt whole (front.length + text.length : Int) := by
  have hlength : (front.length + text.length : Int) = ((front ++ text).length : Nat) := by
    rw [length_append, Nat.cast_add]
  have hfirst : IsPosition whole (walk ⟨1, 1⟩ front) ↔ ¬SplitsAt whole front.length := by
    rw [← hwhole, append_assoc, splitsAt_length]
    exact isPosition_walk_iff
  have hlast : IsPosition whole (walk ⟨1, 1⟩ (front ++ text)) ↔
      ¬SplitsAt whole (front.length + text.length : Int) := by
    rw [← hwhole, hlength, splitsAt_length]
    exact isPosition_walk_iff
  rw [isAt_iff_walk hwhole, createRange_eq, ← hfirst, ← hlast]
  constructor
  · rintro ⟨hrange, hstart, hstop⟩
    have hend : len.addToPosition (walk ⟨1, 1⟩ front) = walk ⟨1, 1⟩ (front ++ text) :=
      congrArg getEndPosition hrange
    refine ⟨?_, hstart, hend ▸ hstop⟩
    rw [walk_append, ← ofUnits_addToPosition _ text] at hend
    exact addToPosition_inj hend
  · rintro ⟨rfl, hstart, hstop⟩
    rw [ofUnits_addToPosition, ← walk_append]
    exact ⟨rfl, hstart, hstop⟩

variable {rs : List TextReplacement} {delta : Int}

theorem place_start (h : Marks whole (front ++ gap) p)
    (hdelta : front.length + delta = front'.length) :
    (getOffset whole p : Int) + delta = (front' ++ gap).length := by
  rw [h.2.2, length_append, length_append, Nat.cast_add, Nat.cast_add, ← hdelta]
  omega

theorem place_stop {old : JsString} {q : Position} (h : Marks whole (front ++ gap) p)
    (h' : Marks whole (front ++ (gap ++ old)) q) (text : JsString)
    (hdelta : front.length + delta = front'.length) :
    ((front ++ (gap ++ old)).length : Int) +
        (delta + text.length - (getOffset whole q - getOffset whole p)) =
      (front' ++ (gap ++ text)).length := by
  rw [h.2.2, h'.2.2]
  simp only [length_append, Nat.cast_add]
  omega

theorem newRangesFrom_iff {previousEditEndLineNumber : Nat} {lineOffset columnOffset : Int}
    (hstate : ∀ gap, newRangeStart previousEditEndLineNumber lineOffset columnOffset
      (walk ⟨1, 1⟩ (front ++ gap)) = walk ⟨1, 1⟩ (front' ++ gap))
    (hdelta : front.length + delta = front'.length) (hwhole : front' ++ t = whole')
    (h : TurnsAt whole front rs s t) :
    List.Forall₂ (IsAt whole') (newRangesFrom previousEditEndLineNumber lineOffset columnOffset rs)
        (places whole delta rs) ↔
      (∀ r ∈ rs, TextLength.ofText r.text = ofUnits r.text) ∧ ∀ place ∈ places whole delta rs,
          ¬SplitsAt whole' place.start ∧ ¬SplitsAt whole' place.endExclusive := by
  induction rs generalizing front front' s t delta previousEditEndLineNumber lineOffset
    columnOffset with
  | nil => exact iff_of_true .nil ⟨forall_mem_nil _, forall_mem_nil _⟩
  | cons r rs ih =>
    obtain ⟨gap, old, s', t', rfl, rfl, hstart, hstop, hrest⟩ := h
    have hsplit : front' ++ gap ++ r.text ++ t' = whole' := by
      rw [← hwhole, append_assoc, append_assoc]
    have hplace := place_start hstart hdelta
    have hnew : newRange previousEditEndLineNumber lineOffset columnOffset r =
        (TextLength.ofText r.text).createRange (walk ⟨1, 1⟩ (front' ++ gap)) := by
      rw [newRange, hstart.2.1, hstate]
    rw [newRangesFrom, places, hnew, hplace, forall₂_cons, isAt_createRange_iff hsplit,
      forall_mem_cons, forall_mem_cons]
    by_cases hlen : TextLength.ofText r.text = ofUnits r.text
    · rw [ih (fun gap' => ?_) ?_ hsplit hrest]
      · tauto
      · rw [append_assoc front']
        exact place_stop hstart hstop r.text hdelta
      · have hline : r.range.endLineNumber = (walk ⟨1, 1⟩ (front ++ (gap ++ old))).lineNumber :=
          congrArg Position.lineNumber hstop.2.1
        have hcolumn : r.range.endColumn = (walk ⟨1, 1⟩ (front ++ (gap ++ old))).column :=
          congrArg Position.column hstop.2.1
        rw [hlen, createRange_eq, ofUnits_addToPosition, ← walk_append, hline, hcolumn,
          walk_append _ _ gap', walk_append _ _ gap']
        exact newRangeStart_walk _ _ gap'
    · exact iff_of_false (fun h => hlen h.1.1) fun h => hlen h.1.1

/-! ## The inverse -/

theorem inverse_turnsAt {ranges : List Range} (hdelta : front.length + delta = front'.length)
    (hwhole : front' ++ t = whole') (h : TurnsAt whole front rs s t)
    (hat : List.Forall₂ (IsAt whole') ranges (places whole delta rs)) :
    ∃ es, inverseReplacements whole rs ranges = some es ∧ TurnsAt whole' front' es t s := by
  induction rs generalizing front front' s t delta ranges with
  | nil =>
    cases hat
    exact ⟨[], rfl, Eq.symm h⟩
  | cons r rs ih =>
    obtain ⟨gap, old, s', t', rfl, rfl, hstart, hstop, hrest⟩ := h
    obtain ⟨range, ranges, hrange, hranges, rfl⟩ := forall₂_cons_right_iff.mp hat
    have hplace := place_start hstart hdelta
    have hsplit : front' ++ gap ++ r.text ++ t' = whole' := by
      rw [← hwhole, append_assoc, append_assoc]
    rw [hplace] at hrange
    obtain ⟨hfirst, hlast⟩ := hrange.marks hsplit
    have hassoc : front ++ gap ++ old = front ++ (gap ++ old) := append_assoc ..
    have hdelta' := place_stop hstart hstop r.text hdelta
    rw [← hassoc] at hstop
    have hold : getValueOfRange whole r.range = some old := by
      rw [← between_positions r.range]
      exact getValueOfRange_of_marks hstart hstop
    rw [append_assoc front'] at hsplit hlast
    obtain ⟨es, hes, hturns⟩ := ih hdelta' hsplit hrest hranges
    refine ⟨⟨range, old⟩ :: es, ?_, gap, r.text, t', s', rfl, rfl, hfirst, hlast, hturns⟩
    rw [inverseReplacements, hold, bind_some, hes, map_some]

/-- New ranges and inverse are right exactly when every text is measured in code units and no
border of a text in the result splits a carriage return and a line feed. -/
theorem inverse_right_iff {e : TextEdit} {s : JsString} (h : e.ValidOn s) :
    ∃ t, e.applyToString s = some t ∧
      (List.Forall₂ (IsAt t) e.getNewRanges (places s 0 e.replacements) ∧
          (∃ inv, e.inverse s = some inv ∧ inv.applyToString t = some s) ↔
        (∀ r ∈ e.replacements, TextLength.ofText r.text = ofUnits r.text) ∧
          ∀ place ∈ places s 0 e.replacements,
            ¬SplitsAt t place.start ∧ ¬SplitsAt t place.endExclusive) := by
  obtain ⟨t, hturns, happly⟩ := h.turnsAt
  have hstate : ∀ gap, newRangeStart 0 0 0 (walk ⟨1, 1⟩ ([] ++ gap)) = walk ⟨1, 1⟩ ([] ++ gap) := by
    intro gap
    rw [newRangeStart, ite_self, Int.add_zero, Int.add_zero, Int.toNat_natCast, Int.toNat_natCast]
  refine ⟨t, happly, ?_⟩
  rw [← newRangesFrom_iff hstate rfl (nil_append t) hturns]
  refine and_iff_left_of_imp fun hat => ?_
  obtain ⟨es, hes, hback⟩ := inverse_turnsAt rfl (nil_append t) hturns hat
  refine ⟨⟨es⟩, ?_, applyFrom_of_turnsAt (nil_append t) (marks_end t) (marks_nil t) hback⟩
  have hinverse : inverseReplacements s e.replacements e.getNewRanges = some es := hes
  rw [inverse, hinverse, map_some]

/-- Two touching edits of one line, the first with a line feed. -/
theorem inverse_right_sample :
    ∃ t, (⟨[⟨⟨1, 1, 1, 2⟩, [120, 10, 121]⟩, ⟨⟨1, 2, 1, 2⟩, [122]⟩]⟩ : TextEdit).applyToString
        [97, 98] = some t ∧
      ∃ inv, (⟨[⟨⟨1, 1, 1, 2⟩, [120, 10, 121]⟩, ⟨⟨1, 2, 1, 2⟩, [122]⟩]⟩ : TextEdit).inverse
        [97, 98] = some inv ∧ inv.applyToString t = some [97, 98] := by
  obtain ⟨t, ht, hiff⟩ := @inverse_right_iff
    ⟨[⟨⟨1, 1, 1, 2⟩, [120, 10, 121]⟩, ⟨⟨1, 2, 1, 2⟩, [122]⟩]⟩ [97, 98] (by decide)
  obtain rfl : [120, 10, 121, 122, 98] = t :=
    Option.some.inj ((by decide : _ = some _).symm.trans ht)
  exact ⟨_, ht, (hiff.mpr (by decide)).2⟩

/-- A surrogate pair put in front of a letter: the inverse leaves half of it behind. -/
theorem inverse_leaves_half :
    ¬∀ (e : TextEdit) (s : JsString), e.ValidOn s → ∃ t, e.applyToString s = some t ∧
      List.Forall₂ (IsAt t) e.getNewRanges (places s 0 e.replacements) ∧
        ∃ inv, e.inverse s = some inv ∧ inv.applyToString t = some s := by
  intro h
  obtain ⟨t, ht, -, inv, hinv, hback⟩ := h ⟨[⟨⟨1, 1, 1, 1⟩, [0xD83D, 0xDE00]⟩]⟩ [97] (by decide)
  obtain rfl : [0xD83D, 0xDE00, 97] = t := Option.some.inj ((by decide : _ = some _).symm.trans ht)
  obtain rfl : (⟨[⟨⟨1, 1, 1, 2⟩, []⟩]⟩ : TextEdit) = inv :=
    Option.some.inj ((by decide : _ = some _).symm.trans hinv)
  exact absurd hback (by decide)

end TextEdit

end Fumie.Editor
