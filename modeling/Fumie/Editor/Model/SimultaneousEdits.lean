import Fumie.Lib.Replacement
import Fumie.Editor.Model.EditStack
import Fumie.Editor.Model.TextPositions

/-!
# Edits carried out at the same time

Operations in order that do not overlap are the parts of a text cut into gaps and parts.
From the last to the first they leave the gaps with the new parts between them, the
inverse ranges are where the new parts stand, and the reverse operations are the same cuts
with old and new parts exchanged. What the cuts leave is what the operations leave when
they are carried out at once, so it does not depend on how they were sorted.
-/

namespace Fumie.Editor

open Fumie.Lib Fumie.Base List Cut ListChange Range Replacement

variable {front newFront text : JsString} {a b first : IValidatedEditOperation}
  {prev : Option (IValidatedEditOperation × Position)} {result : Bool}

namespace TextBuffer

variable {buffer : TextBuffer} {eol : EndOfLine}

/-! ## Operations and cuts -/

def Counts (op : IValidatedEditOperation) : Prop :=
  ∀ p : Position, p.advance op.text =
    if op.eolCount = 0 then ⟨p.lineNumber, p.column + op.firstLineLength⟩
    else ⟨p.lineNumber + op.eolCount, op.lastLineLength + 1⟩

structure Fits (front : JsString) (c : Cut CodeUnit) (op : IValidatedEditOperation) : Prop where
  range : op.range = .between (endPosition (front ++ c.gap)) (endPosition (front ++ c.gap ++ c.old))
  rangeOffset : op.rangeOffset = (front ++ c.gap).length
  rangeLength : op.rangeLength = c.old.length
  text : op.text = c.new
  counts : Counts op

inductive FitAll : JsString → List (Cut CodeUnit) → List IValidatedEditOperation → Prop
  | nil (front : JsString) : FitAll front [] []
  | cons {front : JsString} {c : Cut CodeUnit} {op : IValidatedEditOperation}
      {cuts : List (Cut CodeUnit)} {operations : List IValidatedEditOperation} (h : Fits front c op)
      (hrest : FitAll (front ++ c.gap ++ c.old) cuts operations) :
      FitAll front (c :: cuts) (op :: operations)

structure NormalCut (eol : EndOfLine) (c : Cut CodeUnit) : Prop where
  gap : Normal eol c.gap
  old : Normal eol c.old
  new : Normal eol c.new

variable {c : Cut CodeUnit}

theorem NormalCut.swap (h : NormalCut eol c) : NormalCut eol c.swap := ⟨h.gap, h.new, h.old⟩

variable {cuts : List (Cut CodeUnit)}

theorem normal_swap (hcuts : ∀ c ∈ cuts, NormalCut eol c) :
    ∀ c ∈ cuts.map Cut.swap, NormalCut eol c := by
  intro c hc
  obtain ⟨d, hd, rfl⟩ := mem_map.mp hc
  exact (hcuts d hd).swap

theorem normal_source {tail : JsString} {cuts : List (Cut CodeUnit)}
    (hcuts : ∀ c ∈ cuts, NormalCut eol c) (htail : Normal eol tail) :
    Normal eol (Cut.source tail cuts) := by
  induction cuts with
  | nil => exact htail
  | cons c cuts ih =>
    have hc := hcuts c mem_cons_self
    have hrest := ih fun d hd => hcuts d (mem_cons_of_mem _ hd)
    exact hc.gap.append (hc.old.append hrest)

variable {tail : JsString}

theorem normal_target (hcuts : ∀ c ∈ cuts, NormalCut eol c) (htail : Normal eol tail) :
    Normal eol (Cut.target tail cuts) := by
  rw [← source_swap]
  exact normal_source (normal_swap hcuts) htail

/-! ## Applying one operation -/

theorem splice_delete_insert (s value : JsString) (offset cnt : Nat) :
    (s.take offset ++ s.drop (offset + cnt)).take offset ++ value ++
      (s.take offset ++ s.drop (offset + cnt)).drop offset =
    splice s offset cnt value := by
  have hsplit : ∀ back : JsString, offset ≤ s.length ∨ back = [] →
      (s.take offset ++ back).take offset = s.take offset ∧
        (s.take offset ++ back).drop offset = back := by
    intro back h
    rcases h with hle | rfl
    · have hlength : (s.take offset).length = offset := by rw [length_take]; omega
      exact ⟨take_left' hlength, drop_left' hlength⟩
    · rw [append_nil, take_take, Nat.min_self]
      exact ⟨rfl, drop_of_length_le (by rw [length_take]; omega)⟩
  have hcases : offset ≤ s.length ∨ s.drop (offset + cnt) = [] := by
    rcases Nat.le_total offset s.length with hle | hle
    · exact .inl hle
    · exact .inr (drop_of_length_le (by omega))
  obtain ⟨htake, hdrop⟩ := hsplit _ hcases
  rw [htake, hdrop, splice, Int.toNat_natCast]

variable {op : IValidatedEditOperation}

theorem applyOperation_spec (hfit : Fits front c op) (hfront : Normal eol (front ++ c.gap))
    (b : TextBuffer) :
    (applyOperation b op).text = splice b.text op.rangeOffset op.rangeLength op.text ∧
    (applyOperation b op).EOL = b.EOL ∧ (applyOperation b op).EOLNormalized = b.EOLNormalized := by
  rw [applyOperation]
  by_cases hnone : isNoOp op = true
  · rw [if_pos hnone]
    rw [isNoOp, Bool.and_eq_true, decide_eq_true_eq, hfit.range, endPosition, endPosition,
      hfront.advance_append, between_isEmpty, length_eq_zero_iff] at hnone
    rw [hfit.rangeLength, hnone.1, hnone.2]
    refine ⟨?_, rfl, rfl⟩
    rw [splice, Int.toNat_natCast, append_nil]
    exact (take_append_drop _ _).symm
  · rw [if_neg hnone]
    by_cases htext : op.text = []
    · rw [if_neg (not_not.mpr htext), htext]
      refine ⟨?_, rfl, rfl⟩
      rw [splice, Int.toNat_natCast, append_nil]
      rfl
    · rw [if_pos htext]
      exact ⟨splice_delete_insert b.text op.text op.rangeOffset op.rangeLength, rfl,
        Bool.and_true _⟩

theorem foldr_applyOperation {tail : JsString} {cuts : List (Cut CodeUnit)}
    {operations : List IValidatedEditOperation} (hfit : FitAll front cuts operations)
    (hcuts : ∀ c ∈ cuts, NormalCut eol c) (hfront : Normal eol front) {b : TextBuffer}
    (htext : b.text = front ++ Cut.source tail cuts) :
    (operations.foldr (fun op b => applyOperation b op) b).text = front ++ Cut.target tail cuts ∧
    (operations.foldr (fun op b => applyOperation b op) b).EOL = b.EOL ∧
    (operations.foldr (fun op b => applyOperation b op) b).EOLNormalized = b.EOLNormalized := by
  induction hfit with
  | nil => exact ⟨htext, rfl, rfl⟩
  | @cons front c op cuts operations h hrest ih =>
    have hc := hcuts c mem_cons_self
    have hgap := hfront.append hc.gap
    have hwhole : b.text = front ++ c.gap ++ c.old ++ Cut.source tail cuts := by
      rw [htext, Cut.source]
      simp only [append_assoc]
    obtain ⟨hafter, hEOL, hnormalized⟩ := ih (fun d hd => hcuts d (mem_cons_of_mem _ hd))
      (hgap.append hc.old) hwhole
    obtain ⟨hspliced, hEOL', hnormalized'⟩ := applyOperation_spec h hgap
      (operations.foldr (fun op b => applyOperation b op) b)
    rw [foldr_cons]
    refine ⟨?_, hEOL'.trans hEOL, hnormalized'.trans hnormalized⟩
    rw [hspliced, hafter, h.rangeOffset, h.rangeLength, h.text, append_assoc (front ++ c.gap),
      splice_append c.new rfl, Cut.target, append_assoc]

/-! ## Sorting -/

theorem sortOpsDescending_eq (a b : IValidatedEditOperation) :
    sortOpsDescending b a = sortOpsAscending a b := by
  have hflip : compareRangesUsingEnds b.range a.range =
      -compareRangesUsingEnds a.range b.range := by
    rw [compareRangesUsingEnds, compareRangesUsingEnds]
    split_ifs <;> omega
  simp only [sortOpsDescending, sortOpsAscending, hflip, neg_neg]
  split_ifs <;> omega

theorem sortOpsAscending_iff : sortOpsAscending a b ≤ 0 ↔
    a.range.endLineNumber < b.range.endLineNumber ∨
    a.range.endLineNumber = b.range.endLineNumber ∧ (a.range.endColumn < b.range.endColumn ∨
      a.range.endColumn = b.range.endColumn ∧ (a.range.startLineNumber < b.range.startLineNumber ∨
        a.range.startLineNumber = b.range.startLineNumber ∧
          (a.range.startColumn < b.range.startColumn ∨
            a.range.startColumn = b.range.startColumn ∧ a.sortIndex ≤ b.sortIndex))) := by
  simp only [sortOpsAscending, compareRangesUsingEnds]
  split_ifs <;> omega

theorem sortOpsAscending_trans {c : IValidatedEditOperation} (hab : sortOpsAscending a b ≤ 0)
    (hbc : sortOpsAscending b c ≤ 0) : sortOpsAscending a c ≤ 0 := by
  rw [sortOpsAscending_iff] at *
  omega

theorem sortOpsAscending_total (a b : IValidatedEditOperation) :
    sortOpsAscending a b ≤ 0 ∨ sortOpsAscending b a ≤ 0 := by
  rw [sortOpsAscending_iff, sortOpsAscending_iff]
  omega

theorem sortIndex_of_ascending (hab : sortOpsAscending a b ≤ 0) (hba : sortOpsAscending b a ≤ 0) :
    a.sortIndex = b.sortIndex := by
  rw [sortOpsAscending_iff] at hab hba
  omega

def Indexed (operations : List IValidatedEditOperation) : Prop :=
  ∀ a ∈ operations, ∀ b ∈ operations, a.sortIndex = b.sortIndex → a = b

variable {operations : List IValidatedEditOperation}

theorem indexed_of_pairwise (h : operations.Pairwise fun a b => a.sortIndex < b.sortIndex) :
    Indexed operations := by
  have hnodup : (operations.map IValidatedEditOperation.sortIndex).Nodup :=
    pairwise_map.mpr (h.imp Nat.ne_of_lt)
  intro a ha b hb heq
  exact inj_on_of_nodup_map hnodup ha hb heq

theorem sortDescending_eq (hsorted : operations.Pairwise fun a b => sortOpsAscending a b ≤ 0)
    (hindexed : Indexed operations) :
    (operations.mergeSort fun a b => sortOpsDescending a b ≤ 0) = operations.reverse := by
  have hpairwise := @pairwise_mergeSort _ (fun a b => sortOpsDescending a b ≤ 0)
    (by
      intro a b c hab hbc
      rw [decide_eq_true_eq, sortOpsDescending_eq] at *
      exact sortOpsAscending_trans hbc hab)
    (by
      intro a b
      rw [Bool.or_eq_true, decide_eq_true_eq, decide_eq_true_eq, sortOpsDescending_eq,
        sortOpsDescending_eq]
      exact sortOpsAscending_total b a) operations
  refine @List.Perm.eq_of_pairwise _ (fun a b => sortOpsDescending a b ≤ 0) _ _ ?_ ?_ ?_
    ((mergeSort_perm _ _).trans operations.reverse_perm.symm)
  · intro a b ha hb hab hba
    rw [sortOpsDescending_eq] at hab hba
    exact hindexed a (mem_mergeSort.mp ha) b (mem_reverse.mp hb) (sortIndex_of_ascending hba hab)
  · exact hpairwise.imp fun h => of_decide_eq_true h
  · rw [pairwise_reverse]
    refine hsorted.imp fun h => ?_
    rw [sortOpsDescending_eq]
    exact h

theorem doApplyEdits_spec (hfit : FitAll [] cuts operations) (hcuts : ∀ c ∈ cuts, NormalCut eol c)
    (hsorted : operations.Pairwise fun a b => sortOpsAscending a b ≤ 0)
    (hindexed : Indexed operations) {b : TextBuffer} (htext : b.text = Cut.source tail cuts) :
    (b.doApplyEdits operations).2.text = Cut.target tail cuts ∧
    (b.doApplyEdits operations).2.EOL = b.EOL ∧
    (b.doApplyEdits operations).2.EOLNormalized = b.EOLNormalized := by
  rw [doApplyEdits]
  simp only [sortDescending_eq hsorted hindexed, foldl_reverse]
  exact foldr_applyOperation hfit hcuts .nil htext

/-! ## Inverse ranges and reverse operations -/

def newRanges (front : JsString) : List (Cut CodeUnit) → List Range
  | [] => []
  | c :: cuts =>
    .between (endPosition (front ++ c.gap)) (endPosition (front ++ c.gap ++ c.new)) ::
      newRanges (front ++ c.gap ++ c.new) cuts

theorem inverseRange_eq (h : Counts op) (p : Position) :
    inverseRange p op = .between p (p.advance op.text) := by
  rw [inverseRange]
  by_cases hnil : op.text = []
  · rw [if_neg (by rw [hnil]; decide), hnil, Range.new, if_neg (by omega)]
    rfl
  · rw [if_pos (length_pos_iff.mpr hnil), h p]
    by_cases hnone : op.eolCount = 0
    · simp only [hnone, Nat.zero_add, if_true, Range.new]
      rw [if_neg (by omega)]
      rfl
    · have hlines : ¬op.eolCount + 1 = 1 := by omega
      simp only [hnone, hlines, if_false, Range.new]
      rw [if_neg (by omega)]
      rfl

def Before (front newFront : JsString) : Option (IValidatedEditOperation × Position) → Prop
  | some (prevOp, prevOpEnd) =>
    prevOp.range.getEndPosition = endPosition front ∧ prevOpEnd = endPosition newFront
  | none => front = newFront

theorem inverseStart_eq {gap : JsString} {op : IValidatedEditOperation}
    (hprev : Before front newFront prev) (hfront : Normal eol front) (hnew : Normal eol newFront)
    (hstart : op.range.getStartPosition = endPosition (front ++ gap)) :
    inverseStart prev op = endPosition (newFront ++ gap) := by
  cases prev with
  | none =>
    have hsame : front = newFront := hprev
    rw [inverseStart, hstart, hsame]
  | some prev =>
    obtain ⟨prevOp, prevOpEnd⟩ := prev
    obtain ⟨hend, hprevEnd⟩ := hprev
    have hline : prevOp.range.endLineNumber = (endPosition front).lineNumber :=
      congrArg Position.lineNumber hend
    have hcolumn : prevOp.range.endColumn = (endPosition front).column :=
      congrArg Position.column hend
    have hline' : op.range.startLineNumber = (endPosition (front ++ gap)).lineNumber :=
      congrArg Position.lineNumber hstart
    have hcolumn' : op.range.startColumn = (endPosition (front ++ gap)).column :=
      congrArg Position.column hstart
    have hshift := advance_shift (endPosition front) (endPosition newFront) gap
    rw [endPosition, endPosition, ← hfront.advance_append, ← hnew.advance_append, ← endPosition,
      ← endPosition, ← endPosition, ← endPosition] at hshift
    rw [inverseStart, hshift]
    simp only [hline, hcolumn, hline', hcolumn', hprevEnd]

theorem inverseEditRanges_eq {cuts : List (Cut CodeUnit)}
    {operations : List IValidatedEditOperation} (hfit : FitAll front cuts operations)
    (hcuts : ∀ c ∈ cuts, NormalCut eol c) (hfront : Normal eol front) (hnew : Normal eol newFront)
    (hprev : Before front newFront prev) :
    inverseEditRanges prev operations = newRanges newFront cuts := by
  induction hfit generalizing newFront prev with
  | nil => rfl
  | @cons front c op cuts operations h hrest ih =>
    have hc := hcuts c mem_cons_self
    have hstart : op.range.getStartPosition = endPosition (front ++ c.gap) := by
      rw [h.range]
      rfl
    have hend : op.range.getEndPosition = endPosition (front ++ c.gap ++ c.old) := by
      rw [h.range]
      rfl
    have hrange : inverseRange (inverseStart prev op) op =
        .between (endPosition (newFront ++ c.gap)) (endPosition (newFront ++ c.gap ++ c.new)) := by
      rw [inverseStart_eq hprev hfront hnew hstart, inverseRange_eq h.counts, h.text, endPosition,
        endPosition, (hnew.append hc.gap).advance_append]
    have hnext : inverseEditRanges (some (op, endPosition (newFront ++ c.gap ++ c.new)))
        operations = newRanges (newFront ++ c.gap ++ c.new) cuts :=
      ih (fun d hd => hcuts d (mem_cons_of_mem _ hd)) ((hfront.append hc.gap).append hc.old)
        ((hnew.append hc.gap).append hc.new) ⟨hend, rfl⟩
    rw [inverseEditRanges, newRanges, hrange]
    exact congrArg _ hnext

theorem reverseOperations_eq {front newFront tail : JsString} {cuts : List (Cut CodeUnit)}
    {operations : List IValidatedEditOperation} (hfit : FitAll front cuts operations)
    (hcuts : ∀ c ∈ cuts, NormalCut eol c) (hfront : Normal eol front)
    (hnormalized : buffer.EOLNormalized = true)
    (htext : buffer.text = front ++ Cut.source tail cuts) (delta : Int) :
    let reverse := buffer.reverseOperations delta (operations.zip (newRanges newFront cuts))
    reverse.map (fun r => (r.range, r.text)) = (newRanges newFront cuts).zip (cuts.map Cut.old) ∧
    reverse.map IReverseSingleEditOperation.textChange =
      Cut.changes front.length (front.length + delta) cuts ∧
    reverse.map IReverseSingleEditOperation.sortIndex =
      operations.map IValidatedEditOperation.sortIndex := by
  induction hfit generalizing newFront delta with
  | nil => exact ⟨rfl, rfl, rfl⟩
  | @cons front c op cuts operations h hrest ih =>
    have hc := hcuts c mem_cons_self
    have hgap := hfront.append hc.gap
    have hwhole : buffer.text = front ++ c.gap ++ (c.old ++ Cut.source tail cuts) := by
      rw [htext, Cut.source, append_assoc]
    have hvalue : buffer.getValueInRange op.range = c.old := by
      rw [h.range]
      exact getValueInRange_between hnormalized hwhole hgap hc.old
    obtain ⟨hranges, hchanges, hindices⟩ := @ih (newFront ++ c.gap ++ c.new)
      (fun d hd => hcuts d (mem_cons_of_mem _ hd)) (hgap.append hc.old)
      (by rw [hwhole, append_assoc (front ++ c.gap)])
      (delta + (c.new.length - c.old.length))
    simp only [newRanges, zip_cons_cons, reverseOperations, hvalue, map_cons, hranges, hchanges,
      hindices, Cut.changes, h.text, h.rangeOffset, length_append, Nat.cast_add, true_and, and_true]
    have hposition : (front.length : Int) + c.gap.length + delta =
        front.length + delta + c.gap.length := by omega
    have hnext : (front.length : Int) + c.gap.length + c.old.length +
        (delta + (c.new.length - c.old.length)) =
        front.length + delta + c.gap.length + c.new.length := by omega
    rw [hposition, hnext]

/-! ## Checked operations -/

def CutRange (eol : EndOfLine) (text : JsString) (range : Range) : Prop :=
  ∃ front old back, text = front ++ (old ++ back) ∧ Normal eol front ∧ Normal eol old ∧
    Normal eol back ∧ range = .between (endPosition front) (endPosition (front ++ old))

theorem cutRange_of_valid {range : Range} (h : Normal eol text) (hrange : ValidRange text range) :
    CutRange eol text range := by
  obtain ⟨front, back, heq, hfront, hback, hstart⟩ := front_of_validPosition h hrange.start
  obtain ⟨front', back', heq', hfront', hback', hstop⟩ := front_of_validPosition h hrange.stop
  have horder : (endPosition front').isBefore (endPosition front) = false := by
    have hle := Position.isBeforeOrEqual_iff.mp hrange.order
    rw [hstart, hstop, ← Bool.not_eq_true, Position.isBefore_iff]
    omega
  obtain ⟨old, rfl, hold⟩ := front_of_not_isBefore (heq.symm.trans heq') hfront hfront' horder
  refine ⟨front, old, back', by rw [heq', append_assoc], hfront, hold, hback', ?_⟩
  rw [hstart, hstop, between_positions]

structure Checked (eol : EndOfLine) (buffer : TextBuffer) (op : IValidatedEditOperation) :
    Prop where
  range : CutRange eol buffer.text op.range
  rangeOffset : op.rangeOffset = buffer.getOffsetAt op.range.startLineNumber op.range.startColumn
  rangeLength : op.rangeLength = buffer.getValueLengthInRange op.range
  text : Normal eol op.text
  counts : Counts op

theorem validText_eq (eol : EndOfLine) (text : JsString) : validText eol text = replaceEOL eol text := by
  rw [validText]
  split_ifs with hkinds
  · exact (replaceEOL_of_kinds hkinds).symm
  · rfl

theorem checked_validate {op : ValidAnnotatedEditOperation} (hEOL : buffer.EOL = eol)
    (h : CutRange eol buffer.text op.range) (i : Nat) :
    Checked eol buffer (buffer.validateOperation i op) := by
  have htext : (buffer.validateOperation i op).text = replaceEOL eol (op.text.getD []) := by
    rw [← hEOL]
    exact validText_eq _ _
  refine ⟨h, rfl, rfl, ?_, fun p => ?_⟩
  · rw [htext]
    exact normal_replaceEOL eol _
  · rw [htext, advance_replaceEOL]
    exact advance_countEOL p _

/-! ## Neighbours -/

theorem findTouching_true {operations : List IValidatedEditOperation}
    (h : findTouching true operations = .ok result) : result = true := by
  induction operations with
  | nil =>
    cases h
    rfl
  | cons op operations ih =>
    cases operations with
    | nil =>
      cases h
      rfl
    | cons next rest =>
      rw [findTouching] at h
      split_ifs at h with hequal hbefore
      · exact ih h
      · exact ih h

variable {touching : Bool} {rest : List IValidatedEditOperation}

theorem findTouching_cons {next : IValidatedEditOperation}
    (h : findTouching touching (op :: next :: rest) = .ok result) :
    next.range.getStartPosition.isBefore op.range.getEndPosition = false ∧
    (result = false → next.range.getStartPosition.isBeforeOrEqual op.range.getEndPosition = false) ∧
    ∃ touching', findTouching touching' (next :: rest) = .ok result := by
  rw [findTouching] at h
  split_ifs at h with hequal hbefore
  · refine ⟨Bool.of_not_eq_true hbefore, fun hresult => ?_, true, h⟩
    rw [findTouching_true h] at hresult
    cases hresult
  · refine ⟨?_, fun _ => Bool.of_not_eq_true hequal, touching, h⟩
    rw [Position.isBeforeOrEqual_iff] at hequal
    rw [← Bool.not_eq_true, Position.isBefore_iff]
    omega

theorem findTouching_error {touching : Bool} {operations : List IValidatedEditOperation}
    {message : String} (h : findTouching touching operations = .error message) :
    message = "Overlapping ranges are not allowed!" := by
  induction operations generalizing touching with
  | nil => cases h
  | cons op operations ih =>
    cases operations with
    | nil => cases h
    | cons next rest =>
      rw [findTouching] at h
      split_ifs at h with hequal hbefore
      · cases h
        rfl
      · exact ih h
      · exact ih h

theorem exists_cuts {operations : List IValidatedEditOperation}
    (hchecked : ∀ op ∈ operations, Checked eol buffer op) {touching : Bool}
    (hok : findTouching touching operations = .ok result) {s : JsString}
    (htext : buffer.text = front ++ s) (hfront : Normal eol front) (hs : Normal eol s)
    (hhead : ∀ op ∈ operations.head?,
      op.range.getStartPosition.isBefore (endPosition front) = false) :
    ∃ cuts tail, s = Cut.source tail cuts ∧ FitAll front cuts operations ∧
      (∀ c ∈ cuts, NormalCut eol c) ∧ Normal eol tail ∧
      (result = false → ∀ c ∈ cuts.tail, c.gap ≠ []) := by
  induction operations generalizing touching front s with
  | nil =>
    refine ⟨[], s, rfl, .nil front, ?_, hs, fun _ => ?_⟩
    · exact nofun
    · exact nofun
  | cons op operations ih =>
    have hop := hchecked op mem_cons_self
    obtain ⟨before, old, back, hsplit, hbefore, hold, hback, hrange⟩ := hop.range
    have hstart : op.range.getStartPosition = endPosition before := by
      rw [hrange]
      rfl
    have hfirst := hhead op rfl
    rw [hstart] at hfirst
    obtain ⟨gap, rfl, hgap⟩ := front_of_not_isBefore (htext.symm.trans hsplit) hfront hbefore hfirst
    have hfit : Fits front ⟨gap, old, op.text⟩ op := by
      refine ⟨hrange, ?_, ?_, rfl, hop.counts⟩
      · rw [hop.rangeOffset, hrange]
        exact getOffsetAt_endPosition hsplit hbefore
      · rw [hop.rangeLength, hrange]
        exact getValueLengthInRange_between hsplit hbefore hold
    have hcut : NormalCut eol ⟨gap, old, op.text⟩ := ⟨hgap, hold, hop.text⟩
    have hbehind : s = gap ++ (old ++ back) := by
      rw [htext, append_assoc] at hsplit
      exact append_cancel_left hsplit
    have htext' : buffer.text = front ++ gap ++ old ++ back := by
      rw [hsplit, append_assoc (front ++ gap)]
    have hend : op.range.getEndPosition = endPosition (front ++ gap ++ old) := by
      rw [hrange]
      rfl
    have hrest := fun x hx => hchecked x (mem_cons_of_mem _ hx)
    cases operations with
    | nil =>
      refine ⟨[⟨gap, old, op.text⟩], back, hbehind, .cons hfit (.nil _), ?_, hback, fun _ => ?_⟩
      · intro c hc
        rw [mem_singleton.mp hc]
        exact hcut
      · exact nofun
    | cons next rest =>
      obtain ⟨hnext, hnotTouching, touching', hok'⟩ := findTouching_cons hok
      rw [hend] at hnext
      obtain ⟨cuts, tail, hsource, hfits, hcuts, htail, hgaps⟩ := ih hrest hok' htext'
        (hbefore.append hold) hback (by
          intro x hx
          cases hx
          exact hnext)
      refine ⟨⟨gap, old, op.text⟩ :: cuts, tail, ?_, .cons hfit hfits, ?_, htail, ?_⟩
      · rw [hbehind, Cut.source, hsource]
      · intro c hc
        rcases mem_cons.mp hc with rfl | hc
        · exact hcut
        · exact hcuts c hc
      · intro hresult c hc
        cases hfits with
        | @cons _ d _ cuts _ hd _ =>
          rcases mem_cons.mp hc with rfl | hc
          · intro hnil
            have hmeet := hnotTouching hresult
            rw [hd.range, hnil, append_nil, hend] at hmeet
            have hself : ∀ p : Position, p.isBeforeOrEqual p = true := fun p =>
              Position.isBeforeOrEqual_iff.mpr (.inr ⟨rfl, Nat.le_refl _⟩)
            exact absurd ((hself _).symm.trans hmeet) (by decide)
          · exact hgaps hresult c hc

/-! ## Ranges that do not overlap -/

/-- One of the ranges ends before the other starts, or where it starts. -/
def Apart (a b : Range) : Prop :=
  a.getEndPosition.isBeforeOrEqual b.getStartPosition = true ∨
    b.getEndPosition.isBeforeOrEqual a.getStartPosition = true

theorem Apart.symm {a b : Range} (h : Apart a b) : Apart b a := Or.symm h

theorem isBeforeOrEqual_advance (p : Position) (text : JsString) :
    p.isBeforeOrEqual (p.advance text) = true := by
  rw [Position.isBeforeOrEqual_iff]
  by_cases hnil : text = []
  · rw [hnil]
    exact .inr ⟨rfl, Nat.le_refl _⟩
  · have hbefore := Position.isBefore_iff.mp (isBefore_advance p hnil)
    omega

theorem isBeforeOrEqual_trans {a b c : Position} (hab : a.isBeforeOrEqual b = true)
    (hbc : b.isBeforeOrEqual c = true) : a.isBeforeOrEqual c = true := by
  rw [Position.isBeforeOrEqual_iff] at *
  omega

theorem isBeforeOrEqual_append (hfront : Normal eol front) (text : JsString) :
    (endPosition front).isBeforeOrEqual (endPosition (front ++ text)) = true := by
  have hle := isBeforeOrEqual_advance (endPosition front) text
  rwa [endPosition, ← hfront.advance_append] at hle

theorem newRanges_le {cuts : List (Cut CodeUnit)} (hcuts : ∀ c ∈ cuts, NormalCut eol c)
    (hfront : Normal eol front) :
    ∀ range ∈ newRanges front cuts,
      (endPosition front).isBeforeOrEqual range.getStartPosition = true := by
  induction cuts generalizing front with
  | nil =>
    exact nofun
  | cons c cuts ih =>
    have hc := hcuts c mem_cons_self
    have hgap := isBeforeOrEqual_append hfront c.gap
    have hnew := isBeforeOrEqual_append (hfront.append hc.gap) c.new
    intro range hrange
    rcases mem_cons.mp hrange with rfl | hrange
    · exact hgap
    · have hrest := ih (fun d hd => hcuts d (mem_cons_of_mem _ hd))
        ((hfront.append hc.gap).append hc.new) range hrange
      exact isBeforeOrEqual_trans hgap (isBeforeOrEqual_trans hnew hrest)

theorem newRanges_apart {cuts : List (Cut CodeUnit)} (hcuts : ∀ c ∈ cuts, NormalCut eol c)
    (hfront : Normal eol front) : (newRanges front cuts).Pairwise Apart := by
  induction cuts generalizing front with
  | nil => exact List.Pairwise.nil
  | cons c cuts ih =>
    have hc := hcuts c mem_cons_self
    have hrest := fun d hd => hcuts d (mem_cons_of_mem c hd)
    have hbehind := (hfront.append hc.gap).append hc.new
    exact List.Pairwise.cons (fun range hrange => .inl (newRanges_le hrest hbehind range hrange))
      (ih hrest hbehind)

theorem newRanges_cutRange {tail : JsString} {cuts : List (Cut CodeUnit)}
    (hcuts : ∀ c ∈ cuts, NormalCut eol c) (hfront : Normal eol front) (htail : Normal eol tail)
    (htext : text = front ++ Cut.target tail cuts) :
    ∀ range ∈ newRanges front cuts, CutRange eol text range := by
  induction cuts generalizing front with
  | nil =>
    exact nofun
  | cons c cuts ih =>
    have hc := hcuts c mem_cons_self
    have hrest := fun d hd => hcuts d (mem_cons_of_mem c hd)
    have hgap := hfront.append hc.gap
    have hsplit : text = front ++ c.gap ++ (c.new ++ Cut.target tail cuts) := by
      rw [htext, Cut.target, append_assoc]
    intro range hrange
    rcases mem_cons.mp hrange with rfl | hrange
    · exact ⟨front ++ c.gap, c.new, Cut.target tail cuts, hsplit, hgap, hc.new,
        normal_target hrest htail, rfl⟩
    · exact ih hrest (hgap.append hc.new) (by rw [hsplit, append_assoc (front ++ c.gap)])
        range hrange

theorem fitAll_ranges {cuts : List (Cut CodeUnit)} {operations : List IValidatedEditOperation}
    (hfit : FitAll front cuts operations) :
    operations.map (fun op => (op.range, op.text)) =
      (newRanges front (cuts.map Cut.swap)).zip ((cuts.map Cut.swap).map Cut.old) ∧
    operations.map IValidatedEditOperation.range = newRanges front (cuts.map Cut.swap) := by
  induction hfit with
  | nil => exact ⟨rfl, rfl⟩
  | @cons front c op cuts operations h hrest ih =>
    simp only [map_cons, newRanges, zip_cons_cons, swap_gap, swap_new,
      swap_old, ih.1, ih.2, h.range, h.text, and_self]

theorem findTouching_ok {operations : List IValidatedEditOperation}
    (hsorted : operations.Pairwise fun a b => sortOpsAscending a b ≤ 0)
    (hapart : operations.Pairwise fun a b => Apart a.range b.range)
    (horder : ∀ op ∈ operations,
      op.range.getStartPosition.isBeforeOrEqual op.range.getEndPosition = true) (touching : Bool) :
    ∃ result, findTouching touching operations = .ok result := by
  induction operations generalizing touching with
  | nil => exact ⟨touching, rfl⟩
  | cons op operations ih =>
    cases operations with
    | nil => exact ⟨touching, rfl⟩
    | cons next rest =>
      have hascending := rel_of_pairwise_cons hsorted mem_cons_self
      have hpair := rel_of_pairwise_cons hapart mem_cons_self
      have hop := horder op mem_cons_self
      have hnext := horder next (mem_cons_of_mem _ mem_cons_self)
      have hrest := ih hsorted.of_cons hapart.of_cons fun x hx => horder x (mem_cons_of_mem _ hx)
      have hnotBefore : ¬next.range.getStartPosition.isBefore op.range.getEndPosition = true := by
        rw [sortOpsAscending_iff] at hascending
        simp only [Apart, Position.isBeforeOrEqual_iff, Position.isBefore_iff,
          getStartPosition, getEndPosition] at *
        omega
      rw [findTouching]
      split_ifs with hequal
      · exact hrest true
      · exact hrest touching

/-! ## Carrying out operations at once -/

def replacementAt (buffer : TextBuffer) (range : Range) (text : JsString) : Replacement CodeUnit where
  start := buffer.getOffsetAt range.startLineNumber range.startColumn
  stop := buffer.getOffsetAt range.endLineNumber range.endColumn
  text := replaceEOL buffer.EOL text

def replacementOf (buffer : TextBuffer) (op : ValidAnnotatedEditOperation) : Replacement CodeUnit :=
  buffer.replacementAt op.range (op.text.getD [])

theorem replacementAt_cuts {tail : JsString} {cuts : List (Cut CodeUnit)}
    (hEOL : buffer.EOL = eol) (hcuts : ∀ c ∈ cuts, NormalCut eol c) (hfront : Normal eol front)
    (htext : buffer.text = front ++ Cut.target tail cuts) :
    ((newRanges front cuts).zip (cuts.map Cut.old)).map (fun x => buffer.replacementAt x.1 x.2) =
      Cut.replacements front.length (cuts.map Cut.swap) := by
  induction cuts generalizing front with
  | nil => rfl
  | cons c cuts ih =>
    have hc := hcuts c mem_cons_self
    have hgap := hfront.append hc.gap
    have hsplit : buffer.text = front ++ c.gap ++ (c.new ++ Cut.target tail cuts) := by
      rw [htext, Cut.target, append_assoc]
    have hbehind : buffer.text = front ++ c.gap ++ c.new ++ Cut.target tail cuts := by
      rw [hsplit, append_assoc (front ++ c.gap)]
    have hstart := getOffsetAt_endPosition hsplit hgap
    have hstop := getOffsetAt_endPosition hbehind (hgap.append hc.new)
    have hrest := ih (fun d hd => hcuts d (mem_cons_of_mem _ hd)) (hgap.append hc.new) hbehind
    have hfirst : buffer.replacementAt (.between (endPosition (front ++ c.gap))
        (endPosition (front ++ c.gap ++ c.new))) c.old =
        ⟨front.length + c.gap.length, front.length + c.gap.length + c.new.length, c.old⟩ := by
      rw [replacementAt, hEOL, hc.old.replaceEOL_eq]
      simp only [between, hstart, hstop, length_append]
    rw [map_cons, newRanges, zip_cons_cons, map_cons, hfirst, hrest, map_cons,
      Cut.replacements, length_append, length_append]
    rfl

theorem fitAll_replacements (hfit : FitAll [] cuts operations) (hEOL : buffer.EOL = eol)
    (hcuts : ∀ c ∈ cuts, NormalCut eol c) (htext : buffer.text = Cut.source tail cuts) :
    operations.map (fun op => buffer.replacementAt op.range op.text) = Cut.replacements 0 cuts := by
  have htarget : buffer.text = [] ++ Cut.target tail (cuts.map Cut.swap) := by
    rw [target_swap]
    exact htext
  have hzip := replacementAt_cuts hEOL (normal_swap hcuts) .nil htarget
  rw [← (fitAll_ranges hfit).1, map_map, map_swap_swap] at hzip
  exact hzip

variable {sorted : List IValidatedEditOperation}

theorem filter_sorted (hperm : sorted.Perm operations)
    (hindex : operations.Pairwise fun a b => a.sortIndex < b.sortIndex)
    {p : IValidatedEditOperation → Bool}
    (h : sorted.Pairwise fun a b => p a = true → p b = true → a.sortIndex ≤ b.sortIndex) :
    operations.filter p = sorted.filter p := by
  refine @List.Perm.eq_of_pairwise _ (fun a b => a.sortIndex ≤ b.sortIndex) _ _ ?_ ?_ ?_
    (hperm.symm.filter p)
  · intro a b ha hb hab hba
    have hmem := hperm.mem_iff.mp (mem_of_mem_filter hb)
    exact indexed_of_pairwise hindex a (mem_of_mem_filter ha) b hmem (Nat.le_antisymm hab hba)
  · exact (hindex.imp Nat.le_of_lt).filter p
  · rw [pairwise_filter]
    exact h

theorem range_of_emptyAt {i : Nat} (hchecked : Checked eol buffer op)
    (h : Replacement.emptyAt i (buffer.replacementAt op.range op.text) = true) :
    op.range = .between (endPosition (buffer.text.take i)) (endPosition (buffer.text.take i)) := by
  obtain ⟨front, old, back, hsplit, hfront, hold, -, hrange⟩ := hchecked.range
  have hwhole : buffer.text = front ++ old ++ back := by rw [hsplit, append_assoc]
  have hstart := getOffsetAt_endPosition hsplit hfront
  have hstop := getOffsetAt_endPosition hwhole (hfront.append hold)
  rw [Replacement.emptyAt, Bool.and_eq_true, decide_eq_true_eq, decide_eq_true_eq, replacementAt,
    hrange] at h
  simp only [between, hstart, hstop, length_append] at h
  have hnone : old = [] := length_eq_zero_iff.mp (by omega)
  have htake : buffer.text.take i = front := by rw [hsplit, ← h.1, take_left]
  rw [hrange, htake, hnone, append_nil]

theorem replaceAll_sorted (hperm : sorted.Perm operations)
    (hindex : operations.Pairwise fun a b => a.sortIndex < b.sortIndex)
    (hsorted : sorted.Pairwise fun a b => sortOpsAscending a b ≤ 0)
    (hchecked : ∀ op ∈ sorted, Checked eol buffer op) (hfit : FitAll [] cuts sorted)
    (hEOL : buffer.EOL = eol) (hcuts : ∀ c ∈ cuts, NormalCut eol c)
    (htext : buffer.text = Cut.source tail cuts) :
    replaceAll (operations.map fun op => buffer.replacementAt op.range op.text)
      buffer.text = Cut.target tail cuts := by
  have hreplacements := fitAll_replacements hfit hEOL hcuts htext
  have hempty : ∀ i, operations.filter
      (Replacement.emptyAt i ∘ fun op => buffer.replacementAt op.range op.text) =
      sorted.filter (Replacement.emptyAt i ∘ fun op => buffer.replacementAt op.range op.text) := by
    intro i
    refine filter_sorted hperm hindex (hsorted.imp_of_mem fun {a b} ha hb hab hpa hpb => ?_)
    have hrange := (range_of_emptyAt (hchecked a ha) hpa).trans
      (range_of_emptyAt (hchecked b hb) hpb).symm
    rw [sortOpsAscending_iff, hrange] at hab
    omega
  have hstarts : ∀ i, operations.filter
      (startsAt i ∘ fun op => buffer.replacementAt op.range op.text) =
      sorted.filter (startsAt i ∘ fun op => buffer.replacementAt op.range op.text) := by
    intro i
    have hpairs := replacements_sorted 0 cuts
    rw [← hreplacements, pairwise_map] at hpairs
    refine filter_sorted hperm hindex (hpairs.imp fun {a b} hle hpa hpb => ?_)
    rw [Function.comp_apply, startsAt, Bool.and_eq_true, decide_eq_true_eq,
      decide_eq_true_eq] at hpa hpb
    omega
  rw [replaceAll_perm (hperm.symm.map _) (fun i => by
      rw [filter_map, filter_map, hempty]) (fun i => by
      rw [filter_map, filter_map, hstarts]), hreplacements, htext]
  exact replaceFrom_replacements 0 cuts tail

/-! ## Operations in order -/

structure Layout (eol : EndOfLine) (buffer : TextBuffer) (operations : List IValidatedEditOperation)
    (touching : Bool) (cuts : List (Cut CodeUnit)) (tail : JsString) : Prop where
  text : buffer.text = Cut.source tail cuts
  fit : FitAll [] cuts operations
  normal : ∀ c ∈ cuts, NormalCut eol c
  tail : Normal eol tail
  sorted : operations.Pairwise fun a b => sortOpsAscending a b ≤ 0
  indexed : Indexed operations
  gaps : touching = false → ∀ c ∈ cuts.tail, c.gap ≠ []

structure Normalized (eol : EndOfLine) (buffer : TextBuffer) : Prop where
  EOL : buffer.EOL = eol
  EOLNormalized : buffer.EOLNormalized = true
  text : Normal eol buffer.text

theorem validate_index (raw : List ValidAnnotatedEditOperation) :
    (buffer.validateOperations raw).Pairwise fun a b => a.sortIndex < b.sortIndex := by
  rw [pairwise_iff_getElem]
  intro i j hi hj hlt
  simp only [validateOperations, getElem_mapIdx]
  exact hlt

theorem sortedOperations_perm (raw : List ValidAnnotatedEditOperation) :
    (buffer.sortedOperations raw).Perm (buffer.validateOperations raw) :=
  mergeSort_perm _ _

theorem sortedOperations_sorted (raw : List ValidAnnotatedEditOperation) :
    (buffer.sortedOperations raw).Pairwise fun a b => sortOpsAscending a b ≤ 0 := by
  have hpairwise := @pairwise_mergeSort _ (fun a b => sortOpsAscending a b ≤ 0)
    (by
      intro a b c hab hbc
      rw [decide_eq_true_eq] at *
      exact sortOpsAscending_trans hab hbc)
    (by
      intro a b
      rw [Bool.or_eq_true, decide_eq_true_eq, decide_eq_true_eq]
      exact sortOpsAscending_total a b) (buffer.validateOperations raw)
  exact hpairwise.imp fun h => of_decide_eq_true h

section Raw

variable {raw : List ValidAnnotatedEditOperation}

theorem sortedOperations_checked (hEOL : buffer.EOL = eol)
    (hranges : ∀ op ∈ raw, CutRange eol buffer.text op.range) :
    ∀ op ∈ buffer.sortedOperations raw, Checked eol buffer op := by
  intro op hop
  obtain ⟨i, hi, rfl⟩ := mem_mapIdx.mp ((sortedOperations_perm raw).mem_iff.mp hop)
  exact checked_validate hEOL (hranges _ (getElem_mem hi)) i

theorem map_validate {β : Type} {g : IValidatedEditOperation → β}
    {g' : ValidAnnotatedEditOperation → β} (h : ∀ i op, g (buffer.validateOperation i op) = g' op) :
    (buffer.validateOperations raw).map g = raw.map g' := by
  refine ext_getElem ?_ fun i hi hi' => ?_
  · rw [length_map, length_map, validateOperations, length_mapIdx]
  · simp only [validateOperations, getElem_map, getElem_mapIdx, h]

theorem cutRange_order {range : Range} (h : CutRange eol buffer.text range) :
    range.getStartPosition.isBeforeOrEqual range.getEndPosition = true := by
  obtain ⟨front, old, back, -, hfront, -, -, rfl⟩ := h
  exact isBeforeOrEqual_append hfront old

theorem sortedOperations_apart (hapart : raw.Pairwise fun a b => Apart a.range b.range) :
    (buffer.sortedOperations raw).Pairwise fun a b => Apart a.range b.range := by
  have hranges := @map_validate buffer raw Range IValidatedEditOperation.range
    ValidAnnotatedEditOperation.range fun _ _ => rfl
  have hvalidated : ((buffer.validateOperations raw).map IValidatedEditOperation.range).Pairwise
      Apart := by
    rw [hranges, pairwise_map]
    exact hapart
  rw [pairwise_map] at hvalidated
  exact ((sortedOperations_perm raw).pairwise_iff fun h => Apart.symm h).mpr hvalidated

theorem apart_of_layout (h : Layout eol buffer (buffer.sortedOperations raw) touching cuts tail) :
    raw.Pairwise fun a b => Apart a.range b.range := by
  have hsorted := newRanges_apart (normal_swap h.normal) .nil
  rw [← (fitAll_ranges h.fit).2, pairwise_map] at hsorted
  have hvalidated := ((sortedOperations_perm raw).pairwise_iff fun h => Apart.symm h).mp hsorted
  have hranges := @map_validate buffer raw Range IValidatedEditOperation.range
    ValidAnnotatedEditOperation.range fun _ _ => rfl
  rw [← pairwise_map (R := Apart), hranges, pairwise_map] at hvalidated
  exact hvalidated

theorem layout_of_findTouching (hbuffer : Normalized eol buffer)
    (hranges : ∀ op ∈ raw, CutRange eol buffer.text op.range)
    (hok : findTouching false (buffer.sortedOperations raw) = .ok touching) :
    ∃ cuts tail, Layout eol buffer (buffer.sortedOperations raw) touching cuts tail ∧
      replaceAll (raw.map buffer.replacementOf) buffer.text = Cut.target tail cuts := by
  have hchecked := sortedOperations_checked hbuffer.EOL hranges
  obtain ⟨cuts, tail, htext, hfit, hcuts, htail, hgaps⟩ := exists_cuts hchecked hok
    (show buffer.text = [] ++ buffer.text from rfl) .nil hbuffer.text (fun op hop => by
      obtain ⟨front, old, back, -, -, -, -, hrange⟩ := (hchecked op (mem_of_mem_head? hop)).range
      have hle := Position.isBeforeOrEqual_iff.mp
        (isBeforeOrEqual_append (Normal.nil : Normal eol []) front)
      have hstart : op.range.getStartPosition = endPosition front := by
        rw [hrange]
        rfl
      rw [nil_append] at hle
      rw [hstart, ← Bool.not_eq_true, Position.isBefore_iff]
      omega)
  have hsorted := @sortedOperations_sorted buffer raw
  have hindex := @validate_index buffer raw
  have hindexed : Indexed (buffer.sortedOperations raw) := by
    intro a ha b hb
    exact indexed_of_pairwise hindex a ((sortedOperations_perm raw).mem_iff.mp ha) b
      ((sortedOperations_perm raw).mem_iff.mp hb)
  have hreplaced := replaceAll_sorted (sortedOperations_perm raw) hindex hsorted hchecked hfit
    hbuffer.EOL hcuts htext
  have hsame : (buffer.validateOperations raw).map
      (fun op => buffer.replacementAt op.range op.text) = raw.map buffer.replacementOf := by
    refine map_validate fun i op => ?_
    have hvalid : (buffer.validateOperation i op).text =
        replaceEOL buffer.EOL (op.text.getD []) := validText_eq _ _
    rw [replacementAt, hvalid, (normal_replaceEOL _ _).replaceEOL_eq]
    rfl
  rw [hsame] at hreplaced
  exact ⟨cuts, tail, ⟨htext, hfit, hcuts, htail, hsorted, hindexed, hgaps⟩, hreplaced⟩

end Raw

/-! ## One operation for all -/

theorem new_between {p q : Position} (h : p.isBeforeOrEqual q = true) :
    Range.new p.lineNumber p.column q.lineNumber q.column = .between p q := by
  rw [Position.isBeforeOrEqual_iff] at h
  rw [Range.new, if_neg (by omega)]
  rfl

theorem mergedText_eq {tail : JsString} {cuts : List (Cut CodeUnit)}
    {operations : List IValidatedEditOperation} (hfit : FitAll front cuts operations)
    (hcuts : ∀ c ∈ cuts, NormalCut eol c) (hfront : Normal eol front)
    (hnormalized : buffer.EOLNormalized = true)
    (htext : buffer.text = front ++ Cut.source tail cuts) :
    buffer.mergedText (endPosition front) operations = cuts.flatMap fun c => c.gap ++ c.new := by
  induction hfit with
  | nil => rfl
  | @cons front c op cuts operations h hrest ih =>
    have hc := hcuts c mem_cons_self
    have hgap := hfront.append hc.gap
    have hsplit : buffer.text = front ++ (c.gap ++ (c.old ++ Cut.source tail cuts)) := htext
    have hbehind : buffer.text = front ++ c.gap ++ c.old ++ Cut.source tail cuts := by
      rw [hsplit]
      simp only [append_assoc]
    have hstart : op.range.getStartPosition = endPosition (front ++ c.gap) := by
      rw [h.range]
      rfl
    have hend : op.range.getEndPosition = endPosition (front ++ c.gap ++ c.old) := by
      rw [h.range]
      rfl
    have hnew := new_between (isBeforeOrEqual_append hfront c.gap)
    rw [← hstart] at hnew
    have hvalue := getValueInRange_between hnormalized hsplit hfront hc.gap
    rw [← hstart, ← hnew] at hvalue
    have hmore := ih (fun d hd => hcuts d (mem_cons_of_mem _ hd)) (hgap.append hc.old) hbehind
    rw [mergedText, hend, hmore, h.text, flatMap_cons, append_assoc]
    exact congrArg (· ++ (c.new ++ cuts.flatMap fun c => c.gap ++ c.new)) hvalue

theorem last_end {c : Cut CodeUnit} {cuts : List (Cut CodeUnit)}
    {rest : List IValidatedEditOperation} (hfirst : Fits front c first)
    (hrest : FitAll (front ++ c.gap ++ c.old) cuts rest) :
    (rest.getLastD first).range.getEndPosition =
      endPosition (front ++ c.gap ++ (c.old ++ cuts.flatMap fun d => d.gap ++ d.old)) := by
  induction rest generalizing front c cuts first with
  | nil =>
    cases hrest
    rw [getLastD_nil, flatMap_nil, append_nil, hfirst.range]
    rfl
  | cons next rest ih =>
    cases hrest with
    | @cons _ d _ cuts _ hnext hrest =>
      rw [getLastD_cons, ih hnext hrest, flatMap_cons]
      simp only [append_assoc]

theorem fits_toSingle (hbuffer : Normalized eol buffer)
    (hfit : FitAll [] (c :: cuts) (first :: rest)) (hcuts : ∀ d ∈ c :: cuts, NormalCut eol d)
    (htext : buffer.text = Cut.source tail (c :: cuts)) :
    NormalCut eol (c.join cuts) ∧
      Fits [] (c.join cuts) (buffer.toSingleEditOperation first rest) := by
  have hc := hcuts c mem_cons_self
  have hcut : NormalCut eol (c.join cuts) := by
    have hmiddle : ∀ part : Cut CodeUnit → JsString, (∀ d ∈ cuts, Normal eol (part d)) →
        Normal eol (cuts.flatMap fun d => d.gap ++ part d) := by
      intro part hpart
      have hall : ∀ d ∈ cuts, Normal eol (d.gap ++ part d) := fun d hd =>
        (hcuts d (mem_cons_of_mem _ hd)).gap.append (hpart d hd)
      clear hfit hcuts htext hpart
      induction cuts with
      | nil => exact .nil
      | cons d cuts ih =>
        rw [flatMap_cons]
        exact (hall d mem_cons_self).append (ih fun x hx => hall x (mem_cons_of_mem _ hx))
    exact ⟨hc.gap, hc.old.append (hmiddle Cut.old fun d hd => (hcuts d (mem_cons_of_mem _ hd)).old),
      hc.new.append (hmiddle Cut.new fun d hd => (hcuts d (mem_cons_of_mem _ hd)).new)⟩
  refine ⟨hcut, ?_⟩
  cases hfit with
  | cons hfirst hrest =>
    have hsource : buffer.text = c.gap ++ ((c.join cuts).old ++ tail) := by
      rw [htext, ← source_join]
      rfl
    have hstart : first.range.getStartPosition = endPosition c.gap := by
      rw [hfirst.range]
      rfl
    have hlast : (rest.getLastD first).range.getEndPosition =
        endPosition (c.gap ++ (c.join cuts).old) := last_end hfirst hrest
    have hrange := new_between (isBeforeOrEqual_append hc.gap (c.join cuts).old)
    rw [← hlast, ← hstart] at hrange
    have hentire : (buffer.toSingleEditOperation first rest).range =
        .between (endPosition c.gap) (endPosition (c.gap ++ (c.join cuts).old)) := by
      rw [← hlast, ← hstart]
      exact hrange
    have hbehind : buffer.text = [] ++ c.gap ++ c.old ++ Cut.source tail cuts := by
      rw [htext, Cut.source, nil_append, append_assoc]
    have hmore := mergedText_eq hrest (fun d hd => hcuts d (mem_cons_of_mem _ hd))
      (hc.gap.append hc.old) hbuffer.EOLNormalized hbehind
    have hend : first.range.getEndPosition = endPosition ([] ++ c.gap ++ c.old) := by
      rw [hfirst.range]
      rfl
    have hnothing : buffer.getValueInRange (Range.new first.range.getStartPosition.lineNumber
        first.range.getStartPosition.column first.range.startLineNumber
        first.range.startColumn) = [] := by
      have hself := new_between (isBeforeOrEqual_append hc.gap [])
      rw [append_nil, ← hstart] at hself
      have hempty : (between first.range.getStartPosition
          first.range.getStartPosition).isEmpty = true := by simp [Range.isEmpty, between]
      have hstarting : first.range.startLineNumber = first.range.getStartPosition.lineNumber := rfl
      have hstarting' : first.range.startColumn = first.range.getStartPosition.column := rfl
      rw [hstarting, hstarting', hself, getValueInRange, if_pos hempty]
    refine ⟨hentire, ?_, ?_, ?_, fun p => advance_countEOL p _⟩
    · have hoffset := getOffsetAt_endPosition hsource hc.gap
      have hstarts : (buffer.toSingleEditOperation first rest).rangeOffset = buffer.getOffsetAt
          (buffer.toSingleEditOperation first rest).range.startLineNumber
          (buffer.toSingleEditOperation first rest).range.startColumn := rfl
      rw [hstarts, hentire]
      exact hoffset
    · have hlength := getValueLengthInRange_between hsource hc.gap hcut.old
      rw [← hentire] at hlength
      exact hlength
    · have hmerged : buffer.mergedText first.range.getStartPosition (first :: rest) =
          (c.join cuts).new := by
        rw [mergedText, hnothing, hfirst.text, hend, hmore]
        rfl
      exact hmerged

theorem layout_toSingle {touching : Bool} {cuts : List (Cut CodeUnit)} {tail : JsString}
    {rest : List IValidatedEditOperation} (hbuffer : Normalized eol buffer)
    (h : Layout eol buffer (first :: rest) touching cuts tail) :
    ∃ c, Layout eol buffer [buffer.toSingleEditOperation first rest] touching [c] tail ∧
      Cut.target tail [c] = Cut.target tail cuts := by
  obtain ⟨htext, hfit, hcuts, htail, -, -, -⟩ := h
  cases cuts with
  | nil => cases hfit
  | cons c cuts =>
    obtain ⟨hcut, hfits⟩ := fits_toSingle hbuffer hfit hcuts htext
    refine ⟨c.join cuts, ⟨?_, .cons hfits (.nil _), ?_, htail, pairwise_singleton _ _, ?_, ?_⟩,
      target_join tail c cuts⟩
    · rw [htext, source_join]
    · intro d hd
      rw [mem_singleton.mp hd]
      exact hcut
    · intro a ha b hb _
      rw [mem_singleton.mp ha, mem_singleton.mp hb]
    · exact nofun

theorem layout_reduce (hbuffer : Normalized eol buffer)
    (h : Layout eol buffer operations touching cuts tail) :
    ∃ cuts', Layout eol buffer (buffer.reduceOperations operations) touching cuts' tail ∧
      Cut.target tail cuts' = Cut.target tail cuts := by
  rw [reduceOperations.eq_def]
  split_ifs with hfew
  · exact ⟨cuts, h, rfl⟩
  · cases operations with
    | nil => exact ⟨cuts, h, rfl⟩
    | cons first rest =>
      obtain ⟨c, hlayout, htarget⟩ := layout_toSingle hbuffer h
      exact ⟨[c], hlayout, htarget⟩

/-! ## Applying and undoing -/

theorem foldl_noteText (texts : List JsString) (b : TextBuffer) :
    (texts.foldl noteText b).text = b.text ∧ (texts.foldl noteText b).EOL = b.EOL ∧
    (texts.foldl noteText b).EOLNormalized = b.EOLNormalized := by
  induction texts generalizing b with
  | nil => exact ⟨rfl, rfl, rfl⟩
  | cons text texts ih =>
    have hnoted : (b.noteText text).text = b.text ∧ (b.noteText text).EOL = b.EOL ∧
        (b.noteText text).EOLNormalized = b.EOLNormalized := by
      rw [noteText]
      split_ifs <;> exact ⟨rfl, rfl, rfl⟩
    obtain ⟨htext, hEOL, hnormalized⟩ := ih (b.noteText text)
    exact ⟨htext.trans hnoted.1, hEOL.trans hnoted.2.1, hnormalized.trans hnoted.2.2⟩

theorem applySorted_spec (hbuffer : Normalized eol buffer)
    (h : Layout eol buffer operations touching cuts tail) (texts : List JsString)
    (recordTrimAutoWhitespace computeUndoEdits : Bool) :
    (buffer.applySorted texts touching operations recordTrimAutoWhitespace
      computeUndoEdits).2.text = Cut.target tail cuts ∧
    Normalized eol (buffer.applySorted texts touching operations recordTrimAutoWhitespace
      computeUndoEdits).2 := by
  obtain ⟨htext, hEOL, hnormalized⟩ := foldl_noteText texts buffer
  obtain ⟨hafter, hEOL', hnormalized'⟩ := doApplyEdits_spec h.fit h.normal h.sorted h.indexed
    (htext.trans h.text)
  refine ⟨hafter, (hEOL'.trans hEOL).trans hbuffer.EOL,
    (hnormalized'.trans hnormalized).trans hbuffer.EOLNormalized, ?_⟩
  have hnormal := normal_target h.normal h.tail
  rw [← hafter] at hnormal
  exact hnormal

variable {raw : List ValidAnnotatedEditOperation}

theorem applyEdits_text (hbuffer : Normalized eol buffer)
    (hranges : ∀ op ∈ raw, CutRange eol buffer.text op.range)
    (hapart : raw.Pairwise fun a b => Apart a.range b.range)
    (recordTrimAutoWhitespace computeUndoEdits : Bool) :
    ∃ touching operations cuts tail, Layout eol buffer operations touching cuts tail ∧
      buffer.applyEdits raw recordTrimAutoWhitespace computeUndoEdits =
        (.ok (buffer.applySorted (raw.map fun op => op.text.getD []) touching operations
          recordTrimAutoWhitespace computeUndoEdits).1,
        (buffer.applySorted (raw.map fun op => op.text.getD []) touching operations
          recordTrimAutoWhitespace computeUndoEdits).2) ∧
      Cut.target tail cuts = replaceAll (raw.map buffer.replacementOf) buffer.text := by
  have hchecked := sortedOperations_checked hbuffer.EOL hranges
  obtain ⟨touching, hok⟩ := findTouching_ok (sortedOperations_sorted raw) (sortedOperations_apart hapart)
    (fun op hop => cutRange_order (hchecked op hop).range) false
  obtain ⟨cuts, tail, hlayout, hreplaced⟩ := layout_of_findTouching hbuffer hranges hok
  rw [applyEdits]
  simp only [hok]
  by_cases htracked : (!raw.any ValidAnnotatedEditOperation.isTracked) = true
  · obtain ⟨cuts', hlayout', htarget⟩ := layout_reduce hbuffer hlayout
    rw [if_pos htracked]
    exact ⟨touching, _, cuts', tail, hlayout', rfl, htarget.trans hreplaced.symm⟩
  · rw [if_neg htracked]
    exact ⟨touching, _, cuts, tail, hlayout, rfl, hreplaced.symm⟩

def Restores (buffer : TextBuffer) (reverse : List IReverseSingleEditOperation) (text : JsString) :
    Prop :=
  ∀ (raw : List ValidAnnotatedEditOperation) (recordTrimAutoWhitespace computeUndoEdits : Bool),
    raw.map (fun op => (op.range, op.text)) = reverse.map (fun r => (r.range, some r.text)) →
    ∃ result after, buffer.applyEdits raw recordTrimAutoWhitespace computeUndoEdits =
      (.ok result, after) ∧ after.text = text

theorem newRanges_length (front : JsString) (cuts : List (Cut CodeUnit)) :
    (newRanges front cuts).length = cuts.length := by
  induction cuts generalizing front with
  | nil => rfl
  | cons c cuts ih => rw [newRanges, length_cons, ih, length_cons]

theorem reverseEdits_spec (hbuffer : Normalized eol buffer)
    (h : Layout eol buffer operations touching cuts tail) :
    ∃ reverse : List IReverseSingleEditOperation,
      (buffer.reverseEdits touching operations (getInverseEditRanges operations)).Perm reverse ∧
      (touching = true →
        buffer.reverseEdits touching operations (getInverseEditRanges operations) = reverse) ∧
      reverse.map (fun r => (r.range, r.text)) = (newRanges [] cuts).zip (cuts.map Cut.old) ∧
      reverse.map IReverseSingleEditOperation.textChange = Cut.changes 0 0 cuts := by
  have hinverse : getInverseEditRanges operations = newRanges [] cuts :=
    inverseEditRanges_eq h.fit h.normal .nil .nil rfl
  obtain ⟨hranges, hchanges, -⟩ := @reverseOperations_eq buffer eol [] [] tail cuts operations h.fit
    h.normal .nil hbuffer.EOLNormalized h.text 0
  rw [hinverse]
  refine ⟨_, ?_, ?_, hranges, hchanges⟩
  · rw [reverseEdits]
    split_ifs
    · exact List.Perm.refl _
    · exact mergeSort_perm _ _
  · rintro rfl
    rfl

theorem reverseEdits_restore (hbuffer : Normalized eol buffer)
    (h : Layout eol buffer operations touching cuts tail) {after : TextBuffer}
    (hafter : Normalized eol after) (htext : after.text = Cut.target tail cuts) :
    Restores after (buffer.reverseEdits touching operations (getInverseEditRanges operations))
      buffer.text := by
  obtain ⟨reverse, hperm, hsame, hranges, -⟩ := reverseEdits_spec hbuffer h
  intro raw recordTrimAutoWhitespace computeUndoEdits hraw
  have hnewRanges : reverse.map IReverseSingleEditOperation.range = newRanges [] cuts := by
    have hfst := congrArg (map Prod.fst) hranges
    rw [map_map, map_fst_zip (by rw [newRanges_length, length_map])] at hfst
    exact hfst
  have hrawRanges : (raw.map ValidAnnotatedEditOperation.range).Perm (newRanges [] cuts) := by
    have hfst := congrArg (map Prod.fst) hraw
    rw [map_map, map_map] at hfst
    have hmapped := hperm.map IReverseSingleEditOperation.range
    rw [hnewRanges] at hmapped
    exact (List.Perm.of_eq hfst).trans hmapped
  have hcutRanges : ∀ op ∈ raw, CutRange eol after.text op.range := fun op hop =>
    newRanges_cutRange h.normal .nil h.tail htext _ (hrawRanges.mem_iff.mp (mem_map_of_mem hop))
  have hapart : raw.Pairwise fun a b => Apart a.range b.range := by
    rw [← pairwise_map (R := Apart)]
    exact (hrawRanges.pairwise_iff fun h => Apart.symm h).mpr (newRanges_apart h.normal .nil)
  obtain ⟨touching', operations', cuts', tail', hlayout, happlied, htarget⟩ :=
    applyEdits_text hafter hcutRanges hapart recordTrimAutoWhitespace computeUndoEdits
  refine ⟨_, _, happlied, ?_⟩
  rw [(applySorted_spec hafter hlayout _ _ _).1, htarget]
  have hreplacements : reverse.map (fun r => after.replacementAt r.range r.text) =
      Cut.replacements 0 (cuts.map Cut.swap) := by
    have hzip := replacementAt_cuts hafter.EOL h.normal .nil htext
    rw [← hranges, map_map] at hzip
    exact hzip
  have hrawReplacements : raw.map after.replacementOf =
      (buffer.reverseEdits touching operations (getInverseEditRanges operations)).map
        (fun r => after.replacementAt r.range r.text) := by
    have hmapped := congrArg (map fun x : Range × Option JsString =>
      after.replacementAt x.1 (x.2.getD [])) hraw
    rw [map_map, map_map] at hmapped
    exact hmapped
  have hsource : replaceAll (Cut.replacements 0 (cuts.map Cut.swap)) after.text = buffer.text := by
    rw [htext, h.text, ← target_swap, ← source_swap]
    exact replaceFrom_replacements 0 (cuts.map Cut.swap) tail
  rw [hrawReplacements]
  cases touching with
  | true => rw [hsame rfl, hreplacements, hsource]
  | false =>
    have hgaps : ∀ c ∈ (cuts.map Cut.swap).tail, c.gap ≠ [] := by
      intro c hc
      rw [← map_tail] at hc
      obtain ⟨d, hd, rfl⟩ := mem_map.mp hc
      exact h.gaps rfl d hd
    have hstarts := @Cut.replacements_starts _ 0 _ hgaps
    rw [← hreplacements] at hstarts
    have hreordered := hperm.map fun r => after.replacementAt r.range r.text
    rw [← replaceAll_perm_of_starts hreordered.symm hstarts, hreplacements, hsource]

theorem applySorted_restores (hbuffer : Normalized eol buffer)
    (h : Layout eol buffer operations touching cuts tail) (texts : List JsString)
    (recordTrimAutoWhitespace : Bool) :
    ∃ reverse, (buffer.applySorted texts touching operations recordTrimAutoWhitespace
        true).1.reverseEdits = some reverse ∧
      Restores (buffer.applySorted texts touching operations recordTrimAutoWhitespace true).2
        reverse buffer.text := by
  obtain ⟨hafter, hnormalized⟩ := applySorted_spec hbuffer h texts recordTrimAutoWhitespace true
  exact ⟨_, rfl, reverseEdits_restore hbuffer h hnormalized hafter⟩

theorem applyEdits_overlapping (hbuffer : Normalized eol buffer)
    (hranges : ∀ op ∈ raw, CutRange eol buffer.text op.range)
    (hoverlap : ¬raw.Pairwise fun a b => Apart a.range b.range)
    (recordTrimAutoWhitespace computeUndoEdits : Bool) :
    buffer.applyEdits raw recordTrimAutoWhitespace computeUndoEdits =
      (.error "Overlapping ranges are not allowed!", buffer) := by
  rw [applyEdits]
  cases hfound : findTouching false (buffer.sortedOperations raw) with
  | error message => rw [findTouching_error hfound]
  | ok touching =>
    obtain ⟨cuts, tail, hlayout, -⟩ := layout_of_findTouching hbuffer hranges hfound
    exact absurd (apart_of_layout hlayout) hoverlap

/-- Operations on a buffer with one kind of line end: they leave what the replacements leave
that are carried out at once, their reverse operations give the old text back, one operation
for all of them does the same, and overlapping ones are refused. -/
theorem applyEdits_simultaneous {buffer : TextBuffer} (hbuffer : Normalized buffer.EOL buffer)
    {raw : List ValidAnnotatedEditOperation} (hranges : ∀ op ∈ raw, ValidRange buffer.text op.range)
    (recordTrimAutoWhitespace computeUndoEdits : Bool) :
    (raw.Pairwise (fun a b => Apart a.range b.range) →
      (∃ result after, buffer.applyEdits raw recordTrimAutoWhitespace computeUndoEdits =
          (.ok result, after) ∧
        after.text = replaceAll (raw.map buffer.replacementOf) buffer.text ∧
        Normalized buffer.EOL after ∧
        (computeUndoEdits = true → ∃ reverse, result.reverseEdits = some reverse ∧
          Restores after reverse buffer.text)) ∧
      ∀ first rest touching texts, buffer.sortedOperations raw = first :: rest →
        findTouching false (first :: rest) = .ok touching →
        let direct := buffer.applySorted texts touching (first :: rest) recordTrimAutoWhitespace true
        let collapsed := buffer.applySorted texts touching
          [buffer.toSingleEditOperation first rest] recordTrimAutoWhitespace true
        direct.2.text = replaceAll (raw.map buffer.replacementOf) buffer.text ∧
        collapsed.2.text = direct.2.text ∧
        (∃ reverse, direct.1.reverseEdits = some reverse ∧ Restores direct.2 reverse buffer.text) ∧
        ∃ reverse, collapsed.1.reverseEdits = some reverse ∧
          Restores collapsed.2 reverse buffer.text) ∧
    (¬raw.Pairwise (fun a b => Apart a.range b.range) →
      buffer.applyEdits raw recordTrimAutoWhitespace computeUndoEdits =
        (.error "Overlapping ranges are not allowed!", buffer)) := by
  have hcutRanges : ∀ op ∈ raw, CutRange buffer.EOL buffer.text op.range := fun op hop =>
    cutRange_of_valid hbuffer.text (hranges op hop)
  refine ⟨fun hapart => ⟨?_, ?_⟩, fun hoverlap =>
    applyEdits_overlapping hbuffer hcutRanges hoverlap _ _⟩
  · obtain ⟨touching, operations, cuts, tail, hlayout, happlied, htarget⟩ :=
      applyEdits_text hbuffer hcutRanges hapart recordTrimAutoWhitespace computeUndoEdits
    obtain ⟨hafter, hnormalized⟩ := applySorted_spec hbuffer hlayout
      (raw.map fun op => op.text.getD []) recordTrimAutoWhitespace computeUndoEdits
    refine ⟨_, _, happlied, hafter.trans htarget, hnormalized, ?_⟩
    rintro rfl
    exact applySorted_restores hbuffer hlayout _ recordTrimAutoWhitespace
  · intro first rest touching texts hsorted hok
    rw [← hsorted] at hok
    obtain ⟨cuts, tail, hlayout, hreplaced⟩ := layout_of_findTouching hbuffer hcutRanges hok
    rw [hsorted] at hlayout
    obtain ⟨c, hsingle, htarget⟩ := layout_toSingle hbuffer hlayout
    have hdirect := (applySorted_spec hbuffer hlayout texts recordTrimAutoWhitespace true).1
    have hcollapsed := (applySorted_spec hbuffer hsingle texts recordTrimAutoWhitespace true).1
    exact ⟨hdirect.trans hreplaced.symm, hcollapsed.trans (htarget.trans hdirect.symm),
      applySorted_restores hbuffer hlayout texts recordTrimAutoWhitespace,
      applySorted_restores hbuffer hsingle texts recordTrimAutoWhitespace⟩

/-- Two touching inserts behind a deleted part, given before it, in `ab`, `c`. -/
theorem applyEdits_simultaneous_sample :
    ∃ buffer : TextBuffer, buffer.text = [97, 98, 10, 99] ∧ ∃ raw result after reverse,
      buffer.applyEdits raw true true = (.ok result, after) ∧ after.text = [97, 121, 122, 10, 99] ∧
      result.reverseEdits = some reverse ∧ Restores after reverse buffer.text := by
  have hnormal : Normal .lf [97, 98, 10, 99] := normal_iff.mpr (by decide)
  have hranges : ∀ op ∈ ([⟨none, ⟨2, 1, 2, 1⟩, some [121], false, false, false⟩,
      ⟨none, ⟨1, 2, 2, 1⟩, none, false, false, false⟩,
      ⟨none, ⟨2, 1, 2, 1⟩, some [122, 13], false, false, false⟩] :
        List ValidAnnotatedEditOperation), ValidRange [97, 98, 10, 99] op.range := by
    have hsecond : ValidPosition [97, 98, 10, 99] ⟨2, 1⟩ :=
      ⟨by decide, by decide, [99], by decide, by decide⟩
    have hfirst : ValidPosition [97, 98, 10, 99] ⟨1, 2⟩ :=
      ⟨by decide, by decide, [97, 98], by decide, by decide⟩
    intro op hop
    simp only [mem_cons, not_mem_nil, or_false] at hop
    rcases hop with rfl | rfl | rfl
    · exact ⟨hsecond, hsecond, by decide⟩
    · exact ⟨hfirst, hsecond, by decide⟩
    · exact ⟨hsecond, hsecond, by decide⟩
  obtain ⟨⟨result, after, happlied, htext, -, hreverse⟩, -⟩ :=
    (@applyEdits_simultaneous ⟨[97, 98, 10, 99], .lf, true, false, false, false⟩
      ⟨rfl, rfl, hnormal⟩ _ hranges true true).1 (by
        refine List.Pairwise.cons ?_ (List.Pairwise.cons ?_ (pairwise_singleton _ _))
        · intro op hop
          simp only [mem_cons, not_mem_nil, or_false] at hop
          rcases hop with rfl | rfl
          · exact .inr (by decide)
          · exact .inl (by decide)
        · intro op hop
          rw [mem_singleton.mp hop]
          exact .inl (by decide))
  obtain ⟨reverse, hsome, hrestores⟩ := hreverse rfl
  exact ⟨_, rfl, _, result, after, reverse, happlied, htext.trans (by decide), hsome, hrestores⟩

end TextBuffer

end Fumie.Editor
