import Fumie.Editor.Core.TextLength
import Fumie.Editor.Edits.StringEdit

/-!
# Positions and offsets

The transformer of a text keeps the offsets at which its lines start and end; a carriage
return in front of a line feed does not belong to the line. A position that passes its check
is one that some front part of the text walks to, and its offset is the length of that part.
-/

namespace Fumie.Editor

open Fumie.Lib Fumie.Base List Position Bool

def countMonotonous (predicate : Nat → Bool) (i j : Nat) : Nat :=
  if h : i < j then
    if predicate ((i + j) / 2) then countMonotonous predicate ((i + j) / 2 + 1) j
    else countMonotonous predicate i ((i + j) / 2)
  else i
termination_by j - i
decreasing_by
  · omega
  · omega

def findLastIdxMonotonous (array : List Nat) (predicate : Nat → Bool) : Int :=
  countMonotonous (fun k => predicate (array.getD k 0)) 0 array.length - 1

variable {position : Position} {afterReturn : Bool} {front back : JsString}

namespace PositionOffsetTransformer

def lineStartsFrom (i : Nat) : JsString → List Nat
  | [] => []
  | u :: rest =>
    if u = lineFeed then (i + 1) :: lineStartsFrom (i + 1) rest else lineStartsFrom (i + 1) rest

def lineEndsFrom (i : Nat) (afterReturn : Bool) : JsString → List Nat
  | [] => [i]
  | u :: rest =>
    if u = lineFeed then
      (if afterReturn then i - 1 else i) :: lineEndsFrom (i + 1) false rest
    else lineEndsFrom (i + 1) (u = carriageReturn) rest

section

variable (text : JsString)

def lineStartOffsetByLineIdx : List Nat := 0 :: lineStartsFrom 0 text

def lineEndOffsetByLineIdx : List Nat := lineEndsFrom 0 false text

def textLength : TextLength :=
  ⟨(lineStartOffsetByLineIdx text).length - 1, text.length - (lineStartOffsetByLineIdx text).getD
      ((lineStartOffsetByLineIdx text).length - 1) 0⟩

def getLineLength (lineNumber : Nat) : Nat :=
  (lineEndOffsetByLineIdx text).getD (lineNumber - 1) 0 -
    (lineStartOffsetByLineIdx text).getD (lineNumber - 1) 0

def validatePosition (position : Position) : Position :=
  if position.lineNumber < 1 then ⟨1, 1⟩
  else if (textLength text).lineCount + 1 < position.lineNumber then
    ⟨(textLength text).lineCount + 1, getLineLength text ((textLength text).lineCount + 1) + 1⟩
  else if position.column < 1 then ⟨position.lineNumber, 1⟩
  else if getLineLength text position.lineNumber < position.column - 1 then
    ⟨position.lineNumber, getLineLength text position.lineNumber + 1⟩
  else position

def getOffset (position : Position) : Nat :=
  (lineStartOffsetByLineIdx text).getD ((validatePosition text position).lineNumber - 1) 0 +
    (validatePosition text position).column - 1

def getPosition (offset : Int) : Position :=
  ⟨(findLastIdxMonotonous (lineStartOffsetByLineIdx text) (fun i => i ≤ offset) + 1).toNat,
    (offset - (lineStartOffsetByLineIdx text).getD
      (findLastIdxMonotonous (lineStartOffsetByLineIdx text) fun i => i ≤ offset).toNat 0 +
        1).toNat⟩

def getOffsetRange (range : Range) : Option OffsetRange :=
  OffsetRange.new (getOffset text range.getStartPosition) (getOffset text range.getEndPosition)

end

/-! ## Lines -/

def lineWalk (p : Position) (i idx offset lineStart : Nat) : Position :=
  if idx = 0 then ⟨p.lineNumber, p.column + (offset - i)⟩
  else ⟨p.lineNumber + idx, offset - lineStart + 1⟩

theorem line_split (p : Position) (i : Nat) (afterReturn : Bool) (text : JsString)
    {idx offset : Nat} (hidx : idx < (lineStartsFrom i text).length + 1)
    (hstart : (i :: lineStartsFrom i text).getD idx 0 ≤ offset)
    (hend : offset ≤ (lineEndsFrom i afterReturn text).getD idx 0) :
    ∃ front back, text = front ++ back ∧ i + front.length = offset ∧ p.walk front =
        lineWalk p i idx offset ((i :: lineStartsFrom i text).getD idx 0) := by
  induction text generalizing p i afterReturn idx with
  | nil =>
    obtain rfl : idx = 0 := by
      have hlt : idx < 1 := hidx
      omega
    have hle : i ≤ offset := hstart
    have hge : offset ≤ i := hend
    obtain rfl : offset = i := by omega
    refine ⟨[], [], rfl, rfl, ?_⟩
    rw [lineWalk, if_pos rfl, Nat.sub_self]
    rfl
  | cons u text ih =>
    by_cases hfeed : u = lineFeed
    · rw [lineStartsFrom, if_pos hfeed] at hidx hstart ⊢
      rw [lineEndsFrom, if_pos hfeed] at hend
      cases idx with
      | zero =>
        have hle : i ≤ offset := hstart
        have hge : offset ≤ if afterReturn then i - 1 else i := hend
        obtain rfl : offset = i := by
          split_ifs at hge
          · omega
          · omega
        refine ⟨[], u :: text, rfl, rfl, ?_⟩
        rw [lineWalk, if_pos rfl, Nat.sub_self]
        rfl
      | succ idx =>
        obtain ⟨front, back, rfl, hlength, hwalk⟩ :=
          ih (p.nextUnit u) (i + 1) false (Nat.lt_of_succ_lt_succ hidx) hstart hend
        refine ⟨u :: front, back, rfl, ?_, ?_⟩
        · rw [length_cons]
          omega
        · rw [walk_cons, hwalk, nextUnit, if_pos hfeed, getD_cons_succ,
            lineWalk, lineWalk, if_neg (Nat.succ_ne_zero idx)]
          split_ifs with hzero
          · subst hzero
            rw [getD_cons_zero, Nat.zero_add, Nat.add_comm 1]
          · rw [Nat.add_assoc, Nat.add_comm 1]
    · rw [lineStartsFrom, if_neg hfeed] at hidx hstart ⊢
      rw [lineEndsFrom, if_neg hfeed] at hend
      cases idx with
      | zero =>
        have hle : i ≤ offset := hstart
        by_cases heq : offset = i
        · subst heq
          refine ⟨[], u :: text, rfl, rfl, ?_⟩
          rw [lineWalk, if_pos rfl, Nat.sub_self]
          rfl
        · have hnext : i + 1 ≤ offset := by omega
          obtain ⟨front, back, rfl, hlength, hwalk⟩ := ih (p.nextUnit u) (i + 1) _ hidx hnext hend
          refine ⟨u :: front, back, rfl, ?_, ?_⟩
          · rw [length_cons]
            omega
          · rw [walk_cons, hwalk, nextUnit, if_neg hfeed, lineWalk, lineWalk,
              if_pos rfl, if_pos rfl]
            have hcolumn : p.column + 1 + (offset - (i + 1)) = p.column + (offset - i) := by omega
            rw [hcolumn]
      | succ idx =>
        obtain ⟨front, back, rfl, hlength, hwalk⟩ := ih (p.nextUnit u) (i + 1) _ hidx hstart hend
        refine ⟨u :: front, back, rfl, ?_, ?_⟩
        · rw [length_cons]
          omega
        · rw [walk_cons, hwalk, nextUnit, if_neg hfeed, getD_cons_succ, getD_cons_succ, lineWalk,
            lineWalk, if_neg (Nat.succ_ne_zero idx), if_neg (Nat.succ_ne_zero idx)]

def IsPosition (text : JsString) (position : Position) : Prop :=
  1 ≤ position.lineNumber ∧ position.lineNumber ≤ (textLength text).lineCount + 1 ∧
    1 ≤ position.column ∧ position.column ≤ getLineLength text position.lineNumber + 1

instance (text : JsString) (position : Position) : Decidable (IsPosition text position) :=
  inferInstanceAs (Decidable (_ ∧ _))

theorem validatePosition_of_isPosition {text : JsString} (h : IsPosition text position) :
    validatePosition text position = position := by
  obtain ⟨hline, hlines, hcolumn, hcolumns⟩ := h
  rw [validatePosition, if_neg (by omega), if_neg (by omega), if_neg (by omega), if_neg (by omega)]

def Marks (text front : JsString) (position : Position) : Prop :=
  front <+: text ∧ position = walk ⟨1, 1⟩ front ∧ getOffset text position = front.length

theorem start_le_end (j i : Nat) (afterReturn : Bool) (text : JsString) {idx : Nat} (hj : j ≤ i)
    (hreturn : afterReturn = true → j < i) (hidx : idx < (lineStartsFrom i text).length + 1) :
    (j :: lineStartsFrom i text).getD idx 0 ≤ (lineEndsFrom i afterReturn text).getD idx 0 := by
  induction text generalizing j i afterReturn idx with
  | nil =>
    obtain rfl : idx = 0 := by
      have hlt : idx < 1 := hidx
      omega
    exact hj
  | cons u text ih =>
    by_cases hfeed : u = lineFeed
    · rw [lineStartsFrom, if_pos hfeed] at hidx ⊢
      rw [lineEndsFrom, if_pos hfeed]
      cases idx with
      | zero =>
        show j ≤ if afterReturn then i - 1 else i
        split_ifs with hafter
        · have hlt := hreturn hafter
          omega
        · exact hj
      | succ idx =>
        exact ih (i + 1) (i + 1) false (Nat.le_refl _) (fun h => absurd h false_ne_true)
          (Nat.lt_of_succ_lt_succ hidx)
    · rw [lineStartsFrom, if_neg hfeed] at hidx ⊢
      rw [lineEndsFrom, if_neg hfeed]
      exact ih j (i + 1) _ (Nat.le_succ_of_le hj) (fun _ => Nat.lt_succ_of_le hj) hidx

variable (text : JsString)

theorem lineCount_eq : (textLength text).lineCount = (lineStartsFrom 0 text).length := rfl

theorem marks_of_isPosition {text : JsString} (h : IsPosition text position) :
    ∃ front, Marks text front position := by
  have hvalid := validatePosition_of_isPosition h
  obtain ⟨hline, hlines, hcolumn, hcolumns⟩ := h
  rw [lineCount_eq] at hlines
  rw [getLineLength] at hcolumns
  have hidx : position.lineNumber - 1 < (lineStartsFrom 0 text).length + 1 := by omega
  have hle := start_le_end 0 0 false text (Nat.le_refl 0) (fun h => absurd h false_ne_true) hidx
  have hoffset : getOffset text position =
      (lineStartOffsetByLineIdx text).getD (position.lineNumber - 1) 0 + position.column - 1 := by
    rw [getOffset, hvalid]
  rw [lineStartOffsetByLineIdx] at hcolumns hoffset
  rw [lineEndOffsetByLineIdx] at hcolumns
  obtain ⟨front, back, hsplit, hlength, hwalk⟩ := line_split ⟨1, 1⟩ 0 false text hidx
    (show _ ≤ getOffset text position by omega) (by omega)
  refine ⟨front, ⟨back, hsplit.symm⟩, ?_, by omega⟩
  rw [hwalk, lineWalk]
  split_ifs with hzero
  · have hstart : (0 :: lineStartsFrom 0 text).getD (position.lineNumber - 1) 0 = 0 := by
      rw [hzero]
      rfl
    obtain ⟨lineNumber, column⟩ := position
    simp only at *
    rw [Position.mk.injEq]
    omega
  · obtain ⟨lineNumber, column⟩ := position
    simp only at *
    rw [Position.mk.injEq]
    omega

/-! ## From offsets to positions -/

theorem countMonotonous_eq {predicate : Nat → Bool} {count bound : Nat}
    (htrue : ∀ k < count, predicate k = true)
    (hfalse : ∀ k, count ≤ k → k < bound → predicate k = false) (i j : Nat) (hi : i ≤ count)
    (hcount : count ≤ j) (hj : j ≤ bound) : countMonotonous predicate i j = count := by
  induction i, j using countMonotonous.induct predicate with
  | case1 i j hlt htest ih =>
    rw [countMonotonous, dif_pos hlt, if_pos htest]
    refine ih ?_ hcount hj
    by_contra hle
    have hnot := hfalse ((i + j) / 2) (by omega) (by omega)
    rw [htest] at hnot
    cases hnot
  | case2 i j hlt htest ih =>
    rw [countMonotonous, dif_pos hlt, if_neg htest]
    refine ih hi ?_ (by omega)
    by_contra hle
    exact htest (htrue _ (by omega))
  | case3 i j hlt =>
    rw [countMonotonous, dif_neg hlt]
    omega

theorem lt_of_mem_lineStartsFrom {i start : Nat} {text : JsString}
    (h : start ∈ lineStartsFrom i text) : i < start := by
  induction text generalizing i with
  | nil => cases h
  | cons u text ih =>
    rw [lineStartsFrom] at h
    split_ifs at h
    · rcases mem_cons.mp h with rfl | h
      · exact Nat.lt_succ_self i
      · exact Nat.lt_of_succ_lt (ih h)
    · exact Nat.lt_of_succ_lt (ih h)

def PlainFeeds : JsString → Prop
  | [] => True
  | u :: rest => (u = carriageReturn → rest.head? ≠ some lineFeed) ∧ PlainFeeds rest

def Splits (afterReturn : Bool) (front back : JsString) : Prop :=
  front.getLast?.elim afterReturn (· = carriageReturn) = true ∧ back.head? = some lineFeed

theorem splits_cons {u : CodeUnit} :
    Splits afterReturn (u :: front) back ↔ Splits (u = carriageReturn) front back := by
  cases front with
  | nil | cons _ _ => exact Iff.rfl

theorem PlainFeeds.not_splits
    (hreturn : afterReturn = true → (front ++ back).head? ≠ some lineFeed)
    (h : PlainFeeds (front ++ back)) : ¬Splits afterReturn front back := by
  induction front generalizing afterReturn with
  | nil => exact fun hsplits => hreturn hsplits.1 hsplits.2
  | cons u front ih =>
    rw [splits_cons]
    exact ih (fun hu => h.1 (of_decide_eq_true hu)) h.2

variable (i : Nat)

theorem le_end_succ (afterReturn : Bool) (text : JsString) :
    i ≤ (lineEndsFrom (i + 1) afterReturn text).getD 0 0 := by
  induction text generalizing i afterReturn with
  | nil => exact Nat.le_succ i
  | cons u text ih =>
    rw [lineEndsFrom]
    split_ifs
    · exact Nat.le_refl i
    · exact Nat.le_succ i
    · exact Nat.le_of_succ_le (ih (i + 1) _)

theorem le_first_end (afterReturn : Bool) (text : JsString) (hreturn : afterReturn = true → 0 < i) :
    i ≤ (lineEndsFrom i afterReturn text).getD 0 0 ↔ ¬Splits afterReturn [] text := by
  cases text with
  | nil => exact iff_of_true (Nat.le_refl i) fun h => Option.some_ne_none _ h.2.symm
  | cons u text =>
    rw [lineEndsFrom]
    split_ifs with hfeed hafter
    · have hpos := hreturn hafter
      refine iff_of_false (fun hle : i ≤ i - 1 => ?_) fun h => h ⟨hafter, congrArg some hfeed⟩
      omega
    · exact iff_of_true (Nat.le_refl i) fun h => hafter h.1
    · exact iff_of_true (le_end_succ i _ text) fun h => hfeed (Option.some.inj h.2)

theorem line_of_front (p : Position) (i : Nat) (front back : JsString) :
    ∃ idx < (lineStartsFrom i (front ++ back)).length + 1,
      (∀ k ≤ idx, (i :: lineStartsFrom i (front ++ back)).getD k 0 ≤ i + front.length) ∧
      (∀ k, idx < k → k < (lineStartsFrom i (front ++ back)).length + 1 →
        i + front.length < (i :: lineStartsFrom i (front ++ back)).getD k 0) ∧
      p.walk front = lineWalk p i idx (i + front.length)
        ((i :: lineStartsFrom i (front ++ back)).getD idx 0) ∧
      ∀ afterReturn : Bool, (afterReturn = true → 0 < i) →
        (i + front.length ≤ (lineEndsFrom i afterReturn (front ++ back)).getD idx 0 ↔
          ¬Splits afterReturn front back) := by
  induction front generalizing p i with
  | nil =>
    refine ⟨0, Nat.succ_pos _, fun k hk => ?_, fun k hk hlength => ?_, ?_,
      fun afterReturn hreturn => le_first_end i afterReturn back hreturn⟩
    · obtain rfl := Nat.le_zero.mp hk
      exact Nat.le_refl i
    · obtain ⟨k, rfl⟩ := Nat.exists_eq_succ_of_ne_zero (Nat.pos_iff_ne_zero.mp hk)
      have hk' := Nat.lt_of_succ_lt_succ hlength
      rw [getD_cons_succ, getD_eq_getElem _ _ hk']
      exact lt_of_mem_lineStartsFrom (getElem_mem hk')
    · rw [lineWalk, if_pos rfl, length_nil, Nat.add_zero, Nat.sub_self]
      rfl
  | cons u front ih =>
    obtain ⟨idx, hidx, hbefore, hafter, hwalk, hend⟩ := ih (p.nextUnit u) (i + 1)
    have hoffset : i + (u :: front).length = i + 1 + front.length := by
      rw [length_cons]
      omega
    rw [cons_append, hoffset, walk_cons, hwalk, nextUnit]
    by_cases hfeed : u = lineFeed
    · rw [lineStartsFrom, if_pos hfeed, if_pos hfeed]
      refine ⟨idx + 1, Nat.succ_lt_succ hidx, fun k hk => ?_, fun k hk hlength => ?_, ?_,
        fun afterReturn _ => ?_⟩
      · cases k with
        | zero =>
          rw [getD_cons_zero]
          omega
        | succ k => exact hbefore k (Nat.le_of_succ_le_succ hk)
      · obtain ⟨k, rfl⟩ := Nat.exists_eq_succ_of_ne_zero (Nat.ne_zero_of_lt hk)
        exact hafter k (Nat.lt_of_succ_lt_succ hk) (Nat.lt_of_succ_lt_succ hlength)
      · rw [getD_cons_succ, lineWalk, lineWalk, if_neg (Nat.succ_ne_zero idx)]
        split_ifs with hzero
        · subst hzero
          rw [getD_cons_zero, Nat.zero_add, Nat.add_comm 1]
        · rw [Nat.add_assoc, Nat.add_comm 1]
      · have hnot : decide (u = carriageReturn) = false := by
          rw [hfeed]
          rfl
        rw [lineEndsFrom, if_pos hfeed, getD_cons_succ, splits_cons, hnot]
        exact hend false fun h => absurd h false_ne_true
    · rw [lineStartsFrom, if_neg hfeed, if_neg hfeed]
      refine ⟨idx, hidx, fun k hk => ?_, fun k hk hlength => ?_, ?_, fun afterReturn _ => ?_⟩
      · cases k with
        | zero =>
          rw [getD_cons_zero]
          omega
        | succ k => exact hbefore (k + 1) hk
      · obtain ⟨k, rfl⟩ := Nat.exists_eq_succ_of_ne_zero (Nat.ne_zero_of_lt hk)
        exact hafter (k + 1) hk hlength
      · rw [lineWalk, lineWalk]
        split_ifs with hzero
        · rw [Position.mk.injEq]
          refine ⟨rfl, ?_⟩
          show p.column + 1 + (i + 1 + front.length - (i + 1)) = _
          omega
        · obtain ⟨idx, rfl⟩ := Nat.exists_eq_succ_of_ne_zero hzero
          rfl
      · rw [lineEndsFrom, if_neg hfeed, splits_cons]
        exact hend _ fun _ => Nat.succ_pos i

theorem getPosition_eq (front back : JsString) :
    getPosition (front ++ back) front.length = walk ⟨1, 1⟩ front := by
  obtain ⟨idx, hidx, hbefore, hafter, hwalk, -⟩ := line_of_front ⟨1, 1⟩ 0 front back
  rw [Nat.zero_add] at hbefore hafter hwalk
  have hcount : countMonotonous
      (fun k => ((lineStartOffsetByLineIdx (front ++ back)).getD k 0 : Int) ≤ front.length) 0
      (lineStartOffsetByLineIdx (front ++ back)).length = idx + 1 := by
    refine countMonotonous_eq (fun k hk => ?_) (fun k hk hlength => ?_) _ _ (Nat.zero_le _) hidx
      (Nat.le_refl _)
    · rw [decide_eq_true_eq, Nat.cast_le]
      exact hbefore k (Nat.le_of_lt_succ hk)
    · rw [decide_eq_false_iff_not, Nat.cast_le, Nat.not_le]
      exact hafter k hk hlength
  have hfind : findLastIdxMonotonous (lineStartOffsetByLineIdx (front ++ back))
      (fun i => (i : Int) ≤ front.length) = idx := by
    rw [findLastIdxMonotonous, hcount, Nat.cast_succ, Int.add_sub_cancel]
  have hstart := hbefore idx (Nat.le_refl _)
  rw [getPosition, hfind, hwalk, lineWalk, Int.toNat_natCast]
  rw [lineStartOffsetByLineIdx]
  split_ifs with hzero
  · subst hzero
    show _ = (⟨1, 1 + (front.length - 0)⟩ : Position)
    rw [getD_cons_zero, Position.mk.injEq]
    omega
  · show _ = (⟨1 + idx, front.length -
      (0 :: lineStartsFrom 0 (front ++ back)).getD idx 0 + 1⟩ : Position)
    rw [Position.mk.injEq]
    omega

theorem isPosition_walk_iff :
    IsPosition (front ++ back) (walk ⟨1, 1⟩ front) ↔ ¬Splits false front back := by
  obtain ⟨idx, hidx, hbefore, -, hwalk, hend⟩ := line_of_front ⟨1, 1⟩ 0 front back
  have hstart := hbefore idx (Nat.le_refl _)
  have hle := start_le_end 0 0 false (front ++ back) (Nat.le_refl 0)
    (fun h => absurd h false_ne_true) hidx
  have hline : 1 + idx - 1 = idx := Nat.add_sub_cancel_left 1 idx
  rw [← hend false fun h => absurd h false_ne_true, hwalk, lineWalk, IsPosition, lineCount_eq,
    getLineLength, lineStartOffsetByLineIdx, lineEndOffsetByLineIdx]
  split_ifs with hzero
  · subst hzero
    show 1 ≤ 1 ∧ 1 ≤ _ ∧ 1 ≤ 1 + (0 + front.length - 0) ∧ 1 + (0 + front.length - 0) ≤
      (lineEndsFrom 0 false (front ++ back)).getD 0 0 - 0 + 1 ↔ _
    omega
  · show 1 ≤ 1 + idx ∧ 1 + idx ≤ _ ∧ 1 ≤ _ + 1 ∧ _ + 1 ≤
      (lineEndsFrom 0 false (front ++ back)).getD (1 + idx - 1) 0 -
        (0 :: lineStartsFrom 0 (front ++ back)).getD (1 + idx - 1) 0 + 1 ↔ _
    rw [hline]
    omega

theorem isPosition_walk (h : PlainFeeds (front ++ back)) :
    IsPosition (front ++ back) (walk ⟨1, 1⟩ front) :=
  isPosition_walk_iff.mpr (PlainFeeds.not_splits (fun h => absurd h false_ne_true) h)

theorem eq_of_walk_eq {front' text : JsString} (h : front <+: text) (h' : front' <+: text)
    (hwalk : walk ⟨1, 1⟩ front = walk ⟨1, 1⟩ front') : front = front' := by
  have hlt := mt (walk_isBefore (p := ⟨1, 1⟩) h h').mpr
  have hgt := mt (walk_isBefore (p := ⟨1, 1⟩) h' h).mpr
  rw [hwalk] at hlt hgt
  have hlength := hlt (not_isBefore_self _)
  have hlength' := hgt (not_isBefore_self _)
  exact (prefix_of_prefix_length_le h h' (by omega)).eq_of_length (by omega)

theorem IsPosition.marks (h : IsPosition (front ++ back) (walk ⟨1, 1⟩ front)) :
    Marks (front ++ back) front (walk ⟨1, 1⟩ front) := by
  obtain ⟨front', hfront', hwalk, hoffset⟩ := marks_of_isPosition h
  obtain rfl := eq_of_walk_eq (prefix_append front back) hfront' hwalk
  exact ⟨hfront', rfl, hoffset⟩

theorem marks_walk (h : PlainFeeds (front ++ back)) :
    Marks (front ++ back) front (walk ⟨1, 1⟩ front) := (isPosition_walk h).marks

/-! ## The ends of a text -/

def endPositionExclusive (text : JsString) : Position := (textLength text).addToPosition ⟨1, 1⟩

theorem getD_lineStartsFrom_le (text : JsString) (k : Nat) :
    (i :: lineStartsFrom i text).getD k 0 ≤ i + text.length := by
  induction text generalizing i k with
  | nil =>
    cases k with
    | zero => exact Nat.le_refl i
    | succ k => exact Nat.zero_le _
  | cons u text ih =>
    have hlength : i + (u :: text).length = i + 1 + text.length := by
      rw [length_cons]
      omega
    cases k with
    | zero => exact Nat.le_add_right i _
    | succ k =>
      rw [hlength, lineStartsFrom]
      split_ifs
      · exact ih (i + 1) k
      · exact ih (i + 1) (k + 1)

theorem getD_lineEndsFrom_last (afterReturn : Bool) (text : JsString) :
    (lineEndsFrom i afterReturn text).getD (lineStartsFrom i text).length 0 = i + text.length := by
  induction text generalizing i afterReturn with
  | nil => rfl
  | cons u text ih =>
    have hlength : i + (u :: text).length = i + 1 + text.length := by
      rw [length_cons]
      omega
    rw [hlength, lineEndsFrom, lineStartsFrom]
    by_cases hfeed : u = lineFeed
    · rw [if_pos hfeed, if_pos hfeed, length_cons, getD_cons_succ]
      exact ih (i + 1) false
    · rw [if_neg hfeed, if_neg hfeed]
      exact ih (i + 1) _

theorem isPosition_one : IsPosition text ⟨1, 1⟩ :=
  ⟨Nat.le_refl 1, Nat.succ_le_succ (Nat.zero_le _), Nat.le_refl 1, Nat.succ_le_succ (Nat.zero_le _)⟩

theorem marks_nil : Marks text [] ⟨1, 1⟩ := by
  refine ⟨ nil_prefix, rfl, ?_⟩
  rw [getOffset, validatePosition_of_isPosition (isPosition_one text)]
  rfl

theorem endPositionExclusive_eq : endPositionExclusive text =
      ⟨(textLength text).lineCount + 1, (textLength text).columnCount + 1⟩ := by
  rw [endPositionExclusive, TextLength.addToPosition]
  split_ifs with hline
  · rw [hline, Nat.add_comm 1]
  · rw [Nat.add_comm 1]

theorem marks_end : Marks text text (endPositionExclusive text) := by
  have hstart := getD_lineStartsFrom_le 0 text (lineStartsFrom 0 text).length
  have hend := getD_lineEndsFrom_last 0 false text
  have hcolumns : (textLength text).columnCount =
      text.length - (0 :: lineStartsFrom 0 text).getD (lineStartsFrom 0 text).length 0 := rfl
  have hlast : (textLength text).lineCount + 1 - 1 = (lineStartsFrom 0 text).length := rfl
  have hposition : IsPosition text (endPositionExclusive text) := by
    rw [endPositionExclusive_eq]
    refine ⟨Nat.le_add_left _ _, Nat.le_refl _, Nat.le_add_left _ _, Nat.succ_le_succ ?_⟩
    rw [getLineLength, lineStartOffsetByLineIdx, lineEndOffsetByLineIdx, hlast, hend, hcolumns,
      Nat.zero_add]
  have hoffset : getOffset text (endPositionExclusive text) = text.length := by
    rw [getOffset, validatePosition_of_isPosition hposition, endPositionExclusive_eq,
      lineStartOffsetByLineIdx, hlast, hcolumns]
    show (0 :: lineStartsFrom 0 text).getD (lineStartsFrom 0 text).length 0 + (text.length -
      (0 :: lineStartsFrom 0 text).getD (lineStartsFrom 0 text).length 0 + 1) - 1 = text.length
    omega
  obtain ⟨front, hfront⟩ := marks_of_isPosition hposition
  have hlength := hfront.2.2
  rw [hoffset] at hlength
  obtain rfl := hfront.1.eq_of_length hlength.symm
  exact hfront

/-- Offsets and positions of a text are one order; only the offset inside a `\r\n` has no
position. -/
theorem positions_offsets (text : JsString) :
    (∀ p, IsPosition text p →
      getOffset text p ≤ text.length ∧ getPosition text (getOffset text p) = p) ∧
    (∀ front back, front ++ back = text → (IsPosition text (getPosition text front.length) ∧
      getOffset text (getPosition text front.length) = front.length ↔ ¬Splits false front back)) ∧
    ∀ p q, IsPosition text p → IsPosition text q →
      (p.isBefore q ↔ getOffset text p < getOffset text q) := by
  refine ⟨fun p hp => ?_, fun front back heq => ?_, fun p q hp hq => ?_⟩
  · obtain ⟨front, ⟨back, rfl⟩, hwalk, hoffset⟩ := marks_of_isPosition hp
    rw [hoffset, getPosition_eq]
    exact ⟨by simp, hwalk.symm⟩
  · subst heq
    rw [getPosition_eq, isPosition_walk_iff]
    exact and_iff_left_of_imp fun h => (isPosition_walk_iff.mpr h).marks.2.2
  · obtain ⟨front, hfront, rfl, hoffset⟩ := marks_of_isPosition hp
    obtain ⟨front', hfront', rfl, hoffset'⟩ := marks_of_isPosition hq
    rw [hoffset, hoffset']
    exact walk_isBefore hfront hfront'

end PositionOffsetTransformer

end Fumie.Editor
