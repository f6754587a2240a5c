import Fumie.Editor.Core.PositionOffsetTransformer

/-!
# The lines of a text

A text is its lines joined with line feeds. Where a line starts and how long it is follows
from the lines in front of it, and a front part of the text ends inside one of the lines.
-/

namespace Fumie.Editor

open Fumie.Lib Fumie.Base PositionOffsetTransformer List TextUnit

def openedLines (lines : List JsString) : JsString := lines.flatMap (lineFeed :: ·)

def closedLines (lines : List JsString) : JsString := lines.flatMap (· ++ [lineFeed])

def joinLines : List JsString → JsString
  | [] => []
  | line :: lines => line ++ openedLines lines

def IsLine (line : JsString) : Prop := lineFeed ∉ line ∧ carriageReturn ∉ line

@[simp] theorem openedLines_nil : openedLines [] = [] := rfl

@[simp] theorem closedLines_nil : closedLines [] = [] := rfl

theorem openedLines_cons (line : JsString) (lines : List JsString) :
    openedLines (line :: lines) = lineFeed :: joinLines (line :: lines) := rfl

theorem openedLines_append (a b : List JsString) :
    openedLines (a ++ b) = openedLines a ++ openedLines b := flatMap_append

theorem closedLines_append (a b : List JsString) :
    closedLines (a ++ b) = closedLines a ++ closedLines b := flatMap_append

theorem closedLines_cons (line : JsString) (lines : List JsString) :
    closedLines (line :: lines) = line ++ lineFeed :: closedLines lines := by
  rw [closedLines, flatMap_cons, append_assoc]
  rfl

theorem openedLines_of_ne {lines : List JsString} (h : lines ≠ []) :
    openedLines lines = lineFeed :: joinLines lines := by
  cases lines with
  | nil => exact absurd rfl h
  | cons line lines => rfl

variable {lines : List JsString}

theorem joinLines_cons (h : lines ≠ []) (line : JsString) :
    joinLines (line :: lines) = line ++ lineFeed :: joinLines lines := by
  rw [joinLines, openedLines_of_ne h]

theorem joinLines_front (a : List JsString) {b : List JsString} (h : b ≠ []) :
    joinLines (a ++ b) = closedLines a ++ joinLines b := by
  induction a with
  | nil => rfl
  | cons line a ih =>
    rw [cons_append, joinLines_cons (append_ne_nil_of_right_ne_nil _ h), ih,
      closedLines_cons, append_assoc, cons_append]

theorem joinLines_behind {a : List JsString} (h : a ≠ []) (b : List JsString) :
    joinLines (a ++ b) = joinLines a ++ openedLines b := by
  cases a with
  | nil => exact absurd rfl h
  | cons line a =>
    rw [cons_append, joinLines, joinLines, openedLines_append, append_assoc]

theorem closedLines_of_ne {lines : List JsString} (h : lines ≠ []) :
    closedLines lines = joinLines lines ++ [lineFeed] := by
  induction lines with
  | nil => exact absurd rfl h
  | cons line lines ih =>
    rw [closedLines_cons]
    cases lines with
    | nil => simp only [joinLines, openedLines_nil, closedLines_nil, append_nil]
    | cons next lines =>
      rw [ih (cons_ne_nil _ _), joinLines_cons (cons_ne_nil _ _), append_assoc, cons_append]

theorem length_openedLines (lines : List JsString) :
    (openedLines lines).length = (closedLines lines).length := by
  induction lines with
  | nil => rfl
  | cons line lines ih =>
    rw [closedLines_cons, openedLines_cons, joinLines, length_cons, length_append,
      length_append, length_cons, ih]
    omega

/-! ## Where lines start and end -/

theorem lineStartsFrom_line {line : JsString} (h : lineFeed ∉ line) (i : Nat) (rest : JsString) :
    lineStartsFrom i (line ++ lineFeed :: rest) =
      (i + line.length + 1) :: lineStartsFrom (i + line.length + 1) rest := by
  induction line generalizing i with
  | nil =>
    rw [nil_append, lineStartsFrom, if_pos rfl]
    rfl
  | cons u line ih =>
    rw [mem_cons, not_or] at h
    rw [cons_append, lineStartsFrom, if_neg (Ne.symm h.1), ih h.2, length_cons]
    have hlength : i + 1 + line.length + 1 = i + (line.length + 1) + 1 := by omega
    rw [hlength]

theorem lineStartsFrom_last {line : JsString} (h : lineFeed ∉ line) (i : Nat) :
    lineStartsFrom i line = [] := by
  induction line generalizing i with
  | nil => rfl
  | cons u line ih =>
    rw [mem_cons, not_or] at h
    rw [lineStartsFrom, if_neg (Ne.symm h.1), ih h.2]

theorem lineEndsFrom_line {line : JsString} (h : IsLine line) (i : Nat) (rest : JsString) :
    lineEndsFrom i false (line ++ lineFeed :: rest) =
      (i + line.length) :: lineEndsFrom (i + line.length + 1) false rest := by
  induction line generalizing i with
  | nil =>
    rw [nil_append, lineEndsFrom, if_pos rfl]
    rfl
  | cons u line ih =>
    obtain ⟨hfeed, hreturn⟩ := h
    rw [mem_cons, not_or] at hfeed hreturn
    have hplain : decide (u = carriageReturn) = false := decide_eq_false (Ne.symm hreturn.1)
    rw [cons_append, lineEndsFrom, if_neg (Ne.symm hfeed.1), hplain,
      ih ⟨hfeed.2, hreturn.2⟩, length_cons]
    have hlength : i + 1 + line.length = i + (line.length + 1) := by omega
    rw [hlength]

theorem lineEndsFrom_last {line : JsString} (h : IsLine line) (i : Nat) :
    lineEndsFrom i false line = [i + line.length] := by
  induction line generalizing i with
  | nil => rfl
  | cons u line ih =>
    obtain ⟨hfeed, hreturn⟩ := h
    rw [mem_cons, not_or] at hfeed hreturn
    have hplain : decide (u = carriageReturn) = false := decide_eq_false (Ne.symm hreturn.1)
    rw [lineEndsFrom, if_neg (Ne.symm hfeed.1), hplain, ih ⟨hfeed.2, hreturn.2⟩, length_cons]
    have hlength : i + 1 + line.length = i + (line.length + 1) := by omega
    rw [hlength]

section

variable {front : List JsString} {line : JsString} {back : List JsString}

theorem getD_lineStartsFrom (h : ∀ x ∈ front, IsLine x) (i : Nat) :
    (i :: lineStartsFrom i (joinLines (front ++ line :: back))).getD front.length 0 =
      i + (closedLines front).length := by
  induction front generalizing i with
  | nil => rfl
  | cons first front ih =>
    have hfirst := h first mem_cons_self
    have hrest : front ++ line :: back ≠ [] := append_ne_nil_of_right_ne_nil _ (cons_ne_nil _ _)
    rw [cons_append, joinLines_cons hrest, lineStartsFrom_line hfirst.1, length_cons,
      getD_cons_succ, ih (fun x hx => h x (mem_cons_of_mem _ hx)), closedLines_cons,
      length_append, length_cons]
    omega

theorem getD_lineEndsFrom (h : ∀ x ∈ front ++ line :: back, IsLine x) (i : Nat) :
    (lineEndsFrom i false (joinLines (front ++ line :: back))).getD front.length 0 =
      i + (closedLines front).length + line.length := by
  induction front generalizing i with
  | nil =>
    have hline := h line mem_cons_self
    cases back with
    | nil =>
      simp only [nil_append, joinLines, openedLines_nil, append_nil]
      rw [lineEndsFrom_last hline]
      rfl
    | cons next back =>
      rw [nil_append, joinLines_cons (cons_ne_nil _ _), lineEndsFrom_line hline]
      rfl
  | cons first front ih =>
    have hfirst := h first mem_cons_self
    have hrest : front ++ line :: back ≠ [] := append_ne_nil_of_right_ne_nil _ (cons_ne_nil _ _)
    rw [cons_append, joinLines_cons hrest, lineEndsFrom_line hfirst, length_cons, getD_cons_succ,
      ih (fun x hx => h x (mem_cons_of_mem _ hx)), closedLines_cons, length_append, length_cons]
    omega

theorem length_lineStartsFrom (h : ∀ x ∈ line :: back, IsLine x) (i : Nat) :
    (lineStartsFrom i (joinLines (line :: back))).length = back.length := by
  induction back generalizing line i with
  | nil =>
    simp only [joinLines, openedLines_nil, append_nil]
    rw [lineStartsFrom_last (h line mem_cons_self).1]
    rfl
  | cons next back ih =>
    rw [joinLines_cons (cons_ne_nil _ _), lineStartsFrom_line (h line mem_cons_self).1, length_cons,
      ih fun x hx => h x (mem_cons_of_mem _ hx), length_cons]

theorem getLineLength_joinLines (h : ∀ x ∈ front ++ line :: back, IsLine x) :
    getLineLength (joinLines (front ++ line :: back)) (front.length + 1) = line.length := by
  have hfront : ∀ x ∈ front, IsLine x := fun x hx => h x (mem_append_left _ hx)
  rw [getLineLength, lineStartOffsetByLineIdx, lineEndOffsetByLineIdx, Nat.add_sub_cancel,
    getD_lineStartsFrom hfront, getD_lineEndsFrom h, Nat.add_sub_cancel_left]

theorem lineCount_joinLines {lines : List JsString} (hne : lines ≠ []) (h : ∀ x ∈ lines, IsLine x) :
    (textLength (joinLines lines)).lineCount + 1 = lines.length := by
  cases lines with
  | nil => exact absurd rfl hne
  | cons line back =>
    rw [lineCount_eq, length_lineStartsFrom h, length_cons]

theorem isPosition_joinLines (h : ∀ x ∈ front ++ line :: back, IsLine x) {column : Nat}
    (hcolumn : column ≤ line.length) :
    IsPosition (joinLines (front ++ line :: back)) ⟨front.length + 1, column + 1⟩ := by
  have hcount := lineCount_joinLines (append_ne_nil_of_right_ne_nil front (cons_ne_nil line back)) h
  rw [length_append, length_cons] at hcount
  refine ⟨Nat.le_add_left _ _, ?_, Nat.le_add_left _ _, ?_⟩
  · rw [hcount]
    show front.length + 1 ≤ _
    omega
  · rw [getLineLength_joinLines h]
    exact Nat.succ_le_succ hcolumn

theorem getOffset_joinLines (h : ∀ x ∈ front ++ line :: back, IsLine x) {column : Nat}
    (hcolumn : column ≤ line.length) :
    getOffset (joinLines (front ++ line :: back)) ⟨front.length + 1, column + 1⟩ =
      (closedLines front).length + column := by
  have hfront : ∀ x ∈ front, IsLine x := fun x hx => h x (mem_append_left _ hx)
  rw [getOffset, validatePosition_of_isPosition (isPosition_joinLines h hcolumn)]
  simp only
  rw [Nat.add_sub_cancel, lineStartOffsetByLineIdx, getD_lineStartsFrom hfront]
  omega

end

/-! ## Front parts -/

variable {a b str : JsString}

theorem cut_joinLines {lines : List JsString} (hne : lines ≠ []) (h : joinLines lines = a ++ b) :
    ∃ front u v back, lines = front ++ (u ++ v) :: back ∧ a = closedLines front ++ u ∧
      b = v ++ openedLines back := by
  induction lines generalizing a with
  | nil => exact absurd rfl hne
  | cons line lines ih =>
    rw [joinLines] at h
    rcases append_eq_append_iff.mp h with ⟨c, rfl, hc⟩ | ⟨c, rfl, rfl⟩
    · cases lines with
      | nil =>
        obtain ⟨rfl, rfl⟩ := append_eq_nil_iff.mp hc.symm
        exact ⟨[], line, [], [], by simp, by simp, rfl⟩
      | cons next lines =>
        rw [openedLines_cons] at hc
        cases c with
        | nil =>
          refine ⟨[], line, [], next :: lines, by simp, by simp, ?_⟩
          rw [openedLines_cons]
          exact hc.symm
        | cons u c =>
          obtain ⟨rfl, hc'⟩ := cons.inj hc
          obtain ⟨front, x, v, back, hlines, hc, hb⟩ := @ih c (cons_ne_nil _ _) hc'
          subst hc
          refine ⟨line :: front, x, v, back, by rw [hlines, cons_append], ?_, hb⟩
          rw [closedLines_cons, append_assoc, cons_append]
    · exact ⟨[], a, c, lines, rfl, rfl, rfl⟩

theorem walk_line {line : JsString} (h : lineFeed ∉ line) (p : Position) :
    p.walk line = ⟨p.lineNumber, p.column + line.length⟩ := by
  induction line generalizing p with
  | nil => rfl
  | cons u line ih =>
    rw [mem_cons, not_or] at h
    rw [Position.walk_cons, ih h.2, Position.nextUnit, if_neg (Ne.symm h.1), length_cons,
      Position.mk.injEq]
    dsimp only
    exact ⟨rfl, by omega⟩

theorem walk_closedLines {lines : List JsString} (h : ∀ x ∈ lines, IsLine x) (line : Nat) :
    Position.walk ⟨line, 1⟩ (closedLines lines) = ⟨line + lines.length, 1⟩ := by
  induction lines generalizing line with
  | nil => rfl
  | cons first lines ih =>
    rw [closedLines_cons, Position.walk_append, walk_line (h first mem_cons_self).1,
      Position.walk_cons, Position.nextUnit, if_pos rfl,
      ih (fun x hx => h x (mem_cons_of_mem _ hx)), length_cons, Position.mk.injEq]
    dsimp only
    exact ⟨by omega, rfl⟩

/-! ## Splitting into lines -/

theorem isLine_append : IsLine (a ++ b) ↔ IsLine a ∧ IsLine b := by
  rw [IsLine, IsLine, IsLine, mem_append, mem_append]
  tauto

variable (us : List TextUnit)

theorem unitLines_ne_nil : unitLines us ≠ [] := by
  cases us with
  | nil => exact cons_ne_nil _ _
  | cons u us =>
    rw [unitLines]
    split_ifs
    · exact cons_ne_nil _ _
    · split
      · exact cons_ne_nil _ _
      · exact cons_ne_nil _ _

theorem textLines_ne_nil (str : JsString) : textLines str ≠ [] := unitLines_ne_nil _

theorem joinLines_unitLines :
    joinLines (unitLines us) = us.flatMap fun u => if u.isEnd then [lineFeed] else u.text := by
  induction us with
  | nil => rfl
  | cons u us ih =>
    rw [unitLines, flatMap_cons, ← ih]
    have hne : unitLines us ≠ [] := unitLines_ne_nil us
    by_cases hend : u.isEnd = true
    · rw [if_pos hend, if_pos hend, joinLines_cons hne]
      rfl
    · rw [if_neg hend, if_neg hend]
      cases hlines : unitLines us with
      | nil => exact absurd hlines hne
      | cons line lines =>
        rw [joinLines, joinLines, append_assoc]

theorem isLine_of_mem_unitLines {us : List TextUnit} : ∀ line ∈ unitLines us, IsLine line := by
  induction us with
  | nil =>
    intro line hline
    obtain rfl := mem_singleton.mp hline
    exact ⟨not_mem_nil, not_mem_nil⟩
  | cons u us ih =>
    intro line hline
    rw [unitLines] at hline
    by_cases hend : u.isEnd = true
    · rw [if_pos hend, mem_cons] at hline
      rcases hline with rfl | hline
      · exact ⟨not_mem_nil, not_mem_nil⟩
      · exact ih line hline
    · rw [if_neg hend] at hline
      have hu : IsLine u.text := by
        cases u with
        | crlf => exact absurd rfl hend
        | unit c =>
          rw [isEnd, Bool.or_eq_true, decide_eq_true_eq, decide_eq_true_eq, not_or] at hend
          rw [IsLine, TextUnit.text, mem_singleton, mem_singleton]
          exact ⟨Ne.symm hend.2, Ne.symm hend.1⟩
      cases hlines : unitLines us with
      | nil => exact absurd hlines (unitLines_ne_nil us)
      | cons first lines =>
        rw [hlines] at hline ih
        rcases mem_cons.mp hline with rfl | hline
        · exact isLine_append.mpr ⟨hu, ih first mem_cons_self⟩
        · exact ih line (mem_cons_of_mem _ hline)

theorem isLine_of_mem_textLines : ∀ line ∈ textLines str, IsLine line :=
  isLine_of_mem_unitLines

theorem carriageReturn_notMem_joinLines (h : ∀ x ∈ lines, IsLine x) :
    carriageReturn ∉ joinLines lines := by
  have hopened : ∀ rest : List JsString, (∀ x ∈ rest, IsLine x) →
      carriageReturn ∉ openedLines rest := by
    intro rest hrest hmem
    obtain ⟨x, hx, hmem⟩ := mem_flatMap.mp hmem
    rcases mem_cons.mp hmem with hfeed | hmem
    · exact absurd hfeed (by decide)
    · exact (hrest x hx).2 hmem
  cases lines with
  | nil => exact not_mem_nil
  | cons line lines =>
    rw [joinLines, mem_append, not_or]
    exact ⟨(h line mem_cons_self).2, hopened lines fun x hx => h x (mem_cons_of_mem _ hx)⟩

theorem joinLines_textLines (h : carriageReturn ∉ str) : joinLines (textLines str) = str := by
  rw [textLines, joinLines_unitLines]
  induction str with
  | nil => rfl
  | cons u str ih =>
    rw [mem_cons, not_or] at h
    rw [textUnits_cons fun _ _ hcrlf => h.1 hcrlf.1.symm, flatMap_cons, ih h.2]
    by_cases hfeed : u = lineFeed
    · subst hfeed
      rfl
    · have hend : (TextUnit.unit u).isEnd = false := by
        rw [isEnd, Bool.or_eq_false_iff]
        exact ⟨decide_eq_false (Ne.symm h.1), decide_eq_false hfeed⟩
      rw [hend]
      rfl

end Fumie.Editor
