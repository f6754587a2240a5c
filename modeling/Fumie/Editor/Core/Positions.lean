import Fumie.Editor.Model.LineStarts

/-!
# Positions in a text

A position of a text is where some front part of it ends: a line end begins the next line,
every other unit is one column. For a text whose line ends are all of one kind, `countEOL`
says how a part of it moves the position, and the line starts say at which offset a
position is.
-/

namespace Fumie.Editor

open Fumie.Lib Fumie.Base List TextUnit

structure Position where
  lineNumber : Nat
  column : Nat
  deriving DecidableEq, Repr

namespace Position

def isBefore (a b : Position) : Bool :=
  if a.lineNumber < b.lineNumber then true
  else if b.lineNumber < a.lineNumber then false
  else a.column < b.column

def isBeforeOrEqual (a b : Position) : Bool :=
  if a.lineNumber < b.lineNumber then true
  else if b.lineNumber < a.lineNumber then false
  else a.column ≤ b.column

theorem isBefore_iff {a b : Position} : a.isBefore b = true ↔
    a.lineNumber < b.lineNumber ∨ a.lineNumber = b.lineNumber ∧ a.column < b.column := by
  rw [isBefore]
  split_ifs
  · simp [*]
  · simp only [false_iff]
    omega
  · rw [decide_eq_true_eq]
    omega

theorem isBeforeOrEqual_iff {a b : Position} : a.isBeforeOrEqual b = true ↔
    a.lineNumber < b.lineNumber ∨ a.lineNumber = b.lineNumber ∧ a.column ≤ b.column := by
  rw [isBeforeOrEqual]
  split_ifs
  · simp [*]
  · simp only [false_iff]
    omega
  · rw [decide_eq_true_eq]
    omega

end Position

structure Range where
  startLineNumber : Nat
  startColumn : Nat
  endLineNumber : Nat
  endColumn : Nat
  deriving DecidableEq, Repr

variable (range : Range) (str : JsString)

namespace Range

def new (startLineNumber startColumn endLineNumber endColumn : Nat) : Range :=
  if endLineNumber < startLineNumber ∨
      startLineNumber = endLineNumber ∧ endColumn < startColumn then
    ⟨endLineNumber, endColumn, startLineNumber, startColumn⟩
  else ⟨startLineNumber, startColumn, endLineNumber, endColumn⟩

def isEmpty : Bool :=
  range.startLineNumber = range.endLineNumber && range.startColumn = range.endColumn

def getStartPosition : Position := ⟨range.startLineNumber, range.startColumn⟩

def getEndPosition : Position := ⟨range.endLineNumber, range.endColumn⟩

def compareRangesUsingEnds (a b : Range) : Int :=
  if a.endLineNumber = b.endLineNumber then
    if a.endColumn = b.endColumn then
      if a.startLineNumber = b.startLineNumber then a.startColumn - b.startColumn
      else a.startLineNumber - b.startLineNumber
    else a.endColumn - b.endColumn
  else a.endLineNumber - b.endLineNumber

def between (a b : Position) : Range := ⟨a.lineNumber, a.column, b.lineNumber, b.column⟩

theorem between_positions : between range.getStartPosition range.getEndPosition = range := rfl

end Range

/-! ## Units -/

namespace TextUnit

def isEnd : TextUnit → Bool
  | crlf => true
  | unit u => u = carriageReturn || u = lineFeed

def text : TextUnit → JsString
  | crlf => [carriageReturn, lineFeed]
  | unit u => [u]

end TextUnit

def EndOfLine.unit : EndOfLine → TextUnit
  | crlf => .crlf
  | lf => .unit lineFeed

theorem EndOfLine.unit_isEnd (eol : EndOfLine) : eol.unit.isEnd = true := by
  cases eol <;> rfl

theorem EndOfLine.unit_replaced (eol : EndOfLine) : eol.unit.replaced eol = eol.text := by
  cases eol <;> rfl

theorem flatMap_textUnits : (textUnits str).flatMap TextUnit.text = str := by
  induction str using textUnits.induct with
  | case1 | case2 _ => rfl
  | case3 u v rest hcrlf ih =>
    rw [textUnits, if_pos hcrlf, flatMap_cons, ih, TextUnit.text, hcrlf.1, hcrlf.2]
    rfl
  | case4 u v rest hplain ih =>
    rw [textUnits, if_neg hplain, flatMap_cons, ih, TextUnit.text]
    rfl

def Position.next (p : Position) (u : TextUnit) : Position :=
  if u.isEnd then ⟨p.lineNumber + 1, 1⟩ else ⟨p.lineNumber, p.column + 1⟩

def Position.advance (p : Position) (str : JsString) : Position :=
  (textUnits str).foldl Position.next p

def endPosition : Position := Position.advance ⟨1, 1⟩ str

def unitLines : List TextUnit → List JsString
  | [] => [[]]
  | u :: us =>
    if u.isEnd then [] :: unitLines us
    else
      match unitLines us with
      | [] => [u.text]
      | line :: lines => (u.text ++ line) :: lines

def textLines : List JsString := unitLines (textUnits str)

/-! ## Texts with one kind of line end -/

inductive Normal (eol : EndOfLine) : JsString → Prop
  | nil : Normal eol []
  | lineEnd {rest : JsString} (h : Normal eol rest) : Normal eol (eol.text ++ rest)
  | unit {u : CodeUnit} {rest : JsString} (hcr : u ≠ carriageReturn) (hlf : u ≠ lineFeed)
      (h : Normal eol rest) : Normal eol (u :: rest)

namespace Normal

variable {eol : EndOfLine} {a b : JsString}

theorem append (ha : Normal eol a) (hb : Normal eol b) : Normal eol (a ++ b) := by
  induction ha with
  | nil => exact hb
  | lineEnd _ ih =>
    rw [append_assoc]
    exact ih.lineEnd
  | unit hcr hlf _ ih => exact ih.unit hcr hlf

theorem behind (ha : Normal eol a) (h : Normal eol (a ++ b)) : Normal eol b := by
  induction ha with
  | nil => exact h
  | @lineEnd rest _ ih =>
    rw [append_assoc] at h
    refine ih ?_
    generalize hwhole : eol.text ++ (rest ++ b) = whole at h
    cases h with
    | nil => cases eol <;> cases hwhole
    | lineEnd h =>
      rw [append_cancel_left hwhole]
      exact h
    | unit hcr hlf h =>
      cases eol with
      | crlf =>
        cases hwhole
        exact absurd rfl hcr
      | lf =>
        cases hwhole
        exact absurd rfl hlf
  | @unit u rest hcr hlf _ ih =>
    refine ih ?_
    generalize hwhole : u :: rest ++ b = whole at h
    cases h with
    | nil => cases hwhole
    | @lineEnd rest' h =>
      cases eol with
      | crlf =>
        have hcons : u :: (rest ++ b) = carriageReturn :: (lineFeed :: rest') := hwhole
        exact absurd (cons.inj hcons).1 hcr
      | lf =>
        have hcons : u :: (rest ++ b) = lineFeed :: rest' := hwhole
        exact absurd (cons.inj hcons).1 hlf
    | unit _ _ h =>
      cases hwhole
      exact h

theorem textUnits_lineEnd (eol : EndOfLine) (rest : JsString) :
    textUnits (eol.text ++ rest) = eol.unit :: textUnits rest := by
  cases eol with
  | crlf =>
    rw [EndOfLine.text, cons_append, singleton_append, textUnits, if_pos ⟨rfl, rfl⟩]
    rfl
  | lf => exact textUnits_cons fun _ _ h => absurd h.1 (by decide)

theorem textUnits_unit {u : CodeUnit} (hcr : u ≠ carriageReturn) (rest : JsString) :
    textUnits (u :: rest) = .unit u :: textUnits rest :=
  textUnits_cons fun _ _ h => hcr h.1

theorem textUnits_append (ha : Normal eol a) (b : JsString) :
    textUnits (a ++ b) = textUnits a ++ textUnits b := by
  induction ha with
  | nil => rfl
  | @lineEnd rest _ ih =>
    rw [append_assoc, textUnits_lineEnd, ih, textUnits_lineEnd, cons_append]
  | @unit u rest hcr _ _ ih =>
    rw [cons_append, textUnits_unit hcr, textUnits_unit hcr, ih, cons_append]

theorem advance_append (ha : Normal eol a) (p : Position) (b : JsString) :
    p.advance (a ++ b) = (p.advance a).advance b := by
  rw [Position.advance, ha.textUnits_append, foldl_append]
  rfl

theorem replaceEOL_eq (ha : Normal eol a) : replaceEOL eol a = a := by
  induction ha with
  | nil => rfl
  | @lineEnd rest _ ih =>
    rw [replaceEOL] at ih ⊢
    rw [textUnits_lineEnd, flatMap_cons, eol.unit_replaced, ih]
  | @unit u rest hcr hlf _ ih =>
    rw [replaceEOL] at ih ⊢
    rw [textUnits_unit hcr, flatMap_cons, ih, replaced,
      if_neg (not_or.mpr ⟨hcr, hlf⟩), singleton_append]

end Normal

theorem normal_flatMap (eol : EndOfLine) (units : List TextUnit) :
    Normal eol (units.flatMap (replaced eol)) := by
  induction units with
  | nil => exact .nil
  | cons u units ih =>
    rw [flatMap_cons]
    cases u with
    | crlf => exact ih.lineEnd
    | unit u =>
      rw [replaced]
      by_cases hend : u = carriageReturn ∨ u = lineFeed
      · rw [if_pos hend]
        exact ih.lineEnd
      · rw [if_neg hend]
        exact ih.unit (fun h => hend (.inl h)) fun h => hend (.inr h)

theorem normal_replaceEOL (eol : EndOfLine) (str : JsString) : Normal eol (replaceEOL eol str) :=
  normal_flatMap eol _

theorem normal_iff {eol : EndOfLine} {str : JsString} : Normal eol str ↔ replaceEOL eol str = str :=
  ⟨Normal.replaceEOL_eq, fun h => h ▸ normal_replaceEOL eol str⟩

end Fumie.Editor
