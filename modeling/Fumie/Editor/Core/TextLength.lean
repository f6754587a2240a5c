import Fumie.Editor.Core.Positions

/-!
# Lengths of texts

A text length counts lines and the columns of the last one. A text moves a position by its
length; `walk` does so unit by unit. Where a position and the one a text leads to are known,
so is the length of the text, and longer texts lead to later positions.

`ofText` counts a surrogate pair as one column, positions count it as two.
-/

namespace Fumie.Editor

open Fumie.Lib Fumie.Base List

structure TextLength where
  lineCount : Nat
  columnCount : Nat
  deriving DecidableEq, Repr

namespace TextLength

def zero : TextLength := ⟨0, 0⟩

def betweenPositions (position1 position2 : Position) : TextLength :=
  if position1.lineNumber = position2.lineNumber then ⟨0, position2.column - position1.column⟩
  else ⟨position2.lineNumber - position1.lineNumber, position2.column - 1⟩

def addToPosition (len : TextLength) (position : Position) : Position :=
  if len.lineCount = 0 then ⟨position.lineNumber, position.column + len.columnCount⟩
  else ⟨position.lineNumber + len.lineCount, len.columnCount + 1⟩

def scanText (line column : Nat) : JsString → TextLength
  | [] => ⟨line, column⟩
  | [u] => if u = lineFeed then ⟨line + 1, 0⟩ else ⟨line, column + 1⟩
  | u :: v :: rest =>
    if isHighSurrogate u && isLowSurrogate v then scanText line (column + 1) rest
    else if u = lineFeed then scanText (line + 1) 0 (v :: rest)
    else scanText line (column + 1) (v :: rest)

def ofText (text : JsString) : TextLength := scanText 0 0 text

def scanUnits (line column : Nat) : JsString → TextLength
  | [] => ⟨line, column⟩
  | u :: rest =>
    if u = lineFeed then scanUnits (line + 1) 0 rest else scanUnits line (column + 1) rest

def ofUnits (text : JsString) : TextLength := scanUnits 0 0 text

end TextLength

/-! ## Walking over a text -/

variable {text : JsString}

namespace Position

def nextUnit (p : Position) (u : CodeUnit) : Position :=
  if u = lineFeed then ⟨p.lineNumber + 1, 1⟩ else ⟨p.lineNumber, p.column + 1⟩

def walk (p : Position) (text : JsString) : Position := text.foldl nextUnit p

variable (p : Position)

@[simp] theorem walk_nil : p.walk [] = p := rfl

theorem walk_cons (u : CodeUnit) (text : JsString) :
    p.walk (u :: text) = (p.nextUnit u).walk text := rfl

theorem walk_append (a b : JsString) : p.walk (a ++ b) = (p.walk a).walk b := foldl_append

theorem nextUnit_lt (u : CodeUnit) : p.isBefore (p.nextUnit u) = true := by
  rw [isBefore_iff, nextUnit]
  split_ifs
  · exact .inl (Nat.lt_succ_self _)
  · exact .inr ⟨rfl, Nat.lt_succ_self _⟩

theorem isBefore_trans {a b c : Position} (h : a.isBefore b = true) (h' : b.isBefore c = true) :
    a.isBefore c = true := by
  rw [isBefore_iff] at h h' ⊢
  omega

theorem not_isBefore_self : ¬p.isBefore p = true := by
  rw [isBefore_iff]
  omega

theorem isBeforeOrEqual_iff_not {a b : Position} :
    a.isBeforeOrEqual b = true ↔ ¬b.isBefore a = true := by
  rw [isBefore_iff, isBeforeOrEqual_iff]
  omega

theorem walk_lt (h : text ≠ []) (p : Position) : p.isBefore (p.walk text) = true := by
  induction text generalizing p with
  | nil => exact absurd rfl h
  | cons u text ih =>
    rw [walk_cons]
    cases text with
    | nil => exact nextUnit_lt p u
    | cons v text => exact isBefore_trans (nextUnit_lt p u) (ih (cons_ne_nil _ _) _)

theorem walk_eq_self {p : Position} : p.walk text = p ↔ text = [] := by
  constructor
  · intro h
    by_contra hne
    have hlt := walk_lt hne p
    rw [h] at hlt
    exact not_isBefore_self p hlt
  · rintro rfl
    rfl

theorem walk_isBefore {p : Position} {a b whole : JsString} (ha : a <+: whole) (hb : b <+: whole) :
    (p.walk a).isBefore (p.walk b) = true ↔ a.length < b.length := by
  constructor
  · intro h
    by_contra hle
    obtain ⟨c, rfl⟩ := prefix_of_prefix_length_le hb ha (not_lt.mp hle)
    rw [walk_append] at h
    by_cases hc : c = []
    · subst hc
      exact not_isBefore_self _ h
    · exact not_isBefore_self _ (isBefore_trans h (walk_lt hc _))
  · intro h
    obtain ⟨c, rfl⟩ := prefix_of_prefix_length_le ha hb (Nat.le_of_lt h)
    rw [walk_append]
    refine walk_lt (fun hc => ?_) _
    subst hc
    rw [append_nil] at h
    exact Nat.lt_irrefl _ h

theorem walk_isBeforeOrEqual (a : JsString) : p.isBeforeOrEqual (p.walk a) = true := by
  rw [isBeforeOrEqual_iff_not]
  by_cases ha : a = []
  · subst ha
    exact not_isBefore_self p
  · exact fun h => not_isBefore_self _ (isBefore_trans h (walk_lt ha p))

end Position

namespace TextLength

open Position

theorem scanUnits_eq (line column : Nat) (p : Position) (text : JsString) :
    (scanUnits line column text).addToPosition p = ((⟨line, column⟩ : TextLength).addToPosition
      p).walk text := by
  induction text generalizing line column with
  | nil => rfl
  | cons u text ih =>
    rw [scanUnits, walk_cons]
    split_ifs with hend
    · have hnext : ((⟨line, column⟩ : TextLength).addToPosition p).nextUnit u =
          (⟨line + 1, 0⟩ : TextLength).addToPosition p := by
        rw [nextUnit, if_pos hend, addToPosition, addToPosition, if_neg (Nat.succ_ne_zero line)]
        split_ifs with hline
        · have hzero : line = 0 := hline
          rw [hzero]
        · rfl
      rw [ih, hnext]
    · have hnext : ((⟨line, column⟩ : TextLength).addToPosition p).nextUnit u =
          (⟨line, column + 1⟩ : TextLength).addToPosition p := by
        rw [nextUnit, if_neg hend, addToPosition, addToPosition]
        split_ifs
        · rfl
        · rfl
      rw [ih, hnext]

theorem ofUnits_addToPosition (p : Position) (text : JsString) :
    (ofUnits text).addToPosition p = p.walk text := scanUnits_eq 0 0 p text

theorem betweenPositions_walk (p : Position) (text : JsString) :
    betweenPositions p (p.walk text) = ofUnits text := by
  rw [← ofUnits_addToPosition, betweenPositions, addToPosition]
  obtain ⟨line, column⟩ := ofUnits text
  by_cases hline : line = 0
  · subst hline
    rw [if_pos rfl, if_pos rfl, Nat.add_sub_cancel_left]
  · rw [if_neg hline]
    have hne : ¬p.lineNumber = p.lineNumber + line := by omega
    rw [if_neg hne]
    have hsub : p.lineNumber + line - p.lineNumber = line := by omega
    have hcolumn : column + 1 - 1 = column := rfl
    rw [hsub, hcolumn]

theorem ofUnits_eq_zero : ofUnits text = zero ↔ text = [] := by
  constructor
  · intro h
    have hwalk := ofUnits_addToPosition ⟨1, 1⟩ text
    rw [h] at hwalk
    exact walk_eq_self.mp hwalk.symm
  · rintro rfl
    rfl

theorem ofUnits_rest (a b : JsString) : ofUnits b =
      if (ofUnits a).lineCount = (ofUnits (a ++ b)).lineCount then
        ⟨0, (ofUnits (a ++ b)).columnCount - (ofUnits a).columnCount⟩
      else ⟨(ofUnits (a ++ b)).lineCount - (ofUnits a).lineCount,
        (ofUnits (a ++ b)).columnCount⟩ := by
  have hab : (ofUnits b).addToPosition ((ofUnits a).addToPosition ⟨1, 1⟩) =
      (ofUnits (a ++ b)).addToPosition ⟨1, 1⟩ := by
    rw [ofUnits_addToPosition, ofUnits_addToPosition, ofUnits_addToPosition, walk_append]
  generalize ofUnits a = la at hab ⊢
  generalize ofUnits b = lb at hab ⊢
  generalize ofUnits (a ++ b) = lab at hab ⊢
  obtain ⟨aLines, aColumns⟩ := la
  obtain ⟨bLines, bColumns⟩ := lb
  obtain ⟨lines, columns⟩ := lab
  simp only [addToPosition] at hab ⊢
  split_ifs at hab ⊢ <;> simp only [Position.mk.injEq, TextLength.mk.injEq] at * <;> omega

end TextLength

end Fumie.Editor
