import Fumie.Editor.Core.TextChange

/-!
# Undo data of a model

Every edit of an open undo element appends its text changes, so the data holds one list
of changes from the text before the first edit to the text after the last one.
-/

namespace Fumie.Editor

open Fumie.Lib ListChange List

inductive EndOfLineSequence
  | LF
  | CRLF
  deriving DecidableEq, Repr

structure SingleModelEditStackData (σ : Type) where
  beforeVersionId : Nat
  afterVersionId : Nat
  beforeEOL : EndOfLineSequence
  afterEOL : EndOfLineSequence
  beforeCursorState : Option σ
  afterCursorState : Option σ
  changes : List TextChange

structure ModelEdit (σ : Type) where
  textChanges : List TextChange
  eol : EndOfLineSequence
  alternativeVersionId : Nat
  afterCursorState : Option σ

namespace SingleModelEditStackData

variable {σ : Type}

def create (alternativeVersionId : Nat) (eol : EndOfLineSequence) (beforeCursorState : Option σ) :
    SingleModelEditStackData σ where
  beforeVersionId := alternativeVersionId
  afterVersionId := alternativeVersionId
  beforeEOL := eol
  afterEOL := eol
  beforeCursorState := beforeCursorState
  afterCursorState := beforeCursorState
  changes := []

variable (data : SingleModelEditStackData σ)

variable (textChanges : List TextChange)

def append (afterEOL : EndOfLineSequence) (afterVersionId : Nat) (afterCursorState : Option σ) :
    SingleModelEditStackData σ :=
  { data with
    changes :=
      if textChanges.length > 0 then compressConsecutiveTextChanges (some data.changes) textChanges
      else data.changes
    afterEOL := afterEOL
    afterVersionId := afterVersionId
    afterCursorState := afterCursorState }

def sortTextChanges : List TextChange :=
  textChanges.mergeSort fun a b => a.oldPosition ≤ b.oldPosition

def pushEdit (edit : ModelEdit σ) : SingleModelEditStackData σ :=
  data.append (sortTextChanges edit.textChanges) edit.eol edit.alternativeVersionId
    edit.afterCursorState

def pushEdits (edits : List (ModelEdit σ)) : SingleModelEditStackData σ := edits.foldl pushEdit data

end SingleModelEditStackData

variable (changes : List TextChange) (text : JsString)

def undoText : JsString :=
  applyAll (changes.map ListChange.flip) text

def redoText : JsString := applyAll changes text

structure Describes (changes : List TextChange) (before after : JsString) : Prop where
  sorted : changes.Pairwise fun a b => a.oldEnd ≤ b.oldPosition ∧ a.newEnd ≤ b.newPosition
  inside : ∀ c ∈ changes, 0 ≤ c.oldPosition ∧ 0 ≤ c.newPosition
  oldTexts : ∀ c ∈ changes, slice before c.oldPosition c.oldText.length = c.oldText
  newTexts : ∀ c ∈ changes, slice after c.newPosition c.newText.length = c.newText
  redo : redoText changes before = after
  undo : undoText changes after = before

theorem describes_of_takes {changes : List TextChange} {before after : JsString}
    (h : Takes 0 0 changes before after) : Describes changes before after := by
  have hstart : (0 : Int) = ([] : JsString).length := rfl
  refine ⟨h.sorted, h.le, ?_, ?_, h.applyAll_eq, h.flip.applyAll_eq⟩
  · have hfound := h.found hstart
    exact hfound
  · intro c hc
    have hfound := h.flip.found hstart c.flip (mem_map_of_mem hc)
    exact hfound

variable {s0 s t : JsString}

section Runs

variable {σ : Type}

def EditsTake (s : JsString) : List (ModelEdit σ) → JsString → Prop
  | [], t => s = t
  | edit :: rest, t => ∃ middle,
      Takes 0 0 (SingleModelEditStackData.sortTextChanges edit.textChanges) s middle ∧
        EditsTake middle rest t

theorem takes_pushEdit {data : SingleModelEditStackData σ} {edit : ModelEdit σ}
    (h : Takes 0 0 data.changes s0 s)
    (hedit : Takes 0 0 (SingleModelEditStackData.sortTextChanges edit.textChanges) s t) :
    Takes 0 0 (data.pushEdit edit).changes s0 t := by
  rw [SingleModelEditStackData.pushEdit, SingleModelEditStackData.append]
  split
  · exact takes_compressConsecutiveTextChanges h hedit
  · next hnone =>
    have hnil : SingleModelEditStackData.sortTextChanges edit.textChanges = [] :=
      eq_nil_of_length_eq_zero (Nat.eq_zero_of_not_pos hnone)
    rw [hnil] at hedit
    cases hedit
    exact h

theorem takes_pushEdits {data : SingleModelEditStackData σ} {edits : List (ModelEdit σ)}
    (h : Takes 0 0 data.changes s0 s) (hedits : EditsTake s edits t) :
    Takes 0 0 (data.pushEdits edits).changes s0 t := by
  induction edits generalizing data s with
  | nil =>
    cases hedits
    exact h
  | cons edit rest ih =>
    obtain ⟨middle, hedit, hrest⟩ := hedits
    exact ih (takes_pushEdit h hedit) hrest

end Runs

/-- Compression keeps the meaning of two lists of changes, and so the data of a new element
undoes any sequence of edits to the first text and redoes it to the last one. -/
theorem undoCompression_keepsMeaning {σ : Type} :
    (∀ (prevEdits currEdits : List TextChange) (s0 s1 s2 : JsString),
      Takes 0 0 prevEdits s0 s1 → Takes 0 0 currEdits s1 s2 →
        Takes 0 0 (compressConsecutiveTextChanges (some prevEdits) currEdits) s0 s2 ∧
        Describes (compressConsecutiveTextChanges (some prevEdits) currEdits) s0 s2) ∧
    (∀ (versionId : Nat) (eol : EndOfLineSequence) (cursorState : Option σ)
      (edits : List (ModelEdit σ)) (first last : JsString), EditsTake first edits last →
        Describes ((SingleModelEditStackData.create versionId eol cursorState).pushEdits
          edits).changes first last) := by
  constructor
  · intro prevEdits currEdits s0 s1 s2 hprev hcurr
    have htakes := takes_compressConsecutiveTextChanges hprev hcurr
    exact ⟨htakes, describes_of_takes htakes⟩
  · intro versionId eol cursorState edits first last hedits
    exact describes_of_takes (takes_pushEdits (Takes.refl 0 0 first) hedits)

/-- An insertion that is partly deleted again. -/
theorem undoCompression_keepsMeaning_sample :
    Describes (compressConsecutiveTextChanges (some [⟨1, [], 1, [98, 99]⟩])
      [⟨0, [97, 98], 0, [120]⟩]) [97, 100] [120, 99, 100] := by
  refine ((undoCompression_keepsMeaning (σ := Unit)).1 _ _ _ [97, 98, 99, 100] _ ?_ ?_).2
  · exact ⟨[97], [100], [100], rfl, rfl, rfl, rfl, rfl⟩
  · exact ⟨[], [99, 100], [99, 100], rfl, rfl, rfl, rfl, rfl⟩

end Fumie.Editor
