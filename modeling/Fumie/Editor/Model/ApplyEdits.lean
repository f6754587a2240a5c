import Fumie.Editor.Core.EolCounter
import Fumie.Editor.Core.TextChange
import Fumie.Editor.Model.PieceTreeTextBuffer

/-!
# Edits of a text buffer

A buffer is given by the text its piece tree holds. `applyEdits` checks the operations,
sorts them, finds out what has to be applied to undo them, and applies them from the last
to the first; a thousand operations or more are first made one.
-/

namespace Fumie.Editor

open Fumie.Lib Fumie.Base

structure TextBuffer where
  text : JsString
  EOL : EndOfLine
  EOLNormalized : Bool
  mightContainRTL : Bool
  mightContainUnusualLineTerminators : Bool
  mightContainNonBasicASCII : Bool

def PieceTreeTextBuffer.textBuffer? (buffer : PieceTreeTextBuffer) : Option TextBuffer :=
  buffer.pieceTree.getLinesRawContent.map fun text =>
    ⟨text, buffer.pieceTree.EOL, buffer.pieceTree.EOLNormalized, buffer.mightContainRTL,
      buffer.mightContainUnusualLineTerminators, buffer.mightContainNonBasicASCII⟩

structure ISingleEditOperationIdentifier where
  major : Nat
  minor : Nat
  deriving DecidableEq, Repr

structure ValidAnnotatedEditOperation where
  identifier : Option ISingleEditOperationIdentifier
  range : Range
  text : Option JsString
  forceMoveMarkers : Bool
  isAutoWhitespaceEdit : Bool
  isTracked : Bool

structure IValidatedEditOperation where
  sortIndex : Nat
  identifier : Option ISingleEditOperationIdentifier
  range : Range
  rangeOffset : Nat
  rangeLength : Nat
  text : JsString
  eolCount : Nat
  firstLineLength : Nat
  lastLineLength : Nat
  forceMoveMarkers : Bool
  isAutoWhitespaceEdit : Bool

structure IReverseSingleEditOperation where
  sortIndex : Nat
  identifier : Option ISingleEditOperationIdentifier
  range : Range
  text : JsString
  textChange : TextChange

structure IInternalModelContentChange where
  range : Range
  rangeOffset : Nat
  rangeLength : Nat
  text : JsString
  forceMoveMarkers : Bool

structure ApplyEditsResult where
  reverseEdits : Option (List IReverseSingleEditOperation)
  changes : List IInternalModelContentChange
  trimAutoWhitespaceLineNumbers : Option (List Nat)

namespace TextBuffer

/-! ## Reading a buffer -/

section

variable (buffer : TextBuffer)

def getOffsetAt (lineNumber column : Nat) : Nat :=
  match (createLineStartsFast buffer.text)[lineNumber - 1]? with
  | some lineStart => lineStart + column - 1
  | none => buffer.text.length

def getLineContent (lineNumber : Nat) : JsString := (textLines buffer.text)[lineNumber - 1]?.getD []

def getValueInRange (range : Range) : JsString :=
  if range.isEmpty then []
  else
    let startOffset := buffer.getOffsetAt range.startLineNumber range.startColumn
    let endOffset := buffer.getOffsetAt range.endLineNumber range.endColumn
    let value := (buffer.text.take endOffset).drop startOffset
    if buffer.EOLNormalized then value else replaceEOL buffer.EOL value

def getValueLengthInRange (range : Range) : Nat :=
  if range.isEmpty then 0
  else if range.startLineNumber = range.endLineNumber then range.endColumn - range.startColumn
  else
    buffer.getOffsetAt range.endLineNumber range.endColumn -
      buffer.getOffsetAt range.startLineNumber range.startColumn

/-- `_pieceTree.delete`. -/
def delete (offset cnt : Nat) : TextBuffer :=
  { buffer with text := buffer.text.take offset ++ buffer.text.drop (offset + cnt) }

/-- `_pieceTree.insert`. -/
def insert (offset : Nat) (value : JsString) (eolNormalized : Bool) : TextBuffer :=
  { buffer with
    text := buffer.text.take offset ++ value ++ buffer.text.drop offset
    EOLNormalized := buffer.EOLNormalized && eolNormalized }

/-! ## Checking the operations -/

def noteText (text : JsString) : TextBuffer :=
  if text = [] then buffer
  else
    let textMightContainNonBasicASCII :=
      if buffer.mightContainNonBasicASCII then true else !isBasicASCII text
    { buffer with
      mightContainNonBasicASCII := textMightContainNonBasicASCII
      mightContainRTL :=
        if !buffer.mightContainRTL && textMightContainNonBasicASCII then containsRTL text
        else buffer.mightContainRTL
      mightContainUnusualLineTerminators :=
        if !buffer.mightContainUnusualLineTerminators && textMightContainNonBasicASCII then
          containsUnusualLineTerminators text
        else buffer.mightContainUnusualLineTerminators }

end

def validText (eol : EndOfLine) (text : JsString) : JsString :=
  let strEOL := (countEOL text).eol
  if strEOL = .Unknown ∨ strEOL = eol.kind then text else replaceEOL eol text

variable (buffer : TextBuffer)

def validateOperation (i : Nat) (op : ValidAnnotatedEditOperation) : IValidatedEditOperation where
  sortIndex := i
  identifier := op.identifier
  range := op.range
  rangeOffset := buffer.getOffsetAt op.range.startLineNumber op.range.startColumn
  rangeLength := buffer.getValueLengthInRange op.range
  text := validText buffer.EOL (op.text.getD [])
  eolCount := (countEOL (op.text.getD [])).eolCount
  firstLineLength := (countEOL (op.text.getD [])).firstLineLength
  lastLineLength := (countEOL (op.text.getD [])).lastLineLength
  forceMoveMarkers := op.forceMoveMarkers
  isAutoWhitespaceEdit := op.isAutoWhitespaceEdit

variable (rawOperations : List ValidAnnotatedEditOperation)

def validateOperations : List IValidatedEditOperation :=
  rawOperations.mapIdx buffer.validateOperation

def sortOpsAscending (a b : IValidatedEditOperation) : Int :=
  let r := Range.compareRangesUsingEnds a.range b.range
  if r = 0 then a.sortIndex - b.sortIndex else r

def sortOpsDescending (a b : IValidatedEditOperation) : Int :=
  let r := Range.compareRangesUsingEnds a.range b.range
  if r = 0 then b.sortIndex - a.sortIndex else -r

def findTouching (hasTouchingRanges : Bool) : List IValidatedEditOperation → Except String Bool
  | op :: next :: rest =>
    let rangeEnd := op.range.getEndPosition
    let nextRangeStart := next.range.getStartPosition
    if nextRangeStart.isBeforeOrEqual rangeEnd then
      if nextRangeStart.isBefore rangeEnd then .error "Overlapping ranges are not allowed!"
      else findTouching true (next :: rest)
    else findTouching hasTouchingRanges (next :: rest)
  | _ => .ok hasTouchingRanges

/-! ## One operation for all -/

/-- The loop of `_toSingleEditOperation`: the old text between the operations and their
new texts. -/
def mergedText (buffer : TextBuffer) (lastEnd : Position) : List IValidatedEditOperation → JsString
  | [] => []
  | op :: operations =>
    buffer.getValueInRange (Range.new lastEnd.lineNumber lastEnd.column op.range.startLineNumber
      op.range.startColumn) ++ (op.text ++ buffer.mergedText op.range.getEndPosition operations)

def toSingleEditOperation (first : IValidatedEditOperation)
    (rest : List IValidatedEditOperation) : IValidatedEditOperation :=
  let last := rest.getLastD first
  let entireEditRange := Range.new first.range.startLineNumber first.range.startColumn
    last.range.endLineNumber last.range.endColumn
  let text := buffer.mergedText first.range.getStartPosition (first :: rest)
  { sortIndex := 0
    identifier := first.identifier
    range := entireEditRange
    rangeOffset := buffer.getOffsetAt entireEditRange.startLineNumber entireEditRange.startColumn
    rangeLength := buffer.getValueLengthInRange entireEditRange
    text := text
    eolCount := (countEOL text).eolCount
    firstLineLength := (countEOL text).firstLineLength
    lastLineLength := (countEOL text).lastLineLength
    forceMoveMarkers := (first :: rest).any IValidatedEditOperation.forceMoveMarkers
    isAutoWhitespaceEdit := false }

def reduceOperations (operations : List IValidatedEditOperation) : List IValidatedEditOperation :=
  if operations.length < 1000 then operations
  else
    match operations with
    | [] => []
    | first :: rest => [buffer.toSingleEditOperation first rest]

/-! ## What undoes the operations -/

def inverseStart (prev : Option (IValidatedEditOperation × Position)) (op : IValidatedEditOperation) :
    Position :=
  match prev with
  | some (prevOp, prevOpEnd) =>
    if prevOp.range.endLineNumber = op.range.startLineNumber then
      ⟨prevOpEnd.lineNumber, prevOpEnd.column + (op.range.startColumn - prevOp.range.endColumn)⟩
    else
      ⟨prevOpEnd.lineNumber + (op.range.startLineNumber - prevOp.range.endLineNumber),
        op.range.startColumn⟩
  | none => op.range.getStartPosition

def inverseRange (start : Position) (op : IValidatedEditOperation) : Range :=
  if op.text.length > 0 then
    let lineCount := op.eolCount + 1
    if lineCount = 1 then
      .new start.lineNumber start.column start.lineNumber (start.column + op.firstLineLength)
    else
      .new start.lineNumber start.column (start.lineNumber + lineCount - 1) (op.lastLineLength + 1)
  else .new start.lineNumber start.column start.lineNumber start.column

/-- The loop of `_getInverseEditRanges`. -/
def inverseEditRanges (prev : Option (IValidatedEditOperation × Position)) :
    List IValidatedEditOperation → List Range
  | [] => []
  | op :: operations =>
    let range := inverseRange (inverseStart prev op) op
    range :: inverseEditRanges (some (op, range.getEndPosition)) operations

def getInverseEditRanges (operations : List IValidatedEditOperation) : List Range :=
  inverseEditRanges none operations

def reverseOperations (buffer : TextBuffer) (reverseRangeDeltaOffset : Int) :
    List (IValidatedEditOperation × Range) → List IReverseSingleEditOperation
  | [] => []
  | (op, reverseRange) :: rest =>
    let bufferText := buffer.getValueInRange op.range
    { sortIndex := op.sortIndex
      identifier := op.identifier
      range := reverseRange
      text := bufferText
      textChange := ⟨op.rangeOffset, bufferText, op.rangeOffset + reverseRangeDeltaOffset,
        op.text⟩ } ::
      buffer.reverseOperations (reverseRangeDeltaOffset + (op.text.length - bufferText.length)) rest

def reverseEdits (hasTouchingRanges : Bool)
    (operations : List IValidatedEditOperation) (reverseRanges : List Range) :
    List IReverseSingleEditOperation :=
  let reverse := buffer.reverseOperations 0 (operations.zip reverseRanges)
  if hasTouchingRanges then reverse
  else reverse.mergeSort fun a b => (a.sortIndex : Int) - b.sortIndex ≤ 0

/-! ## Automatic whitespace -/

/-- `-1` is `none`. -/
def firstNonWhitespaceIndex (str : JsString) : Option Nat :=
  str.findIdx? fun chCode => chCode ≠ 32 && chCode ≠ tab

section

variable (op : IValidatedEditOperation)

/-- The lines that may hold whitespace to be trimmed by the next edit, with what they hold. -/
def trimCandidates (reverseRange : Range) : List (Nat × JsString) :=
  if op.isAutoWhitespaceEdit && op.range.isEmpty then
    (List.range' reverseRange.startLineNumber
      (reverseRange.endLineNumber + 1 - reverseRange.startLineNumber)).filterMap fun lineNumber =>
        if lineNumber = reverseRange.startLineNumber then
          let currentLineContent := buffer.getLineContent op.range.startLineNumber
          if (firstNonWhitespaceIndex currentLineContent).isSome then none
          else some (lineNumber, currentLineContent)
        else some (lineNumber, [])
  else []

def trimLineNumbers (buffer : TextBuffer) (before : Option Nat) : List (Nat × JsString) → List Nat
  | [] => []
  | (lineNumber, prevContent) :: rest =>
    let lineContent := buffer.getLineContent lineNumber
    if before = some lineNumber then buffer.trimLineNumbers (some lineNumber) rest
    else if lineContent.length = 0 ∨ lineContent = prevContent ∨
        (firstNonWhitespaceIndex lineContent).isSome then
      buffer.trimLineNumbers (some lineNumber) rest
    else lineNumber :: buffer.trimLineNumbers (some lineNumber) rest

/-! ## Applying the operations -/

def isNoOp : Bool := op.range.isEmpty && op.text.length = 0

def applyOperation : TextBuffer :=
  if isNoOp op then buffer
  else if op.text ≠ [] then
    (buffer.delete op.rangeOffset op.rangeLength).insert op.rangeOffset op.text true
  else buffer.delete op.rangeOffset op.rangeLength

def contentChange : IInternalModelContentChange where
  range := .new op.range.startLineNumber op.range.startColumn op.range.endLineNumber
    op.range.endColumn
  rangeLength := op.rangeLength
  text := op.text
  rangeOffset := op.rangeOffset
  forceMoveMarkers := op.forceMoveMarkers

end

def doApplyEdits (operations : List IValidatedEditOperation) :
    List IInternalModelContentChange × TextBuffer :=
  let sorted := operations.mergeSort fun a b => sortOpsDescending a b ≤ 0
  ((sorted.filter fun op => !isNoOp op).map contentChange, sorted.foldl applyOperation buffer)

def applySorted (texts : List JsString) (hasTouchingRanges : Bool)
    (operations : List IValidatedEditOperation) (recordTrimAutoWhitespace computeUndoEdits : Bool) :
    ApplyEditsResult × TextBuffer :=
  let reverseRanges :=
    if computeUndoEdits || recordTrimAutoWhitespace then getInverseEditRanges operations else []
  let newTrimAutoWhitespaceCandidates :=
    if recordTrimAutoWhitespace then
      (operations.zip reverseRanges).flatMap fun op => buffer.trimCandidates op.1 op.2
    else []
  let reverseOperations :=
    if computeUndoEdits then
      some (buffer.reverseEdits hasTouchingRanges operations reverseRanges)
    else none
  let applied := (texts.foldl noteText buffer).doApplyEdits operations
  let trimAutoWhitespaceLineNumbers :=
    if recordTrimAutoWhitespace ∧ newTrimAutoWhitespaceCandidates.length > 0 then
      some (applied.2.trimLineNumbers none
        (newTrimAutoWhitespaceCandidates.mergeSort fun a b => (b.1 : Int) - a.1 ≤ 0))
    else none
  (⟨reverseOperations, applied.1, trimAutoWhitespaceLineNumbers⟩, applied.2)

def sortedOperations : List IValidatedEditOperation :=
  (buffer.validateOperations rawOperations).mergeSort fun a b => sortOpsAscending a b ≤ 0

def applyEdits (recordTrimAutoWhitespace computeUndoEdits : Bool) :
    Except String ApplyEditsResult × TextBuffer :=
  let operations := buffer.sortedOperations rawOperations
  match findTouching false operations with
  | .error message => (.error message, buffer)
  | .ok hasTouchingRanges =>
    let canReduceOperations := !rawOperations.any ValidAnnotatedEditOperation.isTracked
    let applied := buffer.applySorted (rawOperations.map fun op => op.text.getD [])
      hasTouchingRanges
      (if canReduceOperations then buffer.reduceOperations operations else operations)
      recordTrimAutoWhitespace computeUndoEdits
    (.ok applied.1, applied.2)

end TextBuffer

end Fumie.Editor
