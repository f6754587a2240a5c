import Fumie.Editor.Model.LineStarts

/-!
# The piece tree a buffer is created with

A buffer holds its texts, each with its line starts, and pieces that point into them.
The tree of a new buffer has one piece for each chunk that is not empty, in order, so
it is modelled by the list of its pieces.
-/

namespace Fumie.Editor

open Fumie.Lib Fumie.Base List Option

/-- A text and its line starts. -/
structure StringBuffer where
  buffer : JsString
  lineStarts : List Nat
  lineStarts_eq : lineStarts = createLineStartsFast buffer

def StringBuffer.ofText (buffer : JsString) : StringBuffer :=
  ⟨buffer, createLineStartsFast buffer, rfl⟩

variable (chunk : StringBuffer)

theorem StringBuffer.eq_ofText : chunk = StringBuffer.ofText chunk.buffer := by
  obtain ⟨buffer, lineStarts, rfl⟩ := chunk
  rfl

def StringBuffer.lastLineStart (chunk : StringBuffer) : Nat :=
  chunk.lineStarts[chunk.lineStarts.length - 1]?.getD 0

structure BufferCursor where
  line : Nat
  column : Nat
  deriving DecidableEq, Repr

structure Piece where
  bufferIndex : Nat
  start : BufferCursor
  stop : BufferCursor
  lineFeedCnt : Nat
  length : Nat
  deriving DecidableEq, Repr

def Piece.whole (bufferIndex : Nat) (chunk : StringBuffer) : Piece where
  bufferIndex := bufferIndex
  start := ⟨0, 0⟩
  stop := ⟨chunk.lineStarts.length - 1, chunk.buffer.length - chunk.lastLineStart⟩
  lineFeedCnt := chunk.lineStarts.length - 1
  length := chunk.buffer.length

structure PieceTreeBase where
  buffers : List StringBuffer
  pieces : List Piece
  EOL : EndOfLine
  EOLNormalized : Bool

namespace PieceTreeBase

def addChunk (tree : PieceTreeBase) (i : Nat) (chunk : StringBuffer) : PieceTreeBase :=
  { tree with
    buffers := tree.buffers ++ [chunk]
    pieces := tree.pieces ++ [Piece.whole (i + 1) chunk] }

/-- The loop of `create`. -/
def addChunks (i : Nat) (tree : PieceTreeBase) : List StringBuffer → PieceTreeBase
  | [] => tree
  | chunk :: rest =>
    if chunk.buffer.length > 0 then addChunks (i + 1) (tree.addChunk i chunk) rest
    else addChunks (i + 1) tree rest

def create (chunks : List StringBuffer) (eol : EndOfLine) (eolNormalized : Bool) : PieceTreeBase :=
  addChunks 0 ⟨[StringBuffer.ofText []], [], eol, eolNormalized⟩ chunks

end PieceTreeBase

def offsetInBuffer (chunk : StringBuffer) (cursor : BufferCursor) : Nat :=
  chunk.lineStarts[cursor.line]?.getD 0 + cursor.column

def getPieceContent (buffers : List StringBuffer) (piece : Piece) : Option JsString :=
  buffers[piece.bufferIndex]?.map fun chunk =>
    (chunk.buffer.take (offsetInBuffer chunk piece.stop)).drop (offsetInBuffer chunk piece.start)

def piecesContent (buffers : List StringBuffer) : List Piece → Option JsString
  | [] => some []
  | piece :: rest =>
    (getPieceContent buffers piece).bind fun text =>
      (piecesContent buffers rest).map fun more => text ++ more

def PieceTreeBase.getLinesRawContent (tree : PieceTreeBase) : Option JsString :=
  piecesContent tree.buffers tree.pieces

/-! ## The content of a new tree -/

variable {buffers chunks : List StringBuffer} {text : JsString}

theorem piecesContent_append {front back : List Piece} {more : JsString}
    (hfront : piecesContent buffers front = some text)
    (hback : piecesContent buffers back = some more) :
    piecesContent buffers (front ++ back) = some (text ++ more) := by
  induction front generalizing text with
  | nil =>
    cases hfront
    exact hback
  | cons piece front ih =>
    rw [piecesContent] at hfront
    obtain ⟨first, hpiece, hrest⟩ := bind_eq_some_iff.mp hfront
    obtain ⟨behind, hbehind, heq⟩ := map_eq_some_iff.mp hrest
    rw [cons_append, piecesContent, hpiece, bind_some, ih hbehind, map_some, ← append_assoc, heq]

theorem piecesContent_addBuffer {pieces : List Piece}
    (h : piecesContent buffers pieces = some text) :
    piecesContent (buffers ++ [chunk]) pieces = some text := by
  induction pieces generalizing text with
  | nil => exact h
  | cons piece pieces ih =>
    rw [piecesContent] at h
    obtain ⟨first, hpiece, hrest⟩ := bind_eq_some_iff.mp h
    obtain ⟨behind, hbehind, heq⟩ := map_eq_some_iff.mp hrest
    have hsame : getPieceContent (buffers ++ [chunk]) piece = some first := by
      obtain ⟨found, hfound, hcut⟩ := map_eq_some_iff.mp hpiece
      obtain ⟨hlt, -⟩ := List.getElem?_eq_some_iff.mp hfound
      rw [getPieceContent, List.getElem?_append_left hlt]
      exact hpiece
    rw [piecesContent, hsame, bind_some, ih hbehind, map_some, heq]

theorem lastLineStart_le : chunk.lastLineStart ≤ chunk.buffer.length := by
  obtain ⟨starts, heq, hle⟩ := createLineStartsFast_spec chunk.buffer
  rw [StringBuffer.lastLineStart, chunk.lineStarts_eq, heq]
  cases h : (0 :: starts)[(0 :: starts).length - 1]? with
  | none => exact Nat.zero_le _
  | some n =>
    rcases mem_cons.mp (mem_of_getElem? h) with rfl | hmem
    · exact Nat.zero_le _
    · exact hle n hmem

theorem getPieceContent_whole {i : Nat} {chunk : StringBuffer} (h : buffers[i]? = some chunk) :
    getPieceContent buffers (Piece.whole i chunk) = some chunk.buffer := by
  obtain ⟨starts, heq, -⟩ := createLineStartsFast_spec chunk.buffer
  have hstart : offsetInBuffer chunk ⟨0, 0⟩ = 0 := by
    rw [offsetInBuffer, chunk.lineStarts_eq, heq]
    rfl
  have hstop : offsetInBuffer chunk (Piece.whole i chunk).stop = chunk.buffer.length :=
    Nat.add_sub_cancel' (lastLineStart_le chunk)
  rw [getPieceContent]
  have hindex : buffers[(Piece.whole i chunk).bufferIndex]? = some chunk := h
  have hzero : offsetInBuffer chunk (Piece.whole i chunk).start = 0 := hstart
  rw [hindex, map_some, hstop, hzero, take_length, drop_zero]

theorem addChunks_content (hne : ∀ c ∈ chunks, c.buffer ≠ []) {i : Nat} {tree : PieceTreeBase}
    (hi : tree.buffers.length = i + 1) (h : tree.getLinesRawContent = some text) :
    (tree.addChunks i chunks).getLinesRawContent =
      some (text ++ chunks.flatMap StringBuffer.buffer) := by
  induction chunks generalizing i tree text with
  | nil => rw [PieceTreeBase.addChunks, h, flatMap_nil, append_nil]
  | cons chunk rest ih =>
    have hpos := length_pos_iff.mpr (hne chunk mem_cons_self)
    have hlast : (tree.buffers ++ [chunk])[i + 1]? = some chunk := by
      rw [← hi, getElem?_concat_length]
    have hpiece : piecesContent (tree.buffers ++ [chunk]) [Piece.whole (i + 1) chunk] =
        some chunk.buffer := by
      rw [piecesContent, getPieceContent_whole hlast, bind_some, piecesContent,
        map_some, append_nil]
    have hadded : (tree.addChunk i chunk).getLinesRawContent = some (text ++ chunk.buffer) :=
      piecesContent_append (piecesContent_addBuffer chunk h) hpiece
    have hnext : (tree.addChunk i chunk).buffers.length = i + 1 + 1 := by
      rw [PieceTreeBase.addChunk, length_append, hi, length_singleton]
    rw [PieceTreeBase.addChunks, if_pos hpos,
      ih (fun c hc => hne c (mem_cons_of_mem _ hc)) hnext hadded, flatMap_cons, append_assoc]

def Creatable (chunks : List StringBuffer) : Prop :=
  (∀ c ∈ chunks, c.buffer ≠ []) ∨ chunks.length = 1

theorem getLinesRawContent_create (h : Creatable chunks) (eol : EndOfLine) (eolNormalized : Bool) :
    (PieceTreeBase.create chunks eol eolNormalized).getLinesRawContent =
      some (chunks.flatMap StringBuffer.buffer) := by
  have hall : ∀ chunks : List StringBuffer, (∀ c ∈ chunks, c.buffer ≠ []) →
      (PieceTreeBase.create chunks eol eolNormalized).getLinesRawContent =
        some (chunks.flatMap StringBuffer.buffer) := by
    intro chunks hne
    have hnew : (⟨[StringBuffer.ofText []], [], eol, eolNormalized⟩ :
        PieceTreeBase).getLinesRawContent = some [] := rfl
    have hcontent := addChunks_content hne rfl hnew
    rwa [nil_append] at hcontent
  rcases h with hne | hone
  · exact hall chunks hne
  · obtain ⟨chunk, rfl⟩ := length_eq_one_iff.mp hone
    by_cases hempty : chunk.buffer = []
    · rw [PieceTreeBase.create, PieceTreeBase.addChunks, hempty, if_neg (by simp),
        PieceTreeBase.addChunks, flatMap_singleton, hempty]
      rfl
    · refine hall [chunk] fun c hc => ?_
      rw [mem_singleton.mp hc]
      exact hempty

/-! ## Text buffers -/

structure PieceTreeTextBuffer where
  pieceTree : PieceTreeBase
  BOM : JsString
  mightContainRTL : Bool
  mightContainUnusualLineTerminators : Bool
  mightContainNonBasicASCII : Bool

def PieceTreeTextBuffer.new (chunks : List StringBuffer) (BOM : JsString) (eol : EndOfLine)
    (containsRTL containsUnusualLineTerminators isBasicASCII eolNormalized : Bool) :
    PieceTreeTextBuffer where
  BOM := BOM
  mightContainNonBasicASCII := !isBasicASCII
  mightContainRTL := containsRTL
  mightContainUnusualLineTerminators := containsUnusualLineTerminators
  pieceTree := PieceTreeBase.create chunks eol eolNormalized

end Fumie.Editor
