import Fumie.Base.Buffer

/-!
# Streams of chunks

The `ChunkStream` the readers of a socket gather their input in: the chunks as they came
and how many bytes they hold together. Reading and peeking see only the bytes, not
where the chunks end.
-/

namespace Fumie.Base

open List

structure ChunkStream where
  chunks : List Bytes
  totalLength : Nat
  total : totalLength = chunks.flatten.length

namespace ChunkStream

def empty : ChunkStream := ⟨[], 0, rfl⟩

def byteLength (s : ChunkStream) : Nat := s.totalLength

def bytes (s : ChunkStream) : Bytes := s.chunks.flatten

variable (s : ChunkStream)

theorem byteLength_eq : s.byteLength = s.bytes.length := s.total

@[simp] theorem bytes_empty : empty.bytes = [] := rfl

def acceptChunk (s : ChunkStream) (buff : Bytes) : ChunkStream where
  chunks := s.chunks ++ [buff]
  totalLength := s.totalLength + buff.length
  total := by
    rw [s.total, flatten_append, length_append, flatten_singleton]

@[simp] theorem bytes_acceptChunk (buff : Bytes) :
    (s.acceptChunk buff).bytes = s.bytes ++ buff := by
  rw [bytes, acceptChunk, flatten_append, flatten_singleton]
  rfl

/-- The loop of `_read`: the bytes it sets in the result and the chunks that survive. -/
def readChunks : Nat → List Bytes → Bytes × List Bytes
  | 0, chunks => ([], chunks)
  | _ + 1, [] => ([], [])
  | byteCount + 1, chunk :: chunks =>
    if chunk.length > byteCount + 1 then
      (chunk.take (byteCount + 1), chunk.drop (byteCount + 1) :: chunks)
    else
      let (result, chunks) := readChunks (byteCount + 1 - chunk.length) chunks
      (chunk ++ result, chunks)

variable (byteCount : Nat) (chunks : List Bytes)

theorem readChunks_eq :
    (readChunks byteCount chunks).1 = chunks.flatten.take byteCount ∧
      (readChunks byteCount chunks).2.flatten = chunks.flatten.drop byteCount := by
  induction chunks generalizing byteCount with
  | nil =>
    cases byteCount with
    | zero | succ _ => exact ⟨rfl, rfl⟩
  | cons chunk chunks ih =>
    cases byteCount with
    | zero => exact ⟨rfl, rfl⟩
    | succ n =>
      rw [readChunks, flatten_cons]
      by_cases h : chunk.length > n + 1
      · rw [if_pos h, take_append_of_le_length (by omega), drop_append_of_le_length (by omega)]
        exact ⟨rfl, rfl⟩
      · rw [if_neg h, take_append, drop_append, take_of_length_le (by omega),
          drop_of_length_le (by omega)]
        have := ih (n + 1 - chunk.length)
        exact ⟨congrArg _ this.1, by rw [nil_append]; exact this.2⟩

/-- `_read` behind its checks: precisely the first chunk, a part of it, or the loop. -/
def takeChunks (byteCount : Nat) : List Bytes → Bytes × List Bytes
  | [] => ([], [])
  | chunk :: chunks =>
    if chunk.length = byteCount then (chunk, chunks)
    else if chunk.length > byteCount then (chunk.take byteCount, chunk.drop byteCount :: chunks)
    else readChunks byteCount (chunk :: chunks)

theorem takeChunks_eq :
    (takeChunks byteCount chunks).1 = chunks.flatten.take byteCount ∧
      (takeChunks byteCount chunks).2.flatten = chunks.flatten.drop byteCount := by
  cases chunks with
  | nil => simp [takeChunks]
  | cons chunk chunks =>
    rw [takeChunks]
    by_cases hfirst : chunk.length = byteCount
    · rw [if_pos hfirst, flatten_cons, take_left' hfirst, drop_left' hfirst]
      exact ⟨rfl, rfl⟩
    · rw [if_neg hfirst]
      by_cases hwithin : chunk.length > byteCount
      · rw [if_pos hwithin, flatten_cons, take_append_of_le_length (by omega),
          drop_append_of_le_length (by omega)]
        exact ⟨rfl, rfl⟩
      · rw [if_neg hwithin]
        exact readChunks_eq byteCount _

def advance (s : ChunkStream) (byteCount : Nat) : ChunkStream where
  chunks := (takeChunks byteCount s.chunks).2
  totalLength := s.totalLength - byteCount
  total := by rw [(takeChunks_eq byteCount s.chunks).2, length_drop, s.total]

/-- `_read` with `advance`; `none` is its error, when the stream holds too few bytes. -/
def read (s : ChunkStream) (byteCount : Nat) : Option (Bytes × ChunkStream) :=
  if byteCount = 0 then some ([], s)
  else if byteCount > s.totalLength then none
  else some ((takeChunks byteCount s.chunks).1, s.advance byteCount)

/-- `_read` without `advance`. -/
def peek (s : ChunkStream) (byteCount : Nat) : Option Bytes := (s.read byteCount).map Prod.fst

theorem read_spec {byteCount : Nat} (h : byteCount ≤ s.byteLength) :
    ∃ rest, s.read byteCount = some (s.bytes.take byteCount, rest) ∧
      rest.bytes = s.bytes.drop byteCount := by
  by_cases hzero : byteCount = 0
  · subst hzero
    refine ⟨s, ?_, drop_zero.symm⟩
    rw [read, if_pos rfl, take_zero]
  · obtain ⟨htake, hdrop⟩ := takeChunks_eq byteCount s.chunks
    have henough : ¬byteCount > s.totalLength := Nat.not_lt.mpr h
    refine ⟨s.advance byteCount, ?_, hdrop⟩
    rw [read, if_neg hzero, if_neg henough, htake]
    rfl

theorem peek_eq {byteCount : Nat} (h : byteCount ≤ s.byteLength) :
    s.peek byteCount = some (s.bytes.take byteCount) := by
  obtain ⟨rest, hread, -⟩ := s.read_spec h
  rw [peek, hread, Option.map_some]

end ChunkStream

end Fumie.Base
