import Fumie.Base.Buffer
import Fumie.Lib.Record
import Fumie.Lib.Runs

/-!
# Chunking codec

`chunk` splits a payload that does not fit one frame into base64 slices of its
serialised bytes, and a `Reassembler` puts the slices of interleaved groups together
again under ceilings on bytes, groups and segments. An envelope that arrives is any
JSON value. `null` answers for a segment that does not complete its group.

The reading of the clock is an argument of each call.
-/

namespace Fumie.AgentHost

open Fumie.Lib JsString
open Fumie.Base

inductive ChunkEnvelope where
  | message (data : JsonValue)
  | chunk (groupId : JsString) (seq total : Nat) (bytes : JsString)

namespace ChunkEnvelope

def toJson : ChunkEnvelope → JsonValue
  | .message data =>
    .object [(ofString "kind", .string (ofString "message")), (ofString "data", data)]
  | .chunk groupId seq total bytes =>
    .object
      [(ofString "kind", .string (ofString "chunk")), (ofString "group_id", .string groupId),
       (ofString "seq", .number (.integer seq)),
       (ofString "total", .number (.integer total)),
       (ofString "bytes", .string bytes)]

end ChunkEnvelope

def DEFAULT_MAX_CHUNK_BYTES : Nat := 900 * 1024

def DEFAULT_REASSEMBLY_TIMEOUT_MS : Int := 30000

def DEFAULT_MAX_REASSEMBLY_BYTES : Nat := 32 * 1024 * 1024

def DEFAULT_MAX_REASSEMBLY_TOTAL_BYTES : Nat := 64 * 1024 * 1024

def DEFAULT_MAX_CONCURRENT_GROUPS : Nat := 64

def DEFAULT_MAX_SEGMENTS_PER_GROUP : Nat := 4096

inductive ChunkingError where
  | maxChunkBytesNotPositive (maxChunkBytes : Int)
  | payloadTooLong (bytes : Nat)
  | emptyGroupId
  | noQuantum (maxChunkBytes : Int) (overhead : Nat)
  | tooManyChunks (total : Nat)
  | notAnObject
  | missingData
  | unknownKind (kind : Option JsonValue)
  | totalNotPositive (total : Option JsonValue)
  | totalExceeds (total maxSegmentsPerGroup : Nat)
  | groupIdNotString
  | bytesNotString
  | tooManyGroups (groupId : JsString) (inFlight : Nat)
  | totalMismatch (groupId : JsString) (existing incoming : Nat)
  | seqOutOfRange (seq : Option JsonValue) (total : Nat)
  | duplicateSeq (groupId : JsString) (seq : Nat)
  | notCanonical (groupId : JsString)
  | decodeFailed (groupId : JsString)
  | bufferCeiling (groupId : JsString) (maxBufferBytes : Nat)
  | totalCeiling (maxTotalBufferBytes : Nat)
  | segmentMissing
  | invalidUtf8 (groupId : JsString)
  | invalidJson (groupId : JsString)

def isBase64Digit (code : CodeUnit) : Bool :=
  (65 ≤ code.val && code.val ≤ 90) || (97 ≤ code.val && code.val ≤ 122) ||
    (48 ≤ code.val && code.val ≤ 57) || code.val = 43 || code.val = 47

/-- `CANONICAL_BASE64.test`: groups of four digits, the last of them perhaps padded. -/
def isCanonicalBase64 : JsString → Bool
  | [] => true
  | a :: b :: c :: d :: rest =>
    isBase64Digit a && isBase64Digit b &&
      ((isBase64Digit c && isBase64Digit d && isCanonicalBase64 rest) ||
        (rest.isEmpty && d.val = 61 && (c.val = 61 || isBase64Digit c)))
  | _ => false

/-! ## Splitting a payload -/

structure ChunkOptions where
  maxChunkBytes : Option Int
  /-- The `group_id` that a chunked publish would mint. -/
  newGroupId : JsString

def byteLength (value : JsonValue) : Nat := (utf8Encode value.stringify).length

def slices (rawBytes : Bytes) (rawBudget total : Nat) : List Bytes :=
  (List.range total).map fun i => (rawBytes.drop (i * rawBudget)).take rawBudget

def chunk (payload : JsonValue) (options : ChunkOptions) :
    Except ChunkingError (List ChunkEnvelope) :=
  let maxChunkBytes := options.maxChunkBytes.getD DEFAULT_MAX_CHUNK_BYTES
  if maxChunkBytes ≤ 0 then .error (.maxChunkBytesNotPositive maxChunkBytes)
  else
    let rawBytes := utf8Encode payload.stringify
    if rawBytes.length > DEFAULT_MAX_REASSEMBLY_BYTES then .error (.payloadTooLong rawBytes.length)
    else if (byteLength (ChunkEnvelope.message payload).toJson : Int) ≤ maxChunkBytes then
      .ok [.message payload]
    else if options.newGroupId.isEmpty then .error .emptyGroupId
    else
      let overhead := byteLength (ChunkEnvelope.chunk options.newGroupId
        (DEFAULT_MAX_SEGMENTS_PER_GROUP - 1) DEFAULT_MAX_SEGMENTS_PER_GROUP []).toJson
      let encodedBudget := (maxChunkBytes - overhead) / 4 * 4
      if encodedBudget < 4 then .error (.noQuantum maxChunkBytes overhead)
      else
        let rawBudget := (encodedBudget / 4 * 3).toNat
        let total := (rawBytes.length + rawBudget - 1) / rawBudget
        if total > DEFAULT_MAX_SEGMENTS_PER_GROUP then .error (.tooManyChunks total)
        else
          .ok ((slices rawBytes rawBudget total).zipIdx.map fun slice =>
            .chunk options.newGroupId slice.2 total (encodeBase64 slice.1))

/-! ## Reassembly -/

structure ReassemblerOptions where
  timeoutMs : Option Int := none
  maxBufferBytes : Option Nat := none
  maxTotalBufferBytes : Option Nat := none
  maxConcurrentGroups : Option Nat := none
  maxSegmentsPerGroup : Option Nat := none

structure ReassemblyBuffer where
  total : Nat
  received : Nat
  segments : Record Nat Bytes
  accumulatedBytes : Nat
  startedAt : Int

structure Reassembler where
  buffers : Record JsString ReassemblyBuffer
  timeoutMs : Int
  maxBufferBytes : Nat
  maxTotalBufferBytes : Nat
  maxConcurrentGroups : Nat
  maxSegmentsPerGroup : Nat
  accumulatedBytes : Int

structure ChunkFields where
  groupId : JsString
  seq : Option JsonValue
  total : Nat
  bytes : JsString

namespace Reassembler

def new (options : ReassemblerOptions) : Reassembler where
  buffers := .empty
  timeoutMs := options.timeoutMs.getD DEFAULT_REASSEMBLY_TIMEOUT_MS
  maxBufferBytes := options.maxBufferBytes.getD DEFAULT_MAX_REASSEMBLY_BYTES
  maxTotalBufferBytes := options.maxTotalBufferBytes.getD DEFAULT_MAX_REASSEMBLY_TOTAL_BYTES
  maxConcurrentGroups := options.maxConcurrentGroups.getD DEFAULT_MAX_CONCURRENT_GROUPS
  maxSegmentsPerGroup := options.maxSegmentsPerGroup.getD DEFAULT_MAX_SEGMENTS_PER_GROUP
  accumulatedBytes := 0

variable (r : Reassembler)

def inFlightGroupCount : Nat := r.buffers.entries.length

def inFlightBytes : Int := r.accumulatedBytes

def dropBuffer (groupId : JsString) : Reassembler :=
  match r.buffers.get groupId with
  | none => r
  | some buffer =>
    { r with
      accumulatedBytes := r.accumulatedBytes - buffer.accumulatedBytes
      buffers := r.buffers.delete groupId }

/-- `Number.isInteger(total) && total >= 1`. -/
def positiveInteger? : Option JsonValue → Option Nat
  | some (.number (.integer (.ofNat (n + 1)))) => some (n + 1)
  | _ => none

variable (envelope : JsonValue) (f : ChunkFields) (groupId : JsString) (buffer : ReassemblyBuffer)
  (now : Int)

def chunkFields : Except ChunkingError ChunkFields :=
  match positiveInteger? (envelope.field? (JsString.ofString "total")) with
  | none => .error (.totalNotPositive (envelope.field? (JsString.ofString "total")))
  | some total =>
    if total > r.maxSegmentsPerGroup then .error (.totalExceeds total r.maxSegmentsPerGroup)
    else
      match envelope.field? (ofString "group_id") with
      | some (.string (u :: groupId)) =>
        match envelope.field? (ofString "bytes") with
        | some (.string bytes) =>
          .ok ⟨u :: groupId, envelope.field? (ofString "seq"), total, bytes⟩
        | _ => .error .bytesNotString
      | _ => .error .groupIdNotString

def openBuffer : Reassembler × Except ChunkingError ReassemblyBuffer :=
  match r.buffers.get f.groupId with
  | none =>
    if r.inFlightGroupCount ≥ r.maxConcurrentGroups then
      (r, .error (.tooManyGroups f.groupId r.inFlightGroupCount))
    else
      let buffer := ⟨f.total, 0, .empty, 0, now⟩
      ({ r with buffers := r.buffers.set f.groupId buffer }, .ok buffer)
  | some buffer =>
    if buffer.total ≠ f.total then
      (r.dropBuffer f.groupId, .error (.totalMismatch f.groupId buffer.total f.total))
    else (r, .ok buffer)

/-- `Number.isInteger(seq) && seq >= 0 && seq < total`. -/
def seqInRange? (seq : Option JsonValue) (total : Nat) : Option Nat :=
  match seq with
  | some (.number (.integer (.ofNat n))) => if n < total then some n else none
  | _ => none

def segment : Except ChunkingError (Nat × Bytes) :=
  match seqInRange? f.seq f.total with
  | none => .error (.seqOutOfRange f.seq f.total)
  | some seq =>
    if (buffer.segments.get seq).isSome then .error (.duplicateSeq f.groupId seq)
    else if !isCanonicalBase64 f.bytes then .error (.notCanonical f.groupId)
    else
      match decodeBase64 f.bytes with
      | none => .error (.decodeFailed f.groupId)
      | some decoded =>
        if buffer.accumulatedBytes + decoded.length > r.maxBufferBytes then
          .error (.bufferCeiling f.groupId r.maxBufferBytes)
        else if r.accumulatedBytes + decoded.length > r.maxTotalBufferBytes then
          .error (.totalCeiling r.maxTotalBufferBytes)
        else .ok (seq, decoded)

def addSegment (seq : Nat) (decoded : Bytes) : ReassemblyBuffer :=
  { buffer with
    segments := buffer.segments.set seq decoded
    received := buffer.received + 1
    accumulatedBytes := buffer.accumulatedBytes + decoded.length }

def payloadOf (merged : Bytes) : Except ChunkingError JsonValue :=
  match utf8Decode merged with
  | none => .error (.invalidUtf8 groupId)
  | some text =>
    match JsonValue.parse text with
    | none => .error (.invalidJson groupId)
    | some payload => .ok payload

/-- What a buffer with all its segments gives. -/
def complete : Except ChunkingError JsonValue :=
  match (List.range buffer.total).mapM buffer.segments.get with
  | none => .error .segmentMissing
  | some slices => payloadOf groupId slices.flatten

def ingestChunk : Reassembler × Except ChunkingError JsonValue :=
  match r.openBuffer f now with
  | (r, .error e) => (r, .error e)
  | (r, .ok buffer) =>
    match r.segment f buffer with
    | .error e => (r.dropBuffer f.groupId, .error e)
    | .ok (seq, decoded) =>
      let buffer := addSegment buffer seq decoded
      let r :=
        { r with
          buffers := r.buffers.set f.groupId buffer
          accumulatedBytes := r.accumulatedBytes + decoded.length }
      if buffer.received < buffer.total then (r, .ok .null)
      else (r.dropBuffer f.groupId, complete f.groupId buffer)

def ingest : Reassembler × Except ChunkingError JsonValue :=
  match envelope with
  | .array _ => (r, .error (.unknownKind none))
  | .object _ =>
    match envelope.field? (ofString "kind") with
    | some (.string kind) =>
      if kind = ofString "message" then
        match envelope.field? (ofString "data") with
        | none => (r, .error .missingData)
        | some data => (r, .ok data)
      else if kind = ofString "chunk" then
        match r.chunkFields envelope with
        | .error e => (r, .error e)
        | .ok f => r.ingestChunk f now
      else (r, .error (.unknownKind (some (.string kind))))
    | kind => (r, .error (.unknownKind kind))
  | _ => (r, .error .notAnObject)

def sweepExpired : Reassembler × List JsString :=
  let cutoff := now - r.timeoutMs
  r.buffers.entries.foldl
    (fun (r, dropped) entry =>
      if entry.2.startedAt ≤ cutoff then (r.dropBuffer entry.1, dropped ++ [entry.1])
      else (r, dropped))
    (r, [])

end Reassembler

end Fumie.AgentHost
