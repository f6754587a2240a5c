import Fumie.Base.ChunkStream
import Fumie.Lib.ItemReader

/-!
# WebSocket frames

The incremental `WebSocketFrameParser`. One round of its loop reads a frame off the front
of the incoming chunks; `readFrame` is that round on the bytes alone, and the loop is
the reader of items it makes. A chunk with a frame the parser rejects throws, and the
frames read before it in the same call are gone with it.
-/

namespace Fumie.Base

open Fumie.Lib List ItemReader

def maximum32BitPayloadLength : Nat := 0xffffffff

inductive WebSocketOpcode where
  | continuation
  | text
  | binary
  | close
  | ping
  | pong
  deriving DecidableEq, Repr

structure WebSocketFrame where
  final : Bool
  compressed : Bool
  opcode : WebSocketOpcode
  payload : Bytes
  mask : Option Nat
  deriving DecidableEq

inductive WebSocketFrameError where
  | tooLarge (payloadLength maxPayloadLength : Nat)
  | lengthNotSupported
  | reservedBits
  | reservedOpcode (opcode : Nat)
  | controlNotFinal
  | controlTooLong
  | controlCompressed
  | cannotRead
  deriving DecidableEq

namespace WebSocketFrameError

def message : WebSocketFrameError → String
  | tooLarge payloadLength maxPayloadLength =>
    "WebSocket frame payload length " ++ toString payloadLength ++
      " exceeds the configured limit of " ++ toString maxPayloadLength ++ "."
  | lengthNotSupported => "WebSocket payload lengths greater than 2^32 - 1 are not supported."
  | reservedBits => "WebSocket frames must not set RSV2 or RSV3."
  | reservedOpcode opcode => "WebSocket frame has reserved opcode " ++ toString opcode ++ "."
  | controlNotFinal => "WebSocket control frames must be final."
  | controlTooLong => "WebSocket control frames must not exceed 125 bytes."
  | controlCompressed => "WebSocket control frames must not set RSV1."
  | cannotRead => "Cannot read so many bytes!"

end WebSocketFrameError

/-! ## The header -/

def readUInt8 (buffer : Bytes) (offset : Nat) : Nat := (buffer.getD offset 0).toNat

def readUInt32BE (buffer : Bytes) (offset : Nat) : Nat :=
  readUInt8 buffer offset * 2 ^ 24 + readUInt8 buffer (offset + 1) * 2 ^ 16 +
    readUInt8 buffer (offset + 2) * 2 ^ 8 + readUInt8 buffer (offset + 3)

/-- The bitwise operators give signed 32-bit numbers. -/
def toInt32 (n : Nat) : Int :=
  if n % 2 ^ 32 < 2 ^ 31 then (n % 2 ^ 32 : Nat) else (n % 2 ^ 32 : Nat) - 2 ^ 32

def shiftRightUnsigned (value : Int) (count : Nat) : Int := (value % 2 ^ 32) / 2 ^ count

def toByte (value : Int) : UInt8 := UInt8.ofNat (value % 256).toNat

def writeUInt32BE (value : Int) : Bytes :=
  let value₂ := shiftRightUnsigned value 8
  let value₁ := shiftRightUnsigned value₂ 8
  let value₀ := shiftRightUnsigned value₁ 8
  [toByte value₀, toByte value₁, toByte value₂, toByte value]

def payloadLengthMarker (secondByte : Nat) : Nat := secondByte &&& 0x7f

def isMasked (secondByte : Nat) : Bool := secondByte &&& 0x80 ≠ 0

def headerLength (secondByte : Nat) : Nat :=
  2 + (if payloadLengthMarker secondByte = 126 then 2
    else if payloadLengthMarker secondByte = 127 then 8 else 0) +
    (if isMasked secondByte then 4 else 0)

def getPayloadLength (header : Bytes) (marker : Nat) : Except WebSocketFrameError Nat :=
  if marker < 126 then .ok marker
  else if marker = 126 then .ok (readUInt8 header 2 * 2 ^ 8 + readUInt8 header 3)
  else if readUInt32BE header 2 ≠ 0 then .error .lengthNotSupported
  else .ok (readUInt32BE header 6)

def validateOpcode (opcode : Nat) : Except WebSocketFrameError WebSocketOpcode :=
  match opcode with
  | 0x0 => .ok .continuation
  | 0x1 => .ok .text
  | 0x2 => .ok .binary
  | 0x8 => .ok .close
  | 0x9 => .ok .ping
  | 0xA => .ok .pong
  | opcode => .error (.reservedOpcode opcode)

def isControlOpcode (opcode : Nat) : Bool := opcode &&& 0x8 ≠ 0

def validateFrame (firstByte payloadLength : Nat) : Except WebSocketFrameError Unit :=
  if firstByte &&& 0x30 ≠ 0 then .error .reservedBits
  else
    (validateOpcode (firstByte &&& 0xf)).bind fun _ =>
      if isControlOpcode (firstByte &&& 0xf) then
        if firstByte &&& 0x80 = 0 then .error .controlNotFinal
        else if payloadLength > 125 then .error .controlTooLong
        else if firstByte &&& 0x40 ≠ 0 then .error .controlCompressed
        else .ok ()
      else .ok ()

structure FrameHeader where
  final : Bool
  compressed : Bool
  opcode : WebSocketOpcode
  payloadLength : Nat
  mask : Option Nat

section

variable (maxPayloadLength : Nat)

def parseHeader (header : Bytes) : Except WebSocketFrameError FrameHeader :=
  let firstByte := readUInt8 header 0
  let secondByte := readUInt8 header 1
  (getPayloadLength header (payloadLengthMarker secondByte)).bind fun payloadLength =>
    if payloadLength > maxPayloadLength then .error (.tooLarge payloadLength maxPayloadLength)
    else
      (validateFrame firstByte payloadLength).bind fun _ =>
        (validateOpcode (firstByte &&& 0xf)).bind fun opcode =>
          .ok
            { final := firstByte &&& 0x80 ≠ 0
              compressed := firstByte &&& 0x40 ≠ 0
              opcode
              payloadLength
              mask :=
                if isMasked secondByte then some (readUInt32BE header (header.length - 4))
                else none }

/-! ## The payload -/

def maskWords (mask : Nat) : Bytes → Bytes
  | a :: b :: c :: d :: rest =>
    writeUInt32BE (toInt32 (readUInt32BE [a, b, c, d] 0 ^^^ mask)) ++ maskWords mask rest
  | [a, b, c] =>
    [UInt8.ofNat (a.toNat ^^^ (mask >>> 24 &&& 0xff)),
      UInt8.ofNat (b.toNat ^^^ (mask >>> 16 &&& 0xff)),
      UInt8.ofNat (c.toNat ^^^ (mask >>> 8 &&& 0xff))]
  | [a, b] =>
    [UInt8.ofNat (a.toNat ^^^ (mask >>> 24 &&& 0xff)),
      UInt8.ofNat (b.toNat ^^^ (mask >>> 16 &&& 0xff))]
  | [a] => [UInt8.ofNat (a.toNat ^^^ (mask >>> 24 &&& 0xff))]
  | [] => []

def applyWebSocketMask (payload : Bytes) (mask : Nat) : Bytes :=
  if mask = 0 then payload else maskWords mask payload

def FrameHeader.frame (header : FrameHeader) (payload : Bytes) : WebSocketFrame where
  final := header.final
  compressed := header.compressed
  opcode := header.opcode
  payload := header.mask.elim payload (applyWebSocketMask payload)
  mask := header.mask

/-! ## The loop -/

def nextFrame (incomingData : ChunkStream) :
    Except WebSocketFrameError (Option (WebSocketFrame × ChunkStream)) :=
  if incomingData.byteLength < 2 then .ok none
  else
    match incomingData.peek 2 with
    | none => .error .cannotRead
    | some initialHeader =>
      let length := headerLength (readUInt8 initialHeader 1)
      if incomingData.byteLength < length then .ok none
      else
        match incomingData.peek length with
        | none => .error .cannotRead
        | some bytes =>
          (parseHeader maxPayloadLength bytes).bind fun header =>
            if incomingData.byteLength < length + header.payloadLength then .ok none
            else
              match incomingData.read length with
              | none => .error .cannotRead
              | some (_, incomingData) =>
                match incomingData.read header.payloadLength with
                | none => .error .cannotRead
                | some (payload, incomingData) =>
                  .ok (some (header.frame payload, incomingData))

def readFrame (bytes : Bytes) : Reading UInt8 WebSocketFrame WebSocketFrameError :=
  if bytes.length < 2 then .wait
  else
    let length := headerLength (readUInt8 bytes 1)
    if bytes.length < length then .wait
    else
      match parseHeader maxPayloadLength (bytes.take length) with
      | .error error => .reject error
      | .ok header =>
        if bytes.length < length + header.payloadLength then .wait
        else
          .item (header.frame ((bytes.drop length).take header.payloadLength))
            (bytes.drop (length + header.payloadLength))

end

theorem two_le_headerLength (secondByte : Nat) : 2 ≤ headerLength secondByte := by
  unfold headerLength
  omega

theorem readUInt8_append {bytes : Bytes} {offset : Nat} (h : offset < bytes.length)
    (more : Bytes) : readUInt8 (bytes ++ more) offset = readUInt8 bytes offset := by
  rw [readUInt8, readUInt8, getD_append _ _ _ _ h]

variable {maxPayloadLength : Nat} {bytes : Bytes}

variable {frame : WebSocketFrame} {rest : Bytes}

theorem readFrame_item : readFrame maxPayloadLength bytes = .item frame rest ↔
      ∃ header, headerLength (readUInt8 bytes 1) + header.payloadLength ≤ bytes.length ∧
        parseHeader maxPayloadLength (bytes.take (headerLength (readUInt8 bytes 1))) = .ok header ∧
        frame = header.frame
          ((bytes.drop (headerLength (readUInt8 bytes 1))).take header.payloadLength) ∧
        rest = bytes.drop (headerLength (readUInt8 bytes 1) + header.payloadLength) := by
  have htwo := two_le_headerLength (readUInt8 bytes 1)
  constructor
  · intro h
    unfold readFrame at h
    split at h
    · cases h
    · dsimp only at h
      split at h
      · cases h
      · split at h
        · cases h
        · next header hparse =>
          split at h
          · cases h
          · cases h
            exact ⟨header, by omega, hparse, rfl, rfl⟩
  · rintro ⟨header, hlength, hparse, rfl, rfl⟩
    rw [readFrame, if_neg (by omega)]
    rw [if_neg (by omega), hparse]
    dsimp only
    rw [if_neg (by omega)]

variable {error : WebSocketFrameError}

theorem readFrame_reject : readFrame maxPayloadLength bytes = .reject error ↔
      headerLength (readUInt8 bytes 1) ≤ bytes.length ∧
        parseHeader maxPayloadLength (bytes.take (headerLength (readUInt8 bytes 1))) =
          .error error := by
  have htwo := two_le_headerLength (readUInt8 bytes 1)
  constructor
  · intro h
    unfold readFrame at h
    split at h
    · cases h
    · dsimp only at h
      split at h
      · cases h
      · split at h
        · next hparse =>
          cases h
          exact ⟨by omega, hparse⟩
        · split at h
          · cases h
          · cases h
  · rintro ⟨hlength, hparse⟩
    rw [readFrame, if_neg (by omega)]
    rw [if_neg (by omega), hparse]

theorem headerLength_append (h : headerLength (readUInt8 bytes 1) ≤ bytes.length) (more : Bytes) :
    headerLength (readUInt8 (bytes ++ more) 1) = headerLength (readUInt8 bytes 1) := by
  have htwo := two_le_headerLength (readUInt8 bytes 1)
  rw [readUInt8_append (by omega)]

theorem readFrame_item_append (h : readFrame maxPayloadLength bytes = .item frame rest)
    (more : Bytes) : readFrame maxPayloadLength (bytes ++ more) = .item frame (rest ++ more) := by
  obtain ⟨header, hlength, hparse, rfl, rfl⟩ := readFrame_item.mp h
  refine readFrame_item.mpr ⟨header, ?_⟩
  rw [headerLength_append (by omega), length_append, take_append_of_le_length (by omega),
    drop_append_of_le_length (by omega), drop_append_of_le_length hlength,
    take_append_of_le_length (by rw [length_drop]; omega)]
  exact ⟨by omega, hparse, rfl, rfl⟩

theorem readFrame_reject_append (h : readFrame maxPayloadLength bytes = .reject error)
    (more : Bytes) : readFrame maxPayloadLength (bytes ++ more) = .reject error := by
  obtain ⟨hlength, hparse⟩ := readFrame_reject.mp h
  refine readFrame_reject.mpr ?_
  rw [headerLength_append hlength, length_append, take_append_of_le_length hlength]
  exact ⟨by omega, hparse⟩

theorem readFrame_shrinks (h : readFrame maxPayloadLength bytes = .item frame rest) :
    rest.length < bytes.length := by
  have htwo := two_le_headerLength (readUInt8 bytes 1)
  obtain ⟨header, hlength, -, -, rfl⟩ := readFrame_item.mp h
  rw [length_drop]
  omega

theorem readFrame_tight {byte : UInt8} (hwait : readFrame maxPayloadLength bytes = .wait)
    (h : readFrame maxPayloadLength (bytes ++ [byte]) = .item frame rest) : rest = [] := by
  have htwo := two_le_headerLength (readUInt8 (bytes ++ [byte]) 1)
  obtain ⟨header, hlength, hparse, -, rfl⟩ := readFrame_item.mp h
  rw [length_append, length_singleton] at hlength
  rw [drop_eq_nil_iff, length_append, length_singleton]
  by_contra hlt
  have hlonger : 1 < bytes.length := by omega
  rw [readUInt8_append hlonger] at hlength hlt hparse
  rw [take_append_of_le_length (by omega)] at hparse
  have hitem := readFrame_item.mpr ⟨header, by omega, hparse, rfl, rfl⟩
  rw [hwait] at hitem
  cases hitem

def frameReader (maxPayloadLength : Nat) : ItemReader UInt8 WebSocketFrame WebSocketFrameError where
  read := readFrame maxPayloadLength
  shrinks := readFrame_shrinks
  item_append := readFrame_item_append
  reject_append := readFrame_reject_append
  tight := readFrame_tight

/-! ## The parser -/

theorem nextFrame_spec (maxPayloadLength : Nat) (s : ChunkStream) :
    (readFrame maxPayloadLength s.bytes = .wait ∧ nextFrame maxPayloadLength s = .ok none) ∨
      (∃ error, readFrame maxPayloadLength s.bytes = .reject error ∧
        nextFrame maxPayloadLength s = .error error) ∨
      ∃ frame rest, readFrame maxPayloadLength s.bytes = .item frame rest.bytes ∧
        nextFrame maxPayloadLength s = .ok (some (frame, rest)) := by
  unfold nextFrame readFrame
  rw [← s.byteLength_eq]
  by_cases hshort : s.byteLength < 2
  · rw [if_pos hshort, if_pos hshort]
    exact .inl ⟨rfl, rfl⟩
  rw [if_neg hshort, if_neg hshort, s.peek_eq (Nat.not_lt.mp hshort)]
  have hsecond : readUInt8 (s.bytes.take 2) 1 = readUInt8 s.bytes 1 := by
    have htwo : 1 < (s.bytes.take 2).length := by
      rw [length_take, ← s.byteLength_eq]
      omega
    have := readUInt8_append htwo (s.bytes.drop 2)
    rw [take_append_drop] at this
    exact this.symm
  dsimp only
  rw [hsecond]
  by_cases hheader : s.byteLength < headerLength (readUInt8 s.bytes 1)
  · rw [if_pos hheader, if_pos hheader]
    exact .inl ⟨rfl, rfl⟩
  rw [if_neg hheader, if_neg hheader, s.peek_eq (Nat.not_lt.mp hheader)]
  dsimp only
  cases parseHeader maxPayloadLength (s.bytes.take (headerLength (readUInt8 s.bytes 1))) with
  | error error => exact .inr (.inl ⟨error, rfl, rfl⟩)
  | ok header =>
    rw [Except.bind]
    dsimp only
    by_cases hpayload : s.byteLength < headerLength (readUInt8 s.bytes 1) + header.payloadLength
    · rw [if_pos hpayload, if_pos hpayload]
      exact .inl ⟨rfl, rfl⟩
    rw [if_neg hpayload, if_neg hpayload]
    obtain ⟨behind, hread, hbehind⟩ := s.read_spec (Nat.not_lt.mp hheader)
    have henough : header.payloadLength ≤ behind.byteLength := by
      rw [behind.byteLength_eq, hbehind, List.length_drop, ← s.byteLength_eq]
      omega
    obtain ⟨rest, hpayload, hrest⟩ := behind.read_spec henough
    rw [hread]
    dsimp only
    rw [hpayload, hbehind]
    refine .inr (.inr ⟨_, rest, ?_, rfl⟩)
    rw [hrest, hbehind, drop_drop]

theorem nextFrame_shrinks {s rest : ChunkStream}
    (h : nextFrame maxPayloadLength s = .ok (some (frame, rest))) :
    rest.byteLength < s.byteLength := by
  rw [rest.byteLength_eq, s.byteLength_eq]
  rcases nextFrame_spec maxPayloadLength s with ⟨-, hwait⟩ | ⟨error, -, hreject⟩ | ⟨_, _, hread, hitem⟩
  · rw [hwait] at h
    cases h
  · rw [hreject] at h
    cases h
  · rw [hitem] at h
    cases h
    exact readFrame_shrinks hread

def takeFrames (maxPayloadLength : Nat) (incomingData : ChunkStream) :
    List WebSocketFrame × ChunkStream × Option WebSocketFrameError :=
  match h : nextFrame maxPayloadLength incomingData with
  | .error error => ([], incomingData, some error)
  | .ok none => ([], incomingData, none)
  | .ok (some (frame, rest)) =>
    have := nextFrame_shrinks h
    (frame :: (takeFrames maxPayloadLength rest).1, (takeFrames maxPayloadLength rest).2)
termination_by incomingData.byteLength

theorem takeFrames_eq (maxPayloadLength : Nat) (s : ChunkStream) :
    (takeFrames maxPayloadLength s).1 = ((frameReader maxPayloadLength).drain s.bytes).items ∧
      (takeFrames maxPayloadLength s).2.1.bytes =
        ((frameReader maxPayloadLength).drain s.bytes).left ∧
      (takeFrames maxPayloadLength s).2.2 =
        ((frameReader maxPayloadLength).drain s.bytes).error := by
  induction hn : s.byteLength using Nat.strongRecOn generalizing s with
  | _ n ih =>
    rw [takeFrames]
    rcases nextFrame_spec maxPayloadLength s with ⟨hread, hnext⟩ | ⟨error, hread, hnext⟩ |
      ⟨frame, rest, hread, hnext⟩
    · rw [drain_of_wait hread]
      split
      · next heq => rw [hnext] at heq; cases heq
      · exact ⟨rfl, rfl, rfl⟩
      · next heq => rw [hnext] at heq; cases heq
    · rw [drain_of_reject hread]
      split
      · next heq =>
        rw [hnext] at heq
        cases heq
        exact ⟨rfl, rfl, rfl⟩
      · next heq => rw [hnext] at heq; cases heq
      · next heq => rw [hnext] at heq; cases heq
    · rw [drain_of_item hread]
      have hlater := ih rest.byteLength (hn ▸ nextFrame_shrinks hnext) rest rfl
      split
      · next heq => rw [hnext] at heq; cases heq
      · next heq => rw [hnext] at heq; cases heq
      · next heq =>
        rw [hnext] at heq
        cases heq
        exact ⟨congrArg _ hlater.1, hlater.2⟩

structure WebSocketFrameParser where
  incomingData : ChunkStream
  maxPayloadLength : Nat
  limited : maxPayloadLength ≤ maximum32BitPayloadLength

namespace WebSocketFrameParser

def new (maxPayloadLength : Nat) (limited : maxPayloadLength ≤ maximum32BitPayloadLength) :
    WebSocketFrameParser :=
  ⟨.empty, maxPayloadLength, limited⟩

def acceptChunk (parser : WebSocketFrameParser) (data : Bytes) :
    WebSocketFrameParser × Except WebSocketFrameError (List WebSocketFrame) :=
  if data.length = 0 then (parser, .ok [])
  else
    let (frames, incomingData, error) :=
      takeFrames parser.maxPayloadLength (parser.incomingData.acceptChunk data)
    ({ parser with incomingData }, error.elim (.ok frames) .error)

theorem acceptChunk_eq (parser : WebSocketFrameParser)
    (hwait : readFrame parser.maxPayloadLength parser.incomingData.bytes = .wait) (data : Bytes) :
    (parser.acceptChunk data).1.maxPayloadLength = parser.maxPayloadLength ∧
      (parser.acceptChunk data).1.incomingData.bytes =
        ((frameReader parser.maxPayloadLength).drain (parser.incomingData.bytes ++ data)).left ∧
      (parser.acceptChunk data).2 =
        ((frameReader parser.maxPayloadLength).drain (parser.incomingData.bytes ++ data)).error.elim
          (.ok ((frameReader parser.maxPayloadLength).drain
            (parser.incomingData.bytes ++ data)).items) .error := by
  unfold acceptChunk
  by_cases hempty : data.length = 0
  · rw [if_pos hempty, eq_nil_of_length_eq_zero hempty, append_nil, drain_of_wait hwait]
    exact ⟨rfl, rfl, rfl⟩
  · obtain ⟨hitems, hleft, herror⟩ :=
      takeFrames_eq parser.maxPayloadLength (parser.incomingData.acceptChunk data)
    rw [ChunkStream.bytes_acceptChunk] at hitems hleft herror
    rw [if_neg hempty, ← hitems, ← hleft, ← herror]
    exact ⟨rfl, rfl, rfl⟩

end WebSocketFrameParser

end Fumie.Base
