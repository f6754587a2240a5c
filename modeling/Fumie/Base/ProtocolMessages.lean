import Fumie.Base.WebSocketCodec

/-!
# Messages on a socket

The `ProtocolWriter` puts a header of thirteen bytes in front of every message and the
`ProtocolReader` cuts the bytes it is given back into messages, wherever the chunks of the
socket end. What the reader holds and what is still to come are the bytes of the messages
it has not read.
-/

namespace Fumie.Base

open List ChunkStream

/-! `const enum ProtocolMessageType`: the numbers that go over the wire. -/

namespace ProtocolMessageType

def None : Nat := 0

def Regular : Nat := 1

def Control : Nat := 2

def Ack : Nat := 3

def Disconnect : Nat := 5

def ReplayRequest : Nat := 6

def Pause : Nat := 7

def Resume : Nat := 8

def KeepAlive : Nat := 9

end ProtocolMessageType

def HeaderLength : Nat := 13

structure ProtocolMessage where
  type : Nat
  id : Nat
  ack : Nat
  data : Bytes
  deriving DecidableEq

/-! ## Writing -/

def ProtocolMessage.header (msg : ProtocolMessage) : Bytes :=
  toByte msg.type :: (writeUInt32BE msg.id ++ (writeUInt32BE msg.ack ++
    writeUInt32BE msg.data.length))

def ProtocolMessage.bytes (msg : ProtocolMessage) : Bytes := msg.header ++ msg.data

structure ProtocolWriter where
  isPaused : Bool
  data : Bytes

namespace ProtocolWriter

def new : ProtocolWriter := ⟨false, []⟩

variable (writer : ProtocolWriter)

def pause : ProtocolWriter := { writer with isPaused := true }

def resume : ProtocolWriter := { writer with isPaused := false }

def write (msg : ProtocolMessage) : ProtocolWriter :=
  { writer with data := writer.data ++ msg.bytes }

/-- `_writeNow`: what goes to the socket, and the writer behind it. -/
def writeNow : Bytes × ProtocolWriter :=
  if writer.data.length = 0 then ([], writer)
  else if writer.isPaused then ([], writer)
  else (writer.data, { writer with data := [] })

end ProtocolWriter

/-! ## Reading -/

structure ProtocolReader where
  incomingData : ChunkStream
  readHead : Bool
  readLen : Nat
  messageType : Nat
  id : Nat
  ack : Nat

namespace ProtocolReader

def new : ProtocolReader := ⟨.empty, true, HeaderLength, ProtocolMessageType.None, 0, 0⟩

def acceptChunk (reader : ProtocolReader) (data : Bytes) : ProtocolReader :=
  if data.length = 0 then reader
  else { reader with incomingData := reader.incomingData.acceptChunk data }

def readNext (reader : ProtocolReader) : Option (Option ProtocolMessage × ProtocolReader) :=
  if reader.readLen ≤ reader.incomingData.byteLength then
    (reader.incomingData.read reader.readLen).map fun result =>
      let buff := result.1
      if reader.readHead then
        (none,
          { incomingData := result.2
            readHead := false
            readLen := readUInt32BE buff 9
            messageType := readUInt8 buff 0
            id := readUInt32BE buff 1
            ack := readUInt32BE buff 5 })
      else
        (some ⟨reader.messageType, reader.id, reader.ack, buff⟩,
          { incomingData := result.2
            readHead := true
            readLen := HeaderLength
            messageType := ProtocolMessageType.None
            id := 0
            ack := 0 })
  else none

end ProtocolReader

/-! ## Messages that come back -/

def messageBytes (msgs : List ProtocolMessage) : Bytes := msgs.flatMap ProtocolMessage.bytes

theorem messageBytes_append (a b : List ProtocolMessage) :
    messageBytes (a ++ b) = messageBytes a ++ messageBytes b := flatMap_append

structure ProtocolMessage.Fits (msg : ProtocolMessage) : Prop where
  type : msg.type < 256
  id : msg.id < 2 ^ 32
  ack : msg.ack < 2 ^ 32
  data : msg.data.length < 2 ^ 32

theorem ProtocolMessage.header_length (msg : ProtocolMessage) : msg.header.length = HeaderLength :=
  rfl

theorem ProtocolMessage.Fits.read {msg : ProtocolMessage} (h : msg.Fits) :
    readUInt8 msg.header 0 = msg.type ∧ readUInt32BE msg.header 1 = msg.id ∧
    readUInt32BE msg.header 5 = msg.ack ∧ readUInt32BE msg.header 9 = msg.data.length := by
  have hid := readUInt32BE_write h.id [toByte msg.type]
    (writeUInt32BE msg.ack ++ writeUInt32BE msg.data.length)
  have hack := readUInt32BE_write h.ack (toByte msg.type :: writeUInt32BE msg.id)
    (writeUInt32BE msg.data.length)
  have hdata := readUInt32BE_write h.data
    (toByte msg.type :: (writeUInt32BE msg.id ++ writeUInt32BE msg.ack)) []
  refine ⟨?_, hid, hack, hdata⟩
  have htype : readUInt8 msg.header 0 = (toByte msg.type).toNat := rfl
  have hsmall := h.type
  rw [htype, toNat_toByte]
  omega

def ProtocolReader.Awaits (reader : ProtocolReader) (ahead : Bytes)
    (rest : List ProtocolMessage) : Prop :=
  if reader.readHead = true then
    reader.readLen = HeaderLength ∧ reader.incomingData.bytes ++ ahead = messageBytes rest
  else
    ∃ msg more, rest = msg :: more ∧ reader.readLen = msg.data.length ∧
      reader.messageType = msg.type ∧ reader.id = msg.id ∧ reader.ack = msg.ack ∧
      reader.incomingData.bytes ++ ahead = msg.data ++ messageBytes more

namespace ProtocolReader

theorem awaits_new : new.Awaits [] [] := ⟨rfl, rfl⟩

variable {reader : ProtocolReader} {ahead : Bytes} {rest : List ProtocolMessage}

theorem Awaits.acceptChunk {chunk : Bytes} (h : reader.Awaits (chunk ++ ahead) rest) :
    (reader.acceptChunk chunk).Awaits ahead rest := by
  have hbytes : (reader.acceptChunk chunk).incomingData.bytes = reader.incomingData.bytes ++ chunk := by
    rw [ProtocolReader.acceptChunk]
    split_ifs with hnone
    · rw [length_eq_zero_iff.mp hnone, append_nil]
    · exact bytes_acceptChunk _ _
  have hsame : (reader.acceptChunk chunk).readHead = reader.readHead ∧
      (reader.acceptChunk chunk).readLen = reader.readLen ∧
      (reader.acceptChunk chunk).messageType = reader.messageType ∧
      (reader.acceptChunk chunk).id = reader.id ∧ (reader.acceptChunk chunk).ack = reader.ack := by
    rw [ProtocolReader.acceptChunk]
    split_ifs <;> exact ⟨rfl, rfl, rfl, rfl, rfl⟩
  rw [Awaits, ← append_assoc] at h
  rw [Awaits, hbytes, hsame.1, hsame.2.1, hsame.2.2.1, hsame.2.2.2.1, hsame.2.2.2.2]
  exact h

theorem Awaits.append (h : reader.Awaits ahead rest) (msgs : List ProtocolMessage) :
    reader.Awaits (ahead ++ messageBytes msgs) (rest ++ msgs) := by
  rw [Awaits] at h ⊢
  rw [← append_assoc]
  split_ifs at h ⊢ with hhead
  · obtain ⟨hlen, hbytes⟩ := h
    exact ⟨hlen, by rw [hbytes, messageBytes_append]⟩
  · obtain ⟨msg, more, rfl, hlen, htype, hid, hack, hbytes⟩ := h
    refine ⟨msg, more ++ msgs, cons_append, hlen, htype, hid, hack, ?_⟩
    rw [hbytes, messageBytes_append, append_assoc]

theorem Awaits.readNext {next : ProtocolReader} {out : Option ProtocolMessage}
    (h : reader.Awaits ahead rest) (hfits : ∀ msg ∈ rest, msg.Fits)
    (hread : reader.readNext = some (out, next)) :
    out = none ∧ next.Awaits ahead rest ∨
      ∃ msg more, out = some msg ∧ rest = msg :: more ∧ next.Awaits ahead more := by
  have henough : reader.readLen ≤ reader.incomingData.byteLength := by
    by_contra hnot
    rw [ProtocolReader.readNext, if_neg hnot] at hread
    cases hread
  rw [ProtocolReader.readNext, if_pos henough] at hread
  obtain ⟨left, htaken, hleft⟩ := reader.incomingData.read_spec henough
  rw [htaken, Option.map_some, Option.some.injEq] at hread
  rw [byteLength_eq] at henough
  rw [Awaits] at h
  cases hhead : reader.readHead with
  | true =>
    rw [hhead, if_pos rfl] at h
    simp only [hhead, if_true] at hread
    obtain ⟨hlen, hbytes⟩ := h
    cases hread
    cases rest with
    | nil =>
      have hzero := congrArg length hbytes
      rw [length_append] at hzero
      have hnone : (messageBytes []).length = 0 := rfl
      rw [hnone] at hzero
      rw [hlen, HeaderLength] at henough
      omega
    | cons msg more =>
      have hsplit : reader.incomingData.bytes ++ ahead =
          msg.header ++ (msg.data ++ messageBytes more) := by
        rw [hbytes, messageBytes, flatMap_cons, ProtocolMessage.bytes, append_assoc]
        rfl
      have htake : reader.incomingData.bytes.take reader.readLen = msg.header := by
        have hwhole := congrArg (take reader.readLen) hsplit
        rw [take_append_of_le_length henough, hlen, ← msg.header_length, take_left] at hwhole
        rw [hlen]
        exact hwhole
      have hdrop : reader.incomingData.bytes.drop reader.readLen ++ ahead =
          msg.data ++ messageBytes more := by
        have hwhole := congrArg (drop reader.readLen) hsplit
        rw [drop_append_of_le_length henough, hlen, ← msg.header_length, drop_left] at hwhole
        rw [hlen]
        exact hwhole
      obtain ⟨htype, hid, hack, hdata⟩ := (hfits msg mem_cons_self).read
      refine .inl ⟨rfl, ?_⟩
      simp only [Awaits, htake, hleft, Bool.false_eq_true, if_false]
      exact ⟨msg, more, rfl, hdata, htype, hid, hack, hdrop⟩
  | false =>
    rw [hhead, if_neg (by decide)] at h
    simp only [hhead, Bool.false_eq_true, if_false] at hread
    obtain ⟨msg, more, rfl, hlen, htype, hid, hack, hbytes⟩ := h
    cases hread
    have htake : reader.incomingData.bytes.take reader.readLen = msg.data := by
      have hwhole := congrArg (take reader.readLen) hbytes
      rw [take_append_of_le_length henough, hlen, take_left] at hwhole
      rw [hlen]
      exact hwhole
    have hdrop : reader.incomingData.bytes.drop reader.readLen ++ ahead = messageBytes more := by
      have hwhole := congrArg (drop reader.readLen) hbytes
      rw [drop_append_of_le_length henough, hlen, drop_left] at hwhole
      rw [hlen]
      exact hwhole
    refine .inr ⟨msg, more, ?_, rfl, ?_⟩
    · rw [htake, htype, hid, hack]
    · simp only [Awaits, hleft, if_true]
      exact ⟨trivial, hdrop⟩

end ProtocolReader

end Fumie.Base
