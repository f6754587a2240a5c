import Fumie.Base.ProtocolMessages
import Fumie.Lib.Runs

/-!
# The persistent protocol

One endpoint of the protocol that survives its sockets: it numbers what it sends and keeps
it until it is acknowledged, fires what it receives in order, and after a reconnection
sends again what is not acknowledged. Two endpoints are connected by numbered sockets, each
of which holds what was written to it; an endpoint may be given any front part of what
the other one wrote.
-/

namespace Fumie.Base

open Fumie.Lib

def AcknowledgeTime : Nat := 2000

structure PersistentProtocol where
  isReconnecting : Bool
  didSendDisconnect : Bool
  outgoingUnackMsg : List ProtocolMessage
  outgoingMsgId : Nat
  outgoingAckId : Nat
  incomingMsgId : Nat
  incomingAckId : Nat
  incomingMsgLastTime : Nat
  /-- Is `_incomingAckTimeout` set? -/
  incomingAckTimeout : Bool
  lastReplayRequestTime : Nat
  socketWriter : ProtocolWriter
  socketReader : ProtocolReader

namespace PersistentProtocol

def new : PersistentProtocol where
  isReconnecting := false
  didSendDisconnect := false
  outgoingUnackMsg := []
  outgoingMsgId := 0
  outgoingAckId := 0
  incomingMsgId := 0
  incomingAckId := 0
  incomingMsgLastTime := 0
  incomingAckTimeout := false
  lastReplayRequestTime := 0
  socketWriter := .new
  socketReader := .new

variable (p : PersistentProtocol)

def write (p : PersistentProtocol) (msg : ProtocolMessage) : PersistentProtocol :=
  { p with socketWriter := p.socketWriter.write msg }

def writeEmpty (type ack : Nat) : PersistentProtocol := p.write ⟨type, 0, ack, []⟩

def sendDisconnect : PersistentProtocol :=
  { p with didSendDisconnect := true }.writeEmpty ProtocolMessageType.Disconnect 0

def sendPause : PersistentProtocol := p.writeEmpty ProtocolMessageType.Pause 0

def sendResume : PersistentProtocol := p.writeEmpty ProtocolMessageType.Resume 0

def pauseSocketWriting : PersistentProtocol :=
  { p with socketWriter := p.socketWriter.pause }

variable (buffer : Bytes) (now ack : Nat) (msg : ProtocolMessage)

def sendControl : PersistentProtocol :=
  p.write ⟨ProtocolMessageType.Control, 0, 0, buffer⟩

def writeUnacknowledged : PersistentProtocol := p.outgoingUnackMsg.foldl write p

def sendAck : PersistentProtocol :=
  if p.incomingMsgId ≤ p.incomingAckId then p
  else
    { p with incomingAckId := p.incomingMsgId }.writeEmpty ProtocolMessageType.Ack p.incomingMsgId

def sendAckCheck : PersistentProtocol :=
  if p.incomingMsgId ≤ p.incomingAckId then p
  else if p.incomingAckTimeout then p
  else if AcknowledgeTime ≤ now - p.incomingMsgLastTime then p.sendAck
  else { p with incomingAckTimeout := true }

def sendKeepAlive : PersistentProtocol :=
  { p with incomingAckId := p.incomingMsgId }.writeEmpty ProtocolMessageType.KeepAlive
    p.incomingMsgId

def send : PersistentProtocol :=
  let myId := p.outgoingMsgId + 1
  let msg : ProtocolMessage := ⟨ProtocolMessageType.Regular, myId, p.incomingMsgId, buffer⟩
  let p := { p with
    outgoingMsgId := myId
    incomingAckId := p.incomingMsgId
    outgoingUnackMsg := p.outgoingUnackMsg ++ [msg] }
  if p.isReconnecting then p else p.write msg

/-- The first statement of `_receiveMessage`: confirmed messages leave the queue. -/
def acceptAck : PersistentProtocol :=
  if p.outgoingAckId < ack then
    { p with
      outgoingAckId := ack
      outgoingUnackMsg := p.outgoingUnackMsg.dropWhile fun first => first.id ≤ ack }
  else p

def receiveRegular : PersistentProtocol × List Bytes :=
  if p.incomingMsgId < msg.id then
    if msg.id ≠ p.incomingMsgId + 1 then
      if 10000 < now - p.lastReplayRequestTime then
        ({ p with lastReplayRequestTime := now }.writeEmpty ProtocolMessageType.ReplayRequest 0, [])
      else (p, [])
    else
      ({ p with
        incomingMsgId := msg.id
        incomingMsgLastTime := now }.sendAckCheck now, [msg.data])
  else (p, [])

/-- `_receiveMessage`, and what is fired on `onMessage`. -/
def receiveMessage : PersistentProtocol × List Bytes :=
  let p := p.acceptAck msg.ack
  if msg.type = ProtocolMessageType.Regular then p.receiveRegular now msg
  else if msg.type = ProtocolMessageType.ReplayRequest then (p.writeUnacknowledged, [])
  else if msg.type = ProtocolMessageType.Pause then
    ({ p with socketWriter := p.socketWriter.pause }, [])
  else if msg.type = ProtocolMessageType.Resume then
    ({ p with socketWriter := p.socketWriter.resume }, [])
  else (p, [])

def beginAcceptReconnection (initialDataChunk : Bytes) : PersistentProtocol :=
  { p with
    isReconnecting := true
    lastReplayRequestTime := 0
    socketWriter := .new
    socketReader := ProtocolReader.new.acceptChunk initialDataChunk }

def endAcceptReconnection : PersistentProtocol :=
  ({ p with isReconnecting := false, incomingAckId := p.incomingMsgId }.writeEmpty
    ProtocolMessageType.Ack p.incomingMsgId).writeUnacknowledged

end PersistentProtocol

/-! ## Two endpoints -/

structure Endpoint where
  protocol : PersistentProtocol
  socket : Nat
  received : Nat
  written : Nat → Bytes
  /-- The payloads passed to `send`. -/
  sent : List Bytes
  /-- The payloads fired on `onMessage`. -/
  delivered : List Bytes
  /-- The acknowledgements received. -/
  acks : List Nat

inductive Side
  | left
  | right
  deriving DecidableEq

def Side.other : Side → Side
  | left => right
  | right => left

inductive ProtocolEvent
  | send (buffer : Bytes)
  | sendControl (buffer : Bytes)
  | sendPause
  | sendResume
  | sendDisconnect
  | pauseSocketWriting
  | sendKeepAlive
  /-- The writer's timer, `flush` or `drain`. -/
  | writeNow
  /-- The timer of `_sendAckCheck`. -/
  | ackTimeout (now : Nat)
  /-- The socket gives the next bytes. -/
  | data (count : Nat)
  /-- The reader's loop once. -/
  | read (now : Nat)
  | beginAcceptReconnection (socket initialLength : Nat)
  | endAcceptReconnection

namespace Endpoint

def new : Endpoint := ⟨.new, 0, 0, fun _ => [], [], [], []⟩

variable (e : Endpoint)

def update (protocol : PersistentProtocol) : Endpoint := { e with protocol }

def writeNow : Endpoint :=
  { e with
    protocol := { e.protocol with socketWriter := e.protocol.socketWriter.writeNow.2 }
    written := Function.update e.written e.socket
      (e.written e.socket ++ e.protocol.socketWriter.writeNow.1) }

def receive (now : Nat) (msg : ProtocolMessage) : Endpoint :=
  { e with
    protocol := (e.protocol.receiveMessage now msg).1
    delivered := e.delivered ++ (e.protocol.receiveMessage now msg).2
    acks := e.acks ++ [msg.ack] }

def step (peer e : Endpoint) : ProtocolEvent → Option Endpoint
  | .send buffer => some { e with protocol := e.protocol.send buffer, sent := e.sent ++ [buffer] }
  | .sendControl buffer => some (e.update (e.protocol.sendControl buffer))
  | .sendPause => some (e.update e.protocol.sendPause)
  | .sendResume => some (e.update e.protocol.sendResume)
  | .sendDisconnect =>
    if e.protocol.didSendDisconnect then some e
    else some (e.update e.protocol.sendDisconnect).writeNow
  | .pauseSocketWriting => some (e.update e.protocol.pauseSocketWriting)
  | .sendKeepAlive => some (e.update e.protocol.sendKeepAlive)
  | .writeNow => some e.writeNow
  | .ackTimeout now =>
    if e.protocol.incomingAckTimeout then
      some (e.update ({ e.protocol with incomingAckTimeout := false }.sendAckCheck now))
    else none
  | .data count =>
    if e.received + count ≤ (peer.written e.socket).length then
      some { e with
        protocol := { e.protocol with
          socketReader := e.protocol.socketReader.acceptChunk
            (((peer.written e.socket).drop e.received).take count) }
        received := e.received + count }
    else none
  | .read now =>
    e.protocol.socketReader.readNext.map fun result =>
      let e := e.update { e.protocol with socketReader := result.2 }
      match result.1 with
      | none => e
      | some msg => e.receive now msg
  | .beginAcceptReconnection socket initialLength =>
    if e.socket < socket ∧ initialLength ≤ (peer.written socket).length then
      let e := e.writeNow
      some { e with
        protocol := e.protocol.beginAcceptReconnection ((peer.written socket).take initialLength)
        socket := socket
        received := initialLength }
    else none
  | .endAcceptReconnection => some (e.update e.protocol.endAcceptReconnection)

end Endpoint

abbrev Connection := Side → Endpoint

namespace Connection

def initial : Connection := fun _ => .new

def step (c : Connection) (event : Side × ProtocolEvent) : Option Connection :=
  ((c event.1.other).step (c event.1) event.2).map fun e => Function.update c event.1 e

end Connection

end Fumie.Base
