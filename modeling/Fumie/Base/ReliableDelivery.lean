import Fumie.Base.PersistentProtocol

/-!
# Delivery over many sockets

Everything an endpoint writes to a socket is a message that is good: a regular one carries
the payload its number stands for, and none acknowledges more than the endpoint delivered.
Messages are numbered and never forgotten before they are acknowledged, so whatever sockets
die, what one endpoint delivers is a front part of what the other one sent.
-/

namespace Fumie.Base

open Fumie.Lib List Function

/-! ## Numbered payloads -/

def numberFrom (n : Nat) : List Bytes → List (Nat × Bytes)
  | [] => []
  | data :: rest => (n + 1, data) :: numberFrom (n + 1) rest

variable (n : Nat) (p : PersistentProtocol) (now : Nat)

theorem numberFrom_append (a b : List Bytes) :
    numberFrom n (a ++ b) = numberFrom n a ++ numberFrom (n + a.length) b := by
  induction a generalizing n with
  | nil => rfl
  | cons data a ih =>
    rw [cons_append, numberFrom, ih, numberFrom, length_cons, Nat.add_right_comm,
      Nat.add_assoc n, cons_append]

theorem dropWhile_numberFrom (payloads : List Bytes) {ack : Nat} (h : n ≤ ack) :
    (numberFrom n payloads).dropWhile (fun x => x.1 ≤ ack) =
      numberFrom ack (payloads.drop (ack - n)) := by
  induction payloads generalizing n with
  | nil =>
    rw [drop_nil]
    rfl
  | cons data payloads ih =>
    rw [numberFrom]
    by_cases hle : n + 1 ≤ ack
    · rw [dropWhile_cons_of_pos (by simpa using hle), ih (n + 1) hle]
      have hcount : ack - n = ack - (n + 1) + 1 := by omega
      rw [hcount, drop_succ_cons]
    · have hsame : n = ack := by omega
      rw [dropWhile_cons_of_neg (by simpa using hle), hsame, Nat.sub_self, drop_zero, numberFrom]

/-! ## What holds of one endpoint -/

structure Good (sent : List Bytes) (delivered : Nat) (msg : ProtocolMessage) : Prop where
  fits : msg.Fits
  regular : msg.type = ProtocolMessageType.Regular → 0 < msg.id ∧ sent[msg.id - 1]? = some msg.data
  ack : msg.ack ≤ delivered

variable {msg : ProtocolMessage}

theorem Good.mono {sent sent' : List Bytes} {delivered delivered' : Nat}
    (h : Good sent delivered msg) (hsent : sent <+: sent') (hdelivered : delivered ≤ delivered') :
    Good sent' delivered' msg := by
  refine ⟨h.fits, fun htype => ?_, Nat.le_trans h.ack hdelivered⟩
  obtain ⟨hpos, hget⟩ := h.regular htype
  obtain ⟨more, rfl⟩ := hsent
  exact ⟨hpos, by rw [List.getElem?_append_left (List.getElem?_eq_some_iff.mp hget).1, hget]⟩

variable {x' y : Endpoint} {msgs : List ProtocolMessage} {p' : PersistentProtocol} {buffer : Bytes}

variable (c : Connection) (e : Endpoint)

namespace Endpoint

def GoodFor (msg : ProtocolMessage) : Prop := Good e.sent e.delivered.length msg

def highestAck : Nat := e.acks.foldl max 0

structure Kept (e : Endpoint) : Prop where
  msgId : e.protocol.outgoingMsgId = e.sent.length
  incoming : e.protocol.incomingMsgId = e.delivered.length
  ackId : e.protocol.outgoingAckId = e.highestAck
  ackLe : e.protocol.outgoingAckId ≤ e.sent.length
  queue : e.protocol.outgoingUnackMsg.map (fun msg => (msg.id, msg.data)) =
    numberFrom e.protocol.outgoingAckId (e.sent.drop e.protocol.outgoingAckId)
  messages : ∀ msg ∈ e.protocol.outgoingUnackMsg,
    msg.type = ProtocolMessageType.Regular ∧ e.GoodFor msg
  small : e.sent.length < 2 ^ 32

/-- What an endpoint wrote to a socket, with what its writer still holds for it. -/
def out (k : Nat) : Bytes :=
  e.written k ++ if k = e.socket then e.protocol.socketWriter.data else []

/-- Every socket was written whole good messages to, but for what the writer lost with it. -/
structure Wire (e : Endpoint) : Prop where
  fresh : ∀ k, e.socket < k → e.written k = []
  sockets : ∀ k, ∃ msgs lost, e.out k ++ lost = messageBytes msgs ∧
    (e.socket ≤ k → lost = []) ∧ ∀ msg ∈ msgs, e.GoodFor msg

def Reads (x y : Endpoint) : Prop :=
  y.received ≤ (x.written y.socket).length ∧ ∃ rest lost,
    y.protocol.socketReader.Awaits ((x.out y.socket).drop y.received ++ lost) rest ∧
    (x.socket ≤ y.socket → lost = []) ∧ ∀ msg ∈ rest, x.GoodFor msg

structure Linked (x y : Endpoint) : Prop where
  reads : Reads x y
  delivered : y.delivered <+: x.sent
  acked : x.protocol.outgoingAckId ≤ y.delivered.length

structure Writes (x x' : Endpoint) : Prop where
  socket : x'.socket = x.socket
  others : ∀ k, k ≠ x.socket → x'.written k = x.written k
  grows : x.written x.socket <+: x'.written x.socket
  sent : x.sent <+: x'.sent
  delivered : x.delivered.length ≤ x'.delivered.length
  messages : ∃ msgs, x'.out x.socket = x.out x.socket ++ messageBytes msgs ∧
    ∀ msg ∈ msgs, x'.GoodFor msg

theorem Writes.goodFor {x : Endpoint} (h : Writes x x') (hmsg : x.GoodFor msg) : x'.GoodFor msg :=
  hmsg.mono h.sent h.delivered

theorem Writes.out_of_ne {x : Endpoint} (h : Writes x x') {k : Nat} (hk : k ≠ x.socket) :
    x'.out k = x.out k := by
  have hk' : k ≠ x'.socket := by rw [h.socket]; exact hk
  rw [out, out, if_neg hk, if_neg hk', h.others k hk]

theorem Writes.wire {x : Endpoint} (h : Writes x x') (hx : Wire x) : Wire x' := by
  refine ⟨fun k hk => ?_, fun k => ?_⟩
  · rw [h.socket] at hk
    rw [h.others k (Nat.ne_of_gt hk), hx.fresh k hk]
  · obtain ⟨msgs, lost, hbytes, hlost, hgood⟩ := hx.sockets k
    rw [h.socket]
    by_cases hk : k = x.socket
    · subst hk
      obtain ⟨more, hmore, hgood'⟩ := h.messages
      have hnone := hlost (Nat.le_refl _)
      rw [hnone, append_nil] at hbytes
      refine ⟨msgs ++ more, [], ?_, fun _ => rfl, fun msg hmsg => ?_⟩
      · rw [append_nil, hmore, hbytes, messageBytes_append]
      · rcases mem_append.mp hmsg with hmsg | hmsg
        · exact h.goodFor (hgood msg hmsg)
        · exact hgood' msg hmsg
    · exact ⟨msgs, lost, by rw [h.out_of_ne hk, hbytes], hlost, fun msg hmsg =>
        h.goodFor (hgood msg hmsg)⟩

theorem Writes.reads {x : Endpoint} (h : Writes x x') (hxy : Reads x y) : Reads x' y := by
  obtain ⟨hreceived, rest, lost, hawaits, hlost, hgood⟩ := hxy
  by_cases hk : y.socket = x.socket
  · obtain ⟨msgs, hmore, hgood'⟩ := h.messages
    have hlength := h.grows.length_le
    rw [← hk] at hmore hlength
    have hnone := hlost (Nat.le_of_eq hk.symm)
    rw [hnone, append_nil] at hawaits
    have hinside : y.received ≤ (x.out y.socket).length := by
      rw [out, length_append]
      omega
    refine ⟨Nat.le_trans hreceived hlength, rest ++ msgs, [], ?_, fun _ => rfl, fun msg hmsg => ?_⟩
    · rw [append_nil, hmore, drop_append_of_le_length hinside]
      exact hawaits.append msgs
    · rcases mem_append.mp hmsg with hmsg | hmsg
      · exact h.goodFor (hgood msg hmsg)
      · exact hgood' msg hmsg
  · refine ⟨by rw [h.others _ hk]; exact hreceived, rest, lost, ?_, ?_, fun msg hmsg =>
      h.goodFor (hgood msg hmsg)⟩
    · rw [h.out_of_ne hk]
      exact hawaits
    · rw [h.socket]
      exact hlost

theorem writes_of {x : Endpoint} (hsocket : x'.socket = x.socket)
    (hwritten : x'.written = x.written) (hsent : x.sent <+: x'.sent)
    (hdelivered : x.delivered.length ≤ x'.delivered.length)
    (hdata : x'.protocol.socketWriter.data = x.protocol.socketWriter.data ++ messageBytes msgs)
    (hgood : ∀ msg ∈ msgs, x'.GoodFor msg) : Writes x x' := by
  refine ⟨hsocket, fun k _ => by rw [hwritten], ?_, hsent, hdelivered, msgs, ?_, hgood⟩
  · rw [hwritten]
  · rw [out, out, if_pos rfl, if_pos hsocket.symm, hwritten, hdata, append_assoc]

structure Pair (x y : Endpoint) : Prop where
  kept : Kept x
  wire : Wire x
  sends : Linked x y
  receives : Linked y x
  peerKept : Kept y
  peerWire : Wire y

theorem Pair.swap {x : Endpoint} (h : Pair x y) : Pair y x :=
  ⟨h.peerKept, h.peerWire, h.receives, h.sends, h.kept, h.wire⟩

theorem Pair.delivered_lt {x : Endpoint} (h : Pair x y) : x.delivered.length < 2 ^ 32 :=
  Nat.lt_of_le_of_lt h.receives.delivered.length_le h.peerKept.small

theorem pair_of_writes {x : Endpoint} (hp : Pair x y) (h : Writes x x') (hkept : Kept x')
    (hreads : Reads y x') (hdelivered : x'.delivered <+: y.sent)
    (hacked : x'.protocol.outgoingAckId ≤ y.delivered.length) : Pair x' y :=
  ⟨hkept, h.wire hp.wire, ⟨h.reads hp.sends.reads, hp.sends.delivered.trans h.sent, hacked⟩,
    ⟨hreads, hdelivered, Nat.le_trans hp.receives.acked h.delivered⟩, hp.peerKept, hp.peerWire⟩

/-! ## Writing messages -/

theorem Pair.goodFor_empty {x : Endpoint} (hp : Pair x y) {type ack : Nat} (htype : type < 256)
    (hregular : type ≠ ProtocolMessageType.Regular) (hack : ack ≤ x.delivered.length) :
    x.GoodFor ⟨type, 0, ack, []⟩ :=
  ⟨⟨htype, Nat.two_pow_pos 32, Nat.lt_of_le_of_lt hack hp.delivered_lt, Nat.two_pow_pos 32⟩,
    fun heq => absurd heq hregular, hack⟩

end Endpoint

namespace PersistentProtocol

structure Emits (p p' : PersistentProtocol) (msgs : List ProtocolMessage) : Prop where
  unack : p'.outgoingUnackMsg = p.outgoingUnackMsg
  msgId : p'.outgoingMsgId = p.outgoingMsgId
  ackId : p'.outgoingAckId = p.outgoingAckId
  incoming : p'.incomingMsgId = p.incomingMsgId
  reader : p'.socketReader = p.socketReader
  data : p'.socketWriter.data = p.socketWriter.data ++ messageBytes msgs

theorem Emits.none {p : PersistentProtocol} (hunack : p'.outgoingUnackMsg = p.outgoingUnackMsg)
    (hmsgId : p'.outgoingMsgId = p.outgoingMsgId) (hackId : p'.outgoingAckId = p.outgoingAckId)
    (hincoming : p'.incomingMsgId = p.incomingMsgId) (hreader : p'.socketReader = p.socketReader)
    (hdata : p'.socketWriter.data = p.socketWriter.data) : Emits p p' [] :=
  ⟨hunack, hmsgId, hackId, hincoming, hreader, by rw [hdata]; exact (append_nil _).symm⟩

theorem emits_write (msg : ProtocolMessage) : Emits p (p.write msg) [msg] :=
  ⟨rfl, rfl, rfl, rfl, rfl, by
    rw [messageBytes, flatMap_singleton]
    rfl⟩

theorem Emits.trans {p q r : PersistentProtocol} {a b : List ProtocolMessage} (hpq : Emits p q a)
    (hqr : Emits q r b) : Emits p r (a ++ b) :=
  ⟨hqr.unack.trans hpq.unack, hqr.msgId.trans hpq.msgId, hqr.ackId.trans hpq.ackId,
    hqr.incoming.trans hpq.incoming, hqr.reader.trans hpq.reader, by
    rw [hqr.data, hpq.data, messageBytes_append, append_assoc]⟩

theorem emits_foldl (msgs : List ProtocolMessage) : Emits p (msgs.foldl write p) msgs := by
  induction msgs generalizing p with
  | nil => exact Emits.none rfl rfl rfl rfl rfl rfl
  | cons msg msgs ih => exact (emits_write p msg).trans (ih (p.write msg))

theorem emits_sendAckCheck :
    ∃ msgs, Emits p (p.sendAckCheck now) msgs ∧
      ∀ msg ∈ msgs, msg = ⟨ProtocolMessageType.Ack, 0, p.incomingMsgId, []⟩ := by
  have hnone : ∀ msg ∈ ([] : List ProtocolMessage),
      msg = ⟨ProtocolMessageType.Ack, 0, p.incomingMsgId, []⟩ := by
    intro msg hmsg
    cases hmsg
  rw [sendAckCheck]
  split_ifs with hacknowledged
  · exact ⟨[], Emits.none rfl rfl rfl rfl rfl rfl, hnone⟩
  · exact ⟨[], Emits.none rfl rfl rfl rfl rfl rfl, hnone⟩
  · have hacked : Emits p { p with incomingAckId := p.incomingMsgId } [] :=
      Emits.none rfl rfl rfl rfl rfl rfl
    rw [sendAck, if_neg hacknowledged]
    exact ⟨_, hacked.trans (emits_write _ _), fun msg hmsg => mem_singleton.mp hmsg⟩
  · exact ⟨[], Emits.none rfl rfl rfl rfl rfl rfl, hnone⟩

end PersistentProtocol

namespace Endpoint

open PersistentProtocol

variable {x : Endpoint}

theorem kept_of_emits (hx : Kept x) (h : Emits x.protocol p' msgs) : Kept (x.update p') :=
  ⟨h.msgId.trans hx.msgId, h.incoming.trans hx.incoming, h.ackId.trans hx.ackId,
    h.ackId.symm ▸ hx.ackLe, by
      have hqueue := hx.queue
      rw [← h.unack, ← h.ackId] at hqueue
      exact hqueue,
    fun msg hmsg => hx.messages msg (h.unack ▸ hmsg), hx.small⟩

theorem pair_of_emits (hp : Pair x y) (h : Emits x.protocol p' msgs)
    (hgood : ∀ msg ∈ msgs, x.GoodFor msg) : Pair (x.update p') y := by
  have hwrites : Writes x (x.update p') := writes_of rfl rfl prefix_rfl (Nat.le_refl _) h.data hgood
  refine pair_of_writes hp hwrites (kept_of_emits hp.kept h) ?_ hp.receives.delivered ?_
  · obtain ⟨hreceived, rest, lost, hawaits, hlost, hrest⟩ := hp.receives.reads
    refine ⟨hreceived, rest, lost, ?_, hlost, hrest⟩
    have hreader : (x.update p').protocol.socketReader = x.protocol.socketReader := h.reader
    rw [hreader]
    exact hawaits
  · have hack := hp.sends.acked
    rw [← h.ackId] at hack
    exact hack

theorem pair_writeNow (hp : Pair x y) : Pair x.writeNow y := by
  have hsplit : x.protocol.socketWriter.writeNow.1 ++ x.protocol.socketWriter.writeNow.2.data =
      x.protocol.socketWriter.data := by
    rw [ProtocolWriter.writeNow]
    split_ifs
    · rfl
    · rfl
    · exact append_nil _
  have hwritten : x.writeNow.written x.socket =
      x.written x.socket ++ x.protocol.socketWriter.writeNow.1 := update_self ..
  have hwrites : Writes x x.writeNow := by
    refine ⟨rfl, fun k hk => update_of_ne hk _ _, ?_, prefix_rfl, Nat.le_refl _, [], ?_, nofun⟩
    · rw [hwritten]
      exact prefix_append _ _
    · have hsocket : x.socket = x.writeNow.socket := rfl
      rw [out, out, if_pos rfl, if_pos hsocket, hwritten, append_assoc]
      have hwriter : x.writeNow.protocol.socketWriter = x.protocol.socketWriter.writeNow.2 := rfl
      rw [hwriter, hsplit]
      exact (append_nil _).symm
  exact pair_of_writes hp hwrites ⟨hp.kept.msgId, hp.kept.incoming, hp.kept.ackId, hp.kept.ackLe,
    hp.kept.queue, hp.kept.messages, hp.kept.small⟩ hp.receives.reads hp.receives.delivered
    hp.sends.acked

theorem pair_of_reader (hp : Pair x y) (reader : ProtocolReader) (received : Nat)
    (hreads : Reads y { x with
      protocol := { x.protocol with socketReader := reader }
      received := received }) :
    Pair { x with
      protocol := { x.protocol with socketReader := reader }
      received := received } y := by
  have hdata : x.protocol.socketWriter.data =
      x.protocol.socketWriter.data ++ messageBytes [] := (append_nil _).symm
  refine pair_of_writes hp (writes_of rfl rfl prefix_rfl (Nat.le_refl _) hdata
    nofun) ?_ hreads hp.receives.delivered hp.sends.acked
  exact ⟨hp.kept.msgId, hp.kept.incoming, hp.kept.ackId, hp.kept.ackLe, hp.kept.queue,
    hp.kept.messages, hp.kept.small⟩

theorem pair_data (hp : Pair x y) {count : Nat}
    (h : x.received + count ≤ (y.written x.socket).length) :
    Pair { x with
      protocol := { x.protocol with
        socketReader := x.protocol.socketReader.acceptChunk
          (((y.written x.socket).drop x.received).take count) }
      received := x.received + count } y := by
  obtain ⟨-, rest, lost, hawaits, hlost, hgood⟩ := hp.receives.reads
  refine pair_of_reader hp _ _ ⟨h, rest, lost, ?_, hlost, hgood⟩
  have hsplit : (y.out x.socket).drop x.received =
      ((y.written x.socket).drop x.received).take count ++
        (y.out x.socket).drop (x.received + count) := by
    rw [out, drop_append_of_le_length (by omega), drop_append_of_le_length h,
      ← append_assoc, ← drop_drop, take_append_drop]
  rw [hsplit, append_assoc] at hawaits
  exact hawaits.acceptChunk

/-! ## Sending -/

theorem pair_send (hp : Pair x y) (hbuffer : buffer.length < 2 ^ 32)
    (hcount : x.sent.length + 1 < 2 ^ 32) :
    Pair { x with protocol := x.protocol.send buffer, sent := x.sent ++ [buffer] } y := by
  have hx := hp.kept
  let msg : ProtocolMessage := ⟨ProtocolMessageType.Regular, x.protocol.outgoingMsgId + 1,
    x.protocol.incomingMsgId, buffer⟩
  have hgood : Good (x.sent ++ [buffer]) x.delivered.length msg := by
    have hid : msg.id = x.sent.length + 1 := congrArg (· + 1) hx.msgId
    have hack : msg.ack = x.delivered.length := hx.incoming
    have htype : msg.type < 256 := (by decide : ProtocolMessageType.Regular < 256)
    refine ⟨⟨htype, by rw [hid]; exact hcount, by rw [hack]; exact hp.delivered_lt, hbuffer⟩,
      fun _ => ⟨by rw [hid]; exact Nat.succ_pos _, ?_⟩, Nat.le_of_eq hack⟩
    rw [hid, Nat.add_sub_cancel]
    exact getElem?_concat_length
  have hsame : (x.protocol.send buffer).outgoingUnackMsg = x.protocol.outgoingUnackMsg ++ [msg] ∧
      (x.protocol.send buffer).outgoingMsgId = x.protocol.outgoingMsgId + 1 ∧
      (x.protocol.send buffer).outgoingAckId = x.protocol.outgoingAckId ∧
      (x.protocol.send buffer).incomingMsgId = x.protocol.incomingMsgId ∧
      (x.protocol.send buffer).socketReader = x.protocol.socketReader := by
    rw [send]
    split_ifs <;> exact ⟨rfl, rfl, rfl, rfl, rfl⟩
  obtain ⟨hunack, hmsgId, hackId, hincoming, hreader⟩ := hsame
  have hdata : ∃ msgs, (x.protocol.send buffer).socketWriter.data =
      x.protocol.socketWriter.data ++ messageBytes msgs ∧ ∀ m ∈ msgs, m = msg := by
    rw [send]
    split_ifs
    · exact ⟨[], (append_nil _).symm, nofun⟩
    · exact ⟨[msg], (emits_write _ msg).data, fun m hm => mem_singleton.mp hm⟩
  obtain ⟨msgs, hdata, hmsgs⟩ := hdata
  have hprefix : x.sent <+: x.sent ++ [buffer] := prefix_append _ _
  have hlength : (x.sent ++ [buffer]).length = x.sent.length + 1 := length_append
  refine pair_of_writes hp (writes_of rfl rfl hprefix (Nat.le_refl _) hdata fun m hm => by
    rw [hmsgs m hm]
    exact hgood) ?_ ?_ hp.receives.delivered ?_
  · refine ⟨?_, hincoming.trans hx.incoming, hackId.trans hx.ackId, ?_, ?_, ?_, ?_⟩
    · exact hmsgId.trans ((congrArg (· + 1) hx.msgId).trans hlength.symm)
    · have hle := hx.ackLe
      rw [← hackId] at hle
      exact Nat.le_trans hle (by rw [hlength]; exact Nat.le_succ _)
    · have hnumber : x.protocol.outgoingAckId +
          (x.sent.drop x.protocol.outgoingAckId).length + 1 = x.protocol.outgoingMsgId + 1 := by
        have hle := hx.ackLe
        rw [length_drop, hx.msgId]
        omega
      have hqueue : (x.protocol.outgoingUnackMsg ++ [msg]).map (fun m => (m.id, m.data)) =
          numberFrom x.protocol.outgoingAckId
            ((x.sent ++ [buffer]).drop x.protocol.outgoingAckId) := by
        rw [map_append, hx.queue, drop_append_of_le_length hx.ackLe, numberFrom_append,
          numberFrom, hnumber]
        rfl
      rw [← hunack, ← hackId] at hqueue
      exact hqueue
    · intro m hm
      have hmem : m ∈ x.protocol.outgoingUnackMsg ++ [msg] := hunack ▸ hm
      rcases mem_append.mp hmem with hm | hm
      · obtain ⟨htype, hold⟩ := hx.messages m hm
        exact ⟨htype, hold.mono hprefix (Nat.le_refl _)⟩
      · rw [mem_singleton.mp hm]
        exact ⟨rfl, hgood⟩
    · rw [hlength]
      exact hcount
  · obtain ⟨hreceived, rest, lost, hawaits, hlost, hrest⟩ := hp.receives.reads
    rw [← hreader] at hawaits
    exact ⟨hreceived, rest, lost, hawaits, hlost, hrest⟩
  · have hacked := hp.sends.acked
    rw [← hackId] at hacked
    exact hacked

/-! ## Receiving -/

theorem pair_acceptAck (hp : Pair x y) {ack : Nat} (hack : ack ≤ y.delivered.length) :
    Pair { x with protocol := x.protocol.acceptAck ack, acks := x.acks ++ [ack] } y := by
  have hx := hp.kept
  have hle : ack ≤ x.sent.length := Nat.le_trans hack hp.sends.delivered.length_le
  have hhighest : (x.acks ++ [ack]).foldl max 0 = max x.protocol.outgoingAckId ack := by
    rw [foldl_append, hx.ackId]
    rfl
  have hspec : (x.protocol.acceptAck ack).outgoingAckId = max x.protocol.outgoingAckId ack ∧
      (x.protocol.acceptAck ack).outgoingUnackMsg.map (fun msg => (msg.id, msg.data)) =
        numberFrom (max x.protocol.outgoingAckId ack)
          (x.sent.drop (max x.protocol.outgoingAckId ack)) ∧
      (∀ msg ∈ (x.protocol.acceptAck ack).outgoingUnackMsg, msg ∈ x.protocol.outgoingUnackMsg) ∧
      (x.protocol.acceptAck ack).outgoingMsgId = x.protocol.outgoingMsgId ∧
      (x.protocol.acceptAck ack).incomingMsgId = x.protocol.incomingMsgId ∧
      (x.protocol.acceptAck ack).socketReader = x.protocol.socketReader ∧
      (x.protocol.acceptAck ack).socketWriter = x.protocol.socketWriter := by
    rw [acceptAck]
    by_cases hnew : x.protocol.outgoingAckId < ack
    · rw [if_pos hnew, Nat.max_eq_right (Nat.le_of_lt hnew)]
      refine ⟨rfl, ?_, fun msg hmsg => (dropWhile_sublist _).mem hmsg, rfl, rfl, rfl, rfl⟩
      have hdropped := dropWhile_numberFrom x.protocol.outgoingAckId
        (x.sent.drop x.protocol.outgoingAckId) (Nat.le_of_lt hnew)
      rw [← hx.queue, dropWhile_map, drop_drop, Nat.add_sub_cancel' (Nat.le_of_lt hnew)] at hdropped
      exact hdropped
    · rw [if_neg hnew, Nat.max_eq_left (Nat.le_of_not_lt hnew)]
      exact ⟨rfl, hx.queue, fun _ hmsg => hmsg, rfl, rfl, rfl, rfl⟩
  obtain ⟨hackId, hqueue, hmessages, hmsgId, hincoming, hreader, hwriter⟩ := hspec
  have hdata : (x.protocol.acceptAck ack).socketWriter.data =
      x.protocol.socketWriter.data ++ messageBytes [] := by
    rw [hwriter]
    exact (append_nil _).symm
  refine pair_of_writes hp (writes_of rfl rfl prefix_rfl (Nat.le_refl _) hdata
    nofun) ?_ ?_ hp.receives.delivered ?_
  · refine ⟨hmsgId.trans hx.msgId, hincoming.trans hx.incoming, hackId.trans hhighest.symm, ?_, ?_,
      fun msg hmsg => hx.messages msg (hmessages msg hmsg), hx.small⟩
    · exact hackId ▸ Nat.max_le.mpr ⟨hx.ackLe, hle⟩
    · rw [← hackId] at hqueue
      exact hqueue
  · obtain ⟨hreceived, rest, lost, hawaits, hlost, hrest⟩ := hp.receives.reads
    rw [← hreader] at hawaits
    exact ⟨hreceived, rest, lost, hawaits, hlost, hrest⟩
  · exact hackId ▸ Nat.max_le.mpr ⟨hp.sends.acked, hack⟩

variable {msg : ProtocolMessage}

theorem pair_deliver (hp : Pair x y) (now : Nat) (hgood : y.GoodFor msg)
    (htype : msg.type = ProtocolMessageType.Regular) (hid : msg.id = x.protocol.incomingMsgId + 1) :
    Pair { x with
      protocol := { x.protocol with
        incomingMsgId := msg.id
        incomingMsgLastTime := now }.sendAckCheck now
      delivered := x.delivered ++ [msg.data] } y := by
  have hx := hp.kept
  have hdata : x.protocol.socketWriter.data =
      x.protocol.socketWriter.data ++ messageBytes [] := (append_nil _).symm
  have hlength : (x.delivered ++ [msg.data]).length = x.delivered.length + 1 := length_append
  have hgrows : x.delivered.length ≤ (x.delivered ++ [msg.data]).length := by
    rw [hlength]
    exact Nat.le_succ _
  have hprefix : x.delivered ++ [msg.data] <+: y.sent := by
    obtain ⟨more, hmore⟩ := hp.receives.delivered
    obtain ⟨-, hget⟩ := hgood.regular htype
    rw [hid, Nat.add_sub_cancel, hx.incoming, ← hmore, getElem?_append_right (Nat.le_refl _),
      Nat.sub_self] at hget
    cases more with
    | nil => cases hget
    | cons first more =>
      cases hget
      exact ⟨more, by rw [← hmore, append_assoc]; rfl⟩
  have hdelivered : Pair { x with
      protocol := { x.protocol with
        incomingMsgId := msg.id
        incomingMsgLastTime := now }
      delivered := x.delivered ++ [msg.data] } y := by
    refine pair_of_writes hp (writes_of rfl rfl prefix_rfl hgrows hdata
      nofun) ⟨hx.msgId, ?_, hx.ackId, hx.ackLe, hx.queue, ?_, hx.small⟩
      hp.receives.reads hprefix hp.sends.acked
    · rw [hlength, ← hx.incoming]
      exact hid
    · intro m hm
      obtain ⟨hregular, hold⟩ := hx.messages m hm
      exact ⟨hregular, hold.mono prefix_rfl hgrows⟩
  obtain ⟨msgs, hemits, hacks⟩ := emits_sendAckCheck { x.protocol with
    incomingMsgId := msg.id
    incomingMsgLastTime := now } now
  refine pair_of_emits hdelivered hemits fun m hm => ?_
  rw [hacks m hm]
  exact hdelivered.goodFor_empty (by decide) (by decide) (Nat.le_of_eq hdelivered.kept.incoming)

theorem pair_regular (hp : Pair x y) (now : Nat) (hgood : y.GoodFor msg)
    (htype : msg.type = ProtocolMessageType.Regular) :
    Pair { x with
      protocol := (x.protocol.receiveRegular now msg).1
      delivered := x.delivered ++ (x.protocol.receiveRegular now msg).2 } y := by
  have hnothing : Pair { x with protocol := x.protocol, delivered := x.delivered ++ [] } y := by
    rw [append_nil]
    exact hp
  rw [receiveRegular]
  split_ifs with hnew hgap htime
  · have hasked : Emits x.protocol { x.protocol with lastReplayRequestTime := now } [] :=
      Emits.none rfl rfl rfl rfl rfl rfl
    have hreplay := pair_of_emits hp (hasked.trans
      (emits_write _ ⟨ProtocolMessageType.ReplayRequest, 0, 0, []⟩)) fun m hm => by
        rw [mem_singleton.mp hm]
        exact hp.goodFor_empty (by decide) (by decide) (Nat.zero_le _)
    simp only [append_nil]
    exact hreplay
  · exact hnothing
  · exact pair_deliver hp now hgood htype (not_not.mp hgap)
  · exact hnothing

theorem pair_receive (hp : Pair x y) (now : Nat) (hgood : y.GoodFor msg) :
    Pair (x.receive now msg) y := by
  have hacked := pair_acceptAck hp hgood.ack
  have hnothing : ∀ p', Emits (x.protocol.acceptAck msg.ack) p' [] →
      Pair { x with
        protocol := p'
        delivered := x.delivered ++ []
        acks := x.acks ++ [msg.ack] } y := by
    intro p' hemits
    have hnone := pair_of_emits hacked hemits nofun
    rw [append_nil]
    exact hnone
  rw [receive, receiveMessage]
  split_ifs with hregular hreplay hpause hresume
  · exact pair_regular hacked now hgood hregular
  · have hemits := pair_of_emits hacked (emits_foldl _ (x.protocol.acceptAck msg.ack).outgoingUnackMsg)
      fun m hm => (hacked.kept.messages m hm).2
    simp only [append_nil]
    exact hemits
  · exact hnothing _ (Emits.none rfl rfl rfl rfl rfl rfl)
  · exact hnothing _ (Emits.none rfl rfl rfl rfl rfl rfl)
  · exact hnothing _ (Emits.none rfl rfl rfl rfl rfl rfl)

theorem pair_read (hp : Pair x y) {now : Nat} (h : step y x (.read now) = some x') : Pair x' y := by
  obtain ⟨⟨out, reader⟩, hread, rfl⟩ := Option.map_eq_some_iff.mp h
  obtain ⟨hreceived, rest, lost, hawaits, hlost, hgood⟩ := hp.receives.reads
  rcases hawaits.readNext (fun msg hmsg => (hgood msg hmsg).fits) hread with
    ⟨rfl, hnext⟩ | ⟨msg, more, rfl, rfl, hnext⟩
  · exact pair_of_reader hp reader x.received ⟨hreceived, rest, lost, hnext, hlost, hgood⟩
  · have hbehind := pair_of_reader hp reader x.received
      ⟨hreceived, more, lost, hnext, hlost, fun m hm => hgood m (mem_cons_of_mem _ hm)⟩
    exact pair_receive hbehind now (hgood msg mem_cons_self)

/-! ## Reconnecting -/

theorem kept_begin (hx : Kept x) (chunk : Bytes) (socket received : Nat) :
    Kept { x with
      protocol := x.protocol.beginAcceptReconnection chunk
      socket := socket
      received := received } :=
  ⟨hx.msgId, hx.incoming, hx.ackId, hx.ackLe, hx.queue, hx.messages, hx.small⟩

theorem out_begin {x : Endpoint} {socket : Nat} (hsocket : x.socket < socket)
    (chunk : Bytes) (received k : Nat) :
    ∃ lost, Endpoint.out { x with
        protocol := x.protocol.beginAcceptReconnection chunk
        socket := socket
        received := received } k ++ lost = x.out k ∧ (x.socket ≠ k → lost = []) := by
  rw [out, out]
  by_cases hk : k = socket
  · subst hk
    refine ⟨[], ?_, fun _ => rfl⟩
    rw [if_neg (Nat.ne_of_gt hsocket), if_pos rfl, append_nil]
    rfl
  · rw [if_neg hk, append_nil]
    by_cases hold : k = x.socket
    · exact ⟨x.protocol.socketWriter.data, by rw [if_pos hold], fun hne => absurd hold.symm hne⟩
    · exact ⟨[], by rw [if_neg hold], fun _ => rfl⟩

variable {socket : Nat}

theorem wire_begin (hx : Wire x) (hsocket : x.socket < socket) (chunk : Bytes) (received : Nat) :
    Wire { x with
      protocol := x.protocol.beginAcceptReconnection chunk
      socket := socket
      received := received } := by
  refine ⟨fun k hk => hx.fresh k (Nat.lt_trans hsocket hk), fun k => ?_⟩
  obtain ⟨msgs, lost, hbytes, hlost, hgood⟩ := hx.sockets k
  obtain ⟨more, hmore, hnone⟩ := @out_begin x _ hsocket chunk received k
  refine ⟨msgs, more ++ lost, by rw [← append_assoc, hmore, hbytes], fun hle => ?_, hgood⟩
  have hlater : socket ≤ k := hle
  rw [hnone (by omega), hlost (by omega)]
  rfl

theorem reads_begin (hxy : Reads x y) (hsocket : x.socket < socket) (chunk : Bytes)
    (received : Nat) :
    Reads { x with
      protocol := x.protocol.beginAcceptReconnection chunk
      socket := socket
      received := received } y := by
  obtain ⟨hreceived, rest, lost, hawaits, hlost, hgood⟩ := hxy
  obtain ⟨more, hmore, hnone⟩ := @out_begin x _ hsocket chunk received y.socket
  refine ⟨hreceived, rest, more ++ lost, ?_, fun hle => ?_, hgood⟩
  · have hinside : y.received ≤ (Endpoint.out { x with
        protocol := x.protocol.beginAcceptReconnection chunk
        socket := socket
        received := received } y.socket).length := by
      rw [out, length_append]
      exact Nat.le_trans hreceived (Nat.le_add_right _ _)
    rw [← append_assoc, ← drop_append_of_le_length hinside, hmore]
    exact hawaits
  · have hlater : socket ≤ y.socket := hle
    rw [hnone (by omega), hlost (by omega)]
    rfl

theorem pair_begin (hp : Pair x y) {initialLength : Nat} (hsocket : x.socket < socket)
    (hlength : initialLength ≤ (y.written socket).length) :
    Pair { x with
      protocol := x.protocol.beginAcceptReconnection ((y.written socket).take initialLength)
      socket := socket
      received := initialLength } y := by
  refine ⟨kept_begin hp.kept _ _ _, wire_begin hp.wire hsocket _ _,
    ⟨reads_begin hp.sends.reads hsocket _ _, hp.sends.delivered, hp.sends.acked⟩,
    ⟨⟨hlength, ?_⟩, hp.receives.delivered, hp.receives.acked⟩, hp.peerKept, hp.peerWire⟩
  obtain ⟨msgs, lost, hbytes, hlost, hgood⟩ := hp.peerWire.sockets socket
  refine ⟨msgs, lost, ?_, hlost, hgood⟩
  have hnew : ProtocolReader.new.Awaits ((y.written socket).take initialLength ++
      ((y.out socket).drop initialLength ++ lost)) msgs := by
    have hempty : ProtocolReader.new.incomingData.bytes = [] := rfl
    refine ⟨rfl, ?_⟩
    rw [hempty, nil_append, ← hbytes, out, drop_append_of_le_length hlength,
      ← append_assoc, ← append_assoc, take_append_drop]
  exact hnew.acceptChunk

theorem pair_end (hp : Pair x y) : Pair (x.update x.protocol.endAcceptReconnection) y := by
  have hended : Emits x.protocol { x.protocol with
      isReconnecting := false
      incomingAckId := x.protocol.incomingMsgId } [] := Emits.none rfl rfl rfl rfl rfl rfl
  refine pair_of_emits hp ((hended.trans (emits_write _ ⟨ProtocolMessageType.Ack, 0,
    x.protocol.incomingMsgId, []⟩)).trans (emits_foldl _ x.protocol.outgoingUnackMsg))
    fun m hm => ?_
  rcases mem_append.mp hm with hm | hm
  · rw [mem_singleton.mp hm]
    exact hp.goodFor_empty (by decide) (by decide) (Nat.le_of_eq hp.kept.incoming)
  · exact (hp.kept.messages m hm).2

/-! ## Steps and runs -/

def SmallStep : ProtocolEvent → Prop
  | .send buffer => buffer.length < 2 ^ 32 ∧ e.sent.length + 1 < 2 ^ 32
  | .sendControl buffer => buffer.length < 2 ^ 32
  | _ => True

theorem pair_step {event : ProtocolEvent} (hp : Pair x y) (hok : x.SmallStep event)
    (h : step y x event = some x') : Pair x' y := by
  have hempty : ∀ {type : Nat}, type < 256 → type ≠ ProtocolMessageType.Regular →
      ∀ m ∈ [(⟨type, 0, 0, []⟩ : ProtocolMessage)], x.GoodFor m := by
    intro type htype hregular m hm
    rw [mem_singleton.mp hm]
    exact hp.goodFor_empty htype hregular (Nat.zero_le _)
  cases event with
  | send buffer =>
    cases h
    exact pair_send hp hok.1 hok.2
  | sendControl buffer =>
    cases h
    refine pair_of_emits hp (emits_write _ _) fun m hm => ?_
    rw [mem_singleton.mp hm]
    have htype : ProtocolMessageType.Control < 256 := by decide
    have hregular : ProtocolMessageType.Control ≠ ProtocolMessageType.Regular := by decide
    exact ⟨⟨htype, Nat.two_pow_pos 32, Nat.two_pow_pos 32, hok⟩, fun heq => absurd heq hregular,
      Nat.zero_le _⟩
  | sendPause | sendResume =>
    cases h
    exact pair_of_emits hp (emits_write _ _) (hempty (by decide) (by decide))
  | sendDisconnect =>
    rw [step] at h
    split_ifs at h
    · cases h
      exact hp
    · cases h
      have hmarked : Emits x.protocol { x.protocol with didSendDisconnect := true } [] :=
        Emits.none rfl rfl rfl rfl rfl rfl
      exact pair_writeNow (pair_of_emits hp (hmarked.trans (emits_write _ _))
        (hempty (by decide) (by decide)))
  | pauseSocketWriting =>
    cases h
    exact pair_of_emits hp (Emits.none rfl rfl rfl rfl rfl rfl) nofun
  | sendKeepAlive =>
    cases h
    have hacked : Emits x.protocol { x.protocol with
        incomingAckId := x.protocol.incomingMsgId } [] := Emits.none rfl rfl rfl rfl rfl rfl
    refine pair_of_emits hp (hacked.trans (emits_write _ _)) fun m hm => ?_
    rw [mem_singleton.mp hm]
    exact hp.goodFor_empty (by decide) (by decide) (Nat.le_of_eq hp.kept.incoming)
  | writeNow =>
    cases h
    exact pair_writeNow hp
  | ackTimeout now =>
    rw [step] at h
    split_ifs at h
    cases h
    have hcleared : Emits x.protocol { x.protocol with incomingAckTimeout := false } [] :=
      Emits.none rfl rfl rfl rfl rfl rfl
    obtain ⟨msgs, hemits, hacks⟩ :=
      emits_sendAckCheck { x.protocol with incomingAckTimeout := false } now
    refine pair_of_emits hp (hcleared.trans hemits) fun m hm => ?_
    rw [hacks m hm]
    exact hp.goodFor_empty (by decide) (by decide) (Nat.le_of_eq hp.kept.incoming)
  | data count =>
    rw [step] at h
    split_ifs at h with hcount
    cases h
    exact pair_data hp hcount
  | read now => exact pair_read hp h
  | beginAcceptReconnection socket initialLength =>
    rw [step] at h
    split_ifs at h with hsocket
    cases h
    exact pair_begin (pair_writeNow hp) hsocket.1 hsocket.2
  | endAcceptReconnection =>
    cases h
    exact pair_end hp

end Endpoint

namespace Connection

open Endpoint

def Small (event : Side × ProtocolEvent) : Prop := (c event.1).SmallStep event.2

def Sound : Prop := ∀ side : Side, Pair (c side) (c side.other)

theorem sound_initial : Sound initial := by
  intro side
  have hkept : Kept Endpoint.new := ⟨rfl, rfl, rfl, Nat.le_refl _, rfl, nofun, Nat.two_pow_pos 32⟩
  have hout : ∀ k, Endpoint.new.out k = [] := fun k => by
    rw [Endpoint.out]
    split_ifs <;> rfl
  have hwire : Wire Endpoint.new :=
    ⟨fun _ _ => rfl, fun k => ⟨[], [], by rw [hout]; rfl, fun _ => rfl, nofun⟩⟩
  have hlinked : Linked Endpoint.new Endpoint.new :=
    ⟨⟨Nat.le_refl _, [], [], by rw [hout]; exact ProtocolReader.awaits_new, fun _ => rfl,
      nofun⟩, prefix_rfl, Nat.le_refl _⟩
  exact ⟨hkept, hwire, hlinked, hlinked, hkept, hwire⟩

theorem sound_step {c c' : Connection} {event : Side × ProtocolEvent} (hc : Sound c)
    (hok : c.Small event) (h : c.step event = some c') : Sound c' := by
  obtain ⟨side, event⟩ := event
  obtain ⟨e, hstep, rfl⟩ := Option.map_eq_some_iff.mp h
  have hpair := pair_step (hc side) hok hstep
  intro other
  by_cases hsame : other = side
  · subst hsame
    have hne : other.other ≠ other := by cases other <;> decide
    rw [update_self, update_of_ne hne]
    exact hpair
  · have hother : other = side.other := by
      cases other <;> cases side <;> first | rfl | exact absurd rfl hsame
    have hback : side.other.other = side := by cases side <;> rfl
    subst hother
    rw [update_of_ne hsame, hback, update_self]
    exact hpair.swap

structure Reliable (sender receiver : Endpoint) : Prop where
  delivered : receiver.delivered <+: sender.sent
  queue : sender.protocol.outgoingUnackMsg.map (fun msg => (msg.id, msg.data)) =
    numberFrom sender.highestAck (sender.sent.drop sender.highestAck)
  left : sender.highestAck ≤ receiver.delivered.length

theorem reliable_of_pair {x : Endpoint} (h : Pair x y) : Reliable x y :=
  ⟨h.sends.delivered, h.kept.ackId ▸ h.kept.queue, h.kept.ackId ▸ h.sends.acked⟩

/-- Whatever sockets die and whenever the endpoints reconnect, every message arrives once and in
order, and none is forgotten before it has arrived. -/
theorem reliable_delivery {c : Connection} {events : List (Side × ProtocolEvent)}
    (h : System.RunVia step Small initial events c) (side : Side) :
    Reliable (c side) (c side.other) := by
  have hsound := h.invariant (fun _ _ _ hs hok hstep => sound_step hs hok hstep) sound_initial
  exact reliable_of_pair (hsound side)

/-- A message whose socket dies is sent again on the next one. -/
theorem reliable_delivery_sample :
    ∃ c : Connection, (c .right).delivered = [[7]] ∧ Reliable (c .left) (c .right) := by
  have hrun : ∃ c, System.RunVia step Small initial
      [(.left, .send [7]), (.left, .writeNow), (.left, .beginAcceptReconnection 1 0),
        (.right, .beginAcceptReconnection 1 0), (.left, .endAcceptReconnection),
        (.left, .writeNow), (.right, .data 27), (.right, .read 0), (.right, .read 0),
        (.right, .read 0), (.right, .read 0)] c ∧ (c .right).delivered = [[7]] := by
    refine ⟨_, ⟨_, ⟨by decide, by decide⟩, rfl, _, trivial, rfl, _, trivial, rfl, _, trivial, rfl, _,
      trivial, rfl, _, trivial, rfl, _, trivial, rfl, _, trivial, rfl, _, trivial, rfl, _, trivial,
      rfl, _, trivial, rfl, rfl⟩, rfl⟩
  obtain ⟨c, hrun, hdelivered⟩ := hrun
  exact ⟨c, hdelivered, reliable_delivery hrun .left⟩

/-! ## A payload too long for the header -/

def longHeader : Bytes := [1, 0, 0, 0, 1, 0, 0, 0, 0, 0, 0, 0, 0]

theorem header_long (h : buffer.length = 2 ^ 32) :
    (⟨ProtocolMessageType.Regular, 1, 0, buffer⟩ : ProtocolMessage).header = longHeader := by
  have hlength : writeUInt32BE (buffer.length : Nat) = writeUInt32BE 0 :=
    writeUInt32BE_congr (by rw [h]; rfl)
  have hrest : toByte ((1 : Nat) : Int) :: (writeUInt32BE ((1 : Nat) : Int) ++
      (writeUInt32BE ((0 : Nat) : Int) ++ writeUInt32BE 0)) = longHeader := by decide
  rw [ProtocolMessage.header, hlength]
  exact hrest

theorem readNext_longHeader :
    ∃ s : ChunkStream, (ProtocolReader.new.acceptChunk longHeader).readNext =
      some (none, ⟨s, false, 0, 1, 1, 0⟩) := by
  have hdata : readUInt32BE longHeader 9 = 0 := by decide
  have htype : readUInt8 longHeader 0 = 1 := by decide
  have hid : readUInt32BE longHeader 1 = 1 := by decide
  have hack : readUInt32BE longHeader 5 = 0 := by decide
  have hread : (ProtocolReader.new.acceptChunk longHeader).readNext =
      some (none, ⟨(ChunkStream.empty.acceptChunk longHeader).advance 13, false,
        readUInt32BE longHeader 9, readUInt8 longHeader 0, readUInt32BE longHeader 1,
        readUInt32BE longHeader 5⟩) := rfl
  rw [hread, hdata, htype, hid, hack]
  exact ⟨_, rfl⟩

theorem readNext_noData (s : ChunkStream) : (⟨s, false, 0, 1, 1, 0⟩ : ProtocolReader).readNext =
      some (some ⟨1, 1, 0, []⟩, ⟨s, true, 13, 0, 0, 0⟩) := by
  have hread : s.read 0 = some ([], s) := if_pos rfl
  rw [ProtocolReader.readNext, if_pos (Nat.zero_le _), hread]
  rfl

theorem writeNow_written :
    e.writeNow.written e.socket = e.written e.socket ++ e.protocol.socketWriter.writeNow.1 :=
  update_self ..

theorem step_read (peer e : Endpoint) (now : Nat) {msg : Option ProtocolMessage}
    {reader : ProtocolReader} (h : e.protocol.socketReader.readNext = some (msg, reader)) :
    peer.step e (.read now) =
      some (msg.elim (e.update { e.protocol with socketReader := reader })
        ((e.update { e.protocol with socketReader := reader }).receive now)) := by
  rw [Endpoint.step, h]
  cases msg with
  | none | some _ => rfl

def oneSent (buffer : Bytes) : Endpoint :=
  { Endpoint.new with protocol := PersistentProtocol.new.send buffer, sent := [buffer] }

theorem oneSent_written (h : buffer.length = 2 ^ 32) :
    (oneSent buffer).writeNow.written 0 = longHeader ++ buffer := by
  have hdata : (oneSent buffer).protocol.socketWriter.data = longHeader ++ buffer := by
    rw [← header_long h]
    rfl
  have hsome : ¬(longHeader ++ buffer).length = 0 := by
    rw [length_append, h]
    omega
  have hrunning : ¬(oneSent buffer).protocol.socketWriter.isPaused = true := Bool.false_ne_true
  have hwritten := writeNow_written (oneSent buffer)
  rw [ProtocolWriter.writeNow, hdata, if_neg hsome, if_neg hrunning] at hwritten
  exact hwritten

theorem delivered_of_longHeader {peer : Endpoint} {rest : Bytes}
    (h : peer.written 0 = longHeader ++ rest) :
    ∃ e₁ e₂ e₃ : Endpoint, peer.step .new (.data 13) = some e₁ ∧
      peer.step e₁ (.read 0) = some e₂ ∧ peer.step e₂ (.read 0) = some e₃ ∧
      e₁.sent = [] ∧ e₂.sent = [] ∧ e₃.delivered = [[]] := by
  have hlength : 0 + 13 ≤ (peer.written 0).length := by
    rw [h, length_append]
    exact Nat.le_add_right 13 _
  have hchunk : ((peer.written 0).drop 0).take 13 = longHeader := by
    rw [h, drop_zero]
    rfl
  have hgiven : peer.step .new (.data 13) = some { Endpoint.new with
      protocol := { PersistentProtocol.new with
        socketReader := ProtocolReader.new.acceptChunk (((peer.written 0).drop 0).take 13) }
      received := 13 } := if_pos (e := none) hlength
  rw [hchunk] at hgiven
  obtain ⟨s, hheader⟩ := readNext_longHeader
  exact ⟨_, _, _, hgiven, step_read peer _ 0 hheader, step_read peer _ 0 (readNext_noData s), rfl,
    rfl, rfl⟩

/-- The data of a message of `2 ^ 32` bytes does not arrive: its header says there is none. -/
theorem not_reliable_delivery : ¬∀ (events : List (Side × ProtocolEvent)) (c : Connection),
      System.RunVia step (fun c event => (c event.1).sent.length + 1 < 2 ^ 32) initial events c →
      ∀ side : Side, Reliable (c side) (c side.other) := by
  intro hall
  obtain ⟨buffer, hbuffer⟩ : ∃ buffer : Bytes, buffer.length = 2 ^ 32 :=
    ⟨replicate (2 ^ 32) 0, length_replicate⟩
  obtain ⟨e₁, e₂, e₃, hgiven, hread, hread', hsent₁, hsent₂, hdelivered⟩ :=
    delivered_of_longHeader (oneSent_written hbuffer)
  have hrun : ∃ c, System.RunVia step (fun c event => (c event.1).sent.length + 1 < 2 ^ 32) initial
      [(.left, .send buffer), (.left, .writeNow), (.right, .data 13), (.right, .read 0),
        (.right, .read 0)] c ∧ (c .left).sent = [buffer] ∧ (c .right).delivered = [[]] := by
    have hnone : ∀ e : Endpoint, e.sent = [] → e.sent.length + 1 < 2 ^ 32 := by
      intro e h
      rw [h]
      norm_num
    have hone : [buffer].length + 1 < 2 ^ 32 := by
      rw [length_singleton]
      norm_num
    let c₂ := Function.update (Function.update initial .left (oneSent buffer)) .left
      (oneSent buffer).writeNow
    have hsent : step initial (.left, .send buffer) =
        some (Function.update initial .left (oneSent buffer)) := rfl
    have hflushed : step (Function.update initial .left (oneSent buffer)) (.left, .writeNow) =
        some c₂ := rfl
    have hstep : ∀ (c : Connection) (e : Endpoint) (event : ProtocolEvent),
        c .left = (oneSent buffer).writeNow →
        Endpoint.step (oneSent buffer).writeNow (c .right) event = some e →
        step c (.right, event) = some (Function.update c .right e) := by
      intro c e event hleft h
      have hother : c Side.right.other = (oneSent buffer).writeNow := hleft
      rw [step, hother, h]
      rfl
    exact ⟨_, ⟨_, hnone _ rfl, hsent, _, hone, hflushed, _, hnone _ rfl,
      hstep c₂ e₁ _ rfl hgiven, _, hnone _ hsent₁, hstep _ e₂ _ rfl hread, _, hnone _ hsent₂,
      hstep _ e₃ _ rfl hread', rfl⟩, rfl, hdelivered⟩
  obtain ⟨c, hrun, hsent, hdelivered⟩ := hrun
  have hprefix := (hall _ c hrun .left).delivered
  have hright : (c Side.left.other).delivered = [[]] := hdelivered
  rw [hright, hsent] at hprefix
  have hsame : ([] : Bytes) = buffer := (cons_prefix_cons.mp hprefix).1
  rw [← hsame] at hbuffer
  cases hbuffer

end Connection

end Fumie.Base
