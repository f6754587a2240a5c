import Fumie.AgentHost.Subscription.ManagerRuns

/-!
# The protocol client

`ProtocolClient` is `AgentHostProtocolClient` with its subscription manager: the
connection states, the outbox of each state that has one, the reconnect cycle from
the lost transport to the drain, and the notifications the client writes. A replay
is applied one envelope at a time, because a listener of an envelope may dispatch
before the next one is read; nothing asynchronous happens in between.

`written` holds the messages written to the transport in use and `sent` those
written to any transport. `echoed` collects the own actions the replay in hand
names. Requests other than `reconnect`, retry delays and liveness timers are left
out: any order of attempts and failures is a run.
-/

namespace Fumie.AgentHost

open Fumie.Lib WriteAheadKind
open SubscriptionManager (ManagerEvent)

/-! ## Messages -/

inductive ClientMessage where
  | dispatchAction (channel : Uri) (clientSeq : Nat) (action : StateAction)
  | unsubscribe (channel : Uri)
  deriving DecidableEq

def ClientMessage.clientSeq : ClientMessage → Option Nat
  | .dispatchAction _ clientSeq _ => some clientSeq
  | .unsubscribe _ => none

structure Snapshot where
  resource : Uri
  state : ResourceState
  fromSeq : Nat

inductive ReconnectResult where
  | replay (actions : List (ActionEnvelope StateAction)) (missing : List Uri)
  | snapshot (snapshots : List Snapshot)

/-! ## States -/

inductive Attempt where
  | idle
  | opening
  | requested (lastSeenServerSeq : Nat) (subscriptions : List Uri)
  | applying (actions : List (ActionEnvelope StateAction)) (maxSeq : Nat) (missing : List Uri)
  | restoring

inductive ConnectionState where
  | connecting (outbox : List ClientMessage)
  | connected
  | reconnecting (outbox : List ClientMessage) (attempt : Attempt)
  | incompatible
  | closed

structure ProtocolClient where
  clientId : ClientId
  /-- `isClientTransport(this._transport)`. -/
  clientTransport : Bool
  /-- Whether there is a `_transportFactory`. -/
  transportFactory : Bool
  manager : SubscriptionManager
  nextClientSeq : Nat
  serverSeq : Nat
  state : ConnectionState
  written : List ClientMessage
  sent : List ClientMessage
  echoed : List Nat

namespace ProtocolClient

def create (clientId : ClientId) (clientTransport transportFactory : Bool)
    (releaseGraceMs maxIdleSubscriptions : Int) : ProtocolClient where
  clientId := clientId
  clientTransport := clientTransport
  transportFactory := transportFactory
  manager := .create clientId releaseGraceMs maxIdleSubscriptions
  nextClientSeq := 1
  serverSeq := 0
  state := .connecting []
  written := []
  sent := []
  echoed := []

variable (c : ProtocolClient)

/-! ## Sending -/

def write (messages : List ClientMessage) : ProtocolClient :=
  { c with written := c.written ++ messages, sent := c.sent ++ messages }

/-- `_sendNotificationMessage`: dropped, queued or written. -/
def sendNotification (message : ClientMessage) : ProtocolClient :=
  match c.state with
  | .closed | .incompatible => c
  | .connecting outbox =>
    if c.clientTransport then { c with state := .connecting (outbox ++ [message]) }
    else c.write [message]
  | .reconnecting outbox attempt =>
    { c with state := .reconnecting (outbox ++ [message]) attempt }
  | .connected => c.write [message]

def dispatch (channel : Uri) (action : StateAction) : ProtocolClient :=
  let clientSeq := c.nextClientSeq
  { c with
    nextClientSeq := clientSeq + 1
    manager := c.manager.dispatchOptimistic channel clientSeq action }.sendNotification
      (.dispatchAction channel clientSeq action)

/-- `_dispatchRootConfig`: a configuration patch bypasses the allocator. -/
def dispatchRootConfig (config : Record String Payload) : ProtocolClient :=
  c.sendNotification (.dispatchAction .root 0 (.root (.configChanged config false)))

def afterManager (manager : SubscriptionManager) : ProtocolClient :=
  (manager.wire.drop c.manager.wire.length).foldl
    (fun c e =>
      match e with
      | .unsubscribe resource _ _ _ => c.sendNotification (.unsubscribe resource)
      | _ => c)
    { c with manager }

/-! ## Receiving -/

section

variable (envelope : ActionEnvelope StateAction)

/-- `_onDidAction.fire`: the manager routes the envelope. -/
def fire : ProtocolClient :=
  { c with manager := c.manager.receiveEnvelope envelope }

def receive : ProtocolClient :=
  { c with serverSeq := max c.serverSeq envelope.serverSeq }.fire envelope

/-! ## The connection -/

def initialized (serverSeq : Nat) : ProtocolClient :=
  match c.state with
  | .connecting outbox =>
    { (if c.clientTransport then c.write outbox else c) with serverSeq, state := .connected }
  | _ => c

def handleClose : ProtocolClient :=
  { c with state := .closed }

/-- A drop during an attempt makes its request fail; the next attempt is scheduled
where the failure is caught. -/
def handleTransportClose : ProtocolClient :=
  match c.state with
  | .closed => c
  | .connecting outbox =>
    if c.transportFactory then { c with state := .reconnecting outbox .idle } else c.handleClose
  | .incompatible => c.handleClose
  | .connected =>
    if c.transportFactory then { c with state := .reconnecting [] .idle } else c.handleClose
  | .reconnecting outbox _ => { c with state := .reconnecting outbox .idle }

variable (outbox : List ClientMessage)

/-- Envelopes the drain resends: pending actions the outbox does not hold. -/
def replays : List ClientMessage :=
  (c.manager.getPendingActions.filter fun p => p.clientSeq ∉ outbox.filterMap (·.clientSeq)).map
    fun p => .dispatchAction p.channel p.clientSeq p.action

/-- `_drainAfterReconnect`. -/
def drainAfterReconnect : ProtocolClient :=
  (c.write (c.replays outbox)).write outbox

def finishReconnect (config : Record String Payload) : ProtocolClient :=
  let c := c.dispatchRootConfig config
  match c.state with
  | .reconnecting outbox _ => { c.drainAfterReconnect outbox with state := .connected }
  | _ => c

/-- An own action that was not rejected leaves its subscription before the envelope
is routed, so that it is not resent. -/
def dropEchoed : ProtocolClient :=
  match envelope.origin with
  | some origin =>
    if origin.clientId = c.clientId ∧ envelope.isRejected = false then
      { c with manager := c.manager.dropPendingAction envelope.channel origin.clientSeq }
    else c
  | none => c

def replayEnvelope : ProtocolClient :=
  let c := (c.dropEchoed envelope).fire envelope
  { c with echoed := c.echoed ++ (envelope.namedSeq c.clientId).toList }

end

def applySnapshots (snapshots : List Snapshot) (preservePending : Bool) : ProtocolClient :=
  { c with
    manager := snapshots.foldl
      (fun m s => m.applyReconnectSnapshot s.resource s.state s.fromSeq preservePending) c.manager
    serverSeq := snapshots.foldl (fun seq s => max seq s.fromSeq) c.serverSeq }

/-! ## Events -/

inductive ClientEvent where
  | dispatch (channel : Uri) (action : StateAction)
  | dispatchRootConfig (config : Record String Payload)
  | manager (e : ManagerEvent)
  | receive (envelope : ActionEnvelope StateAction)
  | initialized (serverSeq : Nat)
  | incompatible
  | transportClose
  | close
  | dispose
  | reconnectFromClosed
  | attempt
  | opened
  | attemptFailed
  | replay (actions : List (ActionEnvelope StateAction)) (missing : List Uri)
  | replayNext
  | replayDone (config : Record String Payload)
  | snapshots (snapshots : List Snapshot) (config : Record String Payload)
  | freshInitialize (serverSeq : Nat) (snapshots : List Snapshot)
  | restoreSnapshot (snapshot : Snapshot)
  | restoreMissing (resource : Uri)
  | restored (config : Record String Payload)

def isCall : ManagerEvent → Bool
  | .getSubscription _ _ | .disposeReference _ _ | .trackSessionCreate _ _ => true
  | _ => false

def isCallback : ManagerEvent → Bool
  | .fireTimer _ _ | .settleCreate _ _ | .resumeCreate _ | .settleSubscribe _ _ => true
  | _ => false

def applyingReplay : Bool :=
  match c.state with
  | .reconnecting _ (.applying _ _ _) => true
  | _ => false

def echoes (envelope : ActionEnvelope StateAction) : Bool :=
  match envelope.namedSeq c.clientId with
  | none => true
  | some clientSeq => c.sent.any fun message =>
    match message with
    | .dispatchAction channel seq action =>
      channel = envelope.channel ∧ seq = clientSeq ∧ ofAction action = ofAction envelope.action
    | .unsubscribe _ => false

def step (e : ClientEvent) : Option ProtocolClient :=
  match e, c.state with
  | .dispatch channel action, _ => some (c.dispatch channel action)
  | .dispatchRootConfig config, _ => some (c.dispatchRootConfig config)
  | .manager e, _ =>
    if isCall e || (isCallback e && !c.applyingReplay) then
      (c.manager.step e).map c.afterManager
    else none
  | .receive _, .closed => none
  | .receive envelope, _ => if c.applyingReplay then none else some (c.receive envelope)
  | .initialized serverSeq, .connecting _ => some (c.initialized serverSeq)
  | .incompatible, .connecting _ => some { c with state := .incompatible }
  | .transportClose, _ => if c.applyingReplay then none else some c.handleTransportClose
  | .close, _ => if c.applyingReplay then none else some c.handleClose
  | .dispose, _ => some (c.handleClose.afterManager c.manager.dispose)
  | .reconnectFromClosed, .closed =>
    if c.transportFactory then some { c with state := .reconnecting [] .idle } else none
  | .attempt, .reconnecting outbox .idle =>
    some { c with written := [], state := .reconnecting outbox .opening }
  | .opened, .reconnecting outbox .opening =>
    some { c with state := .reconnecting outbox (.requested c.serverSeq
      (if .root ∈ c.manager.currentSubscriptionUris then c.manager.currentSubscriptionUris
        else .root :: c.manager.currentSubscriptionUris)) }
  | .attemptFailed, .reconnecting outbox attempt =>
    match attempt with
    | .idle | .applying _ _ _ => none
    | _ => some { c with state := .reconnecting outbox .idle }
  | .replay actions missing, .reconnecting outbox (.requested _ _) =>
    if actions.all c.echoes then
      some { c with
        echoed := [], state := .reconnecting outbox (.applying actions c.serverSeq missing) }
    else none
  | .replayNext, .reconnecting outbox (.applying (envelope :: actions) maxSeq missing) =>
    some { c.replayEnvelope envelope with
      state := .reconnecting outbox (.applying actions (max maxSeq envelope.serverSeq) missing) }
  | .replayDone config, .reconnecting _ (.applying [] maxSeq missing) =>
    let c := { c with serverSeq := maxSeq, manager := c.manager.markSubscriptionsMissing missing }
    some (c.finishReconnect config)
  | .snapshots snapshots config, .reconnecting _ (.requested _ _) =>
    some ((c.applySnapshots snapshots false).finishReconnect config)
  | .freshInitialize serverSeq snapshots, .reconnecting outbox (.requested _ _) =>
    some { { c with serverSeq }.applySnapshots snapshots true with
      state := .reconnecting outbox .restoring }
  | .restoreSnapshot snapshot, .reconnecting _ .restoring =>
    some (c.applySnapshots [snapshot] true)
  | .restoreMissing resource, .reconnecting _ .restoring =>
    some { c with manager := c.manager.markSubscriptionsMissing [resource] }
  | .restored config, .reconnecting _ .restoring => some (c.finishReconnect config)
  | _, _ => none

end ProtocolClient

end Fumie.AgentHost
