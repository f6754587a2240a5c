import Fumie.Lib.Runs
import Fumie.AgentHost.Server.StateManager
import Fumie.AgentHost.Server.AgentService

/-!
# The protocol server

`ProtocolServerHandler` with the state manager and the part of the agent service it
calls. Transports, connections, `subscribe` calls and reconnects are numbered as they
come. A connection is an `IConnectedClient`; it keeps its number for good, as the
object keeps its identity, and a suspended request may still write to it after its
transport closed. A transport runs at most one handshake at a time unless a barrier
holds handshakes back.

Every `await` is an event: a `subscribe` call of the agent service waits for a
release, registers its subscriber, reads the state at once or after a restore, and
its handler resumes in a later event. `written` is what was sent on each transport,
in order. Log channels, reverse requests, notifications other than actions,
telemetry and the texts of errors are left out, and so is a handshake whose protocol
version is refused, which changes nothing.
-/

namespace Fumie.AgentHost

open Fumie.Lib

abbrev Envelope := ActionEnvelope StateAction

def REPLAY_BUFFER_CAPACITY : Nat := 1000

def CLIENT_TOOL_CALL_DISCONNECT_TIMEOUT : Int := 30000

def AGENT_HOST_CLIENT_CONNECTION_HISTORY_RETENTION : Int := 30000 * 10

/-! ## Connections and client records -/

inductive ChannelKind where
  | state
  | resourceWatch
  deriving DecidableEq

def classifyChannel (channel : Uri) : ChannelKind :=
  if isAhpResourceWatchChannel channel then .resourceWatch else .state

structure Connection where
  clientId : ClientId
  transport : Nat
  subscriptions : OrderedSet Uri
  deriving Inhabited

structure GraceRecord where
  id : Nat
  seenConnection : Bool
  lastSeenAt : Int
  deriving DecidableEq

inductive ClientRecord where
  | active (connections : List Nat)
  | grace (record : GraceRecord)
  deriving DecidableEq

inductive TimerKey where
  | managedSettings
  | chat (channel : Uri)
  deriving DecidableEq

structure DisconnectTimer where
  record : Nat
  key : TimerKey
  clientId : ClientId
  session : Uri
  deadline : Int
  deriving DecidableEq

/-! ## Messages and suspended requests -/

inductive ReconnectAnswer where
  | replay (actions : List Envelope) (missing : List Uri)
  | snapshot (snapshots : List StateSnapshot)
  deriving DecidableEq

inductive ErrorCode where
  | reconnectClientNotFound
  | resourceNotFound
  | handshakeFailed
  deriving DecidableEq

inductive ServerMessage where
  | action (envelope : Envelope)
  | initializeResult (serverSeq : Nat) (snapshots : List StateSnapshot)
  | reconnectResult (answer : ReconnectAnswer)
  | subscribeResult (channel : Uri) (snapshot : StateSnapshot)
  | error (code : ErrorCode)
  deriving DecidableEq

inductive TaskOwner where
  | request
  | reconnect (reconnect : Nat)
  deriving DecidableEq

inductive TaskPhase where
  | releasing
  | restoring
  | read (snapshot : StateSnapshot)
  | failed
  | installed (snapshot : StateSnapshot)
  | settled (snapshot : Option StateSnapshot)
  deriving DecidableEq

def TaskPhase.inService : TaskPhase → Bool
  | .releasing | .restoring | .read _ => true
  | _ => false

/-- The service has the subscriber and the handler has not resumed. -/
def TaskPhase.isRegistered : TaskPhase → Bool
  | .restoring | .read _ => true
  | _ => false

structure Task where
  connection : Nat
  channel : Uri
  owner : TaskOwner
  phase : TaskPhase

inductive ReconnectPhase where
  | restoring
  | answered (answer : ReconnectAnswer)
  | settled
  deriving DecidableEq

structure Reconnect where
  connection : Nat
  lastSeenServerSeq : Nat
  canReplay : Bool
  missing : List Uri
  reply : Bool
  phase : ReconnectPhase

inductive Handshake where
  | initializeRequest (clientId : ClientId) (initialSubscriptions : List Uri)
  | reconnectRequest (clientId : ClientId) (lastSeenServerSeq : Nat) (subscriptions : List Uri)
  deriving DecidableEq

def Handshake.clientId : Handshake → ClientId
  | .initializeRequest clientId _ => clientId
  | .reconnectRequest clientId _ _ => clientId

structure Transport where
  isOpen : Bool
  client : Option Nat

instance : Inhabited Transport := ⟨⟨false, none⟩⟩

instance : Inhabited Task := ⟨⟨0, .root, .request, .settled none⟩⟩

instance : Inhabited Reconnect := ⟨⟨0, 0, false, [], false, .settled⟩⟩

structure ProtocolServerHandler where
  now : Int
  manager : StateManager
  terminals : Record Uri Payload
  service : AgentService
  clients : Record ClientId ClientRecord
  connections : Nat → Connection
  nextConnection : Nat
  transports : Nat → Transport
  nextTransport : Nat
  written : Nat → List ServerMessage
  replayBuffer : List Envelope
  timers : List DisconnectTimer
  nextRecord : Nat
  handshakes : List (Nat × Handshake)
  tasks : Nat → Task
  nextTask : Nat
  reconnects : Nat → Reconnect
  nextReconnect : Nat
  /-- Clients whose last connection closed at some time. -/
  departed : List ClientId
  /-- Whether `beforeHandshake` returns a barrier for a client. -/
  beforeHandshake : ClientId → Bool

namespace ProtocolServerHandler

def create (manager : StateManager) (beforeHandshake : ClientId → Bool) :
    ProtocolServerHandler where
  now := 0
  manager := manager
  terminals := .empty
  service := .create
  clients := .empty
  connections := fun _ => default
  nextConnection := 0
  transports := fun _ => default
  nextTransport := 0
  written := fun _ => []
  replayBuffer := []
  timers := []
  nextRecord := 0
  handshakes := []
  tasks := fun _ => default
  nextTask := 0
  reconnects := fun _ => default
  nextReconnect := 0
  departed := []
  beforeHandshake := beforeHandshake

variable (s : ProtocolServerHandler)

/-! ## Small writes -/

section

variable (clientId : ClientId)

variable (i k t : Nat) (envelope : Envelope) (connection : Connection) (record : ClientRecord)

def setRecord : ProtocolServerHandler :=
  { s with clients := s.clients.set clientId record }

def setConnection : ProtocolServerHandler :=
  { s with connections := Function.update s.connections k connection }

def setTask (task : Task) : ProtocolServerHandler :=
  { s with tasks := Function.update s.tasks i task }

def setPhase (phase : TaskPhase) : ProtocolServerHandler :=
  s.setTask i { s.tasks i with phase }

def setReconnect (r : Nat) (reconnect : Reconnect) : ProtocolServerHandler :=
  { s with reconnects := Function.update s.reconnects r reconnect }

def setTransport (transport : Transport) : ProtocolServerHandler :=
  { s with transports := Function.update s.transports t transport }

def addSubscription (channel : Uri) : ProtocolServerHandler :=
  s.setConnection k { s.connections k with
    subscriptions := (s.connections k).subscriptions.insert channel }

def send (message : ServerMessage) : ProtocolServerHandler :=
  if (s.transports t).isOpen then
    { s with written := Function.update s.written t (s.written t ++ [message]) }
  else s

/-! ## Relevance and broadcast -/

def getActiveClientFromRecord : ClientRecord → Option Nat
  | .active connections => connections.getLast?
  | .grace _ => none

def isCatalogAction : StateAction → Bool
  | .session (.titleChanged _) => true
  | .session (.isReadChanged _) => true
  | .session (.isArchivedChanged _) => true
  | _ => false

def isActionEnvelopeRelevantToSubscriptionUris (subscribed : List Uri) : Bool :=
  if isAhpRootChannel envelope.channel then subscribed.any isAhpRootChannel
  else subscribed.any fun uri => uri = envelope.channel

def isRelevantToClient (envelope : Envelope) : Bool :=
  if envelope.channel ∈ connection.subscriptions then true
  else if isCatalogAction envelope.action && decide (Uri.root ∈ connection.subscriptions) then true
  else if !isAhpRootChannel envelope.channel then false
  else isActionEnvelopeRelevantToSubscriptionUris envelope connection.subscriptions.elems

/-- One record of the broadcast: the envelope goes to its newest connection. -/
def sendAction : ProtocolServerHandler :=
  match getActiveClientFromRecord record with
  | some k =>
    if isRelevantToClient (s.connections k) envelope then
      s.send (s.connections k).transport (.action envelope)
    else s
  | none => s

def broadcastAction : ProtocolServerHandler :=
  (s.clients.entries.map Prod.snd).foldl (fun s record => s.sendAction envelope record) s

def pushReplay (buffer : List Envelope) (envelope : Envelope) : List Envelope :=
  let buffer := buffer ++ [envelope]
  if buffer.length > REPLAY_BUFFER_CAPACITY then buffer.tail else buffer

/-! ## Disconnect timers -/

def disposeTimer (record : Nat) (key : TimerKey) : ProtocolServerHandler :=
  { s with timers := s.timers.filter fun timer => !(timer.record = record && timer.key = key) }

def setTimer (timer : DisconnectTimer) : ProtocolServerHandler :=
  { s.disposeTimer timer.record timer.key with
    timers := (s.disposeTimer timer.record timer.key).timers ++ [timer] }

/-- `previousRecord.disconnectTimeouts.dispose()`. -/
def disposeTimeouts : Option ClientRecord → ProtocolServerHandler
  | some (.grace record) => { s with timers := s.timers.filter fun timer => timer.record ≠ record.id }
  | _ => s

def newGraceRecord (seenConnection : Bool) : ProtocolServerHandler :=
  { s with
    clients := s.clients.set clientId
      (.grace { id := s.nextRecord, seenConnection, lastSeenAt := s.now })
    nextRecord := s.nextRecord + 1 }

/-- `_ensureGraceRecord`; a connected client has none. -/
def ensureGraceRecord : ProtocolServerHandler × Option GraceRecord :=
  match s.clients.get clientId with
  | some (.active _) => (s, none)
  | some (.grace record) => (s, some record)
  | none =>
    (s.newGraceRecord clientId false,
      some { id := s.nextRecord, seenConnection := false, lastSeenAt := s.now })

def startClientToolCallDisconnectTimeout (session chatChannel : Uri) : ProtocolServerHandler :=
  match s.ensureGraceRecord clientId with
  | (s, none) => s
  | (s, some record) =>
    let elapsed := s.now - record.lastSeenAt
    let delay := max 0 (CLIENT_TOOL_CALL_DISCONNECT_TIMEOUT - elapsed)
    s.setTimer { record := record.id, key := .chat chatChannel, clientId, session
                 deadline := s.now + delay }

def clearClientToolCallDisconnectTimeout (channel : Uri) : ProtocolServerHandler :=
  match s.clients.get clientId with
  | some (.grace record) => s.disposeTimer record.id (.chat channel)
  | _ => s

end

/-! ## Pending client tool calls -/

def isPendingToolCallStatus : ToolCallState → Bool
  | .streaming _ _ _ => true
  | .running _ _ _ _ => true
  | .pendingConfirmation _ _ _ => true
  | _ => false

def pendingClientToolCall? : ResponsePart → Option (ToolCallState × ClientId)
  | .toolCall tc =>
    match tc.contributor with
    | some (.client clientId) => if isPendingToolCallStatus tc then some (tc, clientId) else none
    | _ => none
  | _ => none

def pendingClientToolCalls : Option ActiveTurn → List (ToolCallState × ClientId)
  | none => []
  | some turn => turn.responseParts.filterMap pendingClientToolCall?

def hasPendingClientToolCall (activeTurn : Option ActiveTurn) (clientId : ClientId) : Bool :=
  (pendingClientToolCalls activeTurn).any fun pending => pending.2 = clientId

def isActiveClient (state : SessionWithDefaultChat) (clientId : ClientId) : Bool :=
  state.activeClients.any fun c => c.clientId = clientId

def hasReplacementActiveClientTool (state : SessionWithDefaultChat) (clientId : ClientId)
    (toolName : String) : Bool :=
  state.activeClients.any fun client =>
    client.clientId ≠ clientId && client.tools.any fun tool => tool.name = toolName

section

variable (clientId : ClientId)

def isInGrace : Bool :=
  match s.clients.get clientId with
  | some (.grace _) => true
  | _ => false

variable (session : Uri) (k : Nat) (chatChannel channel : Uri) (tc : ToolCallState)
  (connections : List Nat) (state : SessionWithDefaultChat)

def orphanOwners : List ClientId :=
  let activeTurn := (s.manager.getSessionState chatChannel).bind (·.activeTurn)
  (((pendingClientToolCalls activeTurn).map Prod.snd).filter s.isInGrace).eraseDups

def checkOrphanedClientToolCalls : ProtocolServerHandler :=
  (s.orphanOwners chatChannel).foldl
    (fun s ownerId => s.startClientToolCallDisconnectTimeout ownerId session chatChannel) s

/-! ## Emitting -/

def issuesToolCall : StateAction → Bool
  | .chat (.toolCallStart _ _ _ _ _ _ _) => true
  | .chat (.toolCallReady _ _ _ _) => true
  | _ => false

def handleEnvelope (envelope : Envelope) : ProtocolServerHandler :=
  let s := { s with replayBuffer := pushReplay s.replayBuffer envelope }.broadcastAction envelope
  if issuesToolCall envelope.action then
    match envelope.channel with
    | .chat session _ => s.checkOrphanedClientToolCalls session envelope.channel
    | _ => s
  else s

def afterManager (manager : StateManager) : ProtocolServerHandler :=
  (manager.emitted.drop s.manager.emitted.length).foldl handleEnvelope { s with manager }

def dispatchAction (action : StateAction) (origin : Option ActionOrigin) : ProtocolServerHandler :=
  s.afterManager (s.manager.applyAndEmit channel action origin)

/-! ## Releasing a client from a session -/

def failedResult (tc : ToolCallState) (clientId : ClientId) : ToolCallResult :=
  let displayName := (tcBase tc).displayName
  { success := false
    pastTenseMessage := .string (displayName ++ " failed")
    content :=
      if hasReplacementActiveClientTool state clientId (tcBase tc).toolName then
        some [⟨"The client that was running " ++ displayName ++
          " disconnected, but another active client now provides " ++ displayName ++
          ". You may try calling the tool again."⟩]
      else none
    structuredContent := none
    error := some ⟨"Client " ++ clientId ++ " disconnected before completing " ++ displayName⟩ }

def readyFields : Option ToolCallReadyFields :=
  match tc with
  | .streaming base _ invocationMessage =>
    some { contributor := none, intention := none
           invocationMessage := invocationMessage.getD (.string base.displayName)
           toolInput := none, confirmationTitle := none, riskAssessment := none, edits := none
           editable := none, confirmed := some .notNeeded, options := none }
  | _ => none

def failClientToolCall (turnId : String) (state : SessionWithDefaultChat) (clientId : ClientId)
    (tc : ToolCallState) : ProtocolServerHandler :=
  let s :=
    match readyFields tc with
    | some fields =>
      s.dispatchAction chatChannel (.chat (.toolCallReady turnId tc.toolCallId fields none)) none
    | none => s
  s.dispatchAction chatChannel
    (.chat (.toolCallComplete turnId tc.toolCallId (failedResult state tc clientId) false none))
    none

def completeDisconnectedClientToolCalls : ProtocolServerHandler :=
  match s.manager.getSessionState chatChannel with
  | none => s
  | some state =>
    match state.activeTurn with
    | none => s
    | some activeTurn =>
      ((pendingClientToolCalls (some activeTurn)).filter fun pending => pending.2 = clientId).foldl
        (fun s pending => s.failClientToolCall chatChannel activeTurn.id state clientId pending.1) s

def removeActiveClient (clientId : ClientId) : ProtocolServerHandler :=
  match s.manager.getSessionState session with
  | none => s
  | some state =>
    if isActiveClient state clientId then
      s.dispatchAction session (.session (.activeClientRemoved clientId)) none
    else s

def releaseActiveClientForSession (clientId : ClientId) (chatChannel : Uri) :
    ProtocolServerHandler :=
  ((s.clearClientToolCallDisconnectTimeout clientId chatChannel).completeDisconnectedClientToolCalls
    clientId chatChannel).removeActiveClient session clientId

/-! ## Subscriptions -/

def hasSubscriptionInOtherConnection (k : Nat) (uri : Uri) : Bool :=
  connections.any fun other => other ≠ k && decide (uri ∈ (s.connections other).subscriptions)

def releaseSubscriptions (held : Uri → Bool) (clientId : ClientId) :
    List Uri → AgentService → AgentService × Bool
  | [], service => (service, true)
  | uri :: rest, service =>
    match classifyChannel uri with
    | .state =>
      if held uri then releaseSubscriptions held clientId rest service
      else if uri.parses then
        releaseSubscriptions held clientId rest (service.unsubscribe uri clientId)
      else (service, false)
    | .resourceWatch =>
      releaseSubscriptions held clientId rest (service.onResourceWatchUnsubscribed uri)

/-- `_releaseClientSubscriptions`, with the connections left in the record. -/
def releaseClientSubscriptions : ProtocolServerHandler × Bool :=
  let connection := s.connections k
  match releaseSubscriptions (s.hasSubscriptionInOtherConnection connections k) connection.clientId
      connection.subscriptions.elems s.service with
  | (service, true) =>
    ({ s with service }.setConnection k { connection with subscriptions := .empty }, true)
  | (service, false) => ({ s with service }, false)

def leaveChannel (clientId : ClientId) : ProtocolServerHandler :=
  match channel with
  | .chat session _ => s.releaseActiveClientForSession session clientId channel
  | .malformedChat _ => s
  | _ =>
    match s.manager.getSessionState channel with
    | none => s
    | some state => state.chats.foldl (fun s chat =>
        s.releaseActiveClientForSession channel clientId chat.resource) s

/-- `_hasSubscriptionInOtherConnection` with the client's own record. -/
def isHeldByOther : Bool :=
  match s.clients.get (s.connections k).clientId with
  | some (.active connections) => s.hasSubscriptionInOtherConnection connections k channel
  | _ => false

def removeSubscription : ProtocolServerHandler :=
  let connection := s.connections k
  if channel ∈ connection.subscriptions then
    let s := s.setConnection k { connection with
      subscriptions := connection.subscriptions.erase channel }
    match classifyChannel channel with
    | .resourceWatch => { s with service := s.service.onResourceWatchUnsubscribed channel }
    | .state =>
      if s.isHeldByOther k channel || !channel.parses then s
      else
        { s with service := s.service.unsubscribe channel connection.clientId
          }.leaveChannel channel connection.clientId
  else s

/-! ## Attaching and detaching -/

def pruneClientRecords : ProtocolServerHandler :=
  let cutoff := s.now - AGENT_HOST_CLIENT_CONNECTION_HISTORY_RETENTION
  { s with clients := s.clients.filter fun _ record =>
      match record with
      | .active _ => true
      | .grace record =>
        !(s.timers.all (fun timer => timer.record ≠ record.id) && record.lastSeenAt < cutoff) }

def attachConnection : ProtocolServerHandler :=
  (match s.clients.get clientId with
  | some (.active connections) => s.setRecord clientId (.active (connections ++ [k]))
  | _ => s.setRecord clientId (.active [k])).pruneClientRecords

def newConnection (t : Nat) : ProtocolServerHandler :=
  { s.setConnection s.nextConnection { clientId, transport := t, subscriptions := .empty } with
    nextConnection := s.nextConnection + 1 }

def detachConnection : ProtocolServerHandler × Bool :=
  let connections := connections.erase k
  (s.setRecord (s.connections k).clientId (.active connections)).releaseClientSubscriptions k
    connections

def restoreRecord (previous : Option ClientRecord) : ProtocolServerHandler :=
  match previous with
  | some (.grace record) => s.setRecord clientId (.grace record)
  | _ => { s with clients := s.clients.delete clientId }

end

def rollbackFailedInitialization (k : Nat) (previous : Option ClientRecord) :
    ProtocolServerHandler :=
  let clientId := (s.connections k).clientId
  match s.clients.get clientId with
  | some (.active connections) =>
    match s.detachConnection k connections with
    | (s, false) => s
    | (s, true) =>
      if (connections.erase k).isEmpty then s.restoreRecord clientId previous else s
  | _ => s

section

variable (clientId : ClientId)

def startManagedSettingsTimeout : ProtocolServerHandler :=
  match s.clients.get clientId with
  | some (.grace record) =>
    s.setTimer { record := record.id, key := .managedSettings, clientId, session := .root
                 deadline := s.now + CLIENT_TOOL_CALL_DISCONNECT_TIMEOUT }
  | _ => s

def startSessionTimeouts (session : Uri) : ProtocolServerHandler :=
  match s.manager.getSessionState session with
  | none => s
  | some state =>
    if isActiveClient state clientId || hasPendingClientToolCall state.activeTurn clientId then
      state.chats.foldl (fun s chat =>
        s.startClientToolCallDisconnectTimeout clientId session chat.resource) s
    else s

def handleClientDisconnected : ProtocolServerHandler :=
  s.manager.getSessionUris.foldl (fun s session => s.startSessionTimeouts clientId session)
    (s.startManagedSettingsTimeout clientId)

def enterGrace : ProtocolServerHandler :=
  { s.newGraceRecord clientId true with
    departed := clientId :: s.departed }.handleClientDisconnected clientId

end

/-- The connection of a closed transport leaves its record. -/
def disconnect (k : Nat) : ProtocolServerHandler :=
  let clientId := (s.connections k).clientId
  match s.clients.get clientId with
  | some (.active connections) =>
    if k ∈ connections then
      match s.detachConnection k connections with
      | (s, false) => s
      | (s, true) => if (connections.erase k).isEmpty then s.enterGrace clientId else s
    else s
  | _ => s

def closeTransport (t : Nat) : ProtocolServerHandler :=
  s.setTransport t { isOpen := false, client := (s.transports t).client }

def close (t : Nat) : ProtocolServerHandler :=
  match (s.transports t).client with
  | none => s.closeTransport t
  | some k => (s.closeTransport t).disconnect k

/-! ## Initialize -/

/-- `_addInitialSubscription` for each channel in turn; `none` when one threw. A
watch is not acquired here. -/
def addInitialSubscriptions (k : Nat) : List Uri → ProtocolServerHandler → List StateSnapshot →
      ProtocolServerHandler × Option (List StateSnapshot)
  | [], s, snapshots => (s, some snapshots)
  | channel :: rest, s, snapshots =>
    let clientId := (s.connections k).clientId
    let snapshot := s.manager.getSnapshot channel
    let s := s.addSubscription k channel
    if channel.parses then
      addInitialSubscriptions k rest
        ({ s with service := s.service.addSubscriber channel clientId
          }.clearClientToolCallDisconnectTimeout clientId channel)
        (snapshots ++ snapshot.toList)
    else (s, none)

/-- `_handleInitialize`. `throws` is an error of what runs after the subscriptions. -/
def handleInitialize (t : Nat) (clientId : ClientId) (initialSubscriptions : List Uri)
    (throws : Bool) : ProtocolServerHandler :=
  let previous := s.clients.get clientId
  let k := s.nextConnection
  let s := (s.newConnection clientId t).attachConnection clientId k
  match addInitialSubscriptions k initialSubscriptions s [] with
  | (s, none) => (s.rollbackFailedInitialization k previous).send t (.error .handshakeFailed)
  | (s, some snapshots) =>
    if throws then
      (s.rollbackFailedInitialization k previous).send t (.error .handshakeFailed)
    else
      ((s.disposeTimeouts previous).setTransport t { s.transports t with client := some k }).send t
        (.initializeResult s.manager.serverSeq snapshots)

/-! ## Subscribe -/

def newTask (task : Task) : ProtocolServerHandler :=
  { s.setTask s.nextTask task with nextTask := s.nextTask + 1 }

def handleSubscribe (k : Nat) (channel : Uri) (starts : Bool) : ProtocolServerHandler :=
  match classifyChannel channel with
  | .resourceWatch =>
    match s.service.onResourceWatchSubscribed channel starts with
    | (service, true) =>
      ({ s with service }.addSubscription k channel).newTask
        { connection := k, channel, owner := .request
          phase := .installed ⟨channel, .resourceWatch, s.manager.serverSeq⟩ }
    | (_, false) =>
      s.newTask { connection := k, channel, owner := .request, phase := .failed }
  | .state =>
    if channel.parses then
      s.newTask { connection := k, channel, owner := .request, phase := .releasing }
    else s.newTask { connection := k, channel, owner := .request, phase := .failed }

def snapshotAtOnce (resource : Uri) : Option StateSnapshot :=
  match s.terminals.get resource with
  | some content => some ⟨resource, .terminal content, s.manager.serverSeq⟩
  | none =>
    match resource with
    | .changeset session _ =>
      if (s.manager.getSessionState session).isSome then s.manager.getSnapshot resource else none
    | .annotations _ => none
    | _ => s.manager.getSnapshot resource

def registerTask (i : Nat) : ProtocolServerHandler :=
  let task := s.tasks i
  let s := { s with service :=
    s.service.addSubscriber task.channel (s.connections task.connection).clientId }
  match s.snapshotAtOnce task.channel with
  | some snapshot => s.setPhase i (.read snapshot)
  | none => s.setPhase i .restoring

/-- The service gives up: the subscriber is removed again. -/
def failTask (i : Nat) : ProtocolServerHandler :=
  let task := s.tasks i
  { s with service :=
      s.service.unsubscribe task.channel (s.connections task.connection).clientId }.setPhase i .failed

def restoreTask (i : Nat) : ProtocolServerHandler :=
  match s.manager.getSnapshot (s.tasks i).channel with
  | some snapshot => s.setPhase i (.read snapshot)
  | none => s.failTask i

def installTask (i : Nat) (snapshot : StateSnapshot) : ProtocolServerHandler :=
  let task := s.tasks i
  let s := (s.addSubscription task.connection task.channel).clearClientToolCallDisconnectTimeout
    (s.connections task.connection).clientId task.channel
  match task.owner with
  | .request => s.setPhase i (.installed snapshot)
  | .reconnect _ => s.setPhase i (.settled (some snapshot))

def addMissing (r : Nat) (channel : Uri) : ProtocolServerHandler :=
  s.setReconnect r { s.reconnects r with missing := (s.reconnects r).missing ++ [channel] }

def respondTask (i : Nat) : ProtocolServerHandler :=
  let task := s.tasks i
  let t := (s.connections task.connection).transport
  match task.phase with
  | .installed snapshot =>
    (s.setPhase i (.settled (some snapshot))).send t (.subscribeResult task.channel snapshot)
  | _ => (s.setPhase i (.settled none)).send t (.error .resourceNotFound)

/-! ## Reconnect -/

/-- What runs at once for each subscription of a reconnect. -/
def startRestore (r : Nat) (k : Nat) (starts : Uri → Bool) (channel : Uri) :
    ProtocolServerHandler :=
  match classifyChannel channel with
  | .resourceWatch =>
    match s.service.onResourceWatchSubscribed channel (starts channel) with
    | (service, true) =>
      ({ s with service }.addSubscription k channel).newTask
        { connection := k, channel, owner := .reconnect r
          phase := .settled (some ⟨channel, .resourceWatch, s.manager.serverSeq⟩) }
    | (_, false) => s.addMissing r channel
  | .state =>
    if channel.parses then
      s.newTask { connection := k, channel, owner := .reconnect r, phase := .releasing }
    else s.addMissing r channel

def newReconnect (reconnect : Reconnect) : ProtocolServerHandler :=
  { s.setReconnect s.nextReconnect reconnect with nextReconnect := s.nextReconnect + 1 }

def canReplay (lastSeenServerSeq : Nat) : Bool :=
  match s.replayBuffer with
  | [] => s.manager.serverSeq ≤ lastSeenServerSeq
  | oldest :: _ => oldest.serverSeq ≤ lastSeenServerSeq

/-- `_handleReconnect`. `throws` is an error of what runs after the restore began. -/
def handleReconnect (t : Nat) (clientId : ClientId) (lastSeenServerSeq : Nat)
    (subscriptions : List Uri) (starts : Uri → Bool) (throws : Bool) : ProtocolServerHandler :=
  match s.clients.get clientId with
  | none => s.send t (.error .reconnectClientNotFound)
  | some existing =>
    let k := s.nextConnection
    let r := s.nextReconnect
    let s := (s.newConnection clientId t).attachConnection clientId k
    let s := s.newReconnect
      { connection := k, lastSeenServerSeq, canReplay := s.canReplay lastSeenServerSeq
        missing := [], reply := !throws, phase := .restoring }
    let s := subscriptions.foldl (fun s channel => s.startRestore r k starts channel) s
    if throws then
      (s.rollbackFailedInitialization k (some existing)).send t (.error .handshakeFailed)
    else
      (s.disposeTimeouts (some existing)).setTransport t { s.transports t with client := some k }

/-- State channels of every live connection of the client. -/
def resubscribed (k : Nat) : List Uri :=
  let connections :=
    match s.clients.get (s.connections k).clientId with
    | some (.active connections) => connections
    | _ => [k]
  connections.flatMap fun k =>
    (s.connections k).subscriptions.elems.filter fun uri => classifyChannel uri = .state

def reconcileSession (clientId : ClientId) (resubscribed : List Uri) (session : Uri) :
    ProtocolServerHandler :=
  match s.manager.getSessionState session with
  | none => s
  | some state =>
    if isActiveClient state clientId then
      state.chats.foldl (fun s chat =>
        if session ∉ resubscribed ∧ chat.resource ∉ resubscribed then
          s.releaseActiveClientForSession session clientId chat.resource
        else s) s
    else s

/-- `_reconcileActiveClientsAfterReconnect`. -/
def reconcileActiveClientsAfterReconnect (k : Nat) : ProtocolServerHandler :=
  let resubscribed := s.resubscribed k
  s.manager.getSessionUris.foldl
    (fun s session => s.reconcileSession (s.connections k).clientId resubscribed session) s

def tasksOf (r : Nat) : List Nat :=
  (List.range s.nextTask).filter fun i => (s.tasks i).owner = .reconnect r

def settledSnapshot? (phase : TaskPhase) : Option StateSnapshot :=
  match phase with
  | .settled snapshot => snapshot
  | _ => none

/-- The replay, or a snapshot of each restored channel. -/
def reconnectAnswer (r : Nat) : ReconnectAnswer :=
  let reconnect := s.reconnects r
  if reconnect.canReplay then
    .replay (s.replayBuffer.filter fun envelope =>
        reconnect.lastSeenServerSeq < envelope.serverSeq &&
          isRelevantToClient (s.connections reconnect.connection) envelope)
      reconnect.missing
  else .snapshot ((s.tasksOf r).filterMap fun i => settledSnapshot? (s.tasks i).phase)

/-- Every subscription is restored or missing. -/
def finishReconnect (r : Nat) : ProtocolServerHandler :=
  let s := s.reconcileActiveClientsAfterReconnect (s.reconnects r).connection
  s.setReconnect r { s.reconnects r with phase := .answered (s.reconnectAnswer r) }

def respondReconnect (r : Nat) (answer : ReconnectAnswer) : ProtocolServerHandler :=
  let reconnect := s.reconnects r
  let s := s.setReconnect r { reconnect with phase := .settled }
  if reconnect.reply then
    s.send (s.connections reconnect.connection).transport (.reconnectResult answer)
  else s

/-! ## Events -/

inductive ServerEvent where
  | connect
  | handshake (t : Nat) (handshake : Handshake) (starts : Uri → Bool) (throws : Bool)
  | barrierSettled (i : Nat) (starts : Uri → Bool) (throws : Bool)
  | barrierFailed (i : Nat)
  | subscribe (t : Nat) (channel : Uri) (starts : Bool)
  | unsubscribe (t : Nat) (channel : Uri)
  | close (t : Nat)
  | registerTask (i : Nat)
  | restoreTask (i : Nat)
  | failTask (i : Nat)
  | resumeTask (i : Nat)
  | respondTask (i : Nat)
  | finishReconnect (r : Nat)
  | respondReconnect (r : Nat)
  | dispatch (channel : Uri) (action : StateAction) (origin : Option ActionOrigin)
  | reject (channel : Uri) (action : StateAction) (origin : ActionOrigin) (reason : String)
  | manager (operation : StateManager.Operation)
  | terminal (resource : Uri) (content : Option Payload)
  | collectResourceWatch (channel : Uri)
  | advance (ms : Nat)
  | fireTimer (timer : DisconnectTimer)

def runHandshake (t : Nat) (handshake : Handshake) (starts : Uri → Bool) (throws : Bool) :
    ProtocolServerHandler :=
  match handshake with
  | .initializeRequest clientId initialSubscriptions =>
    s.handleInitialize t clientId initialSubscriptions throws
  | .reconnectRequest clientId lastSeenServerSeq subscriptions =>
    s.handleReconnect t clientId lastSeenServerSeq subscriptions starts throws

def fireTimer (timer : DisconnectTimer) : ProtocolServerHandler :=
  let s := { s with timers := s.timers.erase timer }
  match timer.key with
  | .managedSettings => s
  | .chat chatChannel => s.releaseActiveClientForSession timer.session timer.clientId chatChannel

def connectionOf (t : Nat) : Option Nat :=
  if (s.transports t).isOpen then (s.transports t).client else none

def step (e : ServerEvent) : Option ProtocolServerHandler :=
  match e with
  | .connect =>
    some { s.setTransport s.nextTransport { isOpen := true, client := none } with
      nextTransport := s.nextTransport + 1 }
  | .handshake t handshake starts throws =>
    if (s.transports t).isOpen ∧ (s.transports t).client = none then
      if s.beforeHandshake handshake.clientId then
        some { s with handshakes := s.handshakes ++ [(t, handshake)] }
      else some (s.runHandshake t handshake starts throws)
    else none
  | .barrierSettled i starts throws =>
    (s.handshakes[i]?).map fun (t, handshake) =>
      let s := { s with handshakes := s.handshakes.eraseIdx i }
      if (s.transports t).isOpen then s.runHandshake t handshake starts throws else s
  | .barrierFailed i =>
    (s.handshakes[i]?).map fun (t, _) =>
      { s with handshakes := s.handshakes.eraseIdx i }.send t (.error .handshakeFailed)
  | .subscribe t channel starts =>
    (s.connectionOf t).map fun k => s.handleSubscribe k channel starts
  | .unsubscribe t channel => (s.connectionOf t).map fun k => s.removeSubscription k channel
  | .close t => if (s.transports t).isOpen then some (s.close t) else none
  | .registerTask i => if (s.tasks i).phase = .releasing then some (s.registerTask i) else none
  | .restoreTask i => if (s.tasks i).phase = .restoring then some (s.restoreTask i) else none
  | .failTask i => if (s.tasks i).phase = .restoring then some (s.failTask i) else none
  | .resumeTask i =>
    match (s.tasks i).phase, (s.tasks i).owner with
    | .read snapshot, _ => some (s.installTask i snapshot)
    | .failed, .reconnect r => some ((s.addMissing r (s.tasks i).channel).setPhase i (.settled none))
    | _, _ => none
  | .respondTask i =>
    match (s.tasks i).phase, (s.tasks i).owner with
    | .installed _, .request | .failed, .request => some (s.respondTask i)
    | _, _ => none
  | .finishReconnect r =>
    if (s.reconnects r).phase = .restoring ∧
        (s.tasksOf r).all (fun i => (s.tasks i).phase matches .settled _) then
      some (s.finishReconnect r)
    else none
  | .respondReconnect r =>
    match (s.reconnects r).phase with
    | .answered answer => some (s.respondReconnect r answer)
    | _ => none
  | .dispatch channel action origin => some (s.dispatchAction channel action origin)
  | .reject channel action origin reason =>
    some (s.afterManager (s.manager.rejectClientAction channel action origin reason))
  | .manager operation => some (s.afterManager (s.manager.perform operation))
  | .terminal resource content =>
    some { s with terminals :=
      match content with
      | some content => s.terminals.set resource content
      | none => s.terminals.delete resource }
  | .collectResourceWatch channel =>
    some { s with service := s.service.collectResourceWatch channel }
  | .advance ms => some { s with now := s.now + ms }
  | .fireTimer timer =>
    if timer ∈ s.timers ∧ timer.deadline ≤ s.now then some (s.fireTimer timer) else none

def system (manager : StateManager) (beforeHandshake : ClientId → Bool) :
    System ProtocolServerHandler ServerEvent :=
  .ofStep (fun s => s = create manager beforeHandshake) step

end ProtocolServerHandler

end Fumie.AgentHost
