import Fumie.Lib.OrderedSet
import Fumie.AgentHost.State.Actions

/-!
# The state manager

`StateManager` is `AgentHostStateManager`: the authoritative state of every
channel, the reducers applied to it, and the sequence numbers. `emitted` is every
envelope fired so far, oldest first; what an operation appends to it is what its
listeners see, in that order. Events nothing of the protocol server listens to
(titles, configuration, summaries) and the retention policy of the changeset cache
are left out; an eviction is an operation of its own.

What the reducers read of opaque JSON is a field of the manager:
`autoApproveBySetting` of a tool call's metadata and the root configuration keys a
provider owns.
-/

namespace Fumie.AgentHost

open Fumie.Lib

/-! ## Summaries -/

structure SessionSummary extends SessionMetadata where
  resource : Uri
  modifiedAt : Timestamp
  _meta : Option Json
  deriving DecidableEq, Inhabited

def createSessionState (summary : SessionSummary) : SessionState where
  toSessionMetadata := { summary.toSessionMetadata with origin := none }
  lifecycle := .creating
  creationError := none
  serverTools := none
  activeClients := []
  chats := []
  defaultChat := none
  config := none
  customizations := none
  changesets := none
  inputNeeded := none
  _meta := summary._meta

def ChatOrigin.User : Payload := ⟨"user"⟩

def createDefaultChatSummary (session : SessionSummary) (chatUri : Uri) : ChatSummary where
  resource := chatUri
  title := session.title
  status := session.status
  activity := session.activity
  modifiedAt := session.modifiedAt
  origin := some ChatOrigin.User
  interactivity := none
  workingDirectories := none

def ChatState.withSummary (state : ChatState) (summary : ChatSummary) : ChatState :=
  { state with
    resource := summary.resource
    title := summary.title
    status := summary.status
    activity := summary.activity.or state.activity
    modifiedAt := summary.modifiedAt
    origin := summary.origin.or state.origin
    interactivity := summary.interactivity.or state.interactivity
    workingDirectories := summary.workingDirectories.or state.workingDirectories }

/-! ## Entries and snapshots -/

structure SessionEntry where
  state : SessionState
  modifiedAt : Timestamp

structure ChatEntry where
  session : Uri
  summary : ChatSummary
  state : Option ChatState

inductive ChannelState where
  | root (state : RootState)
  | session (state : SessionState)
  | chat (state : ChatState)
  | changeset (state : ChangesetState)
  | annotations (state : AnnotationsState)
  | terminal (content : Payload)
  | resourceWatch
  deriving DecidableEq

structure StateSnapshot where
  resource : Uri
  state : ChannelState
  fromSeq : Nat
  deriving DecidableEq

structure SessionWithDefaultChat extends SessionState where
  activeTurn : Option ActiveTurn

def mergeSessionWithDefaultChat (session : SessionState) (chat : Option ChatState) :
    SessionWithDefaultChat :=
  { session with
    workingDirectories := (chat.bind (·.workingDirectories)).or session.workingDirectories
    activeTurn := chat.bind (·.activeTurn) }

structure StateManager where
  serverSeq : Nat
  rootState : RootState
  sessionStates : Record Uri SessionEntry
  chatEntries : Record Uri ChatEntry
  changesets : Record Uri ChangesetState
  annotations : Record Uri AnnotationsState
  sessionsWithActiveTurn : Record Uri (OrderedSet Uri)
  emitted : List (ActionEnvelope StateAction)
  autoApproveBySetting : Json → Bool
  providerBackedRootConfigKeys : RootState → List String

namespace StateManager

def create (rootState : RootState) (autoApproveBySetting : Json → Bool)
    (providerBackedRootConfigKeys : RootState → List String) : StateManager where
  serverSeq := 0
  rootState := rootState
  sessionStates := .empty
  chatEntries := .empty
  changesets := .empty
  annotations := .empty
  sessionsWithActiveTurn := .empty
  emitted := []
  autoApproveBySetting := autoApproveBySetting
  providerBackedRootConfigKeys := providerBackedRootConfigKeys

variable (m : StateManager)

/-- `_sessionStates.set`. -/
def setSession (session : Uri) (entry : SessionEntry) : StateManager :=
  { m with sessionStates := m.sessionStates.set session entry }

/-- `_chatEntries.set`. -/
def setChat (chat : Uri) (entry : ChatEntry) : StateManager :=
  { m with chatEntries := m.chatEntries.set chat entry }

/-! ## Reading -/

def getSessionUris : List Uri := m.sessionStates.keys

def getChatState (chat : Uri) : Option ChatState := (m.chatEntries.get chat).bind (·.state)

def getSessionState (sessionOrChat : Uri) : Option SessionWithDefaultChat :=
  let isChat := isAhpChatChannel sessionOrChat
  match if isChat then parseDefaultChatUri sessionOrChat else some sessionOrChat with
  | none => none
  | some session =>
    (m.sessionStates.get session).map fun entry =>
      mergeSessionWithDefaultChat entry.state
        (m.getChatState (if isChat then sessionOrChat else buildDefaultChatUri session))

def getSnapshot (resource : Uri) : Option StateSnapshot :=
  if isAhpRootChannel resource then some ⟨.root, .root m.rootState, m.serverSeq⟩
  else
    match m.changesets.get resource with
    | some state => some ⟨resource, .changeset state, m.serverSeq⟩
    | none =>
      if isAhpChatChannel resource then
        (m.getChatState resource).map fun state => ⟨resource, .chat state, m.serverSeq⟩
      else
        match resource with
        | .annotations _ =>
          some ⟨resource, .annotations ((m.annotations.get resource).getD ⟨[]⟩), m.serverSeq⟩
        | _ =>
          (m.sessionStates.get resource).map fun entry =>
            ⟨resource, .session entry.state, m.serverSeq⟩

def toSummary (session : Uri) (entry : SessionEntry) : SessionSummary where
  toSessionMetadata := { entry.state.toSessionMetadata with origin := none }
  resource := session
  modifiedAt := entry.modifiedAt
  _meta := entry.state._meta

/-! ## Chat summaries -/

def isAutoApproved (tc : ToolCallState) : Bool :=
  ((tcBase tc)._meta.map m.autoApproveBySetting).getD false

section

variable (state : ChatState)

def hasAutoApprovedPendingConfirmation : Bool :=
  match state.activeTurn with
  | none => false
  | some turn => turn.responseParts.any fun part =>
    match part with
    | .toolCall (.pendingConfirmation base params prompt) =>
      m.isAutoApproved (.pendingConfirmation base params prompt)
    | _ => false

def chatAwaitsUserInput : Bool :=
  match state.activeTurn with
  | none => false
  | some turn => turn.responseParts.any fun part =>
    match part with
    | .inputRequest _ response => response.isNone
    | .toolCall (.pendingResultConfirmation _ _ _ _) => true
    | .toolCall (.authRequired _ _ _ _ _) => true
    | .toolCall (.pendingConfirmation base params prompt) =>
      !m.isAutoApproved (.pendingConfirmation base params prompt)
    | _ => false

def chatSummaryStatus : SessionStatus :=
  if state.status &&& SessionStatus.InputNeeded ≠ SessionStatus.InputNeeded then state.status
  else if m.hasAutoApprovedPendingConfirmation state && !m.chatAwaitsUserInput state then
    (state.status &&& ~~~STATUS_ACTIVITY_MASK) ||| SessionStatus.InProgress
  else state.status

def chatSummaryFromState : ChatSummary :=
  { state.toChatSummary with status := m.chatSummaryStatus state }

end

structure ChatAggregate where
  status : Option SessionStatus
  activity : Option String
  modifiedAt : Option Timestamp

/-- The later of two summaries; of two with one time, the first. -/
def mostRecent (a b : ChatSummary) : ChatSummary := if a.modifiedAt < b.modifiedAt then b else a

def aggregateChatSummaries (chats : List ChatSummary) (defaultChat : Option Uri) : ChatAggregate :=
  match chats with
  | [] => { status := none, activity := none, modifiedAt := none }
  | first :: rest =>
    let activityMask := ~~~(SessionStatus.IsRead ||| SessionStatus.IsArchived)
    let base := (defaultChat.bind fun d => chats.find? fun c => c.resource = d).getD
      (rest.foldl mostRecent first)
    let inputChat := chats.find? fun c =>
      c.status &&& SessionStatus.InputNeeded = SessionStatus.InputNeeded
    let errorChat := chats.find? fun c => c.status &&& SessionStatus.Error = SessionStatus.Error
    let inProgressChat := chats.find? fun c =>
      c.status &&& SessionStatus.InputNeeded = SessionStatus.InProgress
    let (status, driver) :=
      match inputChat, errorChat, inProgressChat with
      | some chat, _, _ => (SessionStatus.InputNeeded, chat)
      | none, some chat, _ => (SessionStatus.Error, chat)
      | none, none, some chat => (SessionStatus.InProgress, chat)
      | none, none, none => (base.status &&& activityMask, base)
    { status := some status
      activity := driver.activity
      modifiedAt := some (chats.foldl (fun latest c => max latest c.modifiedAt) 0) }

def mergeSessionStatus (sessionStatus chatStatus : SessionStatus) : SessionStatus :=
  (chatStatus &&& ~~~(SessionStatus.IsRead ||| SessionStatus.IsArchived)) |||
    (sessionStatus &&& (SessionStatus.IsRead ||| SessionStatus.IsArchived))

/-! ## Emitting -/

/-- Fires an envelope with the next sequence number. -/
def emit (channel : Uri) (action : StateAction) (origin : Option ActionOrigin)
    (rejectionReason : Option String) : StateManager :=
  { m with
    serverSeq := m.serverSeq + 1
    emitted := m.emitted ++
      [{ channel, action, serverSeq := m.serverSeq + 1, origin, rejectionReason }] }

def rejectClientAction (channel : Uri) (action : StateAction) (origin : ActionOrigin)
    (reason : String) : StateManager :=
  m.emit channel action (some origin) (some reason)

/-! ## Applying -/

def dispatchActiveSessions : StateManager :=
  let action := RootAction.activeSessionsChanged m.sessionsWithActiveTurn.entries.length
  { m with rootState := rootReducer m.rootState action }.emit .root (.root action) none none

def synchronizeChatEntries (session : Uri) (summaries : List ChatSummary) : StateManager :=
  let chatEntries := summaries.foldl (fun entries summary =>
    match entries.get summary.resource with
    | some existing =>
      entries.set summary.resource
        { existing with summary, state := existing.state.map (·.withSummary summary) }
    | none => entries.set summary.resource { session, summary, state := none }) m.chatEntries
  { m with chatEntries := chatEntries.filter fun chat entry =>
      !(entry.session = session && chat ∉ summaries.map (·.resource)) }

def clearState (changes : ChatSummaryChanges) (state : ChatState) : ChatState :=
  { state with
    activity := if changes.activity = some none then none else state.activity
    origin := if changes.origin = some none then none else state.origin
    interactivity := if changes.interactivity = some none then none else state.interactivity
    workingDirectories :=
      if changes.workingDirectories = some none then none else state.workingDirectories }

def clearChat (chat : Uri) (changes : ChatSummaryChanges) (summaries : List ChatSummary) :
    StateManager :=
  match m.chatEntries.get chat with
  | none => m
  | some entry =>
    if chat ∈ summaries.map (·.resource) then
      m.setChat chat { entry with state := entry.state.map fun state => clearState changes state }
    else m

def applySession (session : Uri) (action : SessionAction) : StateManager :=
  match m.sessionStates.get session with
  | none => m
  | some entry =>
    let newState := sessionReducer entry.state action
    let m := (m.setSession session { entry with state := newState }).synchronizeChatEntries session
      newState.chats
    match action with
    | .chatUpdated chat changes => m.clearChat chat changes newState.chats
    | _ => m

def dispatchSession (session : Uri) (action : SessionAction) : StateManager :=
  (m.applySession session action).emit session (.session action) none none

def removeChatActiveTurn (session chat : Uri) : StateManager :=
  match m.sessionsWithActiveTurn.get session with
  | none => m
  | some activeChats =>
    if chat ∈ activeChats then
      let remaining := activeChats.erase chat
      if remaining.isEmpty then
        { m with sessionsWithActiveTurn := m.sessionsWithActiveTurn.delete session
          }.dispatchActiveSessions
      else { m with sessionsWithActiveTurn := m.sessionsWithActiveTurn.set session remaining }
    else m

def addChatActiveTurn (session chat : Uri) : StateManager :=
  let activeChats := (m.sessionsWithActiveTurn.get session).getD .empty
  let m' := { m with
    sessionsWithActiveTurn := m.sessionsWithActiveTurn.set session (activeChats.insert chat) }
  if activeChats.isEmpty then m'.dispatchActiveSessions else m'

def trackActiveTurn (session chat : Uri) (hadActive hasActive : Bool) : StateManager :=
  match hadActive, hasActive with
  | false, true => m.addChatActiveTurn session chat
  | true, false => m.removeChatActiveTurn session chat
  | _, _ => m

def forwardChatStatus (session chat : Uri) (sessionState : SessionState)
    (nextEntry : ChatSummary) : StateManager :=
  let prevEntry := sessionState.chats.find? fun c => c.resource = chat
  if prevEntry.map (·.status) = some nextEntry.status then m
  else m.dispatchSession session (.chatUpdated chat
    { title := none, status := some nextEntry.status, activity := some nextEntry.activity,
      modifiedAt := none, origin := none, interactivity := none, workingDirectories := none })

def mirrorChat (entry : SessionEntry) (chat : Uri) (nextEntry : ChatSummary) : SessionEntry :=
  let chats := entry.state.chats.map fun c => if c.resource = chat then nextEntry else c
  let aggregate := aggregateChatSummaries chats entry.state.defaultChat
  { state := { entry.state with
      chats
      status := (aggregate.status.map (mergeSessionStatus entry.state.status)).getD
        entry.state.status
      activity := aggregate.activity }
    modifiedAt := aggregate.modifiedAt.getD entry.modifiedAt }

/-- `_onChatStateChanged`. The session state is read before the status is forwarded
and written after. -/
def onChatStateChanged (session chat : Uri) (prev next : ChatState) : StateManager :=
  let m := m.trackActiveTurn session chat prev.activeTurn.isSome next.activeTurn.isSome
  match m.sessionStates.get session with
  | none => m
  | some entry =>
    let nextEntry := m.chatSummaryFromState next
    let m := m.forwardChatStatus session chat entry.state nextEntry
    m.setSession session (mirrorChat entry chat nextEntry)

def applyChat (session chat : Uri) (action : ChatAction) : StateManager :=
  match m.chatEntries.get chat with
  | none => m
  | some entry =>
    match entry.state with
    | none => m
    | some prev =>
      let next := chatReducer prev action
      (m.setChat chat { entry with state := some next }).onChatStateChanged session chat prev next

def sameValues (a b : Record String Payload) : Bool :=
  a.keys.all (fun k => b.get k = a.get k) && b.keys.all (fun k => a.get k = b.get k)

/-- Whether a configuration patch changes no value. -/
def isNoOpConfig (config : Record String Payload) (replace : Bool) : Bool :=
  match m.rootState.config with
  | none => false
  | some current =>
    if replace then sameValues current.values config
    else sameValues (current.values.merge config) current.values

def preserveProviderBackedRootConfigValues (replacement : Record String Payload) :
    Record String Payload :=
  match m.rootState.config with
  | none => replacement
  | some current =>
    (m.providerBackedRootConfigKeys m.rootState).foldl (fun values key =>
      match values.get key, current.values.get key with
      | none, some value => values.set key value
      | _, _ => values) replacement

/-- A replacing configuration keeps the values a provider owns. -/
def normalizeRootAction : RootAction → RootAction
  | .configChanged config true =>
    .configChanged (m.preserveProviderBackedRootConfigValues config) true
  | action => action

def isNoOpRootAction : RootAction → Bool
  | .configChanged config replace => m.isNoOpConfig config replace
  | _ => false

/-- `_applyAndEmit`. A chat action on a channel that names no chat throws, and one
for an unknown changeset is dropped: neither emits. -/
def applyAndEmit (channel : Uri) (action : StateAction) (origin : Option ActionOrigin) :
    StateManager :=
  match action with
  | .root action =>
    let action := m.normalizeRootAction action
    if m.isNoOpRootAction action then m
    else
      { m with rootState := rootReducer m.rootState action }.emit channel (.root action) origin none
  | .session action =>
    (m.applySession channel action).emit channel (.session action) origin none
  | .chat action =>
    match channel with
    | .chat session _ =>
      (m.applyChat session channel action).emit channel (.chat action) origin none
    | _ => m
  | .changeset action =>
    match m.changesets.get channel with
    | none => m
    | some state =>
      { m with changesets := m.changesets.set channel (changesetReducer state action)
        }.emit channel (.changeset action) origin none
  | .annotations action =>
    let state := (m.annotations.get channel).getD ⟨[]⟩
    { m with annotations := m.annotations.set channel (annotationsReducer state action)
      }.emit channel (.annotations action) origin none
  | action => m.emit channel action origin none

/-! ## Sessions and chats -/

/-- `_ensureDefaultChat`. -/
def ensureDefaultChat (session : Uri) (summary : SessionSummary) (turns : List Turn)
    (draft : Option Message) (defaultChatTitle : Option String) : StateManager :=
  let chatUri := buildDefaultChatUri session
  let chatSummary : ChatSummary :=
    { createDefaultChatSummary summary chatUri with title := defaultChatTitle.getD "" }
  let m := m.setChat chatUri
    { session, summary := chatSummary
      state := some { createChatState chatSummary with turns, draft } }
  match m.sessionStates.get session with
  | none => m
  | some entry =>
    m.setSession session { entry with
      state := { entry.state with chats := [chatSummary], defaultChat := some chatUri } }

def createSession (summary : SessionSummary) : StateManager :=
  let session := summary.resource
  match m.sessionStates.get session with
  | some _ => m
  | none =>
    (m.setSession session
      { state := createSessionState summary, modifiedAt := summary.modifiedAt }).ensureDefaultChat
        session summary [] none none

def restoreSession (summary : SessionSummary) (turns : List Turn) (draft : Option Message)
    (defaultChatTitle : Option String) : StateManager :=
  let session := summary.resource
  match m.sessionStates.get session with
  | some _ => m
  | none =>
    (m.setSession session
      { state := { createSessionState summary with lifecycle := .ready }
        modifiedAt := summary.modifiedAt }).ensureDefaultChat session summary turns draft
          defaultChatTitle

def updateChatTitle (session chat : Uri) (title : String) : StateManager :=
  let m :=
    match m.chatEntries.get chat with
    | none => m
    | some entry =>
      m.setChat chat { entry with
        state := entry.state.map fun (state : ChatState) => { state with title := title } }
  m.dispatchSession session (.chatUpdated chat
    { title := some title, status := none, activity := none, modifiedAt := none, origin := none,
      interactivity := none, workingDirectories := none })

def snapshotDefaultChatTitle (session : Uri) (state : SessionState) : StateManager :=
  let defaultChat := buildDefaultChatUri session
  match state.chats.find? fun chat => chat.resource = defaultChat with
  | some summary =>
    if summary.title = "" ∧ state.title ≠ "" then m.updateChatTitle session defaultChat state.title
    else m
  | none => m

structure ChatOptions where
  title : Option String
  origin : Option Payload
  interactivity : Option Payload

def newChatSummary (session chatUri : Uri) (entry : SessionEntry) (options : ChatOptions) :
    ChatSummary :=
  let base := createDefaultChatSummary (toSummary session entry) chatUri
  { base with
    title := options.title.getD ""
    status := SessionStatus.Idle
    origin := options.origin.or base.origin
    interactivity := options.interactivity }

def addChat (session chatUri : Uri) (options : ChatOptions) (turns : List Turn) : StateManager :=
  match m.sessionStates.get session with
  | none => m
  | some entry =>
    if chatUri ∈ entry.state.chats.map (·.resource) then m
    else
      let m := m.snapshotDefaultChatTitle session entry.state
      let chatSummary := newChatSummary session chatUri
        ((m.sessionStates.get session).getD entry) options
      (m.setChat chatUri
        { session, summary := chatSummary
          state := some { createChatState chatSummary with turns } }).dispatchSession session
            (.chatAdded chatSummary)

/-- The catalog entry without a conversation; the resolver installs one later. -/
def registerRestoredChatSummary (session chatUri : Uri) (options : ChatOptions) : StateManager :=
  match m.sessionStates.get session with
  | none => m
  | some entry =>
    if chatUri ∈ entry.state.chats.map (·.resource) then m
    else
      let m := m.snapshotDefaultChatTitle session entry.state
      let entry := (m.sessionStates.get session).getD entry
      let chatSummary := newChatSummary session chatUri entry options
      (m.setSession session { entry with
        state := { entry.state with chats := entry.state.chats ++ [chatSummary] } }).setChat chatUri
          { session, summary := chatSummary, state := none }

def resolveChatState (chat : Uri) (turns : List Turn) (draft : Option Message) : StateManager :=
  match m.chatEntries.get chat with
  | none => m
  | some entry =>
    match entry.state with
    | some _ => m
    | none =>
      m.setChat chat
        { entry with state := some { createChatState entry.summary with turns, draft } }

def removeChat (session chatUri : Uri) : StateManager :=
  match m.sessionStates.get session with
  | none => m
  | some entry =>
    if chatUri ∈ entry.state.chats.map (·.resource) ∧
        ¬ (some chatUri = entry.state.defaultChat ∨ isDefaultChatUri chatUri) then
      let m := m.removeChatActiveTurn session chatUri
      { m with chatEntries := m.chatEntries.delete chatUri
        }.dispatchSession session (.chatRemoved chatUri)
    else m

def removeSession (session : Uri) : StateManager :=
  match m.sessionStates.get session with
  | none => m
  | some entry =>
    let m :=
      match m.sessionsWithActiveTurn.get session with
      | some _ =>
        { m with sessionsWithActiveTurn := m.sessionsWithActiveTurn.delete session
          }.dispatchActiveSessions
      | none => m
    let chatEntries := (entry.state.chats.map (·.resource)).foldl
      (fun entries chat => entries.delete chat) m.chatEntries
    { m with
      chatEntries := chatEntries.delete (buildDefaultChatUri session)
      sessionStates := m.sessionStates.delete session }

def patchSession (session : Uri) (config : Option SessionConfigState)
    (customizations : Option (List Customization)) (project : Option Payload)
    (workingDirectories : Option (List Uri)) (modifiedAt : Timestamp) : StateManager :=
  match m.sessionStates.get session with
  | none => m
  | some entry =>
    m.setSession session
      { state := { entry.state with config, customizations, project, workingDirectories }
        modifiedAt }

def seedDefaultChatTurns (session : Uri) (turns : List Turn) : StateManager :=
  let chat := buildDefaultChatUri session
  match m.chatEntries.get chat with
  | none => m
  | some entry =>
    m.setChat chat { entry with
      state := entry.state.map fun (state : ChatState) => { state with turns := turns } }

/-! ## Changesets and annotations -/

def registerChangeset (changeset : Uri) (status : ChangesetStatus) : StateManager :=
  match m.changesets.get changeset with
  | some _ => m
  | none =>
    { m with
      changesets := m.changesets.set changeset
        { status, error := none, files := [], operations := none } }

def evictChangeset (changeset : Uri) : StateManager :=
  { m with changesets := m.changesets.delete changeset }

def disposeChangeset (changeset : Uri) : StateManager :=
  match m.changesets.get changeset with
  | none => m
  | some _ =>
    let m := m.applyAndEmit changeset (.changeset .cleared) none
    { m with changesets := m.changesets.delete changeset }

def setAnnotations (resource : Uri) (state : Option AnnotationsState) : StateManager :=
  match state with
  | some state => { m with annotations := m.annotations.set resource state }
  | none => { m with annotations := m.annotations.delete resource }

/-! ## Operations -/

/-- What the services of the host do to the manager besides dispatching. -/
inductive Operation where
  | createSession (summary : SessionSummary)
  | restoreSession (summary : SessionSummary) (turns : List Turn) (draft : Option Message)
      (defaultChatTitle : Option String)
  | addChat (session chat : Uri) (options : ChatOptions) (turns : List Turn)
  | registerRestoredChatSummary (session chat : Uri) (options : ChatOptions)
  | resolveChatState (chat : Uri) (turns : List Turn) (draft : Option Message)
  | removeChat (session chat : Uri)
  | removeSession (session : Uri)
  | updateChatTitle (session chat : Uri) (title : String)
  | patchSession (session : Uri) (config : Option SessionConfigState)
      (customizations : Option (List Customization)) (project : Option Payload)
      (workingDirectories : Option (List Uri)) (modifiedAt : Timestamp)
  | seedDefaultChatTurns (session : Uri) (turns : List Turn)
  | registerChangeset (changeset : Uri) (status : ChangesetStatus)
  | evictChangeset (changeset : Uri)
  | disposeChangeset (changeset : Uri)
  | setAnnotations (resource : Uri) (state : Option AnnotationsState)

def perform : Operation → StateManager
  | .createSession summary => m.createSession summary
  | .restoreSession summary turns draft title => m.restoreSession summary turns draft title
  | .addChat session chat options turns => m.addChat session chat options turns
  | .registerRestoredChatSummary session chat options =>
    m.registerRestoredChatSummary session chat options
  | .resolveChatState chat turns draft => m.resolveChatState chat turns draft
  | .removeChat session chat => m.removeChat session chat
  | .removeSession session => m.removeSession session
  | .updateChatTitle session chat title => m.updateChatTitle session chat title
  | .patchSession session config customizations project workingDirectories modifiedAt =>
    m.patchSession session config customizations project workingDirectories modifiedAt
  | .seedDefaultChatTurns session turns => m.seedDefaultChatTurns session turns
  | .registerChangeset changeset status => m.registerChangeset changeset status
  | .evictChangeset changeset => m.evictChangeset changeset
  | .disposeChangeset changeset => m.disposeChangeset changeset
  | .setAnnotations resource state => m.setAnnotations resource state

end StateManager

end Fumie.AgentHost
