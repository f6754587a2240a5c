import Fumie.AgentHost.Server.Catalog
import Fumie.AgentHost.Server.SummaryChanges

/-!
# The summary stream

The root-channel half of `AgentHostStateManager`: the manager, the catalog-only fields of
its session entries, and `SessionSummaryNotifier` with the summary last notified for each
session and the sessions that changed since. `notifications` is every summary notification
fired so far, oldest first. The debounce timer of the notifier is the event `flushAll`,
which can come at any time. The response of a listing, and the changesets and annotations
that go with a deleted session, are not part of the stream; the latter are operations of
their own.
-/

namespace Fumie.AgentHost

open Fumie.Lib

/-! ## Which dispatches touch a summary -/

def summaryFieldsEqual (a b : SessionState) : Bool :=
  a.title = b.title && a.status = b.status && a.activity = b.activity && a.project = b.project &&
    a.workingDirectories = b.workingDirectories && a.annotations = b.annotations &&
    a._meta = b._meta

namespace StateManager

variable (m : StateManager)

def sessionMarked (session : Uri) (action : SessionAction) : Bool :=
  match m.sessionStates.get session with
  | none => false
  | some entry => !summaryFieldsEqual entry.state (sessionReducer entry.state action)

def chatMarked (session chat : Uri) (action : ChatAction) : Bool :=
  match (m.chatEntries.get chat).bind (·.state), m.sessionStates.get session with
  | some state, some entry =>
    let entry' := mirrorChat entry chat (m.chatSummaryFromState (chatReducer state action))
    !(entry'.state.status = entry.state.status && entry'.state.activity = entry.state.activity &&
      entry'.modifiedAt = entry.modifiedAt)
  | _, _ => false

def marked (channel : Uri) (action : StateAction) : Option Uri :=
  match action, channel with
  | .session action, session => if m.sessionMarked session action then some session else none
  | .chat action, .chat session chatId =>
    if m.chatMarked session (.chat session chatId) action then some session else none
  | _, _ => none

end StateManager

/-! ## The stream -/

structure SessionDetails where
  createdAt : Timestamp
  changes : Option Payload
  deriving Inhabited

structure SummaryStream where
  manager : StateManager
  details : Record Uri SessionDetails
  lastNotified : Record Uri CatalogSummary
  dirty : OrderedSet Uri
  publishedSessionSummaries : OrderedSet Uri
  addedSessionSummaries : OrderedSet Uri
  notifications : List RootNotification
  isEphemeral : Option Json → Bool

namespace SummaryStream

def create (manager : StateManager) (isEphemeral : Option Json → Bool) : SummaryStream where
  manager := manager
  details := .empty
  lastNotified := .empty
  dirty := .empty
  publishedSessionSummaries := .empty
  addedSessionSummaries := .empty
  notifications := []
  isEphemeral := isEphemeral

variable (w : SummaryStream)

def emitNotification (n : RootNotification) : SummaryStream :=
  { w with notifications := w.notifications ++ [n] }

/-! ## Reading -/

section

variable (session : Uri)

/-- `_toSummary`. -/
def toSummary (session : Uri) (entry : SessionEntry) : CatalogSummary :=
  let details := (w.details.get session).getD default
  { StateManager.toSummary session entry with
    createdAt := details.createdAt
    changes := details.changes }

def getSessionSummary : Option CatalogSummary :=
  (w.manager.sessionStates.get session).map (w.toSummary session)

/-! ## The notifier -/

variable (summary : CatalogSummary)

def announce : SummaryStream :=
  { w with lastNotified := w.lastNotified.set session summary }

def markDirty : SummaryStream := { w with dirty := w.dirty.insert session }

def clearDirty : SummaryStream := { w with dirty := w.dirty.erase session }

def forget : SummaryStream :=
  { w with lastNotified := w.lastNotified.delete session, dirty := w.dirty.erase session }

def emitSessionSummaryChanged (changes : SessionSummaryChanges) : SummaryStream :=
  if session ∈ w.publishedSessionSummaries then
    w.emitNotification (.sessionSummaryChanged session changes)
  else w

def emitSessionAdded : SummaryStream :=
  if w.isEphemeral summary._meta then w
  else
    { w with
      lastNotified := w.lastNotified.set summary.resource summary
      publishedSessionSummaries := w.publishedSessionSummaries.insert summary.resource
      addedSessionSummaries := w.addedSessionSummaries.insert summary.resource
      }.emitNotification (.sessionAdded summary)

def flush : SummaryStream :=
  match w.getSessionSummary session, w.lastNotified.get session with
  | some current, some lastNotified =>
    let changes := CatalogSummary.summaryChanges current lastNotified
    let w := w.announce session current
    if changes = .none then w else w.emitSessionSummaryChanged session changes
  | _, _ => w

def flushAll : SummaryStream := { w.dirty.elems.foldl flush w with dirty := .empty }

/-- Every trace of a session in the sets and the notifier goes, and clients are told. -/
def unpublish : SummaryStream :=
  if session ∈ w.publishedSessionSummaries ∨ session ∈ w.addedSessionSummaries then
    { w with
      publishedSessionSummaries := w.publishedSessionSummaries.erase session
      addedSessionSummaries := w.addedSessionSummaries.erase session
      lastNotified := w.lastNotified.delete session
      dirty := w.dirty.erase session }.emitNotification (.sessionRemoved session)
  else w

/-! ## Sessions -/

def createSession (emitNotification : Bool) : SummaryStream :=
  match w.manager.sessionStates.get summary.resource with
  | some _ => w
  | none =>
    let w := { w with
      manager := w.manager.createSession summary.toSessionSummary
      details := w.details.set summary.resource ⟨summary.createdAt, summary.changes⟩ }
    if emitNotification then w.emitSessionAdded summary else w

def markSessionPersisted : SummaryStream :=
  match w.manager.sessionStates.get session with
  | none => w
  | some entry =>
    let entry : SessionEntry :=
      { state := { entry.state with
          project := summary.project
          workingDirectories := summary.workingDirectories }
        modifiedAt := summary.modifiedAt }
    let details := (w.details.get session).getD default
    let w' := { w with
      manager := w.manager.setSession session entry
      details := w.details.set session { details with changes := summary.changes } }
    match w.lastNotified.get session with
    | some _ => w'.markDirty session
    | none => w'.emitSessionAdded (w'.toSummary session entry)

def announceSurfacedSession : SummaryStream :=
  match w.manager.sessionStates.get summary.resource with
  | some _ => w
  | none =>
    if summary.resource ∈ w.addedSessionSummaries then w else w.emitSessionAdded summary

def updateSurfacedSessionTitle (title : String) : SummaryStream :=
  match w.manager.sessionStates.get session, w.lastNotified.get session with
  | none, some announced =>
    if announced.title = title then w
    else
      (w.announce session { announced with title }).emitSessionSummaryChanged session
        { SessionSummaryChanges.none with title := some title }
  | _, _ => w

def retractSurfacedSession : SummaryStream :=
  match w.manager.sessionStates.get session with
  | some _ => w
  | none => w.unpublish session

def setSessionSummaryPublished (published : Bool) : SummaryStream :=
  if published then
    if session ∈ w.addedSessionSummaries then w
    else
      match w.getSessionSummary session with
      | none => w
      | some summary => w.emitSessionAdded summary
  else w.unpublish session

end

variable (summary : CatalogSummary)

def prepareSessionSummaryForListing : SummaryStream :=
  let session := summary.resource
  if session ∈ w.publishedSessionSummaries then
    if session ∈ w.dirty then w.flush session else w
  else
    { w.announce session ((w.getSessionSummary session).getD summary) with
      publishedSessionSummaries := w.publishedSessionSummaries.insert session }

def prepareSessionSummariesForListing (summaries : List CatalogSummary) : SummaryStream :=
  summaries.foldl prepareSessionSummaryForListing w

def restoreSession (turns : List Turn) (draft : Option Message) (defaultChatTitle : Option String) :
    SummaryStream :=
  let session := summary.resource
  match w.manager.sessionStates.get session with
  | some _ => w
  | none =>
    let w := { w with
      manager := w.manager.restoreSession summary.toSessionSummary turns draft defaultChatTitle
      details := w.details.set session ⟨summary.createdAt, summary.changes⟩ }
    match w.lastNotified.get session with
    | some _ => w.flush session
    | none => w.announce session summary

def removeSession (session : Uri) : SummaryStream :=
  match w.manager.sessionStates.get session with
  | none => w
  | some _ =>
    let w := if session ∈ w.dirty then w.flush session else w
    { w with
      manager := w.manager.removeSession session
      details := w.details.delete session }.forget session

def deleteSession (session : Uri) : SummaryStream :=
  let w' := (w.clearDirty session).removeSession session
  if session ∈ w.publishedSessionSummaries then
    { w' with
      publishedSessionSummaries := w'.publishedSessionSummaries.erase session
      addedSessionSummaries := w'.addedSessionSummaries.erase session
      }.emitNotification (.sessionRemoved session)
  else w'

def setSessionSummaryChanges (session : Uri) (changes : Option Payload) : SummaryStream :=
  match w.manager.sessionStates.get session with
  | none => w
  | some _ =>
    let details := (w.details.get session).getD default
    if details.changes = changes then w
    else
      { w with details := w.details.set session { details with changes := changes }
        }.markDirty session

def configure (session : Uri) (config : Option SessionConfigState)
    (customizations : Option (List Customization)) : SummaryStream :=
  match w.manager.sessionStates.get session with
  | none => w
  | some entry =>
    { w with
      manager := w.manager.patchSession session config customizations entry.state.project
        entry.state.workingDirectories entry.modifiedAt }

def dispatch (channel : Uri) (action : StateAction) (origin : Option ActionOrigin) :
    SummaryStream :=
  let w' := { w with manager := w.manager.applyAndEmit channel action origin }
  match w.manager.marked channel action with
  | none => w'
  | some session => w'.markDirty session

def ofChats : StateManager.Operation → Bool
  | .createSession _ => false
  | .restoreSession _ _ _ _ => false
  | .removeSession _ => false
  | .patchSession _ _ _ _ _ _ => false
  | _ => true

/-! ## Runs -/

inductive Event where
  | flushAll
  | dispatch (channel : Uri) (action : StateAction) (origin : Option ActionOrigin)
  | perform (operation : StateManager.Operation)
  | createSession (summary : CatalogSummary) (emitNotification : Bool)
  | markSessionPersisted (session : Uri) (summary : CatalogSummary)
  | announceSurfacedSession (summary : CatalogSummary)
  | updateSurfacedSessionTitle (session : Uri) (title : String)
  | retractSurfacedSession (session : Uri)
  | setSessionSummaryPublished (session : Uri) (published : Bool)
  | prepareSessionSummariesForListing (summaries : List CatalogSummary)
  | restoreSession (summary : CatalogSummary) (turns : List Turn) (draft : Option Message)
      (defaultChatTitle : Option String)
  | removeSession (session : Uri)
  | deleteSession (session : Uri)
  | setSessionSummaryChanges (session : Uri) (changes : Option Payload)
  | configure (session : Uri) (config : Option SessionConfigState)
      (customizations : Option (List Customization))

def step : Event → Option SummaryStream
  | .flushAll => some w.flushAll
  | .dispatch channel action origin => some (w.dispatch channel action origin)
  | .perform operation =>
    if ofChats operation then some { w with manager := w.manager.perform operation } else none
  | .createSession summary emitNotification => some (w.createSession summary emitNotification)
  | .markSessionPersisted session summary => some (w.markSessionPersisted session summary)
  | .announceSurfacedSession summary => some (w.announceSurfacedSession summary)
  | .updateSurfacedSessionTitle session title => some (w.updateSurfacedSessionTitle session title)
  | .retractSurfacedSession session => some (w.retractSurfacedSession session)
  | .setSessionSummaryPublished session published =>
    some (w.setSessionSummaryPublished session published)
  | .prepareSessionSummariesForListing summaries =>
    some (w.prepareSessionSummariesForListing summaries)
  | .restoreSession summary turns draft title => some (w.restoreSession summary turns draft title)
  | .removeSession session => some (w.removeSession session)
  | .deleteSession session => some (w.deleteSession session)
  | .setSessionSummaryChanges session changes => some (w.setSessionSummaryChanges session changes)
  | .configure session config customizations => some (w.configure session config customizations)

def Created : Prop := ∃ manager isEphemeral, manager.Created ∧ w = create manager isEphemeral

def streaming : System SummaryStream Event := .ofStep Created step

end SummaryStream

end Fumie.AgentHost
