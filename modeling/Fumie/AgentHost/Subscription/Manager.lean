import Fumie.AgentHost.Subscription.Reconcile

/-!
# The subscription manager

`SubscriptionManager` is `AgentSubscriptionManager`: a map from resources to
entries, reference counts, a bounded set of idle entries kept for a grace period,
and the `subscribe` and `unsubscribe` calls it makes. Entries, references and
timers are objects of the source; here each has a number, so that a stale timer
or reference can act on an entry that was replaced.

`wire` records the calls in order, and where each `subscribe` settled. An
`unsubscribe` keeps the entry as it was when the call was made and the reason of
the call.
-/

namespace Fumie.AgentHost

open Fumie.Lib

/-! ## Managed subscriptions -/

inductive ManagedSubscription where
  | writeAhead (k : WriteAheadKind) (sub : Subscription k.State k.Action)
  | terminal (error : Option String)

inductive SubscriptionKind where
  | writeAhead (k : WriteAheadKind)
  | terminal
  deriving DecidableEq

inductive ResourceState where
  | writeAhead (k : WriteAheadKind) (state : k.State)
  | terminal (content : Payload)

structure PendingDispatchAction where
  channel : Uri
  clientSeq : Nat
  action : StateAction
  deriving DecidableEq

namespace ManagedSubscription

def create (kind : SubscriptionKind) (clientId : ClientId) (uri : Uri) : ManagedSubscription :=
  match kind with
  | .writeAhead k => .writeAhead k (.create clientId uri)
  | .terminal => .terminal none

def error : ManagedSubscription → Option String
  | .writeAhead _ sub => sub.error
  | .terminal error => error

variable (sub : ManagedSubscription) (clientSeq : Nat)

def failed : Bool := sub.error.isSome

def setError (error : String) : ManagedSubscription :=
  match sub with
  | .writeAhead k sub => .writeAhead k (sub.setError error)
  | .terminal _ => .terminal (some error)

def handleSnapshot (state : ResourceState) (fromSeq : Nat) : ManagedSubscription :=
  match sub, state with
  | .writeAhead k sub, .writeAhead k' state =>
    if h : k' = k then .writeAhead k (k.cls.handleSnapshot sub (h ▸ state) fromSeq)
    else .writeAhead k sub
  | .terminal _, .terminal _ => .terminal none
  | sub, _ => sub

def clearPending : ManagedSubscription → ManagedSubscription
  | .writeAhead k sub =>
    if k.cls.tracksPending then .writeAhead k sub.clearPending else .writeAhead k sub
  | .terminal error => .terminal error

def receiveEnvelope (envelope : ActionEnvelope StateAction) : ManagedSubscription :=
  match sub with
  | .writeAhead k sub => .writeAhead k (k.cls.receiveEnvelope sub envelope)
  | .terminal error => .terminal error

def applyOptimistic (action : StateAction) : Option ManagedSubscription :=
  match sub with
  | .writeAhead k sub =>
    (k.cls.guard action).map fun action =>
      .writeAhead k (sub.applyOptimistic k.cls.applyReducer clientSeq action)
  | .terminal _ => none

def pendingActions : ManagedSubscription → List PendingDispatchAction
  | .writeAhead k sub => sub.pendingActions.map fun p =>
    { channel := sub.uri, clientSeq := p.clientSeq, action := k.wrap p.action }
  | .terminal _ => []

def tracksPending : ManagedSubscription → Bool
  | .writeAhead k _ => k.cls.tracksPending
  | .terminal _ => false

def dropPendingByClientSeq : ManagedSubscription :=
  match sub with
  | .writeAhead k sub =>
    if k.cls.tracksPending then .writeAhead k (sub.dropPendingByClientSeq clientSeq)
    else .writeAhead k sub
  | .terminal error => .terminal error

end ManagedSubscription

/-! ## Entries -/

inductive Phase where
  | waitingCreate
  | subscribing
  | settled
  deriving DecidableEq, Inhabited

structure ManagedEntry where
  resource : Uri
  sub : ManagedSubscription
  refCount : Int
  holders : List Nat
  phase : Phase
  awaiting : Option Nat
  releaseTimer : Option Nat
  releaseExpired : Bool
  localDisposed : Bool
  unsubscribeSent : Bool
  unsubscribeAfterSubscribe : Bool

inductive UnsubscribeCause where
  | evicted
  | released
  | managerDisposed
  deriving DecidableEq

inductive WireEvent where
  | subscribe (resource : Uri) (id : Nat)
  | settled (resource : Uri) (id : Nat)
  | unsubscribe (resource : Uri) (id : Nat) (cause : UnsubscribeCause) (entry : ManagedEntry)

def WireEvent.resource : WireEvent → Uri
  | .subscribe resource _ | .settled resource _ | .unsubscribe resource _ _ _ => resource

structure SubscriptionManager where
  clientId : ClientId
  releaseGraceMs : Int
  maxIdleSubscriptions : Int
  entries : Nat → ManagedEntry
  nextEntry : Nat
  subscriptions : Record Uri Nat
  idleSubscriptions : List (Nat × Uri)
  inflightCreates : Record Uri Nat
  referenceOwnerIds : Nat
  /-- Armed release timers and the entry each belongs to. -/
  timers : List (Nat × Nat)
  nextTimer : Nat
  disposed : Bool
  wire : List WireEvent

namespace SubscriptionManager

def unbornEntry : ManagedEntry where
  resource := .root
  sub := .terminal none
  refCount := 0
  holders := []
  phase := .waitingCreate
  awaiting := none
  releaseTimer := none
  releaseExpired := false
  localDisposed := false
  unsubscribeSent := false
  unsubscribeAfterSubscribe := false

def create (clientId : ClientId) (releaseGraceMs maxIdleSubscriptions : Int) :
    SubscriptionManager where
  clientId := clientId
  releaseGraceMs := releaseGraceMs
  maxIdleSubscriptions := maxIdleSubscriptions
  entries := fun _ => unbornEntry
  nextEntry := 0
  subscriptions := .empty
  idleSubscriptions := []
  inflightCreates := .empty
  referenceOwnerIds := 0
  timers := []
  nextTimer := 0
  disposed := false
  wire := []

variable (m : SubscriptionManager)

section

variable (id : Nat)

def isCurrent : Bool := m.subscriptions.get (m.entries id).resource = some id

def setEntry (entry : ManagedEntry) : SubscriptionManager :=
  { m with entries := Function.update m.entries id entry }

def setSub (sub : ManagedSubscription) : SubscriptionManager :=
  m.setEntry id { m.entries id with sub }

/-! ## Release timers and idle entries -/

/-- `entry.releaseTimer?.dispose(); entry.releaseTimer = undefined`. -/
def disposeTimer : SubscriptionManager :=
  { m.setEntry id { m.entries id with releaseTimer := none } with
    timers := m.timers.filter fun t => some t.1 ≠ (m.entries id).releaseTimer }

def removeIdle : SubscriptionManager :=
  { m with idleSubscriptions := m.idleSubscriptions.filter fun e => e.1 ≠ id }

def cancelScheduledRelease : SubscriptionManager :=
  let m := m.disposeTimer id
  let m := m.setEntry id { m.entries id with releaseExpired := false }
  m.removeIdle id

/-! ## The end of an entry -/

variable (unsubscribe : Bool) (cause : UnsubscribeCause)

def sendUnsubscribe : SubscriptionManager :=
  let entry := m.entries id
  { m.setEntry id { entry with unsubscribeSent := true } with
    wire := m.wire ++ [.unsubscribe entry.resource id cause entry] }

/-- `if (unsubscribe && !entry.unsubscribeSent) { … }`. -/
def sendUnsubscribeOnce : SubscriptionManager :=
  if unsubscribe && !(m.entries id).unsubscribeSent then m.sendUnsubscribe id cause else m

/-- `if (!entry.localDisposed) { … }`. -/
def disposeLocally : SubscriptionManager :=
  if (m.entries id).localDisposed then m
  else m.setEntry id { m.entries id with
    localDisposed := true, sub := (m.entries id).sub.clearPending }

def disposeSubscriptionEntry : SubscriptionManager :=
  (((m.disposeTimer id).removeIdle id).sendUnsubscribeOnce id unsubscribe cause).disposeLocally id

def finalizeSubscriptionEntry : SubscriptionManager :=
  let m :=
    if m.isCurrent id then
      { m with subscriptions := m.subscriptions.delete (m.entries id).resource }
    else m
  m.disposeSubscriptionEntry id unsubscribe cause

/-- An entry still waiting for a create never subscribed; one whose subscribe is
in flight stays until it settles. -/
def expireSubscriptionRelease : SubscriptionManager :=
  let m := m.removeIdle id
  if !m.isCurrent id || 0 < (m.entries id).refCount then m
  else
    let m := m.setEntry id { m.entries id with releaseExpired := true }
    match (m.entries id).phase with
    | .waitingCreate => m.finalizeSubscriptionEntry id false .released
    | .subscribing => m
    | .settled => m.finalizeSubscriptionEntry id true .released

def evictIdle (m : SubscriptionManager) : Nat → SubscriptionManager
  | 0 => m
  | fuel + 1 =>
    if (m.idleSubscriptions.length : Int) ≤ m.maxIdleSubscriptions then m
    else
      match m.idleSubscriptions with
      | [] => m
      | oldest :: _ => evictIdle ((m.disposeTimer oldest.1).expireSubscriptionRelease oldest.1) fuel

def armRelease : SubscriptionManager :=
  { m.setEntry id { m.entries id with releaseTimer := some m.nextTimer } with
    timers := m.timers ++ [(m.nextTimer, id)]
    nextTimer := m.nextTimer + 1
    idleSubscriptions := m.idleSubscriptions ++ [(id, (m.entries id).resource)] }

def scheduleSubscriptionRelease : SubscriptionManager :=
  let m := m.cancelScheduledRelease id
  if m.releaseGraceMs ≤ 0 || m.maxIdleSubscriptions ≤ 0 then m.expireSubscriptionRelease id
  else (m.armRelease id).evictIdle (m.armRelease id).idleSubscriptions.length

def clearTimer (timer id : Nat) : SubscriptionManager :=
  let entry := m.entries id
  { m.setEntry id { entry with
      releaseTimer := if entry.releaseTimer = some timer then none else entry.releaseTimer } with
    timers := m.timers.filter fun t => t.1 ≠ timer }

def fireTimer (timer id : Nat) : SubscriptionManager :=
  (m.clearTimer timer id).expireSubscriptionRelease id

/-! ## References -/

def acquireReference : SubscriptionManager :=
  let ownerId := m.referenceOwnerIds + 1
  { m.setEntry id { m.entries id with holders := (m.entries id).holders ++ [ownerId] } with
    referenceOwnerIds := ownerId }

def releaseSubscription : SubscriptionManager :=
  if !m.isCurrent id then m
  else
    let m := m.setEntry id { m.entries id with refCount := (m.entries id).refCount - 1 }
    if (m.entries id).refCount ≤ 0 then m.scheduleSubscriptionRelease id else m

def disposeReference (id ownerId : Nat) : SubscriptionManager :=
  if ownerId ∈ (m.entries id).holders then
    (m.setEntry id { m.entries id with
      holders := (m.entries id).holders.erase ownerId }).releaseSubscription id
  else m

/-! ## Subscribing -/

/-- What follows the wait for a create: nothing when the entry ended meanwhile. -/
def startSubscribe : SubscriptionManager :=
  if !m.isCurrent id || (m.entries id).localDisposed then m
  else
    { m.setEntry id { m.entries id with phase := .subscribing } with
      wire := m.wire ++ [.subscribe (m.entries id).resource id] }

end

section

variable (kind : SubscriptionKind)

section

variable (resource : Uri)

def newEntry : ManagedEntry :=
  { unbornEntry with
    resource
    sub := .create kind m.clientId resource
    refCount := 1
    awaiting := m.inflightCreates.get resource }

def addEntry : SubscriptionManager :=
  { m.setEntry m.nextEntry (m.newEntry kind resource) with
    nextEntry := m.nextEntry + 1
    subscriptions := m.subscriptions.set resource m.nextEntry }

def createEntry : SubscriptionManager :=
  let id := m.nextEntry
  let awaiting := m.inflightCreates.get resource
  let m := m.addEntry kind resource
  let m := if awaiting.isNone then m.startSubscribe id else m
  m.acquireReference id

def getSubscription : Option SubscriptionManager :=
  if m.disposed then none
  else
    match m.subscriptions.get resource with
    | none => some (m.createEntry kind resource)
    | some id =>
      if (m.entries id).sub.failed && (m.entries id).phase = .settled then
        some ((m.finalizeSubscriptionEntry id true .evicted).createEntry kind resource)
      else
        let m := m.cancelScheduledRelease id
        let m := m.setEntry id { m.entries id with refCount := (m.entries id).refCount + 1 }
        some (m.acquireReference id)

end

end

section

variable (resource : Uri)

variable (envelope : ActionEnvelope StateAction) (promise clientSeq : Nat)

def trackSessionCreate : SubscriptionManager :=
  if m.disposed then m
  else { m with inflightCreates := m.inflightCreates.set resource promise }

def settleCreate : SubscriptionManager :=
  if m.inflightCreates.get resource = some promise then
    { m with inflightCreates := m.inflightCreates.delete resource }
  else m

def resumeCreate (id : Nat) : SubscriptionManager :=
  (m.setEntry id { m.entries id with awaiting := none }).startSubscribe id

/-- The outcome of a subscribe request reaches only an entry of the map. -/
def deliver (id : Nat) (result : Except String (ResourceState × Nat)) : SubscriptionManager :=
  if m.isCurrent id then
    match result with
    | .ok (state, fromSeq) => m.setSub id ((m.entries id).sub.handleSnapshot state fromSeq)
    | .error error => m.setSub id ((m.entries id).sub.setError error)
  else m

/-- `entry.phase = 'settled'`. -/
def markSettled (id : Nat) : SubscriptionManager :=
  { m.setEntry id { m.entries id with phase := .settled } with
    wire := m.wire ++ [WireEvent.settled (m.entries id).resource id] }

def settleSubscribe (id : Nat) (result : Except String (ResourceState × Nat)) :
    SubscriptionManager :=
  let m := (m.deliver id result).markSettled id
  if (m.entries id).unsubscribeAfterSubscribe then
    m.disposeSubscriptionEntry id true .managerDisposed
  else if m.isCurrent id && (m.entries id).refCount ≤ 0 && (m.entries id).releaseExpired then
    m.finalizeSubscriptionEntry id true .released
  else m

/-! ## Actions -/

def receiveEnvelopeAt (m : SubscriptionManager) (id : Nat) : SubscriptionManager :=
  m.setSub id ((m.entries id).sub.receiveEnvelope envelope)

def receiveEnvelope : SubscriptionManager :=
  (m.subscriptions.entries.map Prod.snd).foldl (receiveEnvelopeAt envelope) m

def dispatchOptimistic (channel : Uri) (clientSeq : Nat) (action : StateAction) :
    SubscriptionManager :=
  match m.subscriptions.get channel with
  | none => m
  | some id =>
    match (m.entries id).sub.applyOptimistic clientSeq action with
    | none => m
    | some sub => m.setSub id sub

def currentSubscriptionUris : List Uri := m.subscriptions.keys

def getPendingActions : List PendingDispatchAction :=
  m.subscriptions.entries.flatMap fun e =>
    let sub := (m.entries e.2).sub
    if sub.tracksPending then sub.pendingActions else []

def dropPendingAction : SubscriptionManager :=
  match m.subscriptions.get resource with
  | none => m
  | some id => m.setSub id ((m.entries id).sub.dropPendingByClientSeq clientSeq)

/-! ## Reconnect and disposal -/

def missingError : String := "Subscription no longer available after reconnect"

def markMissing (m : SubscriptionManager) (resource : Uri) : SubscriptionManager :=
  match m.subscriptions.get resource with
  | none => m
  | some id =>
    if (m.entries id).phase = .settled then
      m.setSub id ((m.entries id).sub.clearPending.setError missingError)
    else m

def markSubscriptionsMissing (missing : List Uri) : SubscriptionManager :=
  missing.foldl markMissing m

def applyReconnectSnapshot (state : ResourceState) (fromSeq : Nat)
    (preservePending : Bool) : SubscriptionManager :=
  match m.subscriptions.get resource with
  | none => m
  | some id =>
    let sub := (m.entries id).sub
    let sub := if preservePending then sub else sub.clearPending
    m.setSub id (sub.handleSnapshot state fromSeq)

end

def disposeEntry (m : SubscriptionManager) (id : Nat) : SubscriptionManager :=
  if (m.entries id).phase = .subscribing then
    (m.setEntry id { m.entries id with
      unsubscribeAfterSubscribe := true }).disposeSubscriptionEntry id false .managerDisposed
  else m.disposeSubscriptionEntry id ((m.entries id).phase = .settled) .managerDisposed

def dispose : SubscriptionManager :=
  { (m.subscriptions.entries.map Prod.snd).foldl disposeEntry m with
    subscriptions := .empty
    idleSubscriptions := []
    inflightCreates := .empty
    disposed := true }

/-! ## Events -/

inductive ManagerEvent where
  | getSubscription (kind : SubscriptionKind) (resource : Uri)
  | disposeReference (id ownerId : Nat)
  | fireTimer (timer id : Nat)
  | trackSessionCreate (resource : Uri) (promise : Nat)
  | settleCreate (resource : Uri) (promise : Nat)
  | resumeCreate (id : Nat)
  | settleSubscribe (id : Nat) (result : Except String (ResourceState × Nat))
  | receiveEnvelope (envelope : ActionEnvelope StateAction)
  | dispatchOptimistic (channel : Uri) (clientSeq : Nat) (action : StateAction)
  | dropPendingAction (resource : Uri) (clientSeq : Nat)
  | markMissing (missing : List Uri)
  | applyReconnectSnapshot (resource : Uri) (state : ResourceState) (fromSeq : Nat)
      (preservePending : Bool)
  | dispose

/-- A timer fires only while armed, a continuation runs once, and only a request
in flight settles. -/
def step : ManagerEvent → Option SubscriptionManager
  | .getSubscription kind resource => m.getSubscription kind resource
  | .disposeReference id ownerId => some (m.disposeReference id ownerId)
  | .fireTimer timer id => if (timer, id) ∈ m.timers then some (m.fireTimer timer id) else none
  | .trackSessionCreate resource promise => some (m.trackSessionCreate resource promise)
  | .settleCreate resource promise => some (m.settleCreate resource promise)
  | .resumeCreate id =>
    if (m.entries id).awaiting.isSome then some (m.resumeCreate id) else none
  | .settleSubscribe id result =>
    if (m.entries id).phase = .subscribing then some (m.settleSubscribe id result) else none
  | .receiveEnvelope envelope => some (m.receiveEnvelope envelope)
  | .dispatchOptimistic channel clientSeq action =>
    some (m.dispatchOptimistic channel clientSeq action)
  | .dropPendingAction resource clientSeq => some (m.dropPendingAction resource clientSeq)
  | .markMissing missing => some (m.markSubscriptionsMissing missing)
  | .applyReconnectSnapshot resource state fromSeq preservePending =>
    some (m.applyReconnectSnapshot resource state fromSeq preservePending)
  | .dispose => some m.dispose

end SubscriptionManager

end Fumie.AgentHost
