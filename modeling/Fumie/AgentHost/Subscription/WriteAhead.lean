import Fumie.AgentHost.State.Actions

/-!
# Write-ahead subscriptions

The session, chat, changeset and annotations subscriptions keep the state the
server confirmed, the list of own actions not yet echoed, and the optimistic
state: the pending actions folded over the confirmed state. Everything the four
classes share is written once over a state type `S`, an action type `A` and the
reducer. What they do not share is the class: its type guard, its `_reconcile`,
and whether its pending actions can be listed, dropped and cleared from outside.

Change events are not modelled: no listener feeds back into a subscription.
-/

namespace Fumie.AgentHost

structure PendingAction (A : Type) where
  clientSeq : Nat
  action : A
  deriving DecidableEq

structure Subscription (S A : Type) where
  clientId : ClientId
  uri : Uri
  confirmedState : Option S
  error : Option String
  bufferedEnvelopes : List (ActionEnvelope A)
  pendingActions : List (PendingAction A)
  optimisticState : Option S
  deriving DecidableEq

namespace Subscription

variable {S A : Type}

def create (clientId : ClientId) (uri : Uri) : Subscription S A where
  clientId := clientId
  uri := uri
  confirmedState := none
  error := none
  bufferedEnvelopes := []
  pendingActions := []
  optimisticState := none

section

variable (sub : Subscription S A)

def verifiedValue : Option S := sub.confirmedState

def value : Option (Except String S) :=
  match sub.error with
  | some error => some (.error error)
  | none => (sub.optimisticState.or sub.confirmedState).map .ok

def setError (error : String) : Subscription S A :=
  { sub with error := some error }

/-! ## Optimistic state -/

section

variable (reduce : S → A → S)

def replayPending (pending : List (PendingAction A)) (state : S) : S :=
  pending.foldl (fun state p => reduce state p.action) state

def recomputeOptimistic (sub : Subscription S A) : Subscription S A :=
  match sub.confirmedState with
  | none => { sub with optimisticState := none }
  | some confirmed =>
    if sub.pendingActions.isEmpty then { sub with optimisticState := none }
    else { sub with optimisticState := some (replayPending reduce sub.pendingActions confirmed) }

def applyOptimistic (sub : Subscription S A) (clientSeq : Nat) (action : A) : Subscription S A :=
  { sub with
    pendingActions := sub.pendingActions ++ [{ clientSeq, action }]
    optimisticState :=
      match sub.optimisticState.or sub.confirmedState with
      | none => sub.optimisticState
      | some base => some (reduce base action) }

end

def clearPending : Subscription S A :=
  { sub with pendingActions := [], optimisticState := none }

variable (clientSeq : Nat)

def dropPendingByClientSeq : Subscription S A :=
  { sub with pendingActions := sub.pendingActions.eraseP fun p => p.clientSeq = clientSeq }

def hasPending : Bool := sub.pendingActions.any fun p => p.clientSeq = clientSeq

end

/-! ## Reconciliation -/

variable (reduce : S → A → S)

section

variable (sub : Subscription S A)

def confirmedApply (action : A) : Subscription S A :=
  { sub with confirmedState := sub.confirmedState.map fun state => reduce state action }

variable (envelope : ActionEnvelope A)

def guardedApply : Subscription S A :=
  if envelope.isRejected then sub else sub.confirmedApply reduce envelope.action

def unguardedApply : Subscription S A :=
  sub.confirmedApply reduce envelope.action

end

/-- The shape of the four `_reconcile` methods: the echo of a pending action is
applied unless rejected and its entry removed; `onUnmatched` handles an own
envelope with no pending entry, `onForeign` one of another origin. -/
def reconcileWith (onUnmatched onForeign : Subscription S A → ActionEnvelope A → Subscription S A)
    (sub : Subscription S A) (envelope : ActionEnvelope A) : Subscription S A :=
  let applied :=
    match envelope.isOwn sub.clientId, envelope.origin with
    | true, some origin =>
      if sub.hasPending origin.clientSeq then
        (sub.guardedApply reduce envelope).dropPendingByClientSeq origin.clientSeq
      else onUnmatched sub envelope
    | _, _ => onForeign sub envelope
  applied.recomputeOptimistic reduce

end Subscription

/-! ## The four classes -/

structure SubscriptionClass (S A : Type) where
  applyReducer : S → A → S
  /-- The type guard of `_isRelevantEnvelope`. -/
  guard : StateAction → Option A
  reconcile : Subscription S A → ActionEnvelope A → Subscription S A
  /-- Whether the class has `clearPending`, `getPendingActions` and
  `dropPendingByClientSeq`. -/
  tracksPending : Bool

def isSessionAction : StateAction → Option SessionAction
  | .session action => some action
  | _ => none

def isChatAction : StateAction → Option ChatAction
  | .chat action => some action
  | _ => none

def isChangesetAction : StateAction → Option ChangesetAction
  | .changeset action => some action
  | _ => none

def isAnnotationsAction : StateAction → Option AnnotationsAction
  | .annotations action => some action
  | _ => none

namespace SessionStateSubscription

def reconcile : Subscription SessionState SessionAction → ActionEnvelope SessionAction →
    Subscription SessionState SessionAction :=
  Subscription.reconcileWith sessionReducer (Subscription.guardedApply sessionReducer)
    (Subscription.guardedApply sessionReducer)

def cls : SubscriptionClass SessionState SessionAction where
  applyReducer := sessionReducer
  guard := isSessionAction
  reconcile := reconcile
  tracksPending := true

end SessionStateSubscription

namespace ChatStateSubscription

def terminalTurn? : ChatAction → Option String
  | .turnComplete turnId _ => some turnId
  | .turnCancelled turnId _ => some turnId
  | .error turnId _ _ => some turnId
  | _ => none

def startsTurn (turnId : String) : ChatAction → Bool
  | .turnStarted id _ _ _ => id = turnId
  | _ => false

def promotePendingTurnStartIfTerminal (sub : Subscription ChatState ChatAction)
    (action : ChatAction) : Subscription ChatState ChatAction :=
  match terminalTurn? action with
  | none => sub
  | some turnId =>
    match sub.pendingActions.find? fun p => startsTurn turnId p.action with
    | none => sub
    | some pending =>
      { sub with
        pendingActions := sub.pendingActions.eraseP fun p => startsTurn turnId p.action
        confirmedState := sub.confirmedState.map fun state =>
          if state.activeTurn.map (·.id) = some turnId then state
          else chatReducer state pending.action }

def onForeign (sub : Subscription ChatState ChatAction) (envelope : ActionEnvelope ChatAction) :
    Subscription ChatState ChatAction :=
  if envelope.isRejected then sub
  else (promotePendingTurnStartIfTerminal sub envelope.action).confirmedApply chatReducer
    envelope.action

def reconcile : Subscription ChatState ChatAction → ActionEnvelope ChatAction →
    Subscription ChatState ChatAction :=
  Subscription.reconcileWith chatReducer (Subscription.guardedApply chatReducer) onForeign

def cls : SubscriptionClass ChatState ChatAction where
  applyReducer := chatReducer
  guard := isChatAction
  reconcile := reconcile
  tracksPending := true

end ChatStateSubscription

namespace ChangesetStateSubscription

def reconcile : Subscription ChangesetState ChangesetAction → ActionEnvelope ChangesetAction →
    Subscription ChangesetState ChangesetAction :=
  Subscription.reconcileWith changesetReducer (Subscription.unguardedApply changesetReducer)
    (Subscription.unguardedApply changesetReducer)

def cls : SubscriptionClass ChangesetState ChangesetAction where
  applyReducer := changesetReducer
  guard := isChangesetAction
  reconcile := reconcile
  tracksPending := false

end ChangesetStateSubscription

namespace AnnotationsStateSubscription

def reconcile : Subscription AnnotationsState AnnotationsAction →
    ActionEnvelope AnnotationsAction → Subscription AnnotationsState AnnotationsAction :=
  Subscription.reconcileWith annotationsReducer (Subscription.unguardedApply annotationsReducer)
    (Subscription.unguardedApply annotationsReducer)

def cls : SubscriptionClass AnnotationsState AnnotationsAction where
  applyReducer := annotationsReducer
  guard := isAnnotationsAction
  reconcile := reconcile
  tracksPending := true

end AnnotationsStateSubscription

/-! ## Methods of the base class -/

namespace SubscriptionClass

variable {S A : Type} (cls : SubscriptionClass S A)

variable (sub : Subscription S A)

variable (envelope : ActionEnvelope StateAction)

def relevant : Option (ActionEnvelope A) :=
  if envelope.channel = sub.uri then envelope.narrow cls.guard else none

def receive (envelope : ActionEnvelope A) : Subscription S A :=
  match sub.confirmedState with
  | none => { sub with bufferedEnvelopes := sub.bufferedEnvelopes ++ [envelope] }
  | some _ => cls.reconcile sub envelope

def receiveEnvelope : Subscription S A :=
  match cls.relevant sub envelope with
  | none => sub
  | some envelope => cls.receive sub envelope

def replayBuffered (fromSeq : Nat) : Subscription S A :=
  (sub.bufferedEnvelopes.filter fun e => fromSeq < e.serverSeq).foldl cls.reconcile
    { sub with bufferedEnvelopes := [] }

def handleSnapshot (state : S) (fromSeq : Nat) : Subscription S A :=
  (cls.replayBuffered { sub with confirmedState := some state, error := none }
    fromSeq).recomputeOptimistic cls.applyReducer

end SubscriptionClass

/-! ## The classes by name -/

inductive WriteAheadKind where
  | session
  | chat
  | changeset
  | annotations
  deriving DecidableEq, Inhabited

namespace WriteAheadKind

abbrev State : WriteAheadKind → Type
  | session => SessionState
  | chat => ChatState
  | changeset => ChangesetState
  | annotations => AnnotationsState

abbrev Action : WriteAheadKind → Type
  | session => SessionAction
  | chat => ChatAction
  | changeset => ChangesetAction
  | annotations => AnnotationsAction

def cls : (k : WriteAheadKind) → SubscriptionClass k.State k.Action
  | session => SessionStateSubscription.cls
  | chat => ChatStateSubscription.cls
  | changeset => ChangesetStateSubscription.cls
  | annotations => AnnotationsStateSubscription.cls

def ofAction : StateAction → Option WriteAheadKind
  | .session _ => some .session
  | .chat _ => some .chat
  | .changeset _ => some .changeset
  | .annotations _ => some .annotations
  | _ => none

def wrap : (k : WriteAheadKind) → k.Action → StateAction
  | session => .session
  | chat => .chat
  | changeset => .changeset
  | annotations => .annotations

end WriteAheadKind

end Fumie.AgentHost
