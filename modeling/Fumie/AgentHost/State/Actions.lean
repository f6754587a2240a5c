import Fumie.AgentHost.State.ChatReducer
import Fumie.AgentHost.State.SessionReducer
import Fumie.AgentHost.State.ReviewReducers

/-!
# Actions of every channel and their envelopes

`StateAction` is the union the server sends. The type guards `isSessionAction`,
`isChatAction`, ... test the prefix of the action type; here they are the
constructors of the union, and `ActionEnvelope.narrow` is the cast that follows a
successful guard.
-/

namespace Fumie.AgentHost

open Fumie.Lib

/-! ## Root channel -/

structure RootConfigState where
  schema : Payload
  values : Record String Payload
  deriving DecidableEq, Inhabited

structure RootState where
  agents : List Payload
  activeSessions : Option Nat
  terminals : Option (List Payload)
  config : Option RootConfigState
  _meta : Option Json
  deriving DecidableEq, Inhabited

inductive RootAction where
  | agentsChanged (agents : List Payload)
  | activeSessionsChanged (activeSessions : Nat)
  | terminalsChanged (terminals : List Payload)
  | configChanged (config : Record String Payload) (replace : Bool)
  deriving DecidableEq

def rootReducer (state : RootState) : RootAction → RootState
  | .agentsChanged agents => { state with agents }
  | .activeSessionsChanged activeSessions => { state with activeSessions := some activeSessions }
  | .terminalsChanged terminals => { state with terminals := some terminals }
  | .configChanged config replace =>
    match state.config with
    | none => state
    | some current =>
      { state with config := some { current with
          values := if replace then config else current.values.merge config } }

/-! ## The union -/

/-- Terminal, resource-watch and automation actions are forwarded unread. -/
inductive StateAction where
  | root (action : RootAction)
  | session (action : SessionAction)
  | chat (action : ChatAction)
  | changeset (action : ChangesetAction)
  | annotations (action : AnnotationsAction)
  | terminal (content : Payload)
  | resourceWatch (content : Payload)
  | automation (content : Payload)
  | automationRun (content : Payload)
  deriving DecidableEq

/-! ## Envelopes -/

structure ActionOrigin where
  clientId : ClientId
  clientSeq : Nat
  deriving DecidableEq, Inhabited

structure ActionEnvelope (α : Type) where
  channel : Uri
  action : α
  serverSeq : Nat
  origin : Option ActionOrigin
  rejectionReason : Option String
  deriving DecidableEq

namespace ActionEnvelope

variable {α β : Type}

variable (e : ActionEnvelope α)

def isRejected : Bool :=
  match e.rejectionReason with
  | none => false
  | some reason => reason ≠ ""

def isOwn (clientId : ClientId) : Bool := (e.origin.map (·.clientId)) = some clientId

def map (f : α → β) (e : ActionEnvelope α) : ActionEnvelope β := { e with action := f e.action }

def narrow (guard : α → Option β) : Option (ActionEnvelope β) :=
  (guard e.action).map fun action => { e with action }

end ActionEnvelope

end Fumie.AgentHost
