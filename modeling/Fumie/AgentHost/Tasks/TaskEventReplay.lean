import Fumie.AgentHost.WebPubSub.RoundTrip
import Fumie.Base.Strings
import Fumie.Lib.KeyedFold

/-!
# Task event replay

`common/taskEventReplay.ts`: the frames persisted for a task are decoded into the
envelopes of each session, and these are folded into the state of the session and of its
chats. The reducers and the states they start from are parameters; an action is the JSON
that they are given. The reading of the clock at an event is an argument too.
-/

namespace Fumie.AgentHost

open Fumie.Lib Fumie.Base JsString

namespace Tasks

def MAX_RESTART_EPOCH_INITIAL_SEQUENCE : Nat := 1

/-- A persisted history that could not be decoded, with what the message interpolates. -/
inductive TaskEventReplayError where
  | notAnObject (eventIndex : Nat)
  | invalid (eventIndex : Nat) (field : String)
  | sequence (eventIndex : Nat) (session : JsString) (seq expected : Nat)
  | notReassembled (eventIndex : Nat) (session : JsString) (cause : ChunkingError)
  | noActionEnvelope (eventIndex : Nat)

def isRecord : JsonValue → Bool
  | .object _ => true
  | _ => false

def requireNonEmptyString (value : Option JsonValue) (field : String) (eventIndex : Nat) :
    Except TaskEventReplayError JsString :=
  match value with
  | some (.string s) => if trim s = [] then .error (.invalid eventIndex field) else .ok s
  | _ => .error (.invalid eventIndex field)

def requireNonNegativeInteger (value : Option JsonValue) (field : String) (eventIndex : Nat) :
    Except TaskEventReplayError Nat :=
  match value with
  | some (.number (.integer (.ofNat n))) => .ok n
  | _ => .error (.invalid eventIndex field)

structure ActionEnvelope where
  channel : JsString
  action : JsonValue
  /-- `action.type`. -/
  type : JsString
  rejectionReason : Option JsString

def parseActionEnvelope (value : JsonValue) (eventIndex : Nat) :
    Except TaskEventReplayError ActionEnvelope := do
  if !isRecord value then .error (.noActionEnvelope eventIndex)
  let channel ← requireNonEmptyString (value.field? (ofString "channel"))
    "payload.data.channel" eventIndex
  let _ ← requireNonNegativeInteger (value.field? (ofString "serverSeq"))
    "payload.data.serverSeq" eventIndex
  match value.field? (ofString "action") with
  | some (.object fields) =>
    let action := JsonValue.object fields
    let type ← requireNonEmptyString (action.field? (ofString "type"))
      "payload.data.action.type" eventIndex
    match value.field? (ofString "rejectionReason") with
    | none | some .null => .ok { channel, action, type, rejectionReason := none }
    | some reason =>
      let reason ← requireNonEmptyString (some reason) "payload.data.rejectionReason" eventIndex
      .ok { channel, action, type, rejectionReason := some reason }
  | _ => .error (.invalid eventIndex "payload.data.action")

def SESSION_SCHEME : JsString := ofString "ahp-session:/"

def sessionChannelFor (sessionId : JsString) : JsString :=
  if startsWith sessionId SESSION_SCHEME then sessionId else SESSION_SCHEME ++ sessionId

/-! ## Decoding -/

structure SessionReplayState where
  envelopes : List ActionEnvelope
  modifiedAt : JsString
  nextSeq : Nat
  reassembler : Reassembler
  abandonedChunkGroup : Bool

def eventSession (event : JsonValue × Nat) : Except TaskEventReplayError JsString := do
  if !isRecord event.1 then .error (.notAnObject event.2)
  match event.1.field? (ofString "ns") with
  | some (.string ns) =>
    if ns ≠ ofString "ahp" then .error (.invalid event.2 "ns")
    else
      let sessionId ← requireNonEmptyString (event.1.field? (ofString "session_id"))
        "session_id" event.2
      .ok (sessionChannelFor sessionId)
  | _ => .error (.invalid event.2 "ns")

def startsRestartEpoch (seq nextSeq : Nat) : Bool :=
  seq ≠ nextSeq && seq < nextSeq && seq ≤ MAX_RESTART_EPOCH_INITIAL_SEQUENCE

/-- A fresh mirror process: the fold so far is kept, a group still buffered is not. -/
def SessionReplayState.restart (entry : SessionReplayState) (seq : Nat) : SessionReplayState :=
  { entry with
    abandonedChunkGroup :=
      entry.abandonedChunkGroup || decide (entry.reassembler.inFlightGroupCount > 0)
    nextSeq := seq
    reassembler := .new {} }

def ingestPayload (r : Reassembler) (payload : Option JsonValue) (now : Int) :
    Reassembler × Except ChunkingError JsonValue :=
  match payload with
  | none => (r, .error .notAnObject)
  | some payload => r.ingest payload now

def SessionReplayState.reassemble (entry : SessionReplayState) (session : JsString)
    (event : JsonValue × Nat) (now : Int) : Except TaskEventReplayError SessionReplayState :=
  match ingestPayload entry.reassembler (event.1.field? (ofString "payload")) now with
  | (_, .error cause) => .error (.notReassembled event.2 session cause)
  | (reassembler, .ok .null) => .ok { entry with reassembler }
  | (reassembler, .ok reassembled) => do
    let envelope ← parseActionEnvelope reassembled event.2
    -- A rejected action never mutated host state, so it must not mutate the replayed state.
    .ok { entry with
      reassembler
      envelopes :=
        if envelope.rejectionReason.isNone then entry.envelopes ++ [envelope]
        else entry.envelopes }

def ingestEvent (clock : Nat → Int) (session : JsString) (known : Option SessionReplayState)
    (event : JsonValue × Nat) : Except TaskEventReplayError SessionReplayState := do
  let seq ← requireNonNegativeInteger (event.1.field? (ofString "seq")) "seq" event.2
  let at' ← requireNonEmptyString (event.1.field? (ofString "at")) "at" event.2
  let entry := known.getD
    { envelopes := []
      modifiedAt := at'
      nextSeq := seq
      reassembler := .new {}
      abandonedChunkGroup := false }
  let entry := { entry with modifiedAt := at' }
  if seq ≠ entry.nextSeq ∧ startsRestartEpoch seq entry.nextSeq = false then
    .error (.sequence event.2 session seq entry.nextSeq)
  else
    let entry := if startsRestartEpoch seq entry.nextSeq then entry.restart seq else entry
    { entry with nextSeq := entry.nextSeq + 1 }.reassemble session event (clock event.2)

def decodeEvents (clock : Nat → Int) (events : List JsonValue) :
    Except TaskEventReplayError (Record JsString SessionReplayState) :=
  events.zipIdx.foldlM (Record.keyedStep eventSession (ingestEvent clock)) .empty

/-! ## Folding -/

structure Reducers (σ χ : Type) where
  seedSessionState : σ
  sessionReducer : σ → JsonValue → σ
  seedChatState : (chatChannel modifiedAt : JsString) → χ
  chatReducer : χ → JsonValue → χ

structure ReplayedSession (σ χ : Type) where
  session : JsString
  state : σ
  chats : Record JsString χ
  defaultChat : JsString
  modifiedAt : JsString

structure ReplayedTaskHistory (σ χ : Type) where
  sessions : List (ReplayedSession σ χ)
  truncated : Bool

def SESSION_DEFAULT_CHAT_CHANGED : JsString := ofString "session/defaultChatChanged"

def fallbackChat (session : JsString) : JsString := session ++ ofString "/chat"

def announcedChat (session : JsString) (action : JsonValue) : JsString :=
  match action.field? (ofString "defaultChat") with
  | some (.string (u :: rest)) => u :: rest
  | _ => fallbackChat session

def isSessionAction (session : JsString) (envelope : ActionEnvelope) : Bool :=
  startsWith envelope.type (ofString "session/") && envelope.channel == session

def isChatAction (envelope : ActionEnvelope) : Bool := startsWith envelope.type (ofString "chat/")

section

variable {σ χ : Type} (reducers : Reducers σ χ)

structure SessionFold (σ χ : Type) where
  state : σ
  chats : Record JsString χ
  defaultChat : JsString

def foldEnvelope (session modifiedAt : JsString) (acc : SessionFold σ χ)
    (envelope : ActionEnvelope) : SessionFold σ χ :=
  if isSessionAction session envelope then
    { acc with
      state := reducers.sessionReducer acc.state envelope.action
      defaultChat :=
        if envelope.type = SESSION_DEFAULT_CHAT_CHANGED then announcedChat session envelope.action
        else acc.defaultChat }
  else if isChatAction envelope then
    let current := (acc.chats.get envelope.channel).getD
      (reducers.seedChatState envelope.channel modifiedAt)
    { acc with
      chats := acc.chats.set envelope.channel (reducers.chatReducer current envelope.action) }
  else acc

def foldSession (session : JsString) (entry : SessionReplayState) : ReplayedSession σ χ :=
  let acc := entry.envelopes.foldl (foldEnvelope reducers session entry.modifiedAt)
    { state := reducers.seedSessionState
      chats := .empty
      defaultChat := fallbackChat session }
  { session
    state := acc.state
    chats :=
      if (acc.chats.get acc.defaultChat).isSome then acc.chats
      else acc.chats.set acc.defaultChat (reducers.seedChatState acc.defaultChat entry.modifiedAt)
    defaultChat := acc.defaultChat
    modifiedAt := entry.modifiedAt }

def SessionReplayState.isTruncated (entry : SessionReplayState) : Bool :=
  entry.abandonedChunkGroup || decide (entry.reassembler.inFlightGroupCount > 0)

def replayTaskAhpEvents (clock : Nat → Int) (events : List JsonValue) :
    Except TaskEventReplayError (Option (ReplayedTaskHistory σ χ)) := do
  let decoded ← decodeEvents clock events
  if decoded.isEmpty then .ok none
  else
    .ok (some
      { sessions := decoded.entries.map fun entry => foldSession reducers entry.1 entry.2
        truncated := decoded.entries.any fun entry => entry.2.isTruncated })

end

end Tasks

end Fumie.AgentHost
