import Fumie.AgentHost.WebPubSub.Chunking
import Fumie.AgentHost.WebPubSub.Groups

/-!
# `sendToGroup` framing

`buildPublish` wraps the envelopes of a payload in commands, the service fans a command out
as a group message, and `parseInbound` reads one frame with the reassembler of the
subscriber. It tells a payload from a segment by whether `ingest` returned `null`.
-/

namespace Fumie.AgentHost

open Fumie.Lib JsString

structure SendToGroupCommand where
  group : JsString
  ackId : Nat
  data : ChunkEnvelope

structure BuildPublishOptions where
  group : JsString
  /-- The `ackId` of the first command; the source of ids counts up from it. -/
  nextAckId : Nat
  payload : JsonValue
  chunkOptions : ChunkOptions

def buildPublish (options : BuildPublishOptions) : Except ChunkingError (List SendToGroupCommand) :=
  (chunk options.payload options.chunkOptions).map fun envelopes =>
    envelopes.zipIdx.map fun envelope => ⟨options.group, options.nextAckId + envelope.2, envelope.1⟩

def SendToGroupCommand.groupMessage (command : SendToGroupCommand) : JsonValue :=
  .object
    [(ofString "type", .string (ofString "message")), (ofString "from", .string (ofString "group")),
     (ofString "group", .string command.group),
     (ofString "dataType", .string (ofString "json")),
     (ofString "data", command.data.toJson)]

inductive InboundResult where
  | payload (group : ParsedGroup) (payload : JsonValue)
  | pending (group : ParsedGroup)
  | ignored

inductive InboundError where
  | unsupportedDataType (dataType : Option JsonValue)
  | missingGroup
  | missingData
  | groupName (error : GroupNameError)
  | chunking (error : ChunkingError)

def isObject : JsonValue → Bool
  | .object _ => true
  | .array _ => true
  | _ => false

variable (frame : JsonValue) (groupValidation : ParseGroupNameOptions)

def inboundEnvelope : Except InboundError (Option (ParsedGroup × JsonValue)) :=
  match frame.field? (ofString "type"), frame.field? (ofString "from") with
  | some (.string type), some (.string source) =>
    if type ≠ ofString "message" ∨ source ≠ ofString "group" then .ok none
    else
      match frame.field? (ofString "dataType") with
      | some (.string dataType) =>
        if dataType ≠ ofString "json" then
          .error (.unsupportedDataType (some (.string dataType)))
        else
          match frame.field? (ofString "group") with
          | some (.string group) =>
            match frame.field? (ofString "data") with
            | some data =>
              if !isObject data then .error .missingData
              else
                match parseGroupName group groupValidation with
                | .error e => .error (.groupName e)
                | .ok group => .ok (some (group, data))
            | none => .error .missingData
          | _ => .error .missingGroup
      | dataType => .error (.unsupportedDataType dataType)
  | _, _ => .ok none

def parseInbound (reassembler : Reassembler) (now : Int) :
    Reassembler × Except InboundError InboundResult :=
  match inboundEnvelope frame groupValidation with
  | .error e => (reassembler, .error e)
  | .ok none => (reassembler, .ok .ignored)
  | .ok (some (group, envelope)) =>
    match reassembler.ingest envelope now with
    | (reassembler, .error e) => (reassembler, .error (.chunking e))
    | (reassembler, .ok .null) => (reassembler, .ok (.pending group))
    | (reassembler, .ok payload) => (reassembler, .ok (.payload group payload))

end Fumie.AgentHost
