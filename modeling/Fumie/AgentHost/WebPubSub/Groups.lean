import Fumie.Lib.Json

/-!
# Group names

A group name is `user.<uid>.env.<eid>.` and a lane of the client or of the environment.
The parser checks the segments in the order of the name.
-/

namespace Fumie.AgentHost

open Fumie.Lib JsString

def MAX_GROUP_NAME_BYTES : Nat := 256

inductive EnvLane where
  | root
  | events
  | lifecycle
  | control
  | ingestAck
  deriving DecidableEq

inductive ClientLaneKind where
  | broadcast
  | toHost
  | toClient
  deriving DecidableEq

inductive ParsedLane where
  | client (lane : ClientLaneKind) (cid : JsString)
  | env (lane : EnvLane)
  deriving DecidableEq

structure ParsedGroup where
  lane : ParsedLane
  uid : JsString
  eid : JsString
  deriving DecidableEq

inductive IdSegment where
  | uid
  | eid
  | cid

inductive GroupNameError where
  | tooLong (byteLength : Nat)
  | empty
  | tooFewSegments (segments : Nat)
  | notUser (segment : JsString)
  | notEnv (segment : JsString)
  | emptyId (name : IdSegment)
  | badId (name : IdSegment)
  | unexpectedId (name : IdSegment) (value : JsString)
  | truncatedClientLane
  | trailingSegments (direction : JsString)
  | unknownDirection (direction : JsString)
  | longEnvLane (segments : Nat)
  | unknownEnvLane (lane : JsString)

structure ParseGroupNameOptions where
  uid : Option JsString := none
  eid : Option JsString := none
  cid : Option JsString := none

/-- `encoder.encode(name).byteLength`; a lone surrogate is encoded as U+FFFD. -/
def utf8Length : JsString → Nat
  | [] => 0
  | [u] => if u.val < 0x80 then 1 else if u.val < 0x800 then 2 else 3
  | u :: v :: rest =>
    if isHighSurrogate u && isLowSurrogate v then 4 + utf8Length rest
    else (if u.val < 0x80 then 1 else if u.val < 0x800 then 2 else 3) + utf8Length (v :: rest)

/-- `[A-Za-z0-9_-]`. -/
def isOpaqueIdUnit (u : CodeUnit) : Bool :=
  (65 ≤ u.val && u.val ≤ 90) || (97 ≤ u.val && u.val ≤ 122) || (48 ≤ u.val && u.val ≤ 57) ||
    u.val = 95 || u.val = 45

def validateId (name : IdSegment) (expected : Option JsString) (value : JsString) :
    Except GroupNameError Unit :=
  if value.isEmpty then .error (.emptyId name)
  else if !value.all isOpaqueIdUnit then .error (.badId name)
  else if expected.any fun e => value ≠ e then .error (.unexpectedId name value)
  else .ok ()

def clientDirection? (direction : JsString) : Option ClientLaneKind :=
  if direction = ofString "broadcast" then some .broadcast
  else if direction = ofString "to-host" then some .toHost
  else if direction = ofString "to-client" then some .toClient
  else none

def envLane? (lane : JsString) : Option EnvLane :=
  if lane = ofString "root" then some .root
  else if lane = ofString "events" then some .events
  else if lane = ofString "lifecycle" then some .lifecycle
  else if lane = ofString "control" then some .control
  else if lane = ofString "ingest-ack" then some .ingestAck
  else none

def parseLane (options : ParseGroupNameOptions) (lane : List JsString) :
    Except GroupNameError ParsedLane := do
  if lane.head? = some (ofString "client") then
    match lane with
    | _ :: cid :: direction :: trailing =>
      validateId .cid options.cid cid
      match clientDirection? direction with
      | some kind =>
        if trailing.isEmpty then pure (.client kind cid) else throw (.trailingSegments direction)
      | none => throw (.unknownDirection direction)
    | _ => throw .truncatedClientLane
  else
    match lane with
    | [envLane] =>
      match envLane? envLane with
      | some lane => pure (.env lane)
      | none => throw (.unknownEnvLane envLane)
    | lane => throw (.longEnvLane lane.length)

def parseGroupName (name : JsString) (options : ParseGroupNameOptions) :
    Except GroupNameError ParsedGroup := do
  if utf8Length name > MAX_GROUP_NAME_BYTES then throw (.tooLong (utf8Length name))
  if utf8Length name = 0 then throw .empty
  match name.splitOn 46 with
  | user :: uid :: env :: eid :: first :: lane =>
    if user ≠ ofString "user" then throw (.notUser user)
    validateId .uid options.uid uid
    if env ≠ ofString "env" then throw (.notEnv env)
    validateId .eid options.eid eid
    let lane ← parseLane options (first :: lane)
    pure ⟨lane, uid, eid⟩
  | segments => throw (.tooFewSegments segments.length)

example : (parseGroupName (ofString "user.u-1.env.e.client.c.to-host") {}).toOption =
    some ⟨.client .toHost [99], [117, 45, 49], [101]⟩ := by decide

end Fumie.AgentHost
