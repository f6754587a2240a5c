import Fumie.Lib.Record

/-!
# Values shared by every channel

Channel URIs are kept parsed: a chat URI carries its owning session and its chat
id, so `parseChatUri` is a projection. JSON the host only stores and forwards is
a `Payload`. Timestamps are milliseconds since the epoch.
-/

namespace Fumie.AgentHost

open Fumie.Lib

/-- JSON that no modelled function looks into. -/
structure Payload where
  json : String
  deriving DecidableEq, Inhabited

abbrev Timestamp := Int

/-- `new Date(Date.parse(timestamp) + duration)`. -/
def addMillisecondsToTimestamp (timestamp : Timestamp) (duration : Int) : Timestamp :=
  timestamp + duration

abbrev ClientId := String

inductive StringOrMarkdown where
  | string (text : String)
  | markdown (text : String)
  deriving DecidableEq, Inhabited

abbrev ErrorInfo := Payload
abbrev UsageInfo := Payload
abbrev Message := Payload
abbrev Json := Payload

/-! ## Channel URIs -/

inductive Uri where
  | root
  | session (provider rawId : String)
  | chat (session : Uri) (chatId : String)
  | malformedChat (text : String)
  | changeset (session : Uri) (name : String)
  | annotations (session : Uri)
  | terminal (text : String)
  | resourceWatch (payload : String)
  | other (text : String)
  | unparsable (text : String)
  deriving DecidableEq, Inhabited

def DEFAULT_CHAT_ID : String := "default"

variable (session uri : Uri)

def buildChatUri (chatId : String) : Uri := .chat session chatId

def buildDefaultChatUri : Uri := buildChatUri session DEFAULT_CHAT_ID

def parseChatUri : Uri → Option (Uri × String)
  | .chat session chatId => some (session, chatId)
  | _ => none

def parseDefaultChatUri : Option Uri := (parseChatUri uri).map Prod.fst

def isDefaultChatUri : Bool := (parseChatUri uri).map Prod.snd = some DEFAULT_CHAT_ID

def isAhpChatChannel : Uri → Bool
  | .chat _ _ => true
  | .malformedChat _ => true
  | _ => false

def isAhpRootChannel : Bool := uri = .root

def isAhpResourceWatchChannel : Uri → Bool
  | .resourceWatch _ => true
  | _ => false

def Uri.parses : Uri → Bool
  | .unparsable _ => false
  | _ => true

/-! ## Session status -/

abbrev SessionStatus := BitVec 32

namespace SessionStatus

def Idle : SessionStatus := 1
def Error : SessionStatus := 1 <<< 1
def InProgress : SessionStatus := 1 <<< 3
def InputNeeded : SessionStatus := (1 <<< 3) ||| (1 <<< 4)
def IsRead : SessionStatus := 1 <<< 5
def IsArchived : SessionStatus := 1 <<< 6

end SessionStatus

def STATUS_ACTIVITY_MASK : SessionStatus := (1 <<< 5) - 1

def withStatusFlag (status flag : SessionStatus) (set : Bool) : SessionStatus :=
  if set then status ||| flag else status &&& ~~~flag

end Fumie.AgentHost
