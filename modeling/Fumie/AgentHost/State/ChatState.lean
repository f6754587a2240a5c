import Fumie.AgentHost.State.Common

/-!
# Chat channel: state and actions

The seven tool-call states carry exactly the fields their interfaces declare. A
call waiting for MCP authentication has its contributor narrowed to an MCP
server, so no client tool call can be in that state.
-/

namespace Fumie.AgentHost

open Fumie.Lib

/-! ## Tool calls -/

structure ToolCallMcpContributor where
  customizationId : String
  deriving DecidableEq, Inhabited

inductive ToolCallContributor where
  | client (clientId : ClientId)
  | mcp (server : ToolCallMcpContributor)
  deriving DecidableEq, Inhabited

structure ToolCallBaseOf (C : Type) where
  toolCallId : String
  toolName : String
  displayName : String
  intention : Option String
  contributor : C
  _meta : Option Json
  deriving DecidableEq, Inhabited

abbrev ToolCallBase := ToolCallBaseOf (Option ToolCallContributor)

inductive ToolInput where
  | inline (text : String)
  | ref (content : Payload)
  deriving DecidableEq, Inhabited

structure ToolCallParameterFields where
  invocationMessage : StringOrMarkdown
  toolInput : Option ToolInput
  deriving DecidableEq, Inhabited

inductive ToolCallConfirmationReason where
  | notNeeded
  | userAction
  | setting
  deriving DecidableEq, Inhabited

inductive ToolCallCancellationReason where
  | denied
  | skipped
  | resultDenied
  deriving DecidableEq, Inhabited

structure ConfirmationOption where
  id : String
  label : String
  approve : Bool
  group : Option Int
  deriving DecidableEq, Inhabited

structure ToolCallPostConfirmationFields where
  confirmed : ToolCallConfirmationReason
  selectedOption : Option ConfirmationOption
  deriving DecidableEq, Inhabited

/-- What a pending confirmation shows the user. -/
structure ToolCallPromptFields where
  confirmationTitle : Option StringOrMarkdown
  riskAssessment : Option Payload
  edits : Option Payload
  editable : Option Bool
  options : Option (List ConfirmationOption)
  deriving DecidableEq, Inhabited

structure ToolCallResult where
  success : Bool
  pastTenseMessage : StringOrMarkdown
  content : Option (List Payload)
  structuredContent : Option Json
  error : Option Payload
  deriving DecidableEq, Inhabited

structure ToolCallCancellation where
  reason : ToolCallCancellationReason
  reasonMessage : Option StringOrMarkdown
  userSuggestion : Option Message
  selectedOption : Option ConfirmationOption
  deriving DecidableEq, Inhabited

inductive ToolCallState where
  | streaming (base : ToolCallBase) (partialInput : Option String)
      (invocationMessage : Option StringOrMarkdown)
  | pendingConfirmation (base : ToolCallBase) (params : ToolCallParameterFields)
      (prompt : ToolCallPromptFields)
  | running (base : ToolCallBase) (params : ToolCallParameterFields)
      (post : ToolCallPostConfirmationFields) (content : Option (List Payload))
  | authRequired (base : ToolCallBaseOf ToolCallMcpContributor)
      (params : ToolCallParameterFields) (post : ToolCallPostConfirmationFields)
      (auth : Payload) (content : Option (List Payload))
  | pendingResultConfirmation (base : ToolCallBase) (params : ToolCallParameterFields)
      (post : ToolCallPostConfirmationFields) (result : ToolCallResult)
  | completed (base : ToolCallBase) (params : ToolCallParameterFields)
      (post : ToolCallPostConfirmationFields) (result : ToolCallResult)
  | cancelled (base : ToolCallBase) (params : ToolCallParameterFields)
      (cancellation : ToolCallCancellation)
  deriving DecidableEq, Inhabited

def tcBase : ToolCallState → ToolCallBase
  | .streaming base _ _ => base
  | .pendingConfirmation base _ _ => base
  | .running base _ _ _ => base
  | .authRequired base _ _ _ _ => { base with contributor := some (.mcp base.contributor) }
  | .pendingResultConfirmation base _ _ _ => base
  | .completed base _ _ _ => base
  | .cancelled base _ _ => base

def ToolCallState.toolCallId (tc : ToolCallState) : String := (tcBase tc).toolCallId

def ToolCallState.contributor (tc : ToolCallState) : Option ToolCallContributor :=
  (tcBase tc).contributor

/-! ## Turns -/

structure ChatInputRequest where
  id : String
  answers : Option (Record String Payload)
  /-- `message`, `url` and `questions`. -/
  content : Payload
  deriving DecidableEq, Inhabited

inductive ChatInputResponseKind where
  | accept
  | decline
  | cancel
  deriving DecidableEq, Inhabited

inductive ResponsePart where
  | markdown (id content : String)
  | contentRef (content : Payload)
  | toolCall (toolCall : ToolCallState)
  | reasoning (id content : String)
  | systemNotification (content : StringOrMarkdown) (_meta : Option Json)
  | inputRequest (request : ChatInputRequest) (response : Option ChatInputResponseKind)
  deriving DecidableEq, Inhabited

inductive TurnState where
  | complete
  | cancelled
  | error
  deriving DecidableEq, Inhabited

structure Turn where
  id : String
  startedAt : Option Timestamp
  duration : Option Int
  message : Message
  responseParts : List ResponsePart
  usage : Option UsageInfo
  state : TurnState
  error : Option ErrorInfo
  deriving DecidableEq, Inhabited

structure ActiveTurn where
  id : String
  startedAt : Timestamp
  message : Message
  responseParts : List ResponsePart
  usage : Option UsageInfo
  deriving DecidableEq, Inhabited

inductive PendingMessageKind where
  | steering
  | queued
  deriving DecidableEq, Inhabited

structure PendingMessage where
  id : String
  message : Message
  deriving DecidableEq, Inhabited

/-! ## Chat state -/

structure ChatSummary where
  resource : Uri
  title : String
  status : SessionStatus
  activity : Option String
  modifiedAt : Timestamp
  origin : Option Payload
  interactivity : Option Payload
  workingDirectories : Option (List Uri)
  deriving DecidableEq, Inhabited

structure ChatState extends ChatSummary where
  turns : List Turn
  turnsNextCursor : Option String
  activeTurn : Option ActiveTurn
  steeringMessage : Option PendingMessage
  queuedMessages : Option (List PendingMessage)
  draft : Option Message
  _meta : Option Json
  deriving DecidableEq, Inhabited

def createChatState (summary : ChatSummary) : ChatState where
  toChatSummary := summary
  turns := []
  turnsNextCursor := none
  activeTurn := none
  steeringMessage := none
  queuedMessages := none
  draft := none
  _meta := none

/-! ## Actions -/

inductive ToolCallVerdict where
  | approved (confirmed : ToolCallConfirmationReason) (editedToolInput : Option String)
  | denied (reason : ToolCallCancellationReason) (userSuggestion : Option Message)
      (reasonMessage : Option StringOrMarkdown)
  deriving DecidableEq, Inhabited

structure ToolCallReadyFields where
  contributor : Option ToolCallContributor
  intention : Option String
  invocationMessage : StringOrMarkdown
  toolInput : Option ToolInput
  confirmationTitle : Option StringOrMarkdown
  riskAssessment : Option Payload
  edits : Option Payload
  editable : Option Bool
  confirmed : Option ToolCallConfirmationReason
  options : Option (List ConfirmationOption)
  deriving DecidableEq, Inhabited

inductive ChatAction where
  | turnStarted (turnId : String) (startedAt : Timestamp) (message : Message)
      (queuedMessageId : Option String)
  | delta (turnId partId content : String)
  | responsePart (turnId : String) (part : ResponsePart)
  | toolCallStart (turnId toolCallId : String) (toolName displayName : String)
      (intention : Option String) (contributor : Option ToolCallContributor) (_meta : Option Json)
  | toolCallDelta (turnId toolCallId : String) (content : Option String)
      (invocationMessage : Option StringOrMarkdown) (_meta : Option Json)
  | toolCallReady (turnId toolCallId : String) (fields : ToolCallReadyFields) (_meta : Option Json)
  | toolCallConfirmed (turnId toolCallId : String) (verdict : ToolCallVerdict)
      (selectedOptionId : Option String) (_meta : Option Json)
  | toolCallComplete (turnId toolCallId : String) (result : ToolCallResult)
      (requiresResultConfirmation : Bool) (_meta : Option Json)
  | toolCallResultConfirmed (turnId toolCallId : String) (approved : Bool) (_meta : Option Json)
  | toolCallContentChanged (turnId toolCallId : String) (content : List Payload)
      (_meta : Option Json)
  | toolCallAuthRequired (turnId toolCallId : String) (auth : Payload) (_meta : Option Json)
  | toolCallAuthResolved (turnId toolCallId : String) (_meta : Option Json)
  | turnComplete (turnId : String) (duration : Int)
  | turnCancelled (turnId : String) (duration : Int)
  | error (turnId : String) (duration : Int) (error : ErrorInfo)
  | activityChanged (activity : Option String)
  | workingDirectorySet (directory : Uri)
  | workingDirectoryRemoved (directory : Uri)
  | usage (turnId : String) (usage : UsageInfo)
  | reasoning (turnId partId content : String)
  | truncated (turnId : Option String)
  | turnsLoaded (turns : List Turn) (turnsNextCursor : Option String)
  | pendingMessageSet (kind : PendingMessageKind) (id : String) (message : Message)
  | pendingMessageRemoved (kind : PendingMessageKind) (id : String)
  | queuedMessagesReordered (order : List String)
  | draftChanged (draft : Option Message)
  | inputRequested (request : ChatInputRequest)
  | inputAnswerChanged (requestId questionId : String) (answer : Option Payload)
  | inputCompleted (requestId : String) (response : ChatInputResponseKind)
      (answers : Option (Record String Payload))
  deriving DecidableEq

end Fumie.AgentHost
