import Fumie.AgentHost.State.ChatState

/-!
# Session channel: state and actions
-/

namespace Fumie.AgentHost

open Fumie.Lib

inductive SessionLifecycle where
  | creating
  | ready
  | failed
  deriving DecidableEq, Inhabited

structure ToolDefinition where
  name : String
  /-- Title, description, schemas and annotations. -/
  content : Payload
  deriving DecidableEq, Inhabited

structure SessionActiveClient where
  clientId : ClientId
  displayName : Option String
  tools : List ToolDefinition
  customizations : Option (List Payload)
  deriving DecidableEq, Inhabited

/-! ## Input requests -/

inductive SessionInputRequest where
  | chatInput (id : String) (chat : Uri) (request : ChatInputRequest)
  | toolConfirmation (id : String) (chat : Uri) (turnId : String) (toolCall : ToolCallState)
  | toolClientExecution (id : String) (chat : Uri) (turnId : String) (clientId : ClientId)
      (toolCall : ToolCallState)
  | toolAuthentication (id : String) (chat : Uri) (turnId : String) (toolCall : ToolCallState)
  deriving DecidableEq, Inhabited

def SessionInputRequest.id : SessionInputRequest → String
  | .chatInput id _ _ => id
  | .toolConfirmation id _ _ _ => id
  | .toolClientExecution id _ _ _ _ => id
  | .toolAuthentication id _ _ _ => id

/-! ## Customizations -/

inductive CustomizationEnablement where
  | global (enabled : Bool)
  | workspace (uri : Uri) (enabled : Bool)
  | session (enabled : Bool)
  deriving DecidableEq, Inhabited

def CustomizationEnablement.enabled : CustomizationEnablement → Bool
  | .global enabled => enabled
  | .workspace _ enabled => enabled
  | .session enabled => enabled

inductive McpServerState where
  | starting
  | ready
  | authRequired (requirement : Payload)
  | error (error : ErrorInfo)
  | stopped
  deriving DecidableEq, Inhabited

structure McpServerCustomization where
  id : String
  enablement : Option (List CustomizationEnablement)
  state : McpServerState
  channel : Option Uri
  content : Payload
  deriving DecidableEq, Inhabited

inductive ChildCustomization where
  /-- Agent, skill, prompt, rule or hook. -/
  | leaf (id : String) (enabled : Option Bool) (content : Payload)
  | mcpServer (server : McpServerCustomization)
  deriving DecidableEq, Inhabited

def ChildCustomization.id : ChildCustomization → String
  | .leaf id _ _ => id
  | .mcpServer server => server.id

inductive Customization where
  | plugin (id : String) (enablement : Option (List CustomizationEnablement))
      (children : Option (List ChildCustomization)) (content : Payload)
  | directory (id : String) (enabled : Bool)
      (children : Option (List ChildCustomization)) (content : Payload)
  | mcpServer (server : McpServerCustomization)
  deriving DecidableEq, Inhabited

def Customization.id : Customization → String
  | .plugin id _ _ _ => id
  | .directory id _ _ _ => id
  | .mcpServer server => server.id

def Customization.children : Customization → Option (List ChildCustomization)
  | .plugin _ _ children _ => children
  | .directory _ _ children _ => children
  | .mcpServer _ => none

def Customization.withChildren (c : Customization) (children : List ChildCustomization) :
    Customization :=
  match c with
  | .plugin id enablement _ content => .plugin id enablement (some children) content
  | .directory id enabled _ content => .directory id enabled (some children) content
  | .mcpServer server => .mcpServer server

/-! ## Session state -/

structure SessionConfigState where
  schema : Payload
  values : Record String Payload
  deriving DecidableEq, Inhabited

structure SessionMetadata where
  provider : String
  title : String
  status : SessionStatus
  activity : Option String
  origin : Option Payload
  project : Option Payload
  workingDirectories : Option (List Uri)
  annotations : Option Payload
  deriving DecidableEq, Inhabited

structure SessionState extends SessionMetadata where
  lifecycle : SessionLifecycle
  creationError : Option ErrorInfo
  serverTools : Option (List ToolDefinition)
  activeClients : List SessionActiveClient
  chats : List ChatSummary
  defaultChat : Option Uri
  config : Option SessionConfigState
  customizations : Option (List Customization)
  changesets : Option (List Payload)
  inputNeeded : Option (List SessionInputRequest)
  _meta : Option Json
  deriving DecidableEq, Inhabited

/-! ## Actions -/

structure ChatSummaryChanges where
  title : Option String
  status : Option SessionStatus
  activity : Option (Option String)
  modifiedAt : Option Timestamp
  origin : Option (Option Payload)
  interactivity : Option (Option Payload)
  workingDirectories : Option (Option (List Uri))
  deriving DecidableEq, Inhabited

inductive SessionAction where
  | ready
  | creationFailed (error : ErrorInfo)
  | chatAdded (summary : ChatSummary)
  | chatRemoved (chat : Uri)
  | chatUpdated (chat : Uri) (changes : ChatSummaryChanges)
  | defaultChatChanged (defaultChat : Option Uri)
  | titleChanged (title : String)
  | isReadChanged (isRead : Bool)
  | isArchivedChanged (isArchived : Bool)
  | activityChanged (activity : Option String)
  | changesetsChanged (changesets : Option (List Payload))
  | configChanged (config : Record String Payload) (replace : Bool)
  | metaChanged (_meta : Option Json)
  | serverToolsChanged (tools : List ToolDefinition)
  | activeClientSet (activeClient : SessionActiveClient)
  | activeClientRemoved (clientId : ClientId)
  | workingDirectorySet (directory : Uri)
  | workingDirectoryRemoved (directory : Uri)
  | workingDirectoryReplaced (directory replacement : Uri)
  | inputNeededSet (request : SessionInputRequest)
  | inputNeededRemoved (id : String)
  | customizationsChanged (customizations : List Customization)
  | customizationToggled (id : String) (enablement : List CustomizationEnablement)
  | customizationUpdated (customization : Customization)
  | customizationRemoved (id : String)
  | mcpServerStateChanged (id : String) (state : McpServerState) (channel : Option Uri)
  | mcpServerStartRequested (id : String)
  | mcpServerStopRequested (id : String)
  deriving DecidableEq

end Fumie.AgentHost
