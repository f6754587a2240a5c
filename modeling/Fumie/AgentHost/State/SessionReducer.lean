import Fumie.Lib.KeyedList
import Fumie.AgentHost.State.SessionState

/-!
# The session reducer
-/

namespace Fumie.AgentHost

open Fumie.Lib

/-! ## Status and the input queue -/

def awaitsUser : SessionInputRequest → Bool
  | .toolClientExecution _ _ _ _ _ => false
  | _ => true

def withInputNeededStatus (status : SessionStatus) (inputNeeded : List SessionInputRequest) :
    SessionStatus :=
  if inputNeeded.any awaitsUser then
    (status &&& ~~~STATUS_ACTIVITY_MASK) ||| SessionStatus.InputNeeded
  else status &&& ~~~(SessionStatus.InputNeeded &&& ~~~SessionStatus.InProgress)

/-! ## Catalog entries and directories -/

def applyChatSummaryChanges (summary : ChatSummary) (changes : ChatSummaryChanges) : ChatSummary :=
  { summary with
    title := changes.title.getD summary.title
    status := changes.status.getD summary.status
    activity := changes.activity.getD summary.activity
    modifiedAt := changes.modifiedAt.getD summary.modifiedAt
    origin := changes.origin.getD summary.origin
    interactivity := changes.interactivity.getD summary.interactivity
    workingDirectories := changes.workingDirectories.getD summary.workingDirectories }

def replaceWorkingDirectory (list : List Uri) (directory replacement : Uri) : Option (List Uri) :=
  match list.findIdx? (· = directory) with
  | none => none
  | some idx =>
    if (list.take idx).any (· = replacement) then some (list.eraseIdx idx)
    else
      let replaced := list.set idx replacement
      some ((replaced.zipIdx.filter fun e => e.2 = idx || e.1 ≠ replacement).map Prod.fst)

/-! ## Customizations -/

section

variable (enablement : List CustomizationEnablement)

def explicitEnablement : Option (List CustomizationEnablement) :=
  if enablement.isEmpty then none else some enablement

def legacyEnabled : Bool := (enablement.head?.map CustomizationEnablement.enabled).getD true

def Customization.applyEnablement : Customization → Customization
  | .plugin id _ children content => .plugin id (explicitEnablement enablement) children content
  | .mcpServer server => .mcpServer { server with enablement := explicitEnablement enablement }
  | .directory id _ children content => .directory id (legacyEnabled enablement) children content

def ChildCustomization.applyEnablement : ChildCustomization → ChildCustomization
  | .mcpServer server => .mcpServer { server with enablement := explicitEnablement enablement }
  | .leaf id _ content => .leaf id (some (legacyEnabled enablement)) content

end

def editChild (id : String) (edit : List ChildCustomization → Nat → Option (List ChildCustomization))
    (container : Customization) : Option Customization :=
  match container.children with
  | none => none
  | some children =>
    match children.findIdx? fun c => c.id = id with
    | none => none
    | some idx => (edit children idx).map container.withChildren

def editFirst (edit : Customization → Option Customization) :
    List Customization → Option (List Customization)
  | [] => none
  | c :: rest =>
    match edit c with
    | some c' => some (c' :: rest)
    | none => (editFirst edit rest).map (c :: ·)

def editAll (edit : Customization → Option Customization) (list : List Customization) :
    Option (List Customization) :=
  if list.any fun c => (edit c).isSome then some (list.map fun c => (edit c).getD c) else none

section

variable (list : List Customization)

variable (id : String)

def toggleCustomization (enablement : List CustomizationEnablement) : Option (List Customization) :=
  match list.findIdx? fun c => c.id = id with
  | some idx => some (list.modify idx (·.applyEnablement enablement))
  | none =>
    editFirst (editChild id fun children idx =>
      some (children.modify idx (·.applyEnablement enablement))) list

def removeCustomization : Option (List Customization) :=
  match list.findIdx? fun c => c.id = id with
  | some idx => some (list.eraseIdx idx)
  | none => editAll (editChild id fun children idx => some (children.eraseIdx idx)) list

def updateMcpServerChild (update : McpServerCustomization → McpServerCustomization)
    (children : List ChildCustomization) (idx : Nat) : Option (List ChildCustomization) :=
  match children[idx]? with
  | some (.mcpServer server) => some (children.set idx (.mcpServer (update server)))
  | _ => none

def updateMcpServer (update : McpServerCustomization → McpServerCustomization) :
    Option (List Customization) :=
  match list.findIdx? fun c => c.id = id with
  | some idx =>
    match list[idx]? with
    | some (.mcpServer server) => some (list.set idx (.mcpServer (update server)))
    | _ => none
  | none => editAll (editChild id (updateMcpServerChild update)) list

end

variable (state : SessionState)

def onCustomizations (edit : List Customization → Option (List Customization)) : SessionState :=
  match state.customizations.bind edit with
  | none => state
  | some customizations => { state with customizations := some customizations }

def updateMcpServerCustomization (id : String)
    (update : McpServerCustomization → McpServerCustomization) : SessionState :=
  onCustomizations state fun list => updateMcpServer list id update

/-! ## The reducer -/

def sessionReducer : SessionAction → SessionState
  | .ready => { state with lifecycle := .ready }
  | .creationFailed error => { state with lifecycle := .failed, creationError := some error }
  | .chatAdded summary => { state with chats := upsertBy (·.resource) state.chats summary }
  | .chatRemoved chat =>
    match removeBy (·.resource) state.chats chat with
    | none => state
    | some chats =>
      { state with
        chats
        defaultChat := if state.defaultChat = some chat then none else state.defaultChat }
  | .chatUpdated chat changes =>
    match state.chats.findIdx? fun c => c.resource = chat with
    | none => state
    | some idx =>
      { state with chats := state.chats.modify idx (applyChatSummaryChanges · changes) }
  | .defaultChatChanged defaultChat => { state with defaultChat }
  | .titleChanged title => { state with title }
  | .isReadChanged isRead =>
    { state with status := withStatusFlag state.status SessionStatus.IsRead isRead }
  | .isArchivedChanged isArchived =>
    { state with status := withStatusFlag state.status SessionStatus.IsArchived isArchived }
  | .activityChanged activity => { state with activity }
  | .changesetsChanged changesets => { state with changesets }
  | .configChanged config replace =>
    match state.config with
    | none => state
    | some current =>
      { state with config := some { current with
          values := if replace then config else current.values.merge config } }
  | .metaChanged _meta => { state with _meta }
  | .serverToolsChanged tools => { state with serverTools := some tools }
  | .activeClientSet activeClient =>
    { state with activeClients := upsertBy (·.clientId) state.activeClients activeClient }
  | .activeClientRemoved clientId =>
    match removeBy (·.clientId) state.activeClients clientId with
    | none => state
    | some activeClients => { state with activeClients }
  | .workingDirectorySet directory =>
    let list := state.workingDirectories.getD []
    if directory ∈ list then state
    else { state with workingDirectories := some (list ++ [directory]) }
  | .workingDirectoryRemoved directory =>
    match state.workingDirectories with
    | none => state
    | some list =>
      if directory ∈ list then { state with workingDirectories := some (list.erase directory) }
      else state
  | .workingDirectoryReplaced directory replacement =>
    match state.workingDirectories.bind fun list =>
        replaceWorkingDirectory list directory replacement with
    | none => state
    | some list => { state with workingDirectories := some list }
  | .inputNeededSet request =>
    let inputNeeded := upsertBy SessionInputRequest.id (state.inputNeeded.getD []) request
    { state with
      inputNeeded := some inputNeeded
      status := withInputNeededStatus state.status inputNeeded }
  | .inputNeededRemoved id =>
    match state.inputNeeded.bind fun list => removeBy SessionInputRequest.id list id with
    | none => state
    | some remaining =>
      { state with
        status := withInputNeededStatus state.status remaining
        inputNeeded := if remaining.isEmpty then none else some remaining }
  | .customizationsChanged customizations =>
    { state with customizations := some customizations }
  | .customizationToggled id enablement =>
    onCustomizations state fun list => toggleCustomization list id enablement
  | .customizationUpdated customization =>
    let list := state.customizations.getD []
    { state with customizations := some (upsertBy Customization.id list customization) }
  | .customizationRemoved id => onCustomizations state fun list => removeCustomization list id
  | .mcpServerStateChanged id serverState channel =>
    updateMcpServerCustomization state id fun entry => { entry with state := serverState, channel }
  | .mcpServerStartRequested id =>
    updateMcpServerCustomization state id fun entry =>
      { entry with state := .starting, channel := none }
  | .mcpServerStopRequested id =>
    updateMcpServerCustomization state id fun entry =>
      { entry with state := .stopped, channel := none }

end Fumie.AgentHost
