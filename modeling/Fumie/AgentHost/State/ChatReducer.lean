import Fumie.AgentHost.State.ChatState

/-!
# The chat reducer

`chatReducer` folds one chat action into a chat state. An updater of a tool call
returns `none` where the source returns the call it was given, so that a part
counts as updated exactly when the source builds a new object.
-/

namespace Fumie.AgentHost

open Fumie.Lib ResponsePart

/-! ## Tool-call helpers -/

def tcBaseWithMeta (tc : ToolCallState) (_meta : Option Json) : ToolCallBase :=
  { tcBase tc with _meta := _meta.or (tcBase tc)._meta }

def refineToolCallContributor (current next : Option ToolCallContributor) :
    Option ToolCallContributor :=
  match next with
  | none => current
  | some next =>
    match current with
    | some (.client clientId) => if next = .client clientId then some next else current
    | _ =>
      match next with
      | .client _ => current
      | .mcp _ => some next

def resolveSelectedOption (options : Option (List ConfirmationOption)) (id : Option String) :
    Option ConfirmationOption :=
  match id, options with
  | some id, some options => if id = "" then none else options.find? fun o => o.id = id
  | _, _ => none

def ResponsePart.isBlockingToolCall : ResponsePart → Bool
  | .toolCall (.pendingConfirmation _ _ _) => true
  | .toolCall (.pendingResultConfirmation _ _ _ _) => true
  | .toolCall (.authRequired _ _ _ _ _) => true
  | _ => false

def ResponsePart.isOpenInputRequest : ResponsePart → Bool
  | .inputRequest _ none => true
  | _ => false

variable (state : ChatState)

def hasBlockingToolCall : Bool :=
  match state.activeTurn with
  | none => false
  | some turn => turn.responseParts.any isBlockingToolCall

def hasOpenInputRequest : Bool :=
  match state.activeTurn with
  | none => false
  | some turn => turn.responseParts.any isOpenInputRequest

def ResponsePart.openRequest? (requestId : String) : ResponsePart → Option ChatInputRequest
  | .inputRequest request none => if request.id = requestId then some request else none
  | _ => none

def findOpenInputRequestPart (responseParts : List ResponsePart) (requestId : String) :
    Option (Nat × ChatInputRequest) :=
  match responseParts.findIdx? fun part => (part.openRequest? requestId).isSome with
  | none => none
  | some index =>
    (responseParts[index]?.bind (openRequest? requestId)).map fun r => (index, r)

/-! ## Status -/

def summaryStatus (terminalStatus : Option SessionStatus) : SessionStatus :=
  let activity :=
    match terminalStatus with
    | some terminal => terminal
    | none =>
      if hasOpenInputRequest state || hasBlockingToolCall state then SessionStatus.InputNeeded
      else if state.activeTurn.isSome then SessionStatus.InProgress
      else SessionStatus.Idle
  (state.status &&& ~~~STATUS_ACTIVITY_MASK) ||| activity

def refreshSummaryStatus : ChatState :=
  let status := summaryStatus state none
  if status = state.status then state else { state with status }

/-! ## The end of a turn -/

def endToolCall (tc : ToolCallState) : ToolCallState :=
  let skipped : ToolCallCancellation :=
    { reason := .skipped, reasonMessage := none, userSuggestion := none, selectedOption := none }
  match tc with
  | .completed _ _ _ _ => tc
  | .cancelled _ _ _ => tc
  | .streaming _ _ invocationMessage =>
    .cancelled (tcBase tc)
      { invocationMessage := invocationMessage.getD (.string ""), toolInput := none } skipped
  | .pendingConfirmation _ params _ => .cancelled (tcBase tc) params skipped
  | .running _ params _ _ => .cancelled (tcBase tc) params skipped
  | .authRequired _ params _ _ _ => .cancelled (tcBase tc) params skipped
  | .pendingResultConfirmation _ params _ _ => .cancelled (tcBase tc) params skipped

def endPart : ResponsePart → ResponsePart
  | .toolCall tc => .toolCall (endToolCall tc)
  | part => part

def endTurn (turnId : String) (turnState : TurnState) (duration : Int)
    (terminalStatus : Option SessionStatus) (error : Option ErrorInfo) : ChatState :=
  match state.activeTurn with
  | none => state
  | some active =>
    if active.id ≠ turnId then state
    else
      let duration := max 0 duration
      let turn : Turn :=
        { id := active.id, startedAt := some active.startedAt, duration := some duration,
          message := active.message, responseParts := active.responseParts.map endPart,
          usage := active.usage, state := turnState, error }
      let next : ChatState :=
        { state with
          turns := state.turns ++ [turn]
          activeTurn := none
          modifiedAt := addMillisecondsToTimestamp active.startedAt duration }
      { next with status := summaryStatus next terminalStatus }

/-! ## Updates inside the active turn -/

def onActiveTurn (turnId : String) (update : ActiveTurn → ChatState) : ChatState :=
  match state.activeTurn with
  | none => state
  | some activeTurn => if activeTurn.id ≠ turnId then state else update activeTurn

def updateToolCallPart (toolCallId : String) (updater : ToolCallState → Option ToolCallState) :
    ResponsePart → Option ResponsePart
  | .toolCall tc => if tc.toolCallId = toolCallId then (updater tc).map .toolCall else none
  | _ => none

def updateToolCallInParts (turnId toolCallId : String)
    (updater : ToolCallState → Option ToolCallState) : ChatState :=
  onActiveTurn state turnId fun activeTurn =>
    let update := updateToolCallPart toolCallId updater
    if activeTurn.responseParts.any fun part => (update part).isSome then
      { state with activeTurn := some { activeTurn with
          responseParts := activeTurn.responseParts.map fun part => (update part).getD part } }
    else state

def ResponsePart.partId? : ResponsePart → Option String
  | .markdown id _ => some id
  | .reasoning id _ => some id
  | .toolCall tc => some tc.toolCallId
  | _ => none

def updateResponsePart (turnId partId : String)
    (updater : ResponsePart → ResponsePart) : ChatState :=
  onActiveTurn state turnId fun activeTurn =>
    match activeTurn.responseParts.findIdx? fun part => part.partId? = some partId with
    | none => state
    | some index =>
      { state with activeTurn := some { activeTurn with
          responseParts := activeTurn.responseParts.modify index updater } }

def appendResponsePart (turnId : String) (part : ResponsePart) : ChatState :=
  onActiveTurn state turnId fun activeTurn =>
    { state with activeTurn := some { activeTurn with
        responseParts := activeTurn.responseParts ++ [part] } }

def upsertInputRequestPart (request : ChatInputRequest) : ChatState :=
  match state.activeTurn with
  | none => state
  | some activeTurn =>
    let responseParts :=
      match findOpenInputRequestPart activeTurn.responseParts request.id with
      | some (index, existing) =>
        activeTurn.responseParts.set index
          (.inputRequest { request with answers := request.answers.or existing.answers } none)
      | none => activeTurn.responseParts ++ [.inputRequest request none]
    let next : ChatState := { state with activeTurn := some { activeTurn with responseParts } }
    { next with
      status := withStatusFlag (summaryStatus next none) SessionStatus.IsRead false }

def onOpenInputRequest (requestId : String)
    (update : ChatInputRequest → ResponsePart) : Option ChatState :=
  match state.activeTurn with
  | none => none
  | some activeTurn =>
    match findOpenInputRequestPart activeTurn.responseParts requestId with
    | none => none
    | some (index, request) =>
      some { state with activeTurn := some { activeTurn with
        responseParts := activeTurn.responseParts.set index (update request) } }

def nonEmptyAnswers (answers : Record String Payload) : Option (Record String Payload) :=
  if answers.isEmpty then none else some answers

/-! ## The tool-call state machine -/

def toolCallDeltaUpdate (content : Option String) (invocationMessage : Option StringOrMarkdown)
    (_meta : Option Json) (tc : ToolCallState) : Option ToolCallState :=
  match tc with
  | .streaming base partialInput message =>
    some (.streaming { base with _meta := _meta.or base._meta }
      (match content with
        | some content => some (partialInput.getD "" ++ content)
        | none => partialInput)
      (invocationMessage.or message))
  | _ => none

def toolCallReadyUpdate (fields : ToolCallReadyFields) (_meta : Option Json)
    (tc : ToolCallState) : Option ToolCallState :=
  let base : ToolCallBase :=
    { tcBaseWithMeta tc _meta with
      contributor := refineToolCallContributor tc.contributor fields.contributor
      intention := fields.intention.or (tcBase tc).intention }
  let ready (oldInput : Option ToolInput) (pending : Option ToolCallPromptFields) : ToolCallState :=
    let params : ToolCallParameterFields :=
      { invocationMessage := fields.invocationMessage
        toolInput := fields.toolInput.or oldInput }
    match fields.confirmed with
    | some confirmed => .running base params { confirmed, selectedOption := none } none
    | none =>
      .pendingConfirmation base params
        { confirmationTitle := fields.confirmationTitle.or (pending.bind (·.confirmationTitle))
          riskAssessment := fields.riskAssessment.or (pending.bind (·.riskAssessment))
          edits := fields.edits.or (pending.bind (·.edits))
          editable := fields.editable.or (pending.bind (·.editable))
          options := fields.options.or (pending.bind (·.options)) }
  match tc with
  | .streaming _ _ _ => some (ready none none)
  | .running _ params _ _ => some (ready params.toolInput none)
  | .pendingConfirmation _ params prompt => some (ready params.toolInput (some prompt))
  | _ => none

def editToolInput (edited : Option String) (toolInput : Option ToolInput) : Option ToolInput :=
  match edited, toolInput with
  | some edited, some (.inline _) => some (.inline edited)
  | _, _ => toolInput

def toolCallConfirmedUpdate (verdict : ToolCallVerdict) (selectedOptionId : Option String)
    (_meta : Option Json) (tc : ToolCallState) : Option ToolCallState :=
  match tc with
  | .pendingConfirmation _ params prompt =>
    let base := tcBaseWithMeta tc _meta
    let selectedOption := resolveSelectedOption prompt.options selectedOptionId
    match verdict with
    | .approved confirmed edited =>
      some (.running base { params with toolInput := editToolInput edited params.toolInput }
        { confirmed, selectedOption } none)
    | .denied reason userSuggestion reasonMessage =>
      some (.cancelled base params { reason, reasonMessage, userSuggestion, selectedOption })
  | _ => none

def toolCallCompleteUpdate (result : ToolCallResult) (requiresResultConfirmation : Bool)
    (_meta : Option Json) (tc : ToolCallState) : Option ToolCallState :=
  let base := tcBaseWithMeta tc _meta
  let complete (params : ToolCallParameterFields) (post : ToolCallPostConfirmationFields) :
      ToolCallState :=
    if requiresResultConfirmation then .pendingResultConfirmation base params post result
    else .completed base params post result
  match tc with
  | .running _ params post _ => some (complete params post)
  | .pendingConfirmation _ params _ =>
    some (complete params { confirmed := .notNeeded, selectedOption := none })
  | .authRequired _ params post _ preAuthContent =>
    if result.success then none
    else some (.completed base params post
      { result with content := result.content.or preAuthContent })
  | _ => none

def toolCallResultConfirmedUpdate (approved : Bool) (_meta : Option Json)
    (tc : ToolCallState) : Option ToolCallState :=
  match tc with
  | .pendingResultConfirmation _ params post result =>
    let base := tcBaseWithMeta tc _meta
    if approved then some (.completed base params post result)
    else some (.cancelled base params
      { reason := .resultDenied, reasonMessage := none, userSuggestion := none,
        selectedOption := post.selectedOption })
  | _ => none

def toolCallContentChangedUpdate (content : List Payload) (_meta : Option Json)
    (tc : ToolCallState) : Option ToolCallState :=
  match tc with
  | .running base params post _ =>
    some (.running { base with _meta := _meta.or base._meta } params post (some content))
  | _ => none

def toolCallAuthRequiredUpdate (auth : Payload) (_meta : Option Json)
    (tc : ToolCallState) : Option ToolCallState :=
  match tc with
  | .running base params post content =>
    match base.contributor with
    | some (.mcp server) =>
      some (.authRequired { tcBaseWithMeta tc _meta with contributor := server }
        params post auth content)
    | _ => none
  | _ => none

def toolCallAuthResolvedUpdate (_meta : Option Json) (tc : ToolCallState) : Option ToolCallState :=
  match tc with
  | .authRequired _ params post _ content =>
    some (.running (tcBaseWithMeta tc _meta) params post content)
  | _ => none

/-! ## Queued messages -/

def nonEmptyMessages (messages : List PendingMessage) : Option (List PendingMessage) :=
  if messages.isEmpty then none else some messages

def consumePendingMessage (queuedMessageId : Option String) : ChatState :=
  match queuedMessageId with
  | none => state
  | some id =>
    if id = "" then state
    else
      let steeringMessage :=
        if state.steeringMessage.map (·.id) = some id then none else state.steeringMessage
      let queuedMessages :=
        state.queuedMessages.bind fun queued => nonEmptyMessages (queued.filter fun m => m.id ≠ id)
      { state with steeringMessage, queuedMessages }

def setPendingMessage (kind : PendingMessageKind) (entry : PendingMessage) : ChatState :=
  match kind with
  | .steering => { state with steeringMessage := some entry }
  | .queued =>
    let existing := state.queuedMessages.getD []
    match existing.findIdx? fun m => m.id = entry.id with
    | some index => { state with queuedMessages := some (existing.set index entry) }
    | none => { state with queuedMessages := some (existing ++ [entry]) }

def removePendingMessage (kind : PendingMessageKind) (id : String) : ChatState :=
  match kind with
  | .steering =>
    if state.steeringMessage.map (·.id) = some id then { state with steeringMessage := none }
    else state
  | .queued =>
    match state.queuedMessages with
    | none => state
    | some existing =>
      let filtered := existing.filter fun m => m.id ≠ id
      if filtered.length = existing.length then state
      else { state with queuedMessages := nonEmptyMessages filtered }

def reorderMessages (existing : List PendingMessage) (order : List String) : List PendingMessage :=
  let ordered := (order.filter fun id => existing.any fun m => m.id = id).eraseDups
  ordered.filterMap (fun id => existing.reverse.find? fun m => m.id = id) ++
    existing.filter fun m => m.id ∉ ordered

/-! ## The reducer -/

def chatReducer : ChatAction → ChatState
  | .turnStarted turnId startedAt message queuedMessageId =>
    let next : ChatState :=
      { state with
        activeTurn := some { id := turnId, startedAt, message, responseParts := [], usage := none } }
    let next : ChatState :=
      { next with
        status := withStatusFlag (summaryStatus next none) SessionStatus.IsRead false
        modifiedAt := startedAt }
    consumePendingMessage next queuedMessageId
  | .delta turnId partId content =>
    updateResponsePart state turnId partId fun
      | .markdown id old => .markdown id (old ++ content)
      | part => part
  | .responsePart turnId part => appendResponsePart state turnId part
  | .turnComplete turnId duration => endTurn state turnId .complete duration none none
  | .turnCancelled turnId duration => endTurn state turnId .cancelled duration none none
  | .error turnId duration error =>
    endTurn state turnId .error duration (some SessionStatus.Error) (some error)
  | .activityChanged activity => { state with activity }
  | .workingDirectorySet directory =>
    let list := state.workingDirectories.getD []
    if directory ∈ list then state
    else { state with workingDirectories := some (list ++ [directory]) }
  | .workingDirectoryRemoved directory =>
    match state.workingDirectories with
    | none => state
    | some list =>
      if directory ∈ list then { state with workingDirectories := some (list.erase directory) }
      else state
  | .toolCallStart turnId toolCallId toolName displayName intention contributor _meta =>
    appendResponsePart state turnId (.toolCall (.streaming
      { toolCallId, toolName, displayName, intention, contributor, _meta } none none))
  | .toolCallDelta turnId toolCallId content invocationMessage _meta =>
    updateToolCallInParts state turnId toolCallId
      (toolCallDeltaUpdate content invocationMessage _meta)
  | .toolCallReady turnId toolCallId fields _meta =>
    refreshSummaryStatus (updateToolCallInParts state turnId toolCallId
      (toolCallReadyUpdate fields _meta))
  | .toolCallConfirmed turnId toolCallId verdict selectedOptionId _meta =>
    refreshSummaryStatus (updateToolCallInParts state turnId toolCallId
      (toolCallConfirmedUpdate verdict selectedOptionId _meta))
  | .toolCallComplete turnId toolCallId result requiresResultConfirmation _meta =>
    refreshSummaryStatus (updateToolCallInParts state turnId toolCallId
      (toolCallCompleteUpdate result requiresResultConfirmation _meta))
  | .toolCallResultConfirmed turnId toolCallId approved _meta =>
    refreshSummaryStatus (updateToolCallInParts state turnId toolCallId
      (toolCallResultConfirmedUpdate approved _meta))
  | .toolCallContentChanged turnId toolCallId content _meta =>
    updateToolCallInParts state turnId toolCallId (toolCallContentChangedUpdate content _meta)
  | .toolCallAuthRequired turnId toolCallId auth _meta =>
    refreshSummaryStatus (updateToolCallInParts state turnId toolCallId
      (toolCallAuthRequiredUpdate auth _meta))
  | .toolCallAuthResolved turnId toolCallId _meta =>
    refreshSummaryStatus (updateToolCallInParts state turnId toolCallId
      (toolCallAuthResolvedUpdate _meta))
  | .usage turnId usage =>
    onActiveTurn state turnId fun activeTurn =>
      { state with activeTurn := some { activeTurn with usage := some usage } }
  | .reasoning turnId partId content =>
    updateResponsePart state turnId partId fun
      | .reasoning id old => .reasoning id (old ++ content)
      | part => part
  | .truncated none =>
    let next : ChatState := { state with turns := [], activeTurn := none, turnsNextCursor := none }
    { next with status := summaryStatus next none }
  | .truncated (some turnId) =>
    match state.turns.findIdx? fun t => t.id = turnId with
    | none => state
    | some index =>
      let next : ChatState :=
        { state with turns := state.turns.take (index + 1), activeTurn := none }
      { next with status := summaryStatus next none }
  | .turnsLoaded turns turnsNextCursor =>
    let olderTurns := turns.filter fun turn => turn.id ∉ state.turns.map (·.id)
    { state with turns := olderTurns ++ state.turns, turnsNextCursor }
  | .inputRequested request => upsertInputRequestPart state request
  | .inputAnswerChanged requestId questionId answer =>
    (onOpenInputRequest state requestId fun request =>
      let answers := request.answers.getD .empty
      let answers :=
        match answer with
        | none => answers.delete questionId
        | some answer => answers.set questionId answer
      .inputRequest { request with answers := nonEmptyAnswers answers } none).getD state
  | .inputCompleted requestId response answers =>
    match onOpenInputRequest state requestId fun request =>
        let finalAnswers := (request.answers.getD .empty).merge (answers.getD .empty)
        .inputRequest { request with answers := nonEmptyAnswers finalAnswers } (some response) with
    | none => state
    | some next => { next with status := summaryStatus next none }
  | .pendingMessageSet kind id message => setPendingMessage state kind { id, message }
  | .pendingMessageRemoved kind id => removePendingMessage state kind id
  | .queuedMessagesReordered order =>
    match state.queuedMessages with
    | none => state
    | some existing => { state with queuedMessages := some (reorderMessages existing order) }
  | .draftChanged draft => { state with draft }

end Fumie.AgentHost
