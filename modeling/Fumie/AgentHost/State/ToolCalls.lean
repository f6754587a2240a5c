import Fumie.Lib.Runs
import Fumie.AgentHost.State.ChatStatus

/-!
# The life of a tool call

One action does one of five things to the tool calls of a chat (`CallsStep`): nothing,
clearing the active turn, starting a call, updating the calls with one id, or ending
the turn. Where calls enter through `toolCallStart` only and ids are not used twice, a
call is followed by its id, and `Evolves` says what a single action makes of it.
-/

namespace Fumie.AgentHost

open Fumie.Lib List

/-! ## The tool calls of a chat -/

def ResponsePart.toolCall? : ResponsePart → Option ToolCallState
  | .toolCall tc => some tc
  | _ => none

def toolCallsOf (parts : List ResponsePart) : List ToolCallState :=
  parts.filterMap ResponsePart.toolCall?

def activeCalls (state : ChatState) : List ToolCallState :=
  match state.activeTurn with
  | none => []
  | some turn => toolCallsOf turn.responseParts

def endedCalls (state : ChatState) : List ToolCallState :=
  state.turns.flatMap fun turn => toolCallsOf turn.responseParts

def chatCalls (state : ChatState) : List ToolCallState := activeCalls state ++ endedCalls state

namespace ToolCallState

def isTerminal : ToolCallState → Bool
  | .completed _ _ _ _ => true
  | .cancelled _ _ _ => true
  | _ => false

def isPendingConfirmation : ToolCallState → Bool
  | .pendingConfirmation _ _ _ => true
  | _ => false

def isRunning : ToolCallState → Bool
  | .running _ _ _ _ => true
  | _ => false

def isPendingResultConfirmation : ToolCallState → Bool
  | .pendingResultConfirmation _ _ _ _ => true
  | _ => false

def isAuthRequired : ToolCallState → Bool
  | .authRequired _ _ _ _ _ => true
  | _ => false

/-- Completed with a failed result, or cancelled. -/
def isUnsuccessful : ToolCallState → Bool
  | .completed _ _ _ result => !result.success
  | .cancelled _ _ _ => true
  | _ => false

end ToolCallState

def clientOf : Option ToolCallContributor → Option ClientId
  | some (.client clientId) => some clientId
  | _ => none

/-! ## Updates of one call -/

def ChatAction.toolCallUpdate? :
    ChatAction → Option (String × String × (ToolCallState → Option ToolCallState))
  | .toolCallDelta turnId toolCallId content invocationMessage _meta =>
    some (turnId, toolCallId, toolCallDeltaUpdate content invocationMessage _meta)
  | .toolCallReady turnId toolCallId fields _meta =>
    some (turnId, toolCallId, toolCallReadyUpdate fields _meta)
  | .toolCallConfirmed turnId toolCallId verdict selectedOptionId _meta =>
    some (turnId, toolCallId, toolCallConfirmedUpdate verdict selectedOptionId _meta)
  | .toolCallComplete turnId toolCallId result requiresResultConfirmation _meta =>
    some (turnId, toolCallId, toolCallCompleteUpdate result requiresResultConfirmation _meta)
  | .toolCallResultConfirmed turnId toolCallId approved _meta =>
    some (turnId, toolCallId, toolCallResultConfirmedUpdate approved _meta)
  | .toolCallContentChanged turnId toolCallId content _meta =>
    some (turnId, toolCallId, toolCallContentChangedUpdate content _meta)
  | .toolCallAuthRequired turnId toolCallId auth _meta =>
    some (turnId, toolCallId, toolCallAuthRequiredUpdate auth _meta)
  | .toolCallAuthResolved turnId toolCallId _meta =>
    some (turnId, toolCallId, toolCallAuthResolvedUpdate _meta)
  | _ => none

def ChatAction.endsTurn? : ChatAction → Option String
  | .turnComplete turnId _ => some turnId
  | .turnCancelled turnId _ => some turnId
  | .error turnId _ _ => some turnId
  | _ => none

def ChatAction.approves (toolCallId : String) : ChatAction → Prop
  | .toolCallConfirmed _ id (.approved _ _) _ _ => id = toolCallId
  | .toolCallReady _ id fields _ => id = toolCallId ∧ fields.confirmed.isSome = true
  | _ => False

def ChatAction.confirmsResult (toolCallId : String) : ChatAction → Prop
  | .toolCallResultConfirmed _ id _ _ => id = toolCallId
  | _ => False

def ChatAction.resolvesAuth (toolCallId : String) : ChatAction → Prop
  | .toolCallAuthResolved _ id _ => id = toolCallId
  | _ => False

theorem clientOf_refine (current next : Option ToolCallContributor) :
    clientOf (refineToolCallContributor current next) = clientOf current := by
  unfold refineToolCallContributor
  cases next with
  | none => rfl
  | some next =>
    cases current with
    | none => cases next <;> rfl
    | some current =>
      cases current with
      | client clientId =>
        simp only
        split
        · rename_i h
          rw [h]
        · rfl
      | mcp server => cases next <;> rfl

structure UpdateSpec (action : ChatAction) (tc tc' : ToolCallState) : Prop where
  id : tc'.toolCallId = tc.toolCallId
  client : clientOf tc'.contributor = clientOf tc.contributor
  open_ : tc.isTerminal = false
  approved : tc.isPendingConfirmation = true → tc'.isRunning = true → action.approves tc.toolCallId
  result : tc.isPendingResultConfirmation = true → action.confirmsResult tc.toolCallId
  auth : tc.isAuthRequired = true → tc'.isPendingResultConfirmation = false ∧
    (action.resolvesAuth tc.toolCallId ∨ tc'.isUnsuccessful = true)

variable {turnId toolCallId : String} {tc tc' : ToolCallState} {f : ResponsePart → ResponsePart}

theorem updateSpec {action : ChatAction} {updater : ToolCallState → Option ToolCallState}
    (haction : action.toolCallUpdate? = some (turnId, toolCallId, updater))
    (hid : tc.toolCallId = toolCallId) (h : updater tc = some tc') : UpdateSpec action tc tc' := by
  subst hid
  cases action with
  | toolCallDelta _ _ content invocationMessage _meta =>
    cases haction
    cases tc with
    | streaming =>
      cases h
      exact ⟨rfl, rfl, rfl, nofun, nofun, nofun⟩
    | _ => cases h
  | toolCallReady _ id fields _meta =>
    cases haction
    have hclient := clientOf_refine tc.contributor fields.contributor
    cases hconfirmed : fields.confirmed with
    | none =>
      cases tc with
      | streaming | running | pendingConfirmation =>
        simp only [toolCallReadyUpdate, hconfirmed] at h
        cases h
        exact ⟨rfl, hclient, rfl, nofun, nofun, nofun⟩
      | _ => cases h
    | some confirmed =>
      have hsome : fields.confirmed.isSome = true := by
        rw [hconfirmed]
        rfl
      cases tc with
      | streaming | running | pendingConfirmation =>
        simp only [toolCallReadyUpdate, hconfirmed] at h
        cases h
        exact ⟨rfl, hclient, rfl, fun _ _ => ⟨rfl, hsome⟩, nofun, nofun⟩
      | _ => cases h
  | toolCallConfirmed _ id verdict selectedOptionId _meta =>
    cases haction
    cases tc with
    | pendingConfirmation =>
      cases verdict with
      | approved =>
        cases h
        exact ⟨rfl, rfl, rfl, fun _ _ => rfl, nofun, nofun⟩
      | denied =>
        cases h
        exact ⟨rfl, rfl, rfl, nofun, nofun, nofun⟩
    | _ => cases h
  | toolCallComplete _ id result requiresResultConfirmation _meta =>
    cases haction
    cases tc with
    | running | pendingConfirmation =>
      cases requiresResultConfirmation with
      | true | false =>
        cases h
        exact ⟨rfl, rfl, rfl, nofun, nofun, nofun⟩
    | authRequired =>
      cases hsuccess : result.success with
      | true =>
        simp only [toolCallCompleteUpdate, hsuccess, if_true] at h
        cases h
      | false =>
        simp only [toolCallCompleteUpdate, hsuccess] at h
        cases h
        refine ⟨rfl, rfl, rfl, nofun, nofun, fun _ => ⟨rfl, .inr ?_⟩⟩
        simp only [ToolCallState.isUnsuccessful, Bool.not_false]
    | _ => cases h
  | toolCallResultConfirmed _ id approved _meta =>
    cases haction
    cases tc with
    | pendingResultConfirmation =>
      cases approved with
      | true | false =>
        cases h
        exact ⟨rfl, rfl, rfl, nofun, fun _ => rfl, nofun⟩
    | _ => cases h
  | toolCallContentChanged _ id content _meta =>
    cases haction
    cases tc with
    | running =>
      cases h
      exact ⟨rfl, rfl, rfl, nofun, nofun, nofun⟩
    | _ => cases h
  | toolCallAuthRequired _ id auth _meta =>
    cases haction
    cases tc with
    | running base params post content =>
      unfold toolCallAuthRequiredUpdate at h
      simp only at h
      split at h
      · rename_i server hcontributor
        cases h
        refine ⟨rfl, ?_, rfl, nofun, nofun, nofun⟩
        show clientOf (some (.mcp server)) = clientOf base.contributor
        rw [hcontributor]
      · cases h
    | _ => cases h
  | toolCallAuthResolved _ id _meta =>
    cases haction
    cases tc with
    | authRequired =>
      cases h
      exact ⟨rfl, rfl, rfl, nofun, nofun, fun _ => ⟨rfl, .inl rfl⟩⟩
    | _ => cases h
  | _ => cases haction

theorem endToolCall_spec (tc : ToolCallState) : (endToolCall tc).toolCallId = tc.toolCallId ∧
    clientOf (endToolCall tc).contributor = clientOf tc.contributor ∧
    (endToolCall tc).isTerminal = true ∧ (tc.isTerminal = true → endToolCall tc = tc) ∧
    (tc.isTerminal = false → ∃ base params cancellation,
      endToolCall tc = .cancelled base params cancellation) := by
  cases tc with
  | completed | cancelled => exact ⟨rfl, rfl, rfl, fun _ => rfl, nofun⟩
  | _ => exact ⟨rfl, rfl, rfl, nofun, fun _ => ⟨_, _, _, rfl⟩⟩

/-! ## One action on all calls -/

def applyTo (toolCallId : String) (updater : ToolCallState → Option ToolCallState)
    (tc : ToolCallState) : ToolCallState :=
  if tc.toolCallId = toolCallId then (updater tc).getD tc else tc

inductive CallsStep (state next : ChatState) (action : ChatAction) : Prop where
  | kept (hactive : activeCalls next = activeCalls state)
      (hended : endedCalls next = endedCalls state)
  /-- A new turn takes the place of the active one, or the chat is truncated. -/
  | cleared (hactive : activeCalls next = []) (hended : endedCalls next <+: endedCalls state)
  | started (turnId toolCallId toolName displayName : String) (intention : Option String)
      (contributor : Option ToolCallContributor) (_meta : Option Json)
      (haction : action = .toolCallStart turnId toolCallId toolName displayName intention
        contributor _meta)
      (hid : state.activeTurn.map (·.id) = some turnId)
      (hactive : activeCalls next = activeCalls state ++ [.streaming
        { toolCallId, toolName, displayName, intention, contributor, _meta } none none])
      (hended : endedCalls next = endedCalls state)
  | updated (turnId toolCallId : String) (updater : ToolCallState → Option ToolCallState)
      (haction : action.toolCallUpdate? = some (turnId, toolCallId, updater))
      (hactive : activeCalls next = (activeCalls state).map (applyTo toolCallId updater))
      (hended : endedCalls next = endedCalls state)
  | ended (turnId : String) (haction : action.endsTurn? = some turnId)
      (hid : state.activeTurn.map (·.id) = some turnId) (hactive : activeCalls next = [])
      (hended : endedCalls next = endedCalls state ++ (activeCalls state).map endToolCall)

theorem toolCallsOf_append (parts parts' : List ResponsePart) :
    toolCallsOf (parts ++ parts') = toolCallsOf parts ++ toolCallsOf parts' :=
  filterMap_append

theorem toolCallsOf_map {g : ToolCallState → ToolCallState}
    (hf : ∀ part, (f part).toolCall? = part.toolCall?.map g) (parts : List ResponsePart) :
    toolCallsOf (parts.map f) = (toolCallsOf parts).map g := by
  unfold toolCallsOf
  rw [filterMap_map, map_filterMap]
  congr 1
  funext part
  exact hf part

theorem toolCallsOf_modify (hf : ∀ part, (f part).toolCall? = part.toolCall?)
    (parts : List ResponsePart) (index : Nat) :
    toolCallsOf (parts.modify index f) = toolCallsOf parts := by
  induction parts generalizing index with
  | nil => cases index <;> rfl
  | cons part rest ih =>
    unfold toolCallsOf at ih ⊢
    cases index with
    | zero =>
      rw [modify_zero_cons]
      simp only [filterMap_cons, hf]
    | succ index =>
      rw [modify_succ_cons]
      simp only [filterMap_cons, ih]

theorem toolCallsOf_set {parts : List ResponsePart} {index : Nat} {part part' : ResponsePart}
    (h : parts[index]? = some part) (hpart : part'.toolCall? = part.toolCall?) :
    toolCallsOf (parts.set index part') = toolCallsOf parts := by
  induction parts generalizing index with
  | nil => cases h
  | cons first rest ih =>
    unfold toolCallsOf at ih ⊢
    cases index with
    | zero =>
      cases h
      simp only [set_cons_zero, filterMap_cons, hpart]
    | succ index =>
      simp only [set_cons_succ, filterMap_cons, ih h]

variable {state : ChatState}

theorem activeCalls_some {turn : ActiveTurn} (h : state.activeTurn = some turn) :
    activeCalls state = toolCallsOf turn.responseParts := by
  unfold activeCalls
  rw [h]

variable {next : ChatState}

theorem endedCalls_congr (h : next.turns = state.turns) : endedCalls next = endedCalls state := by
  unfold endedCalls
  rw [h]

theorem activeCalls_congr (h : next.activeTurn = state.activeTurn) :
    activeCalls next = activeCalls state := by
  unfold activeCalls
  rw [h]

section CallsStep

variable {state : ChatState} {action : ChatAction}

theorem CallsStep.same (hturn : next.activeTurn = state.activeTurn)
    (hturns : next.turns = state.turns) : CallsStep state next action :=
  .kept (activeCalls_congr hturn) (endedCalls_congr hturns)

theorem CallsStep.parts {turn turn' : ActiveTurn} (hturn : state.activeTurn = some turn)
    (hturn' : next.activeTurn = some turn') (hturns : next.turns = state.turns)
    (hcalls : toolCallsOf turn'.responseParts = toolCallsOf turn.responseParts) :
    CallsStep state next action := by
  refine .kept ?_ (endedCalls_congr hturns)
  rw [activeCalls_some hturn, activeCalls_some hturn', hcalls]

theorem toolCall?_update (toolCallId : String) (updater : ToolCallState → Option ToolCallState)
    (part : ResponsePart) : ((updateToolCallPart toolCallId updater part).getD part).toolCall? =
      part.toolCall?.map (applyTo toolCallId updater) := by
  cases part with
  | toolCall tc =>
    show ((if tc.toolCallId = toolCallId then (updater tc).map ResponsePart.toolCall
      else none).getD (.toolCall tc)).toolCall? = some (applyTo toolCallId updater tc)
    unfold applyTo
    split
    · cases updater tc with
      | none | some _ => rfl
    · rfl
  | _ => rfl

theorem toolCall?_endPart (part : ResponsePart) :
    (endPart part).toolCall? = part.toolCall?.map endToolCall := by
  cases part with
  | _ => rfl

theorem calls_updateToolCall {updater : ToolCallState → Option ToolCallState}
    (haction : action.toolCallUpdate? = some (turnId, toolCallId, updater)) :
    CallsStep state (updateToolCallInParts state turnId toolCallId updater) action := by
  unfold updateToolCallInParts
  rcases onActiveTurn_cases state turnId _ with h | ⟨turn, hturn, -, h⟩
  · rw [h]
    exact .same rfl rfl
  · rw [h]
    simp only
    split
    · refine .updated turnId toolCallId updater haction ?_ rfl
      rw [activeCalls_some hturn]
      exact toolCallsOf_map (toolCall?_update toolCallId updater) turn.responseParts
    · exact .same rfl rfl

theorem calls_updatePart (turnId partId : String) {updater : ResponsePart → ResponsePart}
    (hupdater : ∀ part, (updater part).toolCall? = part.toolCall?) :
    CallsStep state (updateResponsePart state turnId partId updater) action := by
  unfold updateResponsePart
  rcases onActiveTurn_cases state turnId _ with h | ⟨turn, hturn, -, h⟩
  · rw [h]
    exact .same rfl rfl
  · rw [h]
    split
    · exact .same rfl rfl
    · exact .parts hturn rfl rfl (toolCallsOf_modify hupdater _ _)

theorem calls_endTurn (haction : action.endsTurn? = some turnId) (turnState : TurnState)
    (duration : Int) (terminalStatus : Option SessionStatus) (error : Option ErrorInfo) :
    CallsStep state (endTurn state turnId turnState duration terminalStatus error) action := by
  rcases endTurn_cases state turnId turnState duration terminalStatus error with
    h | ⟨turn, hturn, rfl, h⟩
  · rw [h]
    exact .same rfl rfl
  · rw [h]
    refine .ended turn.id haction ?_ rfl ?_
    · rw [hturn]
      rfl
    · show (state.turns ++ [_]).flatMap _ = state.turns.flatMap _ ++ _
      rw [flatMap_append, flatMap_singleton, activeCalls_some hturn]
      exact congrArg _ (toolCallsOf_map toolCall?_endPart turn.responseParts)

theorem CallsStep.refresh {next : ChatState} (h : CallsStep state next action) :
    CallsStep state (refreshSummaryStatus next) action := by
  rw [refreshSummaryStatus_eq]
  cases h with
  | kept hactive hended => exact .kept hactive hended
  | cleared hactive hended => exact .cleared hactive hended
  | started turnId toolCallId toolName displayName intention contributor _meta haction hid hactive
      hended =>
    exact .started turnId toolCallId toolName displayName intention contributor _meta haction hid
      hactive hended
  | updated turnId toolCallId updater haction hactive hended =>
    exact .updated turnId toolCallId updater haction hactive hended
  | ended turnId haction hid hactive hended => exact .ended turnId haction hid hactive hended

end CallsStep

def ChatAction.carriesNoCall : ChatAction → Bool
  | .responsePart _ part => part.toolCall?.isNone
  | .turnsLoaded turns _ => turns.all fun turn => (toolCallsOf turn.responseParts).isEmpty
  | _ => true

theorem consumePendingMessage_turns (state : ChatState) (queued : Option String) :
    (consumePendingMessage state queued).turns = state.turns := by
  unfold consumePendingMessage
  split
  · rfl
  · split
    · rfl
    · rfl

theorem chatReducer_calls (state : ChatState) {action : ChatAction}
    (hcarries : action.carriesNoCall = true) :
    CallsStep state (chatReducer state action) action := by
  have haside := @chatReducer_aside state action
  cases action with
  | turnStarted turnId startedAt message queued =>
    have hended : endedCalls (chatReducer state (.turnStarted turnId startedAt message queued)) =
        endedCalls state := endedCalls_congr (consumePendingMessage_turns _ queued)
    refine .cleared (activeCalls_congr (consumePendingMessage_frame _ queued).2) ?_
    exact hended.symm ▸ prefix_rfl
  | delta _ _ _ | reasoning _ _ _ =>
    refine calls_updatePart _ _ fun part => ?_
    cases part with
    | _ => rfl
  | responsePart turnId part =>
    show CallsStep state (appendResponsePart state turnId part) _
    unfold appendResponsePart
    rcases onActiveTurn_cases state turnId _ with h | ⟨turn, hturn, rfl, h⟩
    · rw [h]
      exact .same rfl rfl
    · rw [h]
      refine .parts hturn rfl rfl ?_
      have hnone : part.toolCall? = none := Option.isNone_iff_eq_none.mp hcarries
      rw [toolCallsOf_append]
      unfold toolCallsOf
      simp only [filterMap_cons, hnone, filterMap_nil, append_nil]
  | toolCallStart turnId toolCallId toolName displayName intention contributor _meta =>
    show CallsStep state (appendResponsePart state turnId _) _
    unfold appendResponsePart
    rcases onActiveTurn_cases state turnId _ with h | ⟨turn, hturn, rfl, h⟩
    · rw [h]
      exact .same rfl rfl
    · rw [h]
      refine .started turn.id toolCallId toolName displayName intention contributor _meta rfl ?_ ?_
        rfl
      · rw [hturn]
        rfl
      · rw [activeCalls_some hturn]
        exact toolCallsOf_append _ _
  | toolCallDelta turnId toolCallId content invocationMessage _meta =>
    exact calls_updateToolCall rfl
  | toolCallContentChanged turnId toolCallId content _meta => exact calls_updateToolCall rfl
  | toolCallReady _ _ _ _ | toolCallConfirmed _ _ _ _ _ | toolCallComplete _ _ _ _ _
  | toolCallResultConfirmed _ _ _ _ | toolCallAuthRequired _ _ _ _ | toolCallAuthResolved _ _ _ =>
    exact (calls_updateToolCall rfl).refresh
  | turnComplete _ _ | turnCancelled _ _ | error _ _ _ => exact calls_endTurn rfl _ _ _ _
  | usage turnId usage =>
    show CallsStep state (onActiveTurn state turnId _) _
    rcases onActiveTurn_cases state turnId _ with h | ⟨turn, hturn, -, h⟩
    · rw [h]
      exact .same rfl rfl
    · rw [h]
      exact .parts hturn rfl rfl rfl
  | truncated turnId =>
    cases turnId with
    | none => exact .cleared rfl nil_prefix
    | some turnId =>
      unfold chatReducer
      simp only
      split
      · exact .same rfl rfl
      · rename_i index _
        refine .cleared rfl ⟨(state.turns.drop (index + 1)).flatMap
          fun turn => toolCallsOf turn.responseParts, ?_⟩
        show (state.turns.take (index + 1)).flatMap _ ++ _ = state.turns.flatMap _
        rw [← List.flatMap_append, take_append_drop]
  | inputRequested request =>
    unfold chatReducer upsertInputRequestPart
    simp only
    split
    · exact .same rfl rfl
    · rename_i turn hturn
      split
      · rename_i index existing hfind
        exact .parts hturn rfl rfl (toolCallsOf_set (getElem?_findOpenInputRequestPart hfind).1 rfl)
      · refine .parts hturn rfl rfl ?_
        rw [toolCallsOf_append]
        exact append_nil _
  | inputAnswerChanged requestId questionId answer =>
    unfold chatReducer
    simp only
    cases h : onOpenInputRequest state requestId _ with
    | none => exact .same rfl rfl
    | some next =>
      obtain ⟨turn, index, request, hturn, hget, rfl⟩ := onOpenInputRequest_some h
      exact .parts hturn rfl rfl (toolCallsOf_set hget rfl)
  | inputCompleted requestId response answers =>
    unfold chatReducer
    simp only
    split
    · exact .same rfl rfl
    · rename_i next h
      obtain ⟨turn, index, request, hturn, hget, rfl⟩ := onOpenInputRequest_some h
      exact .parts hturn rfl rfl (toolCallsOf_set hget rfl)
  | turnsLoaded turns cursor =>
    refine .kept rfl ?_
    show (_ ++ state.turns).flatMap _ = state.turns.flatMap _
    rw [List.flatMap_append]
    refine append_left_eq_self.mpr ?_
    rw [flatMap_eq_nil_iff]
    intro turn hmem
    exact List.isEmpty_iff.mp (all_eq_true.mp hcarries turn (mem_of_mem_filter hmem))
  | activityChanged _ | workingDirectorySet _ | workingDirectoryRemoved _ | pendingMessageSet _ _ _
  | pendingMessageRemoved _ _ | queuedMessagesReordered _ | draftChanged _ =>
    obtain ⟨_, _, _, _, _, h⟩ := haside rfl
    rw [h]
    exact .same rfl rfl

/-! ## Runs in which calls enter by their start -/

structure StartedChat where
  state : ChatState
  started : List (String × Option ClientId)

namespace StartedChat

def step (s : StartedChat) (action : ChatAction) : Option StartedChat :=
  let next := chatReducer s.state action
  if action.carriesNoCall then
    match action with
    | .toolCallStart turnId toolCallId _ _ _ contributor _ =>
      if s.state.activeTurn.map (·.id) = some turnId then
        if toolCallId ∈ s.started.map Prod.fst then none
        else some ⟨next, (toolCallId, clientOf contributor) :: s.started⟩
      else some ⟨next, s.started⟩
    | _ => some ⟨next, s.started⟩
  else none

def system (summary : ChatSummary) : System StartedChat ChatAction :=
  .ofStep (fun s => s = ⟨createChatState summary, []⟩) step

structure Tracked (s : StartedChat) : Prop where
  nodup : ((chatCalls s.state).map ToolCallState.toolCallId).Nodup
  started : ∀ tc ∈ chatCalls s.state, (tc.toolCallId, clientOf tc.contributor) ∈ s.started
  unique : (s.started.map Prod.fst).Nodup
  ended : ∀ tc ∈ endedCalls s.state, tc.isTerminal = true

inductive Evolves (state : ChatState) (action : ChatAction) (tc tc' : ToolCallState) : Prop where
  | same (h : tc' = tc)
  | updated (h : UpdateSpec action tc tc')
  | ended (turnId : String) (haction : action.endsTurn? = some turnId)
      (hid : state.activeTurn.map (·.id) = some turnId) (h : tc' = endToolCall tc)

variable {updater : ToolCallState → Option ToolCallState}

theorem applyTo_evolves {action : ChatAction}
    (haction : action.toolCallUpdate? = some (turnId, toolCallId, updater)) (tc : ToolCallState) :
    Evolves state action tc (applyTo toolCallId updater tc) := by
  unfold applyTo
  split
  · rename_i hid
    cases h : updater tc with
    | none => exact .same rfl
    | some tc' => exact .updated (updateSpec haction hid h)
  · exact .same rfl

theorem Evolves.id {state : ChatState} {action : ChatAction} (h : Evolves state action tc tc') :
    tc'.toolCallId = tc.toolCallId ∧
      clientOf tc'.contributor = clientOf tc.contributor := by
  cases h with
  | same h =>
    rw [h]
    exact ⟨rfl, rfl⟩
  | updated h => exact ⟨h.id, h.client⟩
  | ended turnId haction hid h =>
    rw [h]
    exact ⟨(endToolCall_spec tc).1, (endToolCall_spec tc).2.1⟩

inductive StepSpec (s s' : StartedChat) (action : ChatAction) : Prop where
  /-- Every call comes from one with its id. -/
  | evolved (f : ToolCallState → ToolCallState)
      (hf : ∀ tc ∈ chatCalls s.state, Evolves s.state action tc (f tc))
      (calls : List ToolCallState) (hperm : (chatCalls s'.state).Perm calls)
      (hcalls : calls.Sublist ((chatCalls s.state).map f))
      (hended : ∀ tc ∈ endedCalls s'.state, tc.isTerminal = true)
      (hstarted : s.started <:+ s'.started)
  | started (tc : ToolCallState) (hnew : tc.toolCallId ∉ s.started.map Prod.fst)
      (hcalls : (chatCalls s'.state).Perm (tc :: chatCalls s.state))
      (hended : endedCalls s'.state = endedCalls s.state)
      (hstarted : s'.started = (tc.toolCallId, clientOf tc.contributor) :: s.started)

variable {s s' : StartedChat} {action : ChatAction}

theorem applyTo_terminal (haction : action.toolCallUpdate? = some (turnId, toolCallId, updater))
    (htc : tc.isTerminal = true) : applyTo toolCallId updater tc = tc := by
  unfold applyTo
  split
  · rename_i hid
    cases h : updater tc with
    | none => rfl
    | some tc' =>
      have hopen := (updateSpec haction hid h).open_
      rw [htc] at hopen
      cases hopen
  · rfl

theorem step_started (h : step s action = some s') : s'.state = chatReducer s.state action ∧
    action.carriesNoCall = true ∧ s.started <:+ s'.started ∧
    ((s.started.map Prod.fst).Nodup → (s'.started.map Prod.fst).Nodup) ∧
    ∀ turnId toolCallId toolName displayName intention contributor _meta,
      action = .toolCallStart turnId toolCallId toolName displayName intention contributor _meta →
      s.state.activeTurn.map (·.id) = some turnId →
      toolCallId ∉ s.started.map Prod.fst ∧
        s'.started = (toolCallId, clientOf contributor) :: s.started := by
  unfold step at h
  obtain ⟨hcarries, h⟩ := Option.ite_none_right_eq_some.mp h
  split at h
  · rename_i turnId toolCallId toolName displayName intention contributor _meta
    split at h
    · rename_i hid
      obtain ⟨hnew, h⟩ := Option.ite_none_left_eq_some.mp h
      cases h
      refine ⟨rfl, hcarries, suffix_cons _ _, fun hs => nodup_cons.mpr ⟨hnew, hs⟩, ?_⟩
      intro _ _ _ _ _ _ _ heq _
      cases heq
      exact ⟨hnew, rfl⟩
    · rename_i hid
      cases h
      refine ⟨rfl, hcarries, suffix_rfl, id, ?_⟩
      intro _ _ _ _ _ _ _ heq hid'
      cases heq
      exact absurd hid' hid
  · rename_i hstart
    cases h
    refine ⟨rfl, hcarries, suffix_rfl, id, ?_⟩
    intro _ _ _ _ _ _ _ heq
    exact absurd heq (hstart _ _ _ _ _ _ _)

theorem stepSpec (hs : Tracked s) (h : step s action = some s') : StepSpec s s' action := by
  obtain ⟨hstate, hcarries, hstarted, -, hstart⟩ := step_started h
  have hcalls := chatReducer_calls s.state hcarries
  rw [← hstate] at hcalls
  cases hcalls with
  | kept hactive hended =>
    refine .evolved id (fun tc _ => .same rfl) _ (List.Perm.refl _) ?_ ?_ hstarted
    · unfold chatCalls
      rw [hactive, hended, map_id]
    · rw [hended]
      exact hs.ended
  | cleared hactive hended =>
    refine .evolved id (fun tc _ => .same rfl) _ (List.Perm.refl _) ?_ ?_ hstarted
    · unfold chatCalls
      rw [hactive, map_id]
      exact hended.sublist.trans (sublist_append_right _ _)
    · exact fun tc htc => hs.ended tc (hended.subset htc)
  | started turnId toolCallId toolName displayName intention contributor _meta haction hid hactive
      hended =>
    obtain ⟨hnew, hcons⟩ := hstart _ _ _ _ _ _ _ haction hid
    refine .started (.streaming
      { toolCallId, toolName, displayName, intention, contributor, _meta } none none)
      hnew ?_ hended hcons
    unfold chatCalls
    rw [hactive, hended, append_assoc]
    exact perm_middle
  | updated turnId toolCallId updater haction hactive hended =>
    refine .evolved (applyTo toolCallId updater) (fun tc _ => applyTo_evolves haction tc) _
      (List.Perm.refl _) ?_ ?_ hstarted
    · unfold chatCalls
      have hkept : (endedCalls s.state).map (applyTo toolCallId updater) = endedCalls s.state :=
        (map_congr_left fun tc htc => applyTo_terminal haction (hs.ended tc htc)).trans (map_id _)
      rw [hactive, hended, map_append, hkept]
    · rw [hended]
      exact hs.ended
  | ended turnId haction hid hactive hended =>
    refine .evolved endToolCall (fun tc _ => .ended turnId haction hid rfl)
      ((chatCalls s.state).map endToolCall) ?_ (List.Sublist.refl _) ?_ hstarted
    · have hkept : (endedCalls s.state).map endToolCall = endedCalls s.state :=
        (map_congr_left fun tc htc =>
          (endToolCall_spec tc).2.2.2.1 (hs.ended tc htc)).trans (map_id _)
      unfold chatCalls
      rw [hactive, hended, map_append, hkept, nil_append]
      exact perm_append_comm
    · intro tc htc
      rw [hended] at htc
      rcases mem_append.mp htc with htc | htc
      · exact hs.ended tc htc
      · obtain ⟨tc, -, rfl⟩ := mem_map.mp htc
        exact (endToolCall_spec tc).2.2.1

theorem tracked_step (hs : Tracked s) (h : step s action = some s') : Tracked s' := by
  have hunique := (step_started h).2.2.2.1 hs.unique
  cases stepSpec hs h with
  | evolved f hf calls hperm hcalls hended hstarted =>
    have hids : ((chatCalls s.state).map f).map ToolCallState.toolCallId =
        (chatCalls s.state).map ToolCallState.toolCallId := by
      rw [map_map]
      exact map_congr_left fun tc htc => (hf tc htc).id.1
    refine ⟨?_, fun tc' htc' => ?_, hunique, hended⟩
    · have hnodup := (hcalls.map ToolCallState.toolCallId).nodup (hids ▸ hs.nodup)
      exact (hperm.map _).nodup_iff.mpr hnodup
    · obtain ⟨tc, htc, rfl⟩ := mem_map.mp (hcalls.subset (hperm.subset htc'))
      rw [(hf tc htc).id.1, (hf tc htc).id.2]
      exact hstarted.subset (hs.started tc htc)
  | started tc hnew hcalls hended hstarted =>
    refine ⟨?_, fun tc' htc' => ?_, hunique, ?_⟩
    · refine (hcalls.map _).nodup_iff.mpr (nodup_cons.mpr ⟨?_, hs.nodup⟩)
      intro hmem
      obtain ⟨tc', htc', hid⟩ := mem_map.mp hmem
      exact hnew (hid ▸ mem_map_of_mem (hs.started tc' htc'))
    · rw [hstarted]
      rcases mem_cons.mp (hcalls.subset htc') with rfl | htc'
      · exact mem_cons_self
      · exact mem_cons_of_mem _ (hs.started tc' htc')
    · rw [hended]
      exact hs.ended

theorem tracked {summary : ChatSummary} (hs : (system summary).Reachable s) : Tracked s := by
  refine System.ReachableVia.invariant ?_ ?_ hs
  · rintro s rfl
    have hnone : ∀ tc, tc ∉ chatCalls (createChatState summary) := fun _ => not_mem_nil
    exact ⟨nodup_nil, fun tc htc => absurd htc (hnone tc), nodup_nil,
      fun tc htc => absurd (mem_append_right _ htc) (hnone tc)⟩
  · intro s action s' htracked _ hstep
    have hstep' : s.step action = some s' := hstep
    exact tracked_step htracked hstep'

theorem evolves_of_id (hs : Tracked s) (h : step s action = some s')
    (htc : tc ∈ chatCalls s.state) (htc' : tc' ∈ chatCalls s'.state)
    (hid : tc'.toolCallId = tc.toolCallId) : Evolves s.state action tc tc' := by
  cases stepSpec hs h with
  | evolved f hf calls hperm hcalls hended hstarted =>
    obtain ⟨tc₀, htc₀, rfl⟩ := mem_map.mp (hcalls.subset (hperm.subset htc'))
    have hid₀ : tc₀.toolCallId = tc.toolCallId := (hf tc₀ htc₀).id.1.symm.trans hid
    have heq := inj_on_of_nodup_map hs.nodup htc₀ htc hid₀
    rw [← heq]
    exact hf tc₀ htc₀
  | started new hnew hcalls hended hstarted =>
    rcases mem_cons.mp (hcalls.subset htc') with rfl | htc₀
    · exact absurd (hid ▸ mem_map_of_mem (hs.started tc htc)) hnew
    · exact .same (inj_on_of_nodup_map hs.nodup htc₀ htc hid)

theorem mem_of_id (hs : Tracked s) (h : step s action = some s')
    (hused : toolCallId ∈ s.started.map Prod.fst) (htc' : tc' ∈ chatCalls s'.state)
    (hid : tc'.toolCallId = toolCallId) : ∃ tc ∈ chatCalls s.state, tc.toolCallId = toolCallId := by
  cases stepSpec hs h with
  | evolved f hf calls hperm hcalls hended hstarted =>
    obtain ⟨tc, htc, rfl⟩ := mem_map.mp (hcalls.subset (hperm.subset htc'))
    exact ⟨tc, htc, (hf tc htc).id.1.symm.trans hid⟩
  | started new hnew hcalls hended hstarted =>
    rcases mem_cons.mp (hcalls.subset htc') with rfl | htc
    · exact absurd (hid ▸ hused) hnew
    · exact ⟨tc', htc, hid⟩

/-! ## Runs -/

theorem tracked_run (hs : Tracked s) {actions : List ChatAction}
    (h : actions.foldlM step s = some s') : Tracked s' ∧ s.started <:+ s'.started := by
  induction actions generalizing s with
  | nil =>
    cases h
    exact ⟨hs, suffix_rfl⟩
  | cons action rest ih =>
    rw [foldlM_cons] at h
    obtain ⟨s₁, hstep, hrest⟩ := Option.bind_eq_some_iff.mp h
    obtain ⟨htracked, hsuffix⟩ := ih (tracked_step hs hstep) hrest
    exact ⟨htracked, (step_started hstep).2.2.1.trans hsuffix⟩

theorem mem_before_run (hs : Tracked s) {actions : List ChatAction}
    (h : actions.foldlM step s = some s') (hused : toolCallId ∈ s.started.map Prod.fst)
    (htc' : tc' ∈ chatCalls s'.state) (hid : tc'.toolCallId = toolCallId) :
    ∃ tc ∈ chatCalls s.state, tc.toolCallId = toolCallId := by
  induction actions generalizing s with
  | nil =>
    cases h
    exact ⟨tc', htc', hid⟩
  | cons action rest ih =>
    rw [foldlM_cons] at h
    obtain ⟨s₁, hstep, hrest⟩ := Option.bind_eq_some_iff.mp h
    have hused₁ := ((step_started hstep).2.2.1.map Prod.fst).subset hused
    obtain ⟨tc₁, htc₁, hid₁⟩ := ih (tracked_step hs hstep) hrest hused₁
    exact mem_of_id hs hstep hused htc₁ hid₁

theorem run_keeps {P : ToolCallState → Prop} (hs : Tracked s) {actions : List ChatAction}
    (h : actions.foldlM step s = some s') (htc : tc ∈ chatCalls s.state)
    (htc' : tc' ∈ chatCalls s'.state) (hid : tc'.toolCallId = tc.toolCallId) (hP : P tc)
    (hkeeps : ∀ action ∈ actions, ∀ state tc₁ tc₂, tc₁.toolCallId = tc.toolCallId →
      Evolves state action tc₁ tc₂ → P tc₁ → P tc₂) : P tc' := by
  induction actions generalizing s tc with
  | nil =>
    cases h
    rw [inj_on_of_nodup_map hs.nodup htc' htc hid]
    exact hP
  | cons action rest ih =>
    rw [foldlM_cons] at h
    obtain ⟨s₁, hstep, hrest⟩ := Option.bind_eq_some_iff.mp h
    have hs₁ := tracked_step hs hstep
    have hused : tc.toolCallId ∈ s₁.started.map Prod.fst :=
      ((step_started hstep).2.2.1.map Prod.fst).subset (mem_map_of_mem (hs.started tc htc))
    obtain ⟨tc₁, htc₁, hid₁⟩ := mem_before_run hs₁ hrest hused htc' hid
    have hP₁ := hkeeps action mem_cons_self _ tc tc₁ rfl (evolves_of_id hs hstep htc htc₁ hid₁) hP
    refine ih hs₁ hrest htc₁ (hid.trans hid₁.symm) hP₁ fun a ha state tc₂ tc₃ hid₂ => ?_
    exact hkeeps a (mem_cons_of_mem _ ha) state tc₂ tc₃ (hid₂.trans hid₁)

variable {actions : List ChatAction}

theorem terminal_kept (hs : Tracked s) (h : actions.foldlM step s = some s')
    (htc : tc ∈ chatCalls s.state) (htc' : tc' ∈ chatCalls s'.state)
    (hid : tc'.toolCallId = tc.toolCallId) (hterminal : tc.isTerminal = true) : tc' = tc := by
  refine run_keeps (P := fun tc₁ => tc₁ = tc) hs h htc htc' hid rfl ?_
  rintro action - state tc₁ tc₂ - hevolves rfl
  cases hevolves with
  | same h => exact h
  | updated hspec =>
    have hopen := hspec.open_
    rw [hterminal] at hopen
    cases hopen
  | ended turnId haction hid h => exact h.trans ((endToolCall_spec tc₁).2.2.2.1 hterminal)

theorem client_kept (hs : Tracked s) (h : actions.foldlM step s = some s')
    {client : Option ClientId} (hstarted : (toolCallId, client) ∈ s.started)
    (htc' : tc' ∈ chatCalls s'.state) (hid : tc'.toolCallId = toolCallId) :
    clientOf tc'.contributor = client := by
  obtain ⟨hs', hsuffix⟩ := tracked_run hs h
  have hmem := hs'.started tc' htc'
  rw [hid] at hmem
  exact (Prod.mk.inj (inj_on_of_nodup_map hs'.unique hmem (hsuffix.subset hstarted) rfl)).2

theorem auth_kept (hs : Tracked s) (h : actions.foldlM step s = some s')
    (htc : tc ∈ chatCalls s.state) (htc' : tc' ∈ chatCalls s'.state)
    (hid : tc'.toolCallId = tc.toolCallId) (hauth : tc.isAuthRequired = true)
    (hunresolved : ∀ action ∈ actions, ¬ action.resolvesAuth tc.toolCallId) :
    tc'.isAuthRequired = true ∨ tc'.isUnsuccessful = true := by
  have hP : tc.isAuthRequired = true ∨ tc.isUnsuccessful = true := .inl hauth
  refine run_keeps (P := fun tc => tc.isAuthRequired = true ∨ tc.isUnsuccessful = true)
    hs h htc htc' hid hP ?_
  intro action haction state tc₁ tc₂ hid₁ hevolves hcase
  cases hevolves with
  | same h => exact h ▸ hcase
  | updated hspec =>
    rcases hcase with hauth₁ | hfailed
    · rcases (hspec.auth hauth₁).2 with hresolves | hfailed
      · exact absurd (hid₁ ▸ hresolves) (hunresolved action haction)
      · exact .inr hfailed
    · have hopen := hspec.open_
      cases tc₁ with
      | completed | cancelled => cases hopen
      | _ => cases hfailed
  | ended turnId haction hid h =>
    subst h
    rcases hcase with hauth₁ | hfailed
    · cases tc₁ with
      | authRequired => exact .inr rfl
      | _ => cases hauth₁
    · cases tc₁ with
      | completed | cancelled => exact .inr hfailed
      | _ => cases hfailed

theorem evolves_spec {state : ChatState} (h : Evolves state action tc tc') :
    (tc.isPendingConfirmation = true → tc'.isRunning = true → action.approves tc.toolCallId) ∧
    (tc.isPendingResultConfirmation = true → tc'.isPendingResultConfirmation = false →
      action.confirmsResult tc.toolCallId ∨ ∃ turnId, action.endsTurn? = some turnId ∧
          state.activeTurn.map (·.id) = some turnId) ∧
    (tc.isAuthRequired = true → tc'.isPendingResultConfirmation = false) := by
  cases h with
  | same h =>
    subst h
    refine ⟨fun h h' => ?_, fun h h' => ?_, fun h => ?_⟩
    · cases tc' with
      | pendingConfirmation => cases h'
      | _ => cases h
    · rw [h] at h'
      cases h'
    · cases tc' with
      | authRequired => rfl
      | _ => cases h
  | updated h => exact ⟨h.approved, fun hresult _ => .inl (h.result hresult),
      fun hauth => (h.auth hauth).1⟩
  | ended turnId haction hid h =>
    have hterminal := (endToolCall_spec tc).2.2.1
    rw [← h] at hterminal
    refine ⟨fun _ hrunning => ?_, fun _ _ => .inr ⟨turnId, haction, hid⟩, fun _ => ?_⟩
    · cases tc' with
      | running => cases hterminal
      | _ => cases hrunning
    · cases tc' with
      | completed | cancelled => rfl
      | _ => cases hterminal

/-- The life cycle of the tool calls of a chat that starts empty. -/
theorem toolCall_lifeCycle {summary : ChatSummary} (hs : (system summary).Reachable s) :
    -- A finished call is never changed.
    (∀ (actions : List ChatAction) (s' : StartedChat), actions.foldlM step s = some s' → ∀ tc ∈ chatCalls s.state,
      ∀ tc' ∈ chatCalls s'.state, tc'.toolCallId = tc.toolCallId → tc.isTerminal = true →
        tc' = tc) ∧
    -- One action takes a call out of a waiting state only as it should.
    (∀ (action : ChatAction) (s' : StartedChat), step s action = some s' → ∀ tc ∈ chatCalls s.state,
      ∀ tc' ∈ chatCalls s'.state, tc'.toolCallId = tc.toolCallId →
        (tc.isPendingConfirmation = true → tc'.isRunning = true → action.approves tc.toolCallId) ∧
        (tc.isPendingResultConfirmation = true → tc'.isPendingResultConfirmation = false →
          action.confirmsResult tc.toolCallId ∨ ∃ turnId, action.endsTurn? = some turnId ∧
              s.state.activeTurn.map (·.id) = some turnId) ∧
        (tc.isAuthRequired = true → tc'.isPendingResultConfirmation = false)) ∧
    -- Without the challenge resolved, an unauthenticated call succeeds nowhere.
    (∀ (actions : List ChatAction) (s' : StartedChat), actions.foldlM step s = some s' → ∀ tc ∈ chatCalls s.state,
      ∀ tc' ∈ chatCalls s'.state, tc'.toolCallId = tc.toolCallId → tc.isAuthRequired = true →
        (∀ action ∈ actions, ¬ action.resolvesAuth tc.toolCallId) →
          tc'.isAuthRequired = true ∨ tc'.isUnsuccessful = true) ∧
    -- The client of a call is the one it was started with, or none.
    (∀ (actions : List ChatAction) (s' : StartedChat), actions.foldlM step s = some s' → ∀ toolCallId client,
      (toolCallId, client) ∈ s.started → ∀ tc' ∈ chatCalls s'.state,
        tc'.toolCallId = toolCallId → clientOf tc'.contributor = client) ∧
    -- Every call in the history is finished.
    ∀ turn ∈ s.state.turns, ∀ tc ∈ toolCallsOf turn.responseParts, tc.isTerminal = true := by
  have htracked := tracked hs
  refine ⟨fun actions s' h tc htc tc' htc' hid hterminal => ?_,
    fun action s' h tc htc tc' htc' hid => ?_,
    fun actions s' h tc htc tc' htc' hid hauth hunresolved => ?_,
    fun actions s' h toolCallId client hstarted tc' htc' hid => ?_,
    fun turn hturn tc htc => ?_⟩
  · exact terminal_kept htracked h htc htc' hid hterminal
  · exact evolves_spec (evolves_of_id htracked h htc htc' hid)
  · exact auth_kept htracked h htc htc' hid hauth hunresolved
  · exact client_kept htracked h hstarted htc' hid
  · exact htracked.ended tc (mem_flatMap.mpr ⟨turn, hturn, htc⟩)

def confirmedRun : List ChatAction :=
  [.turnStarted "t" 0 ⟨"hi"⟩ none, .toolCallStart "t" "c" "rm" "rm" none (some (.client "me")) none,
   .toolCallReady "t" "c"
     { contributor := none, intention := none, invocationMessage := .string "rm", toolInput := none
       confirmationTitle := none, riskAssessment := none, edits := none, editable := none
       confirmed := none, options := none } none,
   .toolCallConfirmed "t" "c" (.approved .userAction none) none none,
   .toolCallComplete "t" "c" failedToolResult false none,
   .turnComplete "t" 5]

theorem toolCall_lifeCycle_confirmed :
    ∃ s, confirmedRun.foldlM step ⟨createChatState idleSummary, []⟩ = some s ∧
      ∀ turn ∈ s.state.turns, ∀ tc ∈ toolCallsOf turn.responseParts, tc.isTerminal = true := by
  have hrun := (Option.some_get (x := confirmedRun.foldlM step ⟨createChatState idleSummary, []⟩)
    rfl).symm
  have hs := System.Reachable.run (System.ReachableVia.init rfl :
    (system idleSummary).Reachable ⟨createChatState idleSummary, []⟩) confirmedRun hrun
  exact ⟨_, hrun, (toolCall_lifeCycle hs).2.2.2.2⟩

end StartedChat

end Fumie.AgentHost
