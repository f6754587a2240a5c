import Fumie.AgentHost.State.ChatStatus

/-!
# What identifies and dates a chat

A chat action keeps the resource, the title, the origin and the interactivity of its chat,
and sets its modification time only where a turn starts or ends. Both are read off the
shape of the reducer: every other branch builds its state from the old one.
-/

namespace Fumie.AgentHost

open ChatAction

structure SameIdentity (state next : ChatState) : Prop where
  resource : next.resource = state.resource
  title : next.title = state.title
  origin : next.origin = state.origin
  interactivity : next.interactivity = state.interactivity

def ChatAction.timestamp? (state : ChatState) : ChatAction → Option Timestamp
  | .turnStarted _ startedAt _ _ => some startedAt
  | .turnComplete turnId duration | .turnCancelled turnId duration | .error turnId duration _ =>
    match state.activeTurn with
    | some turn =>
      if turn.id = turnId then some (addMillisecondsToTimestamp turn.startedAt (max 0 duration))
      else none
    | none => none
  | _ => none

structure Dated (state : ChatState) (timestamp : Option Timestamp) (next : ChatState) : Prop
    extends SameIdentity state next where
  modifiedAt : next.modifiedAt = timestamp.getD state.modifiedAt

variable {state : ChatState}

theorem Dated.unchanged : Dated state none state := ⟨⟨rfl, rfl, rfl, rfl⟩, rfl⟩

variable (turnId : String)

theorem dated_onActiveTurn {update : ActiveTurn → ChatState}
    (h : ∀ turn, Dated state none (update turn)) :
    Dated state none (onActiveTurn state turnId update) := by
  rcases onActiveTurn_cases state turnId update with hsame | ⟨turn, -, -, heq⟩
  · rw [hsame]
    exact .unchanged
  · rw [heq]
    exact h turn

theorem dated_updateToolCall (turnId toolCallId : String)
    (updater : ToolCallState → Option ToolCallState) :
    Dated state none (updateToolCallInParts state turnId toolCallId updater) := by
  refine dated_onActiveTurn turnId fun turn => ?_
  dsimp only
  split
  · exact ⟨⟨rfl, rfl, rfl, rfl⟩, rfl⟩
  · exact .unchanged

theorem dated_updatePart (partId : String) (updater : ResponsePart → ResponsePart) :
    Dated state none (updateResponsePart state turnId partId updater) := by
  refine dated_onActiveTurn turnId fun turn => ?_
  split
  · exact .unchanged
  · exact ⟨⟨rfl, rfl, rfl, rfl⟩, rfl⟩

theorem dated_refresh (toolCallId : String) (updater : ToolCallState → Option ToolCallState) :
    Dated state none
      (refreshSummaryStatus (updateToolCallInParts state turnId toolCallId updater)) := by
  rw [refreshSummaryStatus_eq]
  obtain ⟨⟨h₁, h₂, h₃, h₄⟩, h₅⟩ := @dated_updateToolCall state turnId toolCallId updater
  exact ⟨⟨h₁, h₂, h₃, h₄⟩, h₅⟩

theorem dated_endTurn (turnState : TurnState) (duration : Int)
    (terminalStatus : Option SessionStatus) (error : Option ErrorInfo) :
    Dated state (timestamp? state (.turnComplete turnId duration))
      (endTurn state turnId turnState duration terminalStatus error) := by
  unfold endTurn timestamp?
  cases state.activeTurn with
  | none => exact .unchanged
  | some turn =>
    dsimp only
    by_cases hid : turn.id = turnId
    · rw [if_neg (not_not.mpr hid), if_pos hid]
      exact ⟨⟨rfl, rfl, rfl, rfl⟩, rfl⟩
    · rw [if_pos hid, if_neg hid]
      exact .unchanged

theorem dated_consume (queued : Option String) :
    Dated state none (consumePendingMessage state queued) := by
  unfold consumePendingMessage
  split
  · exact .unchanged
  · split
    · exact .unchanged
    · exact ⟨⟨rfl, rfl, rfl, rfl⟩, rfl⟩

theorem chatReducer_dated (state : ChatState) (action : ChatAction) :
    Dated state (action.timestamp? state) (chatReducer state action) := by
  have haside := @chatReducer_aside state action
  cases action with
  | turnStarted turnId startedAt message queued =>
    obtain ⟨⟨h₁, h₂, h₃, h₄⟩, h₅⟩ := @dated_consume
      (let next : ChatState :=
        { state with
          activeTurn := some { id := turnId, startedAt, message, responseParts := [], usage := none } }
      { next with
        status := withStatusFlag (summaryStatus next none) SessionStatus.IsRead false
        modifiedAt := startedAt }) queued
    exact ⟨⟨h₁, h₂, h₃, h₄⟩, h₅⟩
  | delta _ _ _ | reasoning _ _ _ => exact dated_updatePart _ _ _
  | responsePart _ _ | toolCallStart _ _ _ _ _ _ _ =>
    exact dated_onActiveTurn _ fun turn => ⟨⟨rfl, rfl, rfl, rfl⟩, rfl⟩
  | toolCallDelta turnId toolCallId content invocationMessage _meta =>
    exact dated_updateToolCall _ _ _
  | toolCallContentChanged turnId toolCallId content _meta => exact dated_updateToolCall _ _ _
  | toolCallReady _ _ _ _ | toolCallConfirmed _ _ _ _ _ | toolCallComplete _ _ _ _ _
  | toolCallResultConfirmed _ _ _ _ | toolCallAuthRequired _ _ _ _ | toolCallAuthResolved _ _ _ =>
    exact dated_refresh _ _ _
  | turnComplete _ _ | turnCancelled _ _ | error _ _ _ => exact dated_endTurn _ _ _ _ _
  | usage turnId usage => exact dated_onActiveTurn _ fun turn => ⟨⟨rfl, rfl, rfl, rfl⟩, rfl⟩
  | truncated turnId =>
    cases turnId with
    | none => exact ⟨⟨rfl, rfl, rfl, rfl⟩, rfl⟩
    | some turnId =>
      unfold chatReducer
      dsimp only
      split
      · exact .unchanged
      · exact ⟨⟨rfl, rfl, rfl, rfl⟩, rfl⟩
  | inputRequested request =>
    unfold chatReducer upsertInputRequestPart
    dsimp only
    split
    · exact .unchanged
    · exact ⟨⟨rfl, rfl, rfl, rfl⟩, rfl⟩
  | inputAnswerChanged requestId questionId answer =>
    unfold chatReducer
    dsimp only
    cases h : onOpenInputRequest state requestId _ with
    | none => exact .unchanged
    | some next =>
      obtain ⟨turn, index, request, -, -, rfl⟩ := onOpenInputRequest_some h
      exact ⟨⟨rfl, rfl, rfl, rfl⟩, rfl⟩
  | inputCompleted requestId response answers =>
    unfold chatReducer
    dsimp only
    split
    · exact .unchanged
    · rename_i next h
      obtain ⟨turn, index, request, -, -, rfl⟩ := onOpenInputRequest_some h
      exact ⟨⟨rfl, rfl, rfl, rfl⟩, rfl⟩
  | turnsLoaded turns turnsNextCursor => exact ⟨⟨rfl, rfl, rfl, rfl⟩, rfl⟩
  | activityChanged _ | workingDirectorySet _ | workingDirectoryRemoved _ | pendingMessageSet _ _ _
  | pendingMessageRemoved _ _ | queuedMessagesReordered _ | draftChanged _ =>
    obtain ⟨_, _, _, _, _, h⟩ := haside rfl
    rw [h]
    exact ⟨⟨rfl, rfl, rfl, rfl⟩, rfl⟩

end Fumie.AgentHost
