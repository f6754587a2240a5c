import Fumie.AgentHost.State.ChatReducer

/-!
# The status of a chat

The activity bits of a chat are meant to follow from its active turn
(`liveActivity`). `summaryStatus` writes exactly that value, so the argument is about
which actions call it: an action that changes what the value is read from and does
not refresh the bits breaks the law, and one that refreshes them without changing
anything loses the `Error` of the last turn.
-/

namespace Fumie.AgentHost

open Fumie.Lib List ResponsePart

/-! ## Activity bits -/

def activityBits (status : SessionStatus) : SessionStatus := status &&& STATUS_ACTIVITY_MASK

def flagBits (status : SessionStatus) : SessionStatus := status &&& ~~~STATUS_ACTIVITY_MASK

def ResponsePart.awaitsUser (part : ResponsePart) : Bool :=
  part.isOpenInputRequest || part.isBlockingToolCall

def ActiveTurn.awaitsUser (turn : ActiveTurn) : Bool :=
  turn.responseParts.any ResponsePart.awaitsUser

def liveActivity : Option ActiveTurn → SessionStatus
  | none => SessionStatus.Idle
  | some turn =>
    if turn.awaitsUser then SessionStatus.InputNeeded else SessionStatus.InProgress

theorem bits_of_or {w : Nat} {x mask a : BitVec w} (ha : a &&& mask = a) :
    ((x &&& ~~~mask) ||| a) &&& mask = a ∧ ((x &&& ~~~mask) ||| a) &&& ~~~mask = x &&& ~~~mask := by
  have hbit : ∀ i (hi : i < w), (a[i] && mask[i]) = a[i] := by
    intro i hi
    rw [← BitVec.getElem_and, ha]
  constructor
  · ext i hi
    have h := hbit i hi
    simp only [BitVec.getElem_and, BitVec.getElem_or, BitVec.getElem_not]
    generalize x[i] = xi, mask[i] = mi, a[i] = ai at h ⊢
    cases xi <;> cases mi <;> cases ai <;> simp_all
  · ext i hi
    have h := hbit i hi
    simp only [BitVec.getElem_and, BitVec.getElem_or, BitVec.getElem_not]
    generalize x[i] = xi, mask[i] = mi, a[i] = ai at h ⊢
    cases xi <;> cases mi <;> cases ai <;> simp_all

theorem or_bits {w : Nat} (x mask : BitVec w) : (x &&& ~~~mask) ||| (x &&& mask) = x := by
  ext i hi
  simp only [BitVec.getElem_and, BitVec.getElem_or, BitVec.getElem_not]
  cases x[i] <;> cases mask[i] <;> rfl

theorem liveActivity_masked (turn : Option ActiveTurn) :
    liveActivity turn &&& STATUS_ACTIVITY_MASK = liveActivity turn := by
  unfold liveActivity
  split
  · decide
  · split
    · decide
    · decide

theorem any_awaitsUser (parts : List ResponsePart) : parts.any ResponsePart.awaitsUser =
    (parts.any isOpenInputRequest || parts.any isBlockingToolCall) := by
  induction parts with
  | nil => rfl
  | cons part rest ih =>
    simp only [any_cons, ih, ResponsePart.awaitsUser]
    cases part.isOpenInputRequest <;> cases part.isBlockingToolCall <;> simp

theorem summaryStatus_eq (state : ChatState) :
    summaryStatus state none = flagBits state.status ||| liveActivity state.activeTurn := by
  unfold summaryStatus hasOpenInputRequest hasBlockingToolCall flagBits liveActivity
  cases state.activeTurn with
  | none => rfl
  | some turn =>
    simp only [ActiveTurn.awaitsUser, any_awaitsUser, Option.isSome_some, if_true]

theorem activityBits_summaryStatus (state : ChatState) :
    activityBits (summaryStatus state none) = liveActivity state.activeTurn := by
  rw [summaryStatus_eq]
  exact (bits_of_or (liveActivity_masked _)).1

theorem flagBits_summaryStatus (state : ChatState) :
    flagBits (summaryStatus state none) = flagBits state.status := by
  rw [summaryStatus_eq]
  exact (bits_of_or (liveActivity_masked _)).2

theorem summaryStatus_eq_self_iff (state : ChatState) : summaryStatus state none = state.status ↔
      activityBits state.status = liveActivity state.activeTurn := by
  constructor
  · intro h
    rw [← h, activityBits_summaryStatus]
  · intro h
    rw [summaryStatus_eq, ← h]
    exact or_bits state.status STATUS_ACTIVITY_MASK

/-! ## Turn-scoped actions -/

def ChatAction.turnId? : ChatAction → Option String
  | .delta turnId _ _ => some turnId
  | .responsePart turnId _ => some turnId
  | .reasoning turnId _ _ => some turnId
  | .usage turnId _ => some turnId
  | .toolCallStart turnId _ _ _ _ _ _ => some turnId
  | .toolCallDelta turnId _ _ _ _ => some turnId
  | .toolCallReady turnId _ _ _ => some turnId
  | .toolCallConfirmed turnId _ _ _ _ => some turnId
  | .toolCallComplete turnId _ _ _ _ => some turnId
  | .toolCallResultConfirmed turnId _ _ _ => some turnId
  | .toolCallContentChanged turnId _ _ _ => some turnId
  | .toolCallAuthRequired turnId _ _ _ => some turnId
  | .toolCallAuthResolved turnId _ _ => some turnId
  | .turnComplete turnId _ => some turnId
  | .turnCancelled turnId _ => some turnId
  | .error turnId _ _ => some turnId
  | _ => none

def ChatAction.refreshesStatus : ChatAction → Bool
  | .toolCallReady _ _ _ _ => true
  | .toolCallConfirmed _ _ _ _ _ => true
  | .toolCallComplete _ _ _ _ _ => true
  | .toolCallResultConfirmed _ _ _ _ => true
  | .toolCallAuthRequired _ _ _ _ => true
  | .toolCallAuthResolved _ _ _ => true
  | _ => false

variable {state : ChatState} {turnId : String}

theorem onActiveTurn_stale (h : state.activeTurn.map (·.id) ≠ some turnId)
    (update : ActiveTurn → ChatState) : onActiveTurn state turnId update = state := by
  unfold onActiveTurn
  cases hturn : state.activeTurn with
  | none => rfl
  | some turn =>
    rw [hturn] at h
    have hid : turn.id ≠ turnId := fun heq => h (congrArg some heq)
    exact if_pos hid

theorem endTurn_stale (h : state.activeTurn.map (·.id) ≠ some turnId) (turnState : TurnState)
    (duration : Int) (terminalStatus : Option SessionStatus) (error : Option ErrorInfo) :
    endTurn state turnId turnState duration terminalStatus error = state := by
  unfold endTurn
  cases hturn : state.activeTurn with
  | none => rfl
  | some turn =>
    rw [hturn] at h
    have hid : turn.id ≠ turnId := fun heq => h (congrArg some heq)
    exact if_pos hid

theorem refreshSummaryStatus_eq_self_iff (state : ChatState) : refreshSummaryStatus state = state ↔
    activityBits state.status = liveActivity state.activeTurn := by
  rw [← summaryStatus_eq_self_iff]
  unfold refreshSummaryStatus
  simp only
  split
  · rename_i h
    exact ⟨fun _ => h, fun _ => rfl⟩
  · rename_i h
    exact ⟨fun heq => absurd (congrArg (·.status) heq) h, fun heq => absurd heq h⟩

theorem chatReducer_stale {action : ChatAction} (hscope : action.turnId? = some turnId)
    (hstale : state.activeTurn.map (·.id) ≠ some turnId) :
    chatReducer state action =
      if action.refreshesStatus then refreshSummaryStatus state else state := by
  have hparts : ∀ toolCallId updater,
      updateToolCallInParts state turnId toolCallId updater = state :=
    fun _ _ => onActiveTurn_stale hstale _
  cases action with
  | delta _ _ _ | reasoning _ _ _ | responsePart _ _ | usage _ _ | toolCallStart _ _ _ _ _ _ _ =>
    cases hscope
    exact onActiveTurn_stale hstale _
  | toolCallDelta _ _ _ _ _ | toolCallContentChanged _ _ _ _ =>
    cases hscope
    exact hparts _ _
  | toolCallReady _ _ _ _ | toolCallConfirmed _ _ _ _ _ | toolCallComplete _ _ _ _ _
  | toolCallResultConfirmed _ _ _ _ | toolCallAuthRequired _ _ _ _ | toolCallAuthResolved _ _ _ =>
    cases hscope
    exact congrArg refreshSummaryStatus (hparts _ _)
  | turnComplete _ _ | turnCancelled _ _ | error _ _ _ =>
    cases hscope
    exact endTurn_stale hstale _ _ _ _
  | _ => cases hscope

/-- A stale action leaves the chat as it is exactly when it does not recompute the
status or the activity bits are already those of the active turn. -/
theorem stale_inert_iff {action : ChatAction} (hscope : action.turnId? = some turnId)
    (hstale : state.activeTurn.map (·.id) ≠ some turnId) :
    chatReducer state action = state ↔
      (action.refreshesStatus = true → activityBits state.status = liveActivity state.activeTurn) := by
  rw [chatReducer_stale hscope hstale]
  cases action.refreshesStatus with
  | false => simp
  | true =>
    simp only [if_true, forall_const]
    exact refreshSummaryStatus_eq_self_iff state

def idleSummary : ChatSummary where
  resource := .chat (.session "copilot" "s") DEFAULT_CHAT_ID
  title := ""
  status := SessionStatus.Idle
  activity := none
  modifiedAt := 0
  origin := none
  interactivity := none
  workingDirectories := none

def failedToolResult : ToolCallResult where
  success := false
  pastTenseMessage := .string ""
  content := none
  structuredContent := none
  error := none

def failedTurn : List ChatAction := [.turnStarted "t" 0 ⟨"hi"⟩ none, .error "t" 5 ⟨"boom"⟩]

theorem stale_inert_iff_running :
    chatReducer ([.turnStarted "t" 0 ⟨"hi"⟩ none].foldl chatReducer (createChatState idleSummary))
      (.toolCallComplete "old" "call" failedToolResult false none) =
    [.turnStarted "t" 0 ⟨"hi"⟩ none].foldl chatReducer (createChatState idleSummary) :=
  (@stale_inert_iff _ "old" _ rfl (by decide)).mpr (fun _ => by decide)

/-- A completion that arrives after its turn failed turns the chat from `Error` to `Idle`. -/
theorem stale_not_always_inert : ¬ ∀ (state : ChatState) (action : ChatAction) (turnId : String),
      action.turnId? = some turnId → state.activeTurn.map (·.id) ≠ some turnId →
        chatReducer state action = state := by
  intro h
  have heq := h (failedTurn.foldl chatReducer (createChatState idleSummary))
    (.toolCallComplete "t" "call" failedToolResult false none) "t" rfl (by decide)
  have hstatus := congrArg (fun s : ChatState => s.status) heq
  revert hstatus
  decide

/-! ## What an action does to the status -/

variable (status : SessionStatus)

theorem activityBits_clearFlag :
    activityBits (withStatusFlag status SessionStatus.IsRead false) = activityBits status := by
  have hmask : ~~~SessionStatus.IsRead &&& STATUS_ACTIVITY_MASK = STATUS_ACTIVITY_MASK := by decide
  unfold activityBits withStatusFlag
  rw [if_neg (by decide), BitVec.and_assoc, hmask]

theorem flagBits_clearFlag : flagBits (withStatusFlag status SessionStatus.IsRead false) =
      flagBits status &&& ~~~SessionStatus.IsRead := by
  unfold flagBits withStatusFlag
  rw [if_neg (by decide), BitVec.and_assoc, BitVec.and_assoc, BitVec.and_comm (~~~_)]

theorem error_bits : activityBits (flagBits status ||| SessionStatus.Error) = SessionStatus.Error ∧
      flagBits (flagBits status ||| SessionStatus.Error) = flagBits status :=
  bits_of_or (by decide)

theorem any_map_awaitsUser {f : ResponsePart → ResponsePart} (parts : List ResponsePart)
    (hf : ∀ part, (f part).awaitsUser = part.awaitsUser) :
    (parts.map f).any ResponsePart.awaitsUser = parts.any ResponsePart.awaitsUser := by
  rw [any_map]
  congr 1
  funext part
  exact hf part

theorem any_modify_awaitsUser {f : ResponsePart → ResponsePart}
    (hf : ∀ part, (f part).awaitsUser = part.awaitsUser) (parts : List ResponsePart) (index : Nat) :
    (parts.modify index f).any ResponsePart.awaitsUser = parts.any ResponsePart.awaitsUser := by
  induction parts generalizing index with
  | nil => cases index <;> rfl
  | cons part rest ih =>
    cases index with
    | zero => simp [hf]
    | succ index => simp [ih]

variable {request : ChatInputRequest}

theorem getElem?_findOpenInputRequestPart {parts : List ResponsePart} {requestId : String}
    {index : Nat} (h : findOpenInputRequestPart parts requestId = some (index, request)) :
    parts[index]? = some (.inputRequest request none) ∧ request.id = requestId := by
  unfold findOpenInputRequestPart at h
  split at h
  · cases h
  · rename_i i hi
    obtain ⟨r, hr, heq⟩ := Option.map_eq_some_iff.mp h
    obtain ⟨rfl, rfl⟩ := Prod.mk.inj heq
    obtain ⟨part, hpart, hopen⟩ := Option.bind_eq_some_iff.mp hr
    unfold openRequest? at hopen
    split at hopen
    · rename_i request
      obtain ⟨hid, hsome⟩ := Option.ite_none_right_eq_some.mp hopen
      cases hsome
      exact ⟨hpart, hid⟩
    · cases hopen

theorem any_set_openRequest {parts : List ResponsePart} {index : Nat}
    (h : parts[index]? = some (.inputRequest request none)) (request' : ChatInputRequest) :
    (parts.set index (.inputRequest request' none)).any ResponsePart.awaitsUser =
      parts.any ResponsePart.awaitsUser := by
  obtain ⟨hlt, hget⟩ := List.getElem?_eq_some_iff.mp h
  have hold : parts.any ResponsePart.awaitsUser = true :=
    List.any_eq_true.mpr ⟨_, List.mem_of_getElem? h, rfl⟩
  rw [hold]
  exact any_eq_true.mpr ⟨_, mem_set hlt _, rfl⟩

variable {turn : ActiveTurn}

theorem liveActivity_congr {turn' : ActiveTurn} (h : turn'.awaitsUser = turn.awaitsUser) :
    liveActivity (some turn') = liveActivity (some turn) := by
  unfold liveActivity
  simp only [h]

theorem onActiveTurn_cases (state : ChatState) (turnId : String)
    (update : ActiveTurn → ChatState) : onActiveTurn state turnId update = state ∨
      ∃ turn, state.activeTurn = some turn ∧ turn.id = turnId ∧
        onActiveTurn state turnId update = update turn := by
  unfold onActiveTurn
  split
  · exact .inl rfl
  · rename_i turn hturn
    split
    · exact .inl rfl
    · rename_i hid
      exact .inr ⟨turn, hturn, not_not.mp hid, rfl⟩

theorem endTurn_cases (state : ChatState) (turnId : String) (turnState : TurnState)
    (duration : Int) (terminalStatus : Option SessionStatus) (error : Option ErrorInfo) :
    endTurn state turnId turnState duration terminalStatus error = state ∨
      ∃ turn, state.activeTurn = some turn ∧ turn.id = turnId ∧
        endTurn state turnId turnState duration terminalStatus error = let next : ChatState :=
            { state with
              turns := state.turns ++
                [{ id := turn.id, startedAt := some turn.startedAt, duration := some (max 0 duration),
                   message := turn.message, responseParts := turn.responseParts.map endPart,
                   usage := turn.usage, state := turnState, error }]
              activeTurn := none
              modifiedAt := addMillisecondsToTimestamp turn.startedAt (max 0 duration) }
          { next with status := summaryStatus next terminalStatus } := by
  unfold endTurn
  split
  · exact .inl rfl
  · rename_i turn hturn
    split
    · exact .inl rfl
    · rename_i hid
      exact .inr ⟨turn, hturn, not_not.mp hid, rfl⟩

def ChatAction.marksUnread (state : ChatState) : ChatAction → Prop
  | .turnStarted _ _ _ _ => True
  | .inputRequested _ => state.activeTurn.isSome = true
  | _ => False

def FlagsStep (state next : ChatState) (action : ChatAction) : Prop :=
  flagBits next.status = flagBits state.status ∨
    (action.marksUnread state ∧
      flagBits next.status = flagBits state.status &&& ~~~SessionStatus.IsRead)

inductive ActivityStep (state next : ChatState) (action : ChatAction) : Prop where
  /-- The bits are recomputed. -/
  | refreshed (h : activityBits next.status = liveActivity next.activeTurn)
      (hflags : FlagsStep state next action)
  /-- The active turn failed. -/
  | failed (turnId : String) (duration : Int) (error : ErrorInfo)
      (haction : action = .error turnId duration error)
      (hid : state.activeTurn.map (·.id) = some turnId) (hnone : next.activeTurn = none)
      (h : activityBits next.status = SessionStatus.Error)
      (hflags : flagBits next.status = flagBits state.status)
  /-- Neither the bits nor what they follow from changes. -/
  | kept (hstatus : next.status = state.status)
      (hlive : liveActivity next.activeTurn = liveActivity state.activeTurn)
      (hnone : next.activeTurn = none ↔ state.activeTurn = none)
      (hstart : ∀ turnId startedAt message queued,
        action ≠ .turnStarted turnId startedAt message queued)
  /-- A part that waits for the user is appended and the bits are left. -/
  | shown (turn : ActiveTurn) (part : ResponsePart) (haction : action = .responsePart turn.id part)
      (hturn : state.activeTurn = some turn) (hpart : part.awaitsUser = true)
      (hstatus : next.status = state.status)
      (hnext : next.activeTurn = some { turn with responseParts := turn.responseParts ++ [part] })

section ActivityStep

variable {action : ChatAction}

theorem ActivityStep.same (hstart : ∀ turnId startedAt message queued,
      action ≠ .turnStarted turnId startedAt message queued) {next : ChatState}
    (hstatus : next.status = state.status) (hturn : next.activeTurn = state.activeTurn) :
    ActivityStep state next action := by
  refine .kept hstatus ?_ ?_ hstart
  · rw [hturn]
  · rw [hturn]

theorem ActivityStep.parts (hstart : ∀ turnId startedAt message queued,
      action ≠ .turnStarted turnId startedAt message queued) {turn' : ActiveTurn}
    (hturn : state.activeTurn = some turn) (hawaits : turn'.awaitsUser = turn.awaitsUser) :
    ActivityStep state { state with activeTurn := some turn' } action := by
  refine .kept rfl ?_ ?_ hstart
  · rw [hturn]
    exact liveActivity_congr hawaits
  · rw [hturn]
    simp

theorem ActivityStep.recomputed {next next' : ChatState} (h : next'.status = summaryStatus next none)
    (hturn : next'.activeTurn = next.activeTurn) (hstatus : next.status = state.status) :
    ActivityStep state next' action := by
  refine .refreshed ?_ (.inl ?_)
  · rw [h, hturn]
    exact activityBits_summaryStatus next
  · rw [h, ← hstatus]
    exact flagBits_summaryStatus next

theorem ActivityStep.unread {next next' : ChatState}
    (h : next'.status = withStatusFlag (summaryStatus next none) SessionStatus.IsRead false)
    (hturn : next'.activeTurn = next.activeTurn) (hstatus : next.status = state.status)
    (haction : action.marksUnread state) : ActivityStep state next' action := by
  refine .refreshed ?_ (.inr ⟨haction, ?_⟩)
  · rw [h, hturn, activityBits_clearFlag]
    exact activityBits_summaryStatus next
  · rw [h, ← hstatus, flagBits_clearFlag, flagBits_summaryStatus]

theorem refreshSummaryStatus_eq (state : ChatState) :
    refreshSummaryStatus state = { state with status := summaryStatus state none } := by
  unfold refreshSummaryStatus
  simp only
  split
  · rename_i h
    rw [h]
  · rfl

theorem updateToolCallInParts_status (state : ChatState) (turnId toolCallId : String)
    (updater : ToolCallState → Option ToolCallState) :
    (updateToolCallInParts state turnId toolCallId updater).status = state.status := by
  unfold updateToolCallInParts
  rcases onActiveTurn_cases state turnId _ with h | ⟨turn, -, -, h⟩
  · rw [h]
  · rw [h]
    simp only
    split
    · rfl
    · rfl

theorem activity_refresh (state : ChatState) (turnId toolCallId : String)
    (updater : ToolCallState → Option ToolCallState) :
    ActivityStep state
      (refreshSummaryStatus (updateToolCallInParts state turnId toolCallId updater)) action := by
  rw [refreshSummaryStatus_eq]
  exact .recomputed rfl rfl (updateToolCallInParts_status state turnId toolCallId updater)

theorem activity_updateToolCall (hstart : ∀ turnId startedAt message queued,
      action ≠ .turnStarted turnId startedAt message queued) (turnId toolCallId : String)
    {updater : ToolCallState → Option ToolCallState}
    (hupdater : ∀ tc tc', updater tc = some tc' →
      (ResponsePart.toolCall tc').awaitsUser = (ResponsePart.toolCall tc).awaitsUser) :
    ActivityStep state (updateToolCallInParts state turnId toolCallId updater) action := by
  have hpart : ∀ part, ((updateToolCallPart toolCallId updater part).getD part).awaitsUser =
      part.awaitsUser := by
    intro part
    unfold updateToolCallPart
    split
    · rename_i tc
      split
      · cases hu : updater tc with
        | none => rfl
        | some tc' => exact hupdater tc tc' hu
      · rfl
    · rfl
  unfold updateToolCallInParts
  rcases onActiveTurn_cases state turnId _ with h | ⟨turn, hturn, -, h⟩
  · rw [h]
    exact .same hstart rfl rfl
  · rw [h]
    simp only
    split
    · exact .parts hstart hturn (any_map_awaitsUser _ hpart)
    · exact .same hstart rfl rfl

theorem activity_updatePart (hstart : ∀ turnId startedAt message queued,
      action ≠ .turnStarted turnId startedAt message queued) (turnId partId : String)
    {updater : ResponsePart → ResponsePart}
    (hupdater : ∀ part, (updater part).awaitsUser = part.awaitsUser) :
    ActivityStep state (updateResponsePart state turnId partId updater) action := by
  unfold updateResponsePart
  rcases onActiveTurn_cases state turnId _ with h | ⟨turn, hturn, -, h⟩
  · rw [h]
    exact .same hstart rfl rfl
  · rw [h]
    split
    · exact .same hstart rfl rfl
    · exact .parts hstart hturn (any_modify_awaitsUser hupdater _ _)

theorem awaitsUser_append (turn : ActiveTurn) (part : ResponsePart) :
    ({ turn with responseParts := turn.responseParts ++ [part] } : ActiveTurn).awaitsUser =
      (turn.awaitsUser || part.awaitsUser) := by
  unfold ActiveTurn.awaitsUser
  rw [any_append, any_cons, any_nil, Bool.or_false]

theorem activity_endTurn (hstart : ∀ turnId startedAt message queued,
      action ≠ .turnStarted turnId startedAt message queued) (turnId : String)
    (turnState : TurnState) (duration : Int) (error : Option ErrorInfo) :
    ActivityStep state (endTurn state turnId turnState duration none error) action := by
  rcases endTurn_cases state turnId turnState duration none error with h | ⟨turn, -, -, h⟩
  · rw [h]
    exact .same hstart rfl rfl
  · rw [h]
    exact .recomputed rfl rfl rfl

end ActivityStep

theorem consumePendingMessage_frame (state : ChatState) (queued : Option String) :
    (consumePendingMessage state queued).status = state.status ∧
      (consumePendingMessage state queued).activeTurn = state.activeTurn := by
  unfold consumePendingMessage
  split
  · exact ⟨rfl, rfl⟩
  · split
    · exact ⟨rfl, rfl⟩
    · exact ⟨rfl, rfl⟩

def ChatAction.isAside : ChatAction → Bool
  | .activityChanged _ | .workingDirectorySet _ | .workingDirectoryRemoved _
  | .pendingMessageSet _ _ _ | .pendingMessageRemoved _ _ | .queuedMessagesReordered _
  | .draftChanged _ => true
  | _ => false

theorem chatReducer_aside {action : ChatAction} (h : action.isAside = true) :
    ∃ activity workingDirectories steeringMessage queuedMessages draft,
      chatReducer state action = { state with
        activity, workingDirectories, steeringMessage, queuedMessages, draft } := by
  unfold chatReducer
  cases action with
  | activityChanged _ | draftChanged _ => exact ⟨_, _, _, _, _, rfl⟩
  | workingDirectorySet _ | queuedMessagesReordered _ =>
    simp only
    split
    · exact ⟨_, _, _, _, _, rfl⟩
    · exact ⟨_, _, _, _, _, rfl⟩
  | workingDirectoryRemoved _ =>
    simp only
    split
    · exact ⟨_, _, _, _, _, rfl⟩
    · split
      · exact ⟨_, _, _, _, _, rfl⟩
      · exact ⟨_, _, _, _, _, rfl⟩
  | pendingMessageSet kind id message =>
    unfold setPendingMessage
    cases kind with
    | steering => exact ⟨_, _, _, _, _, rfl⟩
    | queued =>
      simp only
      split
      · exact ⟨_, _, _, _, _, rfl⟩
      · exact ⟨_, _, _, _, _, rfl⟩
  | pendingMessageRemoved kind id =>
    unfold removePendingMessage
    cases kind with
    | steering =>
      simp only
      split
      · exact ⟨_, _, _, _, _, rfl⟩
      · exact ⟨_, _, _, _, _, rfl⟩
    | queued =>
      simp only
      split
      · exact ⟨_, _, _, _, _, rfl⟩
      · split
        · exact ⟨_, _, _, _, _, rfl⟩
        · exact ⟨_, _, _, _, _, rfl⟩
  | _ => cases h

theorem onOpenInputRequest_some {requestId : String} {update : ChatInputRequest → ResponsePart}
    {next : ChatState} (h : onOpenInputRequest state requestId update = some next) :
    ∃ turn index request, state.activeTurn = some turn ∧
      turn.responseParts[index]? = some (.inputRequest request none) ∧
      next = { state with activeTurn := some { turn with
        responseParts := turn.responseParts.set index (update request) } } := by
  unfold onOpenInputRequest at h
  split at h
  · cases h
  · rename_i turn hturn
    split at h
    · cases h
    · rename_i index request hfind
      cases h
      exact ⟨turn, index, request, hturn, (getElem?_findOpenInputRequestPart hfind).1, rfl⟩

theorem chatReducer_activity (state : ChatState) (action : ChatAction) :
    ActivityStep state (chatReducer state action) action := by
  have haside := @chatReducer_aside state action
  cases action with
  | turnStarted turnId startedAt message queued =>
    have hframe := fun next => consumePendingMessage_frame next queued
    exact .unread (hframe _).1 (hframe _).2 rfl trivial
  | delta _ _ _ | reasoning _ _ _ =>
    refine activity_updatePart (fun _ _ _ _ h => by cases h) _ _ fun part => ?_
    cases part with
    | _ => rfl
  | responsePart turnId part =>
    show ActivityStep state (appendResponsePart state turnId part) _
    unfold appendResponsePart
    rcases onActiveTurn_cases state turnId _ with h | ⟨turn, hturn, rfl, h⟩
    · rw [h]
      exact .same (fun _ _ _ _ h => by cases h) rfl rfl
    · rw [h]
      cases hpart : part.awaitsUser with
      | true => exact .shown turn part rfl hturn hpart rfl rfl
      | false =>
        refine .parts (fun _ _ _ _ h => by cases h) hturn ?_
        rw [awaitsUser_append, hpart, Bool.or_false]
  | toolCallStart turnId toolCallId toolName displayName intention contributor _meta =>
    show ActivityStep state (appendResponsePart state turnId _) _
    unfold appendResponsePart
    rcases onActiveTurn_cases state turnId _ with h | ⟨turn, hturn, -, h⟩
    · rw [h]
      exact .same (fun _ _ _ _ h => by cases h) rfl rfl
    · rw [h]
      refine .parts (fun _ _ _ _ h => by cases h) hturn ?_
      rw [awaitsUser_append]
      exact Bool.or_false _
  | toolCallDelta turnId toolCallId content invocationMessage _meta =>
    refine activity_updateToolCall (fun _ _ _ _ h => by cases h) _ _ fun tc tc' h => ?_
    cases tc with
    | streaming =>
      cases h
      rfl
    | _ => cases h
  | toolCallContentChanged turnId toolCallId content _meta =>
    refine activity_updateToolCall (fun _ _ _ _ h => by cases h) _ _ fun tc tc' h => ?_
    cases tc with
    | running =>
      cases h
      rfl
    | _ => cases h
  | toolCallReady _ _ _ _ | toolCallConfirmed _ _ _ _ _ | toolCallComplete _ _ _ _ _
  | toolCallResultConfirmed _ _ _ _ | toolCallAuthRequired _ _ _ _ | toolCallAuthResolved _ _ _ =>
    exact activity_refresh _ _ _ _
  | turnComplete _ _ | turnCancelled _ _ =>
    exact activity_endTurn (fun _ _ _ _ h => by cases h) _ _ _ _
  | error turnId duration error =>
    show ActivityStep state (endTurn state turnId .error duration (some SessionStatus.Error)
      (some error)) _
    rcases endTurn_cases state turnId .error duration (some SessionStatus.Error) (some error) with
      h | ⟨turn, hturn, hid, h⟩
    · rw [h]
      exact .same (fun _ _ _ _ h => by cases h) rfl rfl
    · rw [h]
      refine .failed turnId duration error rfl ?_ rfl (error_bits state.status).1
        (error_bits state.status).2
      rw [hturn, ← hid]
      rfl
  | usage turnId usage =>
    show ActivityStep state (onActiveTurn state turnId _) _
    rcases onActiveTurn_cases state turnId _ with h | ⟨turn, hturn, -, h⟩
    · rw [h]
      exact .same (fun _ _ _ _ h => by cases h) rfl rfl
    · rw [h]
      exact .parts (fun _ _ _ _ h => by cases h) hturn rfl
  | truncated turnId =>
    cases turnId with
    | none => exact .recomputed rfl rfl rfl
    | some turnId =>
      unfold chatReducer
      simp only
      split
      · exact .same (fun _ _ _ _ h => by cases h) rfl rfl
      · exact .recomputed rfl rfl rfl
  | inputRequested request =>
    unfold chatReducer upsertInputRequestPart
    simp only
    split
    · exact .same (fun _ _ _ _ h => by cases h) rfl rfl
    · rename_i turn hturn
      refine .unread rfl rfl rfl ?_
      show state.activeTurn.isSome = true
      rw [hturn]
      rfl
  | inputAnswerChanged requestId questionId answer =>
    unfold chatReducer
    simp only
    cases h : onOpenInputRequest state requestId _ with
    | none => exact .same (fun _ _ _ _ h => by cases h) rfl rfl
    | some next =>
      obtain ⟨turn, index, request, hturn, hget, rfl⟩ := onOpenInputRequest_some h
      exact .parts (fun _ _ _ _ h => by cases h) hturn (any_set_openRequest hget _)
  | inputCompleted requestId response answers =>
    unfold chatReducer
    simp only
    split
    · exact .same (fun _ _ _ _ h => by cases h) rfl rfl
    · rename_i next h
      obtain ⟨turn, index, request, -, -, rfl⟩ := onOpenInputRequest_some h
      exact .recomputed rfl rfl rfl
  | turnsLoaded turns cursor => exact .same (fun _ _ _ _ h => by cases h) rfl rfl
  | activityChanged _ | workingDirectorySet _ | workingDirectoryRemoved _ | pendingMessageSet _ _ _
  | pendingMessageRemoved _ _ | queuedMessagesReordered _ | draftChanged _ =>
    obtain ⟨_, _, _, _, _, h⟩ := haside rfl
    rw [h]
    exact .same (fun _ _ _ _ h => by cases h) rfl rfl

/-! ## The law along a run -/

def chatAfter (summary : ChatSummary) (actions : List ChatAction) : ChatState :=
  actions.foldl chatReducer (createChatState summary)

theorem chatAfter_append (summary : ChatSummary) (actions later : List ChatAction) :
    chatAfter summary (actions ++ later) = later.foldl chatReducer (chatAfter summary actions) :=
  foldl_append

def FailedLast (summary : ChatSummary) (actions : List ChatAction) : Prop :=
  ∃ before turnId duration error after, actions = before ++ .error turnId duration error :: after ∧
    (chatAfter summary before).activeTurn.map (·.id) = some turnId ∧
    ∀ turnId startedAt message queued, .turnStarted turnId startedAt message queued ∉ after

def StatusLaw (summary : ChatSummary) (actions : List ChatAction) : Prop :=
  let state := chatAfter summary actions
  activityBits state.status = liveActivity state.activeTurn ∨
    (activityBits state.status = SessionStatus.Error ∧ state.activeTurn = none ∧
      FailedLast summary actions)

def ShownWaiting (state : ChatState) (action : ChatAction) : Prop :=
  ∀ turnId part turn, action = .responsePart turnId part → state.activeTurn = some turn →
    turn.id = turnId → part.awaitsUser = true → turn.awaitsUser = true

theorem not_failedLast_nil (summary : ChatSummary) : ¬ FailedLast summary [] := by
  rintro ⟨before, turnId, duration, error, after, h, -⟩
  exact absurd h.symm (append_ne_nil_of_right_ne_nil _ (cons_ne_nil _ _))

variable {summary : ChatSummary} {actions : List ChatAction}

theorem FailedLast.append {action : ChatAction} (h : FailedLast summary actions)
    (hstart : ∀ turnId startedAt message queued,
      action ≠ .turnStarted turnId startedAt message queued) :
    FailedLast summary (actions ++ [action]) := by
  obtain ⟨before, turnId, duration, error, after, rfl, hid, hafter⟩ := h
  refine ⟨before, turnId, duration, error, after ++ [action], by simp, hid, ?_⟩
  intro turnId startedAt message queued hmem
  rcases mem_append.mp hmem with hmem | hmem
  · exact hafter _ _ _ _ hmem
  · exact hstart _ _ _ _ (mem_singleton.mp hmem).symm

theorem liveActivity_some (turn : ActiveTurn) : liveActivity (some turn) =
    if turn.awaitsUser then SessionStatus.InputNeeded else SessionStatus.InProgress := rfl

theorem chatReducer_responsePart (hturn : state.activeTurn = some turn) (part : ResponsePart) :
    chatReducer state (.responsePart turn.id part) =
      { state with
        activeTurn := some { turn with responseParts := turn.responseParts ++ [part] } } := by
  show onActiveTurn state turn.id _ = _
  unfold onActiveTurn
  rw [hturn]
  simp

theorem statusLaw_shown {part : ResponsePart} (h : StatusLaw summary actions)
    (hturn : (chatAfter summary actions).activeTurn = some turn) (hpart : part.awaitsUser = true) :
    StatusLaw summary (actions ++ [.responsePart turn.id part]) ↔ turn.awaitsUser = true := by
  have hbits : activityBits (chatAfter summary actions).status = liveActivity (some turn) := by
    rcases h with h | ⟨-, hnone, -⟩
    · rw [hturn] at h
      exact h
    · rw [hturn] at hnone
      cases hnone
  have hnext : chatAfter summary (actions ++ [.responsePart turn.id part]) =
      { chatAfter summary actions with
        activeTurn := some { turn with responseParts := turn.responseParts ++ [part] } } := by
    rw [chatAfter_append]
    exact chatReducer_responsePart hturn part
  unfold StatusLaw
  simp only [hnext, hbits, liveActivity_some, awaitsUser_append, hpart, Bool.or_true, if_true]
  cases turn.awaitsUser with
  | true => simp
  | false => simp [SessionStatus.InProgress, SessionStatus.InputNeeded]

theorem statusLaw_other {action : ChatAction} (h : StatusLaw summary actions)
    (hother : ∀ turn part, action = .responsePart turn.id part →
      (chatAfter summary actions).activeTurn = some turn → part.awaitsUser = false) :
    StatusLaw summary (actions ++ [action]) := by
  have hnext : chatAfter summary (actions ++ [action]) =
      chatReducer (chatAfter summary actions) action := by
    rw [chatAfter_append]
    rfl
  have hstep := chatReducer_activity (chatAfter summary actions) action
  unfold StatusLaw
  simp only [hnext]
  cases hstep with
  | refreshed hlive hflags => exact .inl hlive
  | failed turnId duration error haction hid hnone hbits hflags =>
    refine .inr ⟨hbits, hnone, actions, turnId, duration, error, [], by rw [haction], hid, ?_⟩
    exact nofun
  | kept hstatus hlive hnone hstart =>
    rw [hstatus, hlive, hnone]
    rcases h with h | ⟨hbits, hturn, hfailed⟩
    · exact .inl h
    · exact .inr ⟨hbits, hturn, hfailed.append hstart⟩
  | shown turn part haction hturn hpart hstatus hnext =>
    rw [hother turn part haction hturn] at hpart
    cases hpart

theorem statusLaw_step (action : ChatAction) (h : StatusLaw summary actions) :
    StatusLaw summary (actions ++ [action]) ↔ ShownWaiting (chatAfter summary actions) action := by
  by_cases hshown : ∃ turn part, action = .responsePart turn.id part ∧
      (chatAfter summary actions).activeTurn = some turn ∧ part.awaitsUser = true
  · obtain ⟨turn, part, rfl, hturn, hpart⟩ := hshown
    rw [statusLaw_shown h hturn hpart]
    constructor
    · rintro hwaits turnId part' turn' - hturn' - -
      obtain rfl := Option.some.inj (hturn.symm.trans hturn')
      exact hwaits
    · exact fun hwaits => hwaits turn.id part turn rfl hturn rfl hpart
  · have hother : ∀ turn part, action = .responsePart turn.id part →
        (chatAfter summary actions).activeTurn = some turn → part.awaitsUser = false := by
      intro turn part haction hturn
      cases hpart : part.awaitsUser with
      | false => rfl
      | true => exact absurd ⟨turn, part, haction, hturn, hpart⟩ hshown
    refine ⟨fun _ => ?_, fun _ => statusLaw_other h hother⟩
    rintro turnId part turn haction hturn rfl hpart
    exact absurd ⟨turn, part, haction, hturn, hpart⟩ hshown

theorem flagsStep (state : ChatState) (action : ChatAction) :
    FlagsStep state (chatReducer state action) action := by
  cases chatReducer_activity state action with
  | refreshed _ hflags => exact hflags
  | failed _ _ _ _ _ _ _ hflags => exact .inl hflags
  | kept hstatus _ _ _ | shown _ _ _ _ _ hstatus _ => exact .inl (congrArg flagBits hstatus)

def StatusKept (summary : ChatSummary) (actions : List ChatAction) : Prop :=
  (∀ before, before <+: actions → StatusLaw summary before) ∧
    ∀ before action, before ++ [action] <+: actions →
      FlagsStep (chatAfter summary before) (chatAfter summary (before ++ [action])) action

theorem statusLaw_nil_iff (summary : ChatSummary) :
    StatusLaw summary [] ↔ activityBits summary.status = SessionStatus.Idle := by
  constructor
  · rintro (h | ⟨-, -, h⟩)
    · exact h
    · exact absurd h (not_failedLast_nil summary)
  · exact .inl

/-- The status is kept along a run exactly when the chat starts idle and no part that
waits for the user is appended to a turn that does not wait already. -/
theorem statusKept_iff (summary : ChatSummary) (actions : List ChatAction) :
    StatusKept summary actions ↔ activityBits summary.status = SessionStatus.Idle ∧
      ∀ before action, before ++ [action] <+: actions →
        ShownWaiting (chatAfter summary before) action := by
  have hflags : ∀ before action, FlagsStep (chatAfter summary before)
      (chatAfter summary (before ++ [action])) action := by
    intro before action
    rw [chatAfter_append]
    exact flagsStep _ action
  constructor
  · rintro ⟨hlaw, -⟩
    refine ⟨(statusLaw_nil_iff summary).mp (hlaw [] nil_prefix), fun before action h => ?_⟩
    have hbefore : before <+: actions := (prefix_append before [action]).trans h
    exact (statusLaw_step action (hlaw before hbefore)).mp (hlaw _ h)
  · rintro ⟨hidle, hshown⟩
    refine ⟨fun before h => ?_, fun before action _ => hflags before action⟩
    induction before using reverseRecOn with
    | nil => exact (statusLaw_nil_iff summary).mpr hidle
    | append_singleton before action ih =>
      have hbefore : before <+: actions := (prefix_append before [action]).trans h
      exact (statusLaw_step action (ih hbefore)).mpr (hshown before action h)

def shownCall : ResponsePart :=
  .toolCall (.pendingConfirmation
    { toolCallId := "c", toolName := "rm", displayName := "rm", intention := none
      contributor := none, _meta := none }
    { invocationMessage := .string "rm", toolInput := none }
    { confirmationTitle := none, riskAssessment := none, edits := none, editable := none
      options := none })

theorem not_always_statusKept : ¬ ∀ summary actions, activityBits summary.status =
    SessionStatus.Idle → StatusKept summary actions := by
  intro h
  have hlaw := (h idleSummary [.turnStarted "t" 0 ⟨"hi"⟩ none, .responsePart "t" shownCall]
    (by decide)).1 _ prefix_rfl
  rcases hlaw with hlaw | ⟨hlaw, -⟩
  · revert hlaw
    decide
  · revert hlaw
    decide

end Fumie.AgentHost
