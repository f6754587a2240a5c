import Fumie.AgentHost.State.ChatReducer

/-!
# The queue and the loaded turns of a chat

Setting, removing, reordering and consuming queued messages keeps their ids distinct, and a
client's order moves the queue about without loss. A page of older turns is compared with
the turns already there and not with itself: loading it twice changes nothing, but a page
that lists one turn twice puts it twice into the history.
-/

namespace Fumie.AgentHost

open List

def ChatState.queue (state : ChatState) : List PendingMessage := state.queuedMessages.getD []

def messageIds (messages : List PendingMessage) : List String := messages.map (·.id)

variable (turns : List Turn)

def turnIds : List String := turns.map (·.id)

structure DistinctIds (state : ChatState) : Prop where
  queue : (messageIds state.queue).Nodup
  turns : (turnIds state.turns).Nodup

def ChatAction.MovesQueue : ChatAction → Prop
  | .turnStarted _ _ _ _ | .turnsLoaded _ _ | .pendingMessageSet _ _ _
  | .pendingMessageRemoved _ _ | .queuedMessagesReordered _ => True
  | _ => False

def FreshPage (state : ChatState) : ChatAction → Prop
  | .turnsLoaded turns _ =>
    (turnIds (turns.filter fun turn => turn.id ∉ turnIds state.turns)).Nodup
  | _ => True

/-- Every page of the run repeats none of the turns that are new where it is loaded. -/
def FreshPages (state : ChatState) : List ChatAction → Prop
  | [] => True
  | action :: rest => FreshPage state action ∧ FreshPages (chatReducer state action) rest

/-! ## Messages by their ids -/

variable {messages : List PendingMessage}

theorem messageIds_filter (h : (messageIds messages).Nodup) (p : PendingMessage → Bool) :
    (messageIds (messages.filter p)).Nodup :=
  h.sublist (filter_sublist.map _)

theorem getD_nonEmptyMessages (messages : List PendingMessage) :
    (nonEmptyMessages messages).getD [] = messages := by
  unfold nonEmptyMessages
  split
  · next hempty => exact (isEmpty_iff.mp hempty).symm
  · rfl

theorem eq_of_id (h : (messageIds messages).Nodup) {m n : PendingMessage} (hm : m ∈ messages)
    (hn : n ∈ messages) (heq : m.id = n.id) : m = n :=
  inj_on_of_nodup_map h hm hn heq

theorem find?_id (h : (messageIds messages).Nodup) {id : String} {m : PendingMessage} :
    messages.reverse.find? (fun m => m.id = id) = some m ↔ m ∈ messages ∧ m.id = id := by
  constructor
  · intro hfind
    have hmem := mem_of_find?_eq_some hfind
    have hid := find?_some hfind
    exact ⟨mem_reverse.mp hmem, of_decide_eq_true hid⟩
  · rintro ⟨hmem, rfl⟩
    cases hfind : messages.reverse.find? fun n => n.id = m.id with
    | none =>
      have hnone := find?_eq_none.mp hfind m (mem_reverse.mpr hmem)
      exact absurd (decide_eq_true rfl) hnone
    | some n =>
      have hn := mem_reverse.mp (mem_of_find?_eq_some hfind)
      have hid := find?_some hfind
      rw [eq_of_id h hn hmem (of_decide_eq_true hid)]

theorem nodup_eraseDups (ids : List String) : ids.eraseDups.Nodup := by
  induction hn : ids.length using Nat.strong_induction_on generalizing ids with
  | _ n ih =>
    cases ids with
    | nil => exact nodup_nil
    | cons id rest =>
      rw [eraseDups_cons, nodup_cons]
      constructor
      · rw [mem_eraseDups, mem_filter]
        rintro ⟨-, hne⟩
        rw [beq_self_eq_true] at hne
        cases hne
      · refine ih _ ?_ _ rfl
        rw [← hn, length_cons]
        exact Nat.lt_succ_of_le (length_filter_le _ _)

/-! ## A client's order -/

theorem named_perm (h : (messageIds messages).Nodup) {ordered : List String}
    (hordered : ordered.Nodup) :
    (ordered.filterMap fun id => messages.reverse.find? fun m => m.id = id).Perm
      (messages.filter fun m => m.id ∈ ordered) := by
  rw [perm_ext_iff_of_nodup ?_ (h.of_map.filter _)]
  · intro m
    rw [mem_filterMap, mem_filter]
    constructor
    · rintro ⟨id, hid, hfind⟩
      obtain ⟨hmem, rfl⟩ := (find?_id h).mp hfind
      exact ⟨hmem, decide_eq_true hid⟩
    · rintro ⟨hmem, hid⟩
      exact ⟨m.id, of_decide_eq_true hid, (find?_id h).mpr ⟨hmem, rfl⟩⟩
  · refine hordered.filterMap ?_
    intro id id' m hm hm'
    rw [← ((find?_id h).mp hm).2, ← ((find?_id h).mp hm').2]

theorem reorderMessages_perm {existing : List PendingMessage} (h : (messageIds existing).Nodup)
    (order : List String) : (reorderMessages existing order).Perm existing := by
  refine ((named_perm h (nodup_eraseDups _)).append_right _).trans ?_
  have hsplit (ordered : List String) : (existing.filter fun m => decide (m.id ∉ ordered)) =
        existing.filter fun m => !decide (m.id ∈ ordered) :=
    filter_congr fun m _ => decide_not
  rw [hsplit]
  exact filter_append_perm _ _

/-! ## One action -/

theorem messageIds_set {entry : PendingMessage} {index : Nat}
    (h : messages.findIdx? (fun m => m.id = entry.id) = some index) :
    messageIds (messages.set index entry) = messageIds messages := by
  obtain ⟨hlt, hid, -⟩ := findIdx?_eq_some_iff_getElem.mp h
  have hindex : index < (messages.map (·.id)).length := by rwa [length_map]
  have hsame : entry.id = (messages.map (·.id))[index] := by
    rw [getElem_map]
    exact (of_decide_eq_true hid).symm
  unfold messageIds
  rw [map_set, hsame, set_getElem_self]

theorem queue_set {state : ChatState} (h : (messageIds state.queue).Nodup)
    (kind : PendingMessageKind) (entry : PendingMessage) :
    (messageIds (setPendingMessage state kind entry).queue).Nodup := by
  cases kind with
  | steering => exact h
  | queued =>
    unfold setPendingMessage
    dsimp only
    split
    · next index hindex =>
      show (messageIds ((state.queuedMessages.getD []).set index entry)).Nodup
      rw [messageIds_set hindex]
      exact h
    · next hnone =>
      show (messageIds (state.queue ++ [entry])).Nodup
      have hnew : entry.id ∉ messageIds state.queue := by
        intro hmem
        obtain ⟨m, hm, hid⟩ := List.mem_map.mp hmem
        have hne := findIdx?_eq_none_iff.mp hnone m hm
        exact of_decide_eq_false hne hid
      unfold messageIds at h hnew ⊢
      rw [map_append, map_singleton, nodup_append]
      refine ⟨h, nodup_singleton _, ?_⟩
      rintro id hid _ hlast rfl
      rw [mem_singleton] at hlast
      rw [hlast] at hid
      exact hnew hid

variable {state : ChatState}

theorem queue_removed (h : (messageIds state.queue).Nodup) (kind : PendingMessageKind) (id : String) :
    (messageIds (removePendingMessage state kind id).queue).Nodup := by
  unfold removePendingMessage
  split
  · split
    · exact h
    · exact h
  · split
    · exact h
    · next existing hexisting =>
      dsimp only
      split
      · exact h
      · have hqueue : state.queue = existing := by
          unfold ChatState.queue
          rw [hexisting]
          rfl
        rw [hqueue] at h
        show (messageIds ((nonEmptyMessages _).getD [])).Nodup
        rw [getD_nonEmptyMessages]
        exact messageIds_filter h _

theorem queue_consumed (h : (messageIds state.queue).Nodup) (queuedMessageId : Option String) :
    (messageIds (consumePendingMessage state queuedMessageId).queue).Nodup := by
  unfold consumePendingMessage
  split
  · exact h
  · next id =>
    split
    · exact h
    · unfold ChatState.queue at h
      cases hqueued : state.queuedMessages with
      | none => exact nodup_nil
      | some queued =>
        rw [hqueued] at h
        show (messageIds ((nonEmptyMessages _).getD [])).Nodup
        rw [getD_nonEmptyMessages]
        exact messageIds_filter h _

theorem queue_reordered (h : (messageIds state.queue).Nodup) (order : List String) :
    (chatReducer state (.queuedMessagesReordered order)).queue.Perm state.queue := by
  unfold chatReducer ChatState.queue
  dsimp only
  split
  · exact List.Perm.refl _
  · next existing hexisting =>
    unfold ChatState.queue at h
    rw [hexisting] at h ⊢
    exact reorderMessages_perm h order

variable {action : ChatAction} {actions : List ChatAction}

theorem queue_step {state : ChatState} (h : (messageIds state.queue).Nodup)
    (hmoves : action.MovesQueue) : (messageIds (chatReducer state action).queue).Nodup := by
  cases action with
  | turnStarted turnId startedAt message queuedMessageId =>
    refine queue_consumed ?_ queuedMessageId
    exact h
  | turnsLoaded turns cursor => exact h
  | pendingMessageSet kind id message => exact queue_set h kind _
  | pendingMessageRemoved kind id => exact queue_removed h kind id
  | queuedMessagesReordered order =>
    exact ((queue_reordered h order).map _).nodup_iff.mpr h
  | _ => exact hmoves.elim

theorem turns_step (state : ChatState) (hmoves : action.MovesQueue)
    (hpage : ∀ turns cursor, action ≠ .turnsLoaded turns cursor) :
    (chatReducer state action).turns = state.turns := by
  cases action with
  | turnStarted turnId startedAt message queuedMessageId =>
    unfold chatReducer consumePendingMessage
    dsimp only
    split
    · rfl
    · split
      · rfl
      · rfl
  | turnsLoaded turns cursor => exact absurd rfl (hpage turns cursor)
  | pendingMessageSet kind id message =>
    cases kind with
    | steering => rfl
    | queued =>
      unfold chatReducer setPendingMessage
      dsimp only
      split
      · rfl
      · rfl
  | pendingMessageRemoved kind id =>
    unfold chatReducer removePendingMessage
    dsimp only
    split
    · split
      · rfl
      · rfl
    · split
      · rfl
      · split
        · rfl
        · rfl
  | queuedMessagesReordered order =>
    unfold chatReducer
    dsimp only
    split
    · rfl
    · rfl
  | _ => exact hmoves.elim

theorem turnIds_step (h : (turnIds state.turns).Nodup) (hmoves : action.MovesQueue) :
    (turnIds (chatReducer state action).turns).Nodup ↔ FreshPage state action := by
  by_cases hpage : ∃ turns cursor, action = .turnsLoaded turns cursor
  · obtain ⟨turns, cursor, rfl⟩ := hpage
    show (turnIds (turns.filter (fun turn => turn.id ∉ turnIds state.turns) ++
      state.turns)).Nodup ↔ (turnIds _).Nodup
    unfold turnIds at h ⊢
    rw [map_append, nodup_append]
    refine ⟨fun hall => hall.1, fun holder => ⟨holder, h, ?_⟩⟩
    rintro id hid _ hold rfl
    obtain ⟨turn, hturn, rfl⟩ := mem_map.mp hid
    exact of_decide_eq_true (mem_filter.mp hturn).2 hold
  · have hother : ∀ turns cursor, action ≠ .turnsLoaded turns cursor :=
      fun turns cursor heq => hpage ⟨turns, cursor, heq⟩
    rw [turns_step state hmoves hother]
    refine iff_of_true h ?_
    cases action with
    | turnsLoaded turns cursor => exact absurd rfl (hother turns cursor)
    | _ => trivial

theorem turnsLoaded_twice (state : ChatState) (turns : List Turn) (cursor : Option String) :
    chatReducer (chatReducer state (.turnsLoaded turns cursor)) (.turnsLoaded turns cursor) =
      chatReducer state (.turnsLoaded turns cursor) := by
  let older := turns.filter fun turn => turn.id ∉ turnIds state.turns
  have hnone : (turns.filter fun turn => turn.id ∉ turnIds (older ++ state.turns)) = [] := by
    rw [filter_eq_nil_iff]
    intro turn hturn hnew
    refine of_decide_eq_true hnew ?_
    unfold turnIds
    rw [map_append, mem_append]
    by_cases hold : turn.id ∈ turnIds state.turns
    · exact .inr hold
    · refine .inl (mem_map_of_mem ?_)
      exact mem_filter.mpr ⟨hturn, decide_eq_true hold⟩
  show { state with
      turns := (turns.filter fun turn => turn.id ∉ turnIds (older ++ state.turns)) ++
        (older ++ state.turns)
      turnsNextCursor := cursor } =
    { state with turns := older ++ state.turns, turnsNextCursor := cursor }
  rw [hnone, nil_append]

/-! ## Runs -/

theorem queue_run {state : ChatState} (h : (messageIds state.queue).Nodup)
    (hmoves : ∀ action ∈ actions, action.MovesQueue) :
    (messageIds (actions.foldl chatReducer state).queue).Nodup := by
  induction actions generalizing state with
  | nil => exact h
  | cons action rest ih =>
    exact ih (queue_step h (hmoves action mem_cons_self))
      fun action hmem => hmoves action (mem_cons_of_mem _ hmem)

theorem turnIds_run {state : ChatState} (h : (turnIds state.turns).Nodup)
    (hmoves : ∀ action ∈ actions, action.MovesQueue) :
    (∀ n, (turnIds ((actions.take n).foldl chatReducer state).turns).Nodup) ↔
      FreshPages state actions := by
  induction actions generalizing state with
  | nil =>
    refine iff_of_true (fun n => ?_) trivial
    rw [take_nil]
    exact h
  | cons action rest ih =>
    have hfirst := turnIds_step h (hmoves action mem_cons_self)
    have hrest : ∀ action ∈ rest, action.MovesQueue :=
      fun action hmem => hmoves action (mem_cons_of_mem _ hmem)
    constructor
    · intro hall
      have hpage := hfirst.mp (hall 1)
      exact ⟨hpage, (ih (hfirst.mpr hpage) hrest).mp fun n => hall (n + 1)⟩
    · rintro ⟨hpage, hpages⟩ n
      cases n with
      | zero => exact h
      | succ n => exact (ih (hfirst.mpr hpage) hrest).mpr hpages n

/-- The queue keeps its ids distinct in every run and any order permutes it; the turns keep
theirs exactly as long as no page repeats what it adds; and a page loaded twice is a page
loaded once. -/
theorem queue_and_history {state : ChatState} (h : DistinctIds state) {actions : List ChatAction}
    (hmoves : ∀ action ∈ actions, action.MovesQueue) :
    (messageIds (actions.foldl chatReducer state).queue).Nodup ∧
    (∀ order, (chatReducer (actions.foldl chatReducer state)
      (.queuedMessagesReordered order)).queue.Perm (actions.foldl chatReducer state).queue) ∧
    ((∀ n, (turnIds ((actions.take n).foldl chatReducer state).turns).Nodup) ↔
      FreshPages state actions) ∧
    ∀ turns cursor,
      chatReducer (chatReducer (actions.foldl chatReducer state) (.turnsLoaded turns cursor))
          (.turnsLoaded turns cursor) =
        chatReducer (actions.foldl chatReducer state) (.turnsLoaded turns cursor) := by
  have hqueue := queue_run h.queue hmoves
  exact ⟨hqueue, queue_reordered hqueue, turnIds_run h.turns hmoves, turnsLoaded_twice _⟩

/-- Two messages queued and swapped, one of them sent, and a page loaded twice. -/
def queueRun : List ChatAction :=
  [.pendingMessageSet .queued "a" default, .pendingMessageSet .queued "b" default,
    .queuedMessagesReordered ["b", "x", "b"], .turnStarted "t" default default (some "b"),
    .turnsLoaded turns none, .turnsLoaded turns none]

theorem queueRun_moves : ∀ action ∈ queueRun turns, action.MovesQueue := by
  simp [queueRun, ChatAction.MovesQueue]

theorem distinctIds_new (summary : ChatSummary) : DistinctIds (createChatState summary) :=
  ⟨nodup_nil, nodup_nil⟩

theorem queue_and_history_sample :
    (turnIds (((queueRun [default]).take 6).foldl chatReducer
      (createChatState default)).turns).Nodup := by
  refine (queue_and_history (distinctIds_new default) (queueRun_moves _)).2.2.1.mpr ?_ 6
  refine ⟨trivial, trivial, trivial, trivial, ?_, ?_, trivial⟩
  · show (turnIds _).Nodup
    decide
  · show (turnIds _).Nodup
    decide

/-- A page that lists one turn twice puts it twice into the history. -/
theorem not_always_distinctIds : ¬∀ (state : ChatState) (actions : List ChatAction),
    DistinctIds state → (∀ action ∈ actions, action.MovesQueue) →
      DistinctIds (actions.foldl chatReducer state) := by
  intro h
  have hturns := (h (createChatState default) [.turnsLoaded [default, default] none]
    (distinctIds_new default) (by simp [ChatAction.MovesQueue])).turns
  exact absurd hturns (by decide)

end Fumie.AgentHost
