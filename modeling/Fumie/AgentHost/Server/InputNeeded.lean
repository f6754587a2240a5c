import Fumie.AgentHost.Server.Ownership

/-!
# Input-needed sessions

Two writers own the activity bits of a session: `sessionReducer` derives `InputNeeded`
from the queue of the session, and a chat action overwrites the bits with the aggregate of
the catalog. `InputLaw` is what both should keep: a session with a blocking entry is marked,
and a session is marked only for a blocking entry or a chat that needs input.

The queue is not read by the aggregation, so a chat action keeps the law while a chat of the
catalog needs input or nothing of the queue blocks; and a session action on the catalog
leaves the bits alone, so it keeps the law unless it takes away the last chat they stand for.
-/

namespace Fumie.AgentHost

open Fumie.Lib StateManager List Option SessionState Bool

def needsInput (status : SessionStatus) : Bool :=
  status &&& SessionStatus.InputNeeded = SessionStatus.InputNeeded

def SessionState.blocked (state : SessionState) : Bool := (state.inputNeeded.getD []).any awaitsUser

def SessionState.ChatNeedsInput (state : SessionState) : Prop :=
  ∃ chat ∈ state.chats, needsInput chat.status = true

structure InputLaw (state : SessionState) : Prop where
  marked : state.blocked = true → needsInput state.status = true
  unmarked : state.blocked = false → ¬state.ChatNeedsInput → needsInput state.status = false

/-! ## Bits -/

theorem needsInput_congr {status status' : SessionStatus}
    (h : status' &&& SessionStatus.InputNeeded = status &&& SessionStatus.InputNeeded) :
    needsInput status' = needsInput status := by
  unfold needsInput
  rw [h]

variable (status : SessionStatus)

theorem needsInput_withInputNeededStatus (inputNeeded : List SessionInputRequest) :
    needsInput (withInputNeededStatus status inputNeeded) = inputNeeded.any awaitsUser := by
  unfold withInputNeededStatus needsInput
  split
  · rename_i hany
    rw [hany, decide_eq_true_iff, BitVec.and_or_distrib_right, BitVec.and_assoc]
    have hmask : ~~~STATUS_ACTIVITY_MASK &&& SessionStatus.InputNeeded = 0#32 := by decide
    rw [hmask, BitVec.and_zero, BitVec.zero_or, BitVec.and_self]
  · rename_i hany
    rw [eq_false_iff.mpr hany, decide_eq_false_iff_not, BitVec.and_assoc]
    intro h
    have hbit := congrArg (· &&& (SessionStatus.InputNeeded &&& ~~~SessionStatus.InProgress)) h
    have hmask : ~~~(SessionStatus.InputNeeded &&& ~~~SessionStatus.InProgress) &&&
        SessionStatus.InputNeeded &&& (SessionStatus.InputNeeded &&& ~~~SessionStatus.InProgress) =
          0#32 := by decide
    rw [BitVec.and_assoc, hmask, BitVec.and_zero] at hbit
    exact absurd hbit (by decide)

theorem needsInput_withStatusFlag {flag : SessionStatus}
    (hflag : flag &&& SessionStatus.InputNeeded = 0#32)
    (hkeep : ~~~flag &&& SessionStatus.InputNeeded = SessionStatus.InputNeeded) (set : Bool) :
    needsInput (withStatusFlag status flag set) = needsInput status := by
  refine needsInput_congr ?_
  unfold withStatusFlag
  split
  · rw [BitVec.and_or_distrib_right, hflag, BitVec.or_zero]
  · rw [BitVec.and_assoc, hkeep]

theorem needsInput_mergeSessionStatus (sessionStatus chatStatus : SessionStatus) :
    needsInput (StateManager.mergeSessionStatus sessionStatus chatStatus) =
      needsInput chatStatus := by
  refine needsInput_congr ?_
  unfold StateManager.mergeSessionStatus
  have hkeep : ~~~(SessionStatus.IsRead ||| SessionStatus.IsArchived) &&&
      SessionStatus.InputNeeded = SessionStatus.InputNeeded := by decide
  have hdrop : (SessionStatus.IsRead ||| SessionStatus.IsArchived) &&&
      SessionStatus.InputNeeded = 0#32 := by decide
  rw [BitVec.and_or_distrib_right, BitVec.and_assoc, BitVec.and_assoc, hkeep, hdrop,
    BitVec.and_zero, BitVec.or_zero]

/-! ## The aggregate -/

theorem foldl_mostRecent_mem (rest : List ChatSummary) (first : ChatSummary) :
    rest.foldl mostRecent first ∈ first :: rest := by
  induction rest generalizing first with
  | nil => exact mem_singleton.mpr rfl
  | cons c rest ih =>
    rw [foldl_cons]
    have hone : mostRecent first c = first ∨ mostRecent first c = c := by
      unfold mostRecent
      split
      · exact .inr rfl
      · exact .inl rfl
    rcases mem_cons.mp (ih (mostRecent first c)) with h | h
    · rw [h]
      rcases hone with hone | hone
      · rw [hone]
        exact mem_cons_self
      · rw [hone]
        exact mem_cons_of_mem _ mem_cons_self
    · exact mem_cons_of_mem _ (mem_cons_of_mem _ h)

theorem needsInput_aggregate {chats : List ChatSummary} {defaultChat : Option Uri}
    {status : SessionStatus} (h : (aggregateChatSummaries chats defaultChat).status = some status) :
    needsInput status = true ↔ ∃ chat ∈ chats, needsInput chat.status = true := by
  unfold aggregateChatSummaries at h
  cases chats with
  | nil => cases h
  | cons first rest =>
    dsimp only at h
    obtain ⟨base, hbase⟩ : ∃ base, base = (defaultChat.bind fun d =>
      (first :: rest).find? fun c => c.resource = d).getD (rest.foldl mostRecent first) := ⟨_, rfl⟩
    have hmem : base ∈ first :: rest := by
      rw [hbase]
      cases hfind : defaultChat.bind fun d => (first :: rest).find? fun c => c.resource = d with
      | none => exact foldl_mostRecent_mem rest first
      | some c =>
        obtain ⟨d, -, hd⟩ := bind_eq_some_iff.mp hfind
        exact mem_of_find?_eq_some hd
    rw [← hbase] at h
    cases hinput : (first :: rest).find? fun c =>
        c.status &&& SessionStatus.InputNeeded = SessionStatus.InputNeeded with
    | some chat =>
      rw [hinput] at h
      cases h
      have hchat : needsInput chat.status = true := find?_some
        (p := fun c : ChatSummary => needsInput c.status) hinput
      have hneeds : needsInput SessionStatus.InputNeeded = true := by decide
      exact iff_of_true hneeds ⟨chat, mem_of_find?_eq_some hinput, hchat⟩
    | none =>
      have hnone : ∀ chat ∈ first :: rest, ¬needsInput chat.status = true :=
        fun chat hchat => find?_eq_none.mp hinput chat hchat
      have hkeep : ~~~(SessionStatus.IsRead ||| SessionStatus.IsArchived) &&&
          SessionStatus.InputNeeded = SessionStatus.InputNeeded := by decide
      have hbits : needsInput (base.status &&&
          ~~~(SessionStatus.IsRead ||| SessionStatus.IsArchived)) = needsInput base.status :=
        needsInput_congr (by rw [BitVec.and_assoc, hkeep])
      have herror : ¬needsInput SessionStatus.Error = true := by decide
      have hprogress : ¬needsInput SessionStatus.InProgress = true := by decide
      rw [hinput] at h
      refine iff_of_false ?_ fun ⟨chat, hchat, hneeds⟩ => hnone chat hchat hneeds
      split at h
      · rename_i heq
        cases heq
      · cases h
        exact herror
      · cases h
        exact hprogress
      · cases h
        exact fun hneeds => hnone base hmem (hbits ▸ hneeds)

/-! ## A session action -/

theorem sessionReducer_input (state : SessionState) (action : SessionAction) :
    ((sessionReducer state action).inputNeeded = state.inputNeeded ∧
      needsInput (sessionReducer state action).status = needsInput state.status) ∨
      needsInput (sessionReducer state action).status = (sessionReducer state action).blocked := by
  have hsame : ∀ {state' : SessionState}, state'.inputNeeded = state.inputNeeded →
      state'.status = state.status →
      (state'.inputNeeded = state.inputNeeded ∧
        needsInput state'.status = needsInput state.status) ∨
          needsInput state'.status = state'.blocked :=
    fun hqueue hstatus => .inl ⟨hqueue, congrArg needsInput hstatus⟩
  have hcustomizations : ∀ edit, (onCustomizations state edit).inputNeeded = state.inputNeeded ∧
      (onCustomizations state edit).status = state.status := by
    intro edit
    unfold onCustomizations
    split
    · exact ⟨rfl, rfl⟩
    · exact ⟨rfl, rfl⟩
  cases action with
  | isReadChanged _ | isArchivedChanged _ =>
    exact .inl ⟨rfl, needsInput_withStatusFlag _ (by decide) (by decide) _⟩
  | inputNeededSet request => exact .inr (needsInput_withInputNeededStatus _ _)
  | inputNeededRemoved id =>
    unfold sessionReducer
    dsimp only
    split
    · exact hsame rfl rfl
    · rename_i remaining _
      refine .inr ((needsInput_withInputNeededStatus _ _).trans ?_)
      unfold blocked
      cases remaining with
      | nil | cons _ _ => rfl
  | chatRemoved _ | chatUpdated _ _ | configChanged _ _ | activeClientRemoved _
  | workingDirectorySet _ | workingDirectoryReplaced _ _ =>
    unfold sessionReducer
    dsimp only
    split
    · exact hsame rfl rfl
    · exact hsame rfl rfl
  | workingDirectoryRemoved directory =>
    unfold sessionReducer
    dsimp only
    split
    · exact hsame rfl rfl
    · split
      · exact hsame rfl rfl
      · exact hsame rfl rfl
  | customizationToggled _ _ | mcpServerStateChanged _ _ _ =>
    exact hsame (hcustomizations _).1 (hcustomizations _).2
  | customizationRemoved _ | mcpServerStartRequested _ | mcpServerStopRequested _ =>
    exact hsame (hcustomizations _).1 (hcustomizations _).2
  | _ => exact hsame rfl rfl

variable {state : SessionState}

theorem chatNeedsInput_iff (hnodup : (state.chats.map ChatSummary.resource).Nodup) :
    state.ChatNeedsInput ↔ ∃ chat summary,
      findBy ChatSummary.resource state.chats chat = some summary ∧
        needsInput summary.status = true := by
  constructor
  · rintro ⟨summary, hmem, hneeds⟩
    exact ⟨summary.resource, summary, findBy_of_mem hnodup hmem, hneeds⟩
  · rintro ⟨chat, summary, hfind, hneeds⟩
    exact ⟨summary, (findBy_some hfind).1, hneeds⟩

def KeepsInput (state : SessionState) (action : SessionAction) : Prop :=
  state.blocked = false → needsInput state.status = true → ∃ chat summary,
      chatEdit action chat (findBy ChatSummary.resource state.chats chat) = some summary ∧
        needsInput summary.status = true

variable {action : SessionAction}

theorem InputLaw.sessionReducer (h : InputLaw state)
    (hnodup : (state.chats.map ChatSummary.resource).Nodup) (hkeeps : KeepsInput state action) :
    InputLaw (sessionReducer state action) := by
  rcases sessionReducer_input state action with ⟨hqueue, hbits⟩ | hbits
  · have hblocked : (Fumie.AgentHost.sessionReducer state action).blocked = state.blocked := by
      unfold blocked
      rw [hqueue]
    refine ⟨fun hb => ?_, fun hb hchats => ?_⟩
    · rw [hbits]
      exact h.marked (hblocked ▸ hb)
    · rw [hbits]
      refine eq_false_iff.mpr fun hmarked => hchats ?_
      obtain ⟨chat, summary, hedit, hneeds⟩ := hkeeps (hblocked ▸ hb) hmarked
      obtain ⟨hnodup', hfind⟩ := sessionReducer_chats action hnodup
      exact (chatNeedsInput_iff hnodup').mpr ⟨chat, summary, (hfind chat).trans hedit, hneeds⟩
  · exact ⟨fun hb => hbits.trans hb, fun hb _ => hbits.trans hb⟩

theorem keepsInput_of_status (h : InputLaw state)
    (hnodup : (state.chats.map ChatSummary.resource).Nodup)
    (hstatus : ∀ chat summary, findBy ChatSummary.resource state.chats chat = some summary →
      (chatEdit action chat (some summary)).map (·.status) = some summary.status) :
    KeepsInput state action := by
  intro hblocked hmarked
  have hchats : state.ChatNeedsInput := by
    by_contra hnone
    rw [h.unmarked hblocked hnone] at hmarked
    cases hmarked
  obtain ⟨chat, summary, hfind, hneeds⟩ := (chatNeedsInput_iff hnodup).mp hchats
  obtain ⟨summary', hedit, hsame⟩ := map_eq_some_iff.mp (hstatus chat summary hfind)
  exact ⟨chat, summary', by rw [hfind, hedit], by rw [hsame, hneeds]⟩

/-! ## A chat action -/

def KeepsBlocked (state : SessionState) (chat : Uri) (nextEntry : ChatSummary) : Prop :=
  state.blocked = true → state.chats ≠ [] →
    ∃ c ∈ state.chats, needsInput (if c.resource = chat then nextEntry else c).status = true

variable {entry : SessionEntry}

variable {chat : Uri}

theorem InputLaw.mirrorChat (h : InputLaw entry.state) {nextEntry : ChatSummary}
    (hkeeps : KeepsBlocked entry.state chat nextEntry) :
    InputLaw (StateManager.mirrorChat entry chat nextEntry).state := by
  obtain ⟨chats, hchats⟩ : ∃ chats, chats = entry.state.chats.map fun c =>
    if c.resource = chat then nextEntry else c := ⟨_, rfl⟩
  have hlisted : (StateManager.mirrorChat entry chat nextEntry).state.chats = chats := hchats.symm
  cases hagg : (aggregateChatSummaries chats entry.state.defaultChat).status with
  | none =>
    have hempty : chats = [] := by
      cases hcases : chats with
      | nil => rfl
      | cons first rest =>
        rw [hcases] at hagg
        cases hagg
    have hnil : entry.state.chats = [] := map_eq_nil_iff.mp (hchats.symm.trans hempty)
    have hstatus : (StateManager.mirrorChat entry chat nextEntry).state.status =
        entry.state.status := by
      unfold StateManager.mirrorChat
      dsimp only
      rw [← hchats, hagg]
      rfl
    refine ⟨fun hb => ?_, fun hb hnone => ?_⟩
    · rw [hstatus]
      exact h.marked hb
    · rw [hstatus]
      refine h.unmarked hb ?_
      rintro ⟨c, hc, -⟩
      rw [hnil] at hc
      cases hc
  | some status =>
    have hstatus : needsInput (StateManager.mirrorChat entry chat nextEntry).state.status =
        needsInput status := by
      unfold StateManager.mirrorChat
      dsimp only
      rw [← hchats, hagg]
      exact needsInput_mergeSessionStatus _ _
    have hneeds := needsInput_aggregate hagg
    refine ⟨fun hb => ?_, fun hb hnone => ?_⟩
    · rw [hstatus, hneeds]
      have hnonempty : entry.state.chats ≠ [] := by
        rintro hnil
        rw [hchats, hnil] at hagg
        cases hagg
      obtain ⟨c, hc, hneedsc⟩ := hkeeps hb hnonempty
      rw [hchats]
      exact ⟨_, mem_map_of_mem hc, hneedsc⟩
    · rw [hstatus]
      refine eq_false_iff.mpr fun hn => hnone ?_
      obtain ⟨c, hc, hneedsc⟩ := hneeds.mp hn
      exact ⟨c, hlisted ▸ hc, hneedsc⟩

/-! ## The manager -/

namespace StateManager

/-- Every session has its input bits by the law. -/
def Lawful (m : StateManager) : Prop :=
  ∀ session entry, m.sessionStates.get session = some entry → InputLaw entry.state

variable {m m' : StateManager}

theorem Lawful.congr (h : m.Lawful) (hsame : m'.sessionStates = m.sessionStates) : m'.Lawful := by
  unfold Lawful
  rw [hsame]
  exact h

theorem Lawful.setSession (h : m.Lawful) (session : Uri) (hentry : InputLaw entry.state) :
    (m.setSession session entry).Lawful := by
  intro other e he
  rw [get_setSession] at he
  split at he
  · cases he
    exact hentry
  · exact h other e he

variable {session : Uri}

theorem Lawful.applySession (h : m.Lawful) (hcatalogued : m.Catalogued)
    (hkeeps : ∀ entry, m.sessionStates.get session = some entry → KeepsInput entry.state action) :
    (m.applySession session action).Lawful := by
  intro other e he
  rw [get_applySession_session] at he
  split at he
  · obtain ⟨entry, hget, rfl⟩ := map_eq_some_iff.mp he
    exact (h session entry hget).sessionReducer (hcatalogued.nodup session entry hget)
      (hkeeps entry hget)
  · exact h other e he

theorem Lawful.onChatStateChanged (h : m.Lawful) {session : Uri} (prev next : ChatState)
    (hkeeps : ∀ entry, m.sessionStates.get session = some entry →
      KeepsBlocked entry.state chat (m.chatSummaryFromState next)) :
    (m.onChatStateChanged session chat prev next).Lawful := by
  cases hget : m.sessionStates.get session with
  | none =>
    rw [onChatStateChanged_of_none hget]
    exact h.congr (trackActiveTurn_sameChats m session chat _ _).sessionStates
  | some entry =>
    refine Lawful.congr ?_ (onChatStateChanged_spec hget chat prev next).chats.sessionStates
    intro other e he
    rw [get_setSession] at he
    split at he
    · cases he
      exact (h session entry hget).mirrorChat (hkeeps entry hget)
    · rename_i hne
      refine h other e ?_
      unfold forwardStatus at he
      split at he
      · exact he
      · rwa [get_applySession_session, if_neg hne] at he

theorem Lawful.applyChat (h : m.Lawful) (session chat : Uri) (action : ChatAction)
    (hkeeps : ∀ entry prev, m.sessionStates.get session = some entry →
      m.getChatState chat = some prev →
      KeepsBlocked entry.state chat (m.chatSummaryFromState (chatReducer prev action))) :
    (m.applyChat session chat action).Lawful := by
  unfold StateManager.applyChat
  cases hget : m.chatEntries.get chat with
  | none => exact h
  | some entry =>
    dsimp only
    split
    · exact h
    · rename_i prev hprev
      have hset : (m.setChat chat { entry with
          state := some (chatReducer prev action) }).Lawful := h.congr rfl
      refine hset.onChatStateChanged prev _ fun e he => ?_
      refine hkeeps e prev he ?_
      unfold getChatState
      rw [hget]
      exact hprev

/-! ## Operations -/

theorem Lawful.updateChatTitle (h : m.Lawful) (hcatalogued : m.Catalogued) (session chat : Uri)
    (title : String) : (m.updateChatTitle session chat title).Lawful := by
  have htitle : ∀ k : StateManager, k.sessionStates = m.sessionStates → k.Catalogued →
      ∀ changes : ChatSummaryChanges, changes.status = none →
        (k.dispatchSession session (.chatUpdated chat changes)).Lawful := by
    intro k hk hck changes hstatus
    refine Lawful.congr ((h.congr hk).applySession hck fun entry hget => ?_)
      (emit_sessionStates _ _ _ _)
    refine keepsInput_of_status (h session entry (hk ▸ hget)) (hck.nodup session entry hget) ?_
    intro other summary _
    unfold chatEdit
    dsimp only
    split
    · show some (changes.status.getD summary.status) = _
      rw [hstatus]
      rfl
    · rfl
  unfold StateManager.updateChatTitle
  cases hget : m.chatEntries.get chat with
  | none => exact htitle m rfl hcatalogued _ rfl
  | some entry =>
    refine htitle (m.setChat chat { entry with
      state := entry.state.map fun (state : ChatState) => { state with title := title } }) rfl
        (hcatalogued.setState hget fun s hs => ?_) _ rfl
    obtain ⟨state, hstate, heq⟩ := map_eq_some_iff.mp hs
    rw [← heq]
    exact hcatalogued.state chat entry state hget hstate

theorem Lawful.snapshotDefaultChatTitle (h : m.Lawful) (hcatalogued : m.Catalogued)
    (session : Uri) (state : SessionState) : (m.snapshotDefaultChatTitle session state).Lawful := by
  unfold StateManager.snapshotDefaultChatTitle
  dsimp only
  split
  · split
    · exact h.updateChatTitle hcatalogued _ _ _
    · exact h
  · exact h

theorem Lawful.addChat (h : m.Lawful) (hcatalogued : m.Catalogued) (session chat : Uri)
    (options : ChatOptions) (turns : List Turn) : (m.addChat session chat options turns).Lawful := by
  unfold StateManager.addChat
  cases hget : m.sessionStates.get session with
  | none => exact h
  | some entry =>
    dsimp only
    split
    · exact h
    · rename_i hnew
      have hsnapshot := h.snapshotDefaultChatTitle hcatalogued session entry.state
      have hc := hcatalogued.snapshotDefaultChatTitle session entry.state
      obtain ⟨s, hs⟩ : ∃ s, s = m.snapshotDefaultChatTitle session entry.state := ⟨_, rfl⟩
      have hresources := fun e he => @snapshotDefaultChatTitle_resources m session entry e hget
        entry.state he
      rw [← hs] at hsnapshot hc hresources ⊢
      obtain ⟨summary, hsummary⟩ : ∃ summary, summary = newChatSummary session chat
        ((s.sessionStates.get session).getD entry) options := ⟨_, rfl⟩
      have hresource : summary.resource = chat := by rw [hsummary]; rfl
      rw [← hsummary]
      have hcset : (s.setChat chat
          { session, summary, state := some { createChatState summary with turns } }).Catalogued := by
        refine hc.setChat hresource ?_
        rintro st hst
        cases hst
        exact hresource
      have hset : (s.setChat chat
          { session, summary, state := some { createChatState summary with turns } }).Lawful :=
        hsnapshot.congr rfl
      refine Lawful.congr (hset.applySession hcset fun e he => ?_) (emit_sessionStates _ _ _ _)
      refine keepsInput_of_status (hset session e he) (hcset.nodup session e he) ?_
      intro other old hold
      have hlisted := findBy_isSome_iff.mp (by rw [hold]; rfl)
      rw [hresources e he] at hlisted
      unfold chatEdit
      dsimp only
      rw [if_neg]
      · rfl
      · rintro rfl
        rw [hresource] at hlisted
        exact hnew hlisted

theorem Lawful.registerRestoredChatSummary (h : m.Lawful) (hcatalogued : m.Catalogued)
    (session chat : Uri) (options : ChatOptions) :
    (m.registerRestoredChatSummary session chat options).Lawful := by
  unfold StateManager.registerRestoredChatSummary
  cases hget : m.sessionStates.get session with
  | none => exact h
  | some entry =>
    dsimp only
    split
    · exact h
    · have hsnapshot := h.snapshotDefaultChatTitle hcatalogued session entry.state
      obtain ⟨e, he⟩ := snapshotDefaultChatTitle_get hget entry.state
      rw [he, getD_some]
      obtain ⟨hmarked, hunmarked⟩ := hsnapshot session e he
      have hentry : InputLaw (SessionEntry.state { e with state := { e.state with
          chats := e.state.chats ++ [newChatSummary session chat e options] } }) := by
        refine ⟨hmarked, fun hb hnone => hunmarked hb ?_⟩
        rintro ⟨c, hc, hneeds⟩
        exact hnone ⟨c, mem_append_left _ hc, hneeds⟩
      exact (hsnapshot.setSession session hentry).congr rfl

theorem Lawful.removeChat (h : m.Lawful) (hcatalogued : m.Catalogued)
    (hkeeps : ∀ entry, m.sessionStates.get session = some entry →
      ¬(some chat = entry.state.defaultChat ∨ isDefaultChatUri chat) →
      KeepsInput entry.state (.chatRemoved chat)) : (m.removeChat session chat).Lawful := by
  unfold StateManager.removeChat
  cases hget : m.sessionStates.get session with
  | none => exact h
  | some entry =>
    dsimp only
    split
    · rename_i hand
      have hsame := removeChatActiveTurn_sameChats m session chat
      have hdeleted : ({ m.removeChatActiveTurn session chat with
          chatEntries := (m.removeChatActiveTurn session chat).chatEntries.delete chat } :
            StateManager).Catalogued :=
        (hcatalogued.congr hsame).deleteChats fun other entry he => (get_delete_some he).2
      have hlawful : ({ m.removeChatActiveTurn session chat with
          chatEntries := (m.removeChatActiveTurn session chat).chatEntries.delete chat } :
            StateManager).Lawful := h.congr hsame.sessionStates
      refine Lawful.congr (hlawful.applySession hdeleted fun e he => ?_) (emit_sessionStates _ _ _ _)
      have he : m.sessionStates.get session = some e := hsame.sessionStates ▸ he
      cases hget.symm.trans he
      exact hkeeps entry hget hand.2
    · exact h

theorem Lawful.removeSession (h : m.Lawful) (session : Uri) : (m.removeSession session).Lawful := by
  have hdelete : ∀ k : StateManager, k.sessionStates = m.sessionStates.delete session →
      k.Lawful := by
    intro k hk other e he
    rw [hk, Record.get_delete] at he
    exact h other e (ite_none_left_eq_some.mp he).2
  unfold StateManager.removeSession
  split
  · exact h
  · split
    · exact hdelete _ rfl
    · exact hdelete _ rfl

theorem Lawful.newSession (h : m.Lawful) {summary : SessionSummary}
    (hqueue : entry.state.inputNeeded = none) (hstatus : entry.state.status = summary.status)
    (turns : List Turn) (draft : Option Message) (title : Option String) :
    ((m.setSession session entry).ensureDefaultChat session summary turns draft title).Lawful := by
  have hblocked : entry.state.blocked = false := by
    unfold blocked
    rw [hqueue]
    rfl
  unfold ensureDefaultChat
  dsimp only
  have hget : ((m.setSession session entry).setChat (buildDefaultChatUri session)
      { session
        summary := { createDefaultChatSummary summary (buildDefaultChatUri session) with
          title := title.getD "" }
        state := some { createChatState { createDefaultChatSummary summary
          (buildDefaultChatUri session) with title := title.getD "" } with
            turns, draft } }).sessionStates.get session = some entry := by
    show (m.setSession session entry).sessionStates.get session = _
    rw [get_setSession, if_pos rfl]
  rw [hget]
  intro other e he
  rw [get_setSession] at he
  split at he
  · cases he
    refine ⟨fun hb => ?_, fun _ hnone => eq_false_iff.mpr fun hneeds => hnone ?_⟩
    · exact absurd (hblocked.symm.trans hb) false_ne_true
    · refine ⟨_, mem_singleton.mpr rfl, ?_⟩
      show needsInput summary.status = true
      rw [← hstatus]
      exact hneeds
  · rename_i hne
    refine h other e ?_
    have he : (m.setSession session entry).sessionStates.get other = some e := he
    rwa [get_setSession, if_neg hne] at he

/-! ## Runs -/

def KeepsMarks (m : StateManager) : HostEvent → Prop
  | .dispatch session (.session action) _ =>
    ∀ entry, m.sessionStates.get session = some entry → KeepsInput entry.state action
  | .dispatch channel (.chat action) _ =>
    ∀ session entry prev, parseDefaultChatUri channel = some session →
      m.sessionStates.get session = some entry → m.getChatState channel = some prev →
        KeepsBlocked entry.state channel (m.chatSummaryFromState (chatReducer prev action))
  | .perform (.removeChat session chat) =>
    ∀ entry, m.sessionStates.get session = some entry →
      ¬(some chat = entry.state.defaultChat ∨ isDefaultChatUri chat) →
        KeepsInput entry.state (.chatRemoved chat)
  | _ => True

theorem Lawful.after (h : m.Lawful) (hcatalogued : m.Catalogued) {event : HostEvent}
    (hkeeps : m.KeepsMarks event) : (m.after event).Lawful := by
  have hafter := after_cases m event
  generalize m.after event = m' at hafter ⊢
  cases hafter with
  | aside hsame => exact h.congr hsame.sessionStates
  | session => exact Lawful.congr (h.applySession hcatalogued hkeeps) (emit_sessionStates _ _ _ _)
  | @chat owner chatId action origin =>
    refine Lawful.congr (h.applyChat owner _ action fun entry prev hget hprev => ?_)
      (emit_sessionStates _ _ _ _)
    exact hkeeps owner entry prev rfl hget hprev
  | createSession hnone | restoreSession hnone => exact h.newSession rfl rfl _ _ _
  | addChat => exact h.addChat hcatalogued _ _ _ _
  | registerRestoredChatSummary => exact h.registerRestoredChatSummary hcatalogued _ _ _
  | resolveChatState => exact h.congr (resolveChatState_sessionStates _ _ _ _)
  | removeChat => exact h.removeChat hcatalogued hkeeps
  | removeSession => exact h.removeSession _
  | updateChatTitle => exact h.updateChatTitle hcatalogued _ _ _
  | @patchSession session =>
    unfold StateManager.patchSession
    split
    · exact h
    · rename_i entry hget
      obtain ⟨hmarked, hunmarked⟩ := h session entry hget
      exact h.setSession session ⟨hmarked, hunmarked⟩
  | seedDefaultChatTurns => exact h.congr (seedDefaultChatTurns_sessionStates _ _ _)

/-- The input law holds of every session in every run that keeps the marks. -/
theorem inputLaw_of_reachable (h : managing.ReachableVia KeepsMarks m) {session : Uri}
    {entry : SessionEntry} (hget : m.sessionStates.get session = some entry) :
    InputLaw entry.state := by
  have hinv : m.Catalogued ∧ m.Lawful := by
    refine @System.ReachableVia.invariant _ _ _ _ (fun m => m.Catalogued ∧ m.Lawful) ?_ ?_ _ h
    · refine fun s hs => ⟨(sound_created hs).catalogued, ?_⟩
      obtain ⟨rootState, approve, keys, -, rfl⟩ := hs
      intro session entry he
      cases he
    · rintro s event s' ⟨hcatalogued, hlawful⟩ hkeeps hstep
      cases Option.some.inj hstep
      exact ⟨hcatalogued.after event, hlawful.after hcatalogued hkeeps⟩
  exact hinv.2 session entry hget

def askedRun : List HostEvent :=
  [.dispatch (buildDefaultChatUri restoredSummary.resource)
    (.chat (.turnStarted "t" 5 ⟨"hi"⟩ none)) none,
   .dispatch (buildDefaultChatUri restoredSummary.resource)
    (.chat (.inputRequested ⟨"r", none, ⟨"?"⟩⟩)) none]

def askedHost : StateManager := askedRun.foldl after restoredHost

def queued : HostEvent :=
  .dispatch restoredSummary.resource (.session (.inputNeededSet
    (.chatInput "q" (buildDefaultChatUri restoredSummary.resource) ⟨"r", none, ⟨"?"⟩⟩))) none

def draftWritten : HostEvent :=
  .dispatch (buildDefaultChatUri restoredSummary.resource) (.chat (.draftChanged (some ⟨"d"⟩))) none

theorem inputLaw_of_reachable_asked :
    InputLaw ((((askedHost.after queued).after draftWritten).sessionStates.get
      restoredSummary.resource).get rfl).state := by
  have hrestored : managing.ReachableVia KeepsMarks restoredHost :=
    .step (i := .perform (.restoreSession restoredSummary [] none none)) (.init created_newHost)
      trivial rfl
  have hstarted : managing.ReachableVia KeepsMarks (restoredHost.after (askedRun.get ⟨0, by decide⟩)) := by
    refine .step (i := askedRun.get ⟨0, by decide⟩) hrestored ?_ rfl
    intro session entry prev hsession hget hprev hblocked
    cases hsession
    cases hget
    cases hblocked
  have hasked : managing.ReachableVia KeepsMarks askedHost := by
    refine .step (i := askedRun.get ⟨1, by decide⟩) hstarted ?_ rfl
    intro session entry prev hsession hget hprev hblocked
    cases hsession
    cases hget
    cases hblocked
  have hqueued : managing.ReachableVia KeepsMarks (askedHost.after queued) := by
    refine .step (i := queued) hasked ?_ rfl
    intro entry hget _ _
    cases hget
    exact ⟨buildDefaultChatUri restoredSummary.resource, _, rfl, by decide⟩
  refine inputLaw_of_reachable (.step (i := draftWritten) hqueued ?_ rfl) (some_get rfl).symm
  intro session entry prev hsession hget hprev _ _
  cases hsession
  cases hget
  cases hprev
  exact ⟨_, mem_cons_self, by decide⟩

/-- A draft is written while the queue blocks and no chat needs input. -/
theorem not_always_inputLaw : ¬ ∀ m session entry, managing.Reachable m →
    m.sessionStates.get session = some entry → InputLaw entry.state := by
  intro h
  have hrun : managing.Reachable ((restoredHost.after queued).after draftWritten) :=
    .step (i := draftWritten) (.step (i := queued) reachable_restoredHost trivial rfl) trivial rfl
  have hlaw := h _ _ _ hrun (some_get
    (rfl : (((restoredHost.after queued).after draftWritten).sessionStates.get
      restoredSummary.resource).isSome = true)).symm
  have hmarked := hlaw.marked (by decide)
  revert hmarked
  decide

end StateManager

end Fumie.AgentHost
