import Fumie.Lib.RecordSum
import Fumie.AgentHost.Server.Ownership

/-!
# Active turns

The manager finds the sessions with an active turn by watching chats change: a turn that
starts adds its chat, a turn that ends removes it. `Accounted` says that the set so kept is
what the chats say, that no session is in it without a chat, and that the root state has
the number of its sessions.

Chats are left out of `SessionChatRemoved` that is dispatched directly: the entry goes with
the catalog, without a transition of the chat.
-/

namespace Fumie.AgentHost

open Fumie.Lib List OrderedSet Record

namespace StateManager

def Tracked (m : StateManager) (session chat : Uri) : Prop :=
  ∃ activeChats, m.sessionsWithActiveTurn.get session = some activeChats ∧ chat ∈ activeChats

def Running (m : StateManager) (chat : Uri) : Prop :=
  ∃ state, m.getChatState chat = some state ∧ state.activeTurn.isSome = true

def LiveActive (m : StateManager) (session chat : Uri) : Prop :=
  m.InCatalog session chat ∧ m.Running chat

structure Counted (m : StateManager) : Prop where
  nonempty : ∀ session activeChats, m.sessionsWithActiveTurn.get session = some activeChats →
    activeChats.isEmpty = false
  count : m.rootState.activeSessions = some m.sessionsWithActiveTurn.entries.length

structure Accounted (m : StateManager) : Prop extends m.Counted where
  tracked : ∀ session chat, m.Tracked session chat ↔ Owns session chat ∧ m.Running chat

structure SameTracking (m m' : StateManager) : Prop where
  active : m'.sessionsWithActiveTurn = m.sessionsWithActiveTurn
  count : m'.rootState.activeSessions = m.rootState.activeSessions

variable {m m' : StateManager}

/-! ## The set of active chats -/

theorem SameTracking.refl (m : StateManager) : m.SameTracking m := ⟨rfl, rfl⟩

theorem SameTracking.tracked (h : m.SameTracking m') (session chat : Uri) :
    m'.Tracked session chat ↔ m.Tracked session chat := by
  unfold Tracked
  rw [h.active]

theorem Counted.congr (h : m.Counted) (hsame : m.SameTracking m') : m'.Counted := by
  constructor
  · rw [hsame.active]
    exact h.nonempty
  · rw [hsame.active, hsame.count]
    exact h.count

theorem Accounted.congr (h : m.Accounted) (hsame : m.SameTracking m')
    (hrunning : ∀ chat, m'.Running chat ↔ m.Running chat) : m'.Accounted where
  toCounted := h.toCounted.congr hsame
  tracked session chat := by
    rw [hsame.tracked, hrunning]
    exact h.tracked session chat

theorem get_set_tracked (m : StateManager) (session session' chat' : Uri)
    (activeChats : OrderedSet Uri) (h : { m with
      sessionsWithActiveTurn := m.sessionsWithActiveTurn.set session activeChats }.SameTracking m') :
    m'.Tracked session' chat' ↔
      if session = session' then chat' ∈ activeChats else m.Tracked session' chat' := by
  rw [h.tracked]
  unfold Tracked
  rw [get_set]
  split
  · simp
  · rfl

theorem removeChatActiveTurn_spec (h : m.Counted) (session chat : Uri) :
    (m.removeChatActiveTurn session chat).Counted ∧ ∀ session' chat',
      (m.removeChatActiveTurn session chat).Tracked session' chat' ↔
        m.Tracked session' chat' ∧ ¬(session' = session ∧ chat' = chat) := by
  have hkeep : ¬m.Tracked session chat → m.Counted ∧ ∀ session' chat', m.Tracked session' chat' ↔
        m.Tracked session' chat' ∧ ¬(session' = session ∧ chat' = chat) := by
    intro hnot
    refine ⟨h, fun session' chat' => (and_iff_left_of_imp ?_).symm⟩
    rintro htracked ⟨rfl, rfl⟩
    exact hnot htracked
  unfold removeChatActiveTurn
  split
  · rename_i hget
    refine hkeep ?_
    rintro ⟨activeChats, hsome, -⟩
    rw [hget] at hsome
    cases hsome
  · rename_i activeChats hget
    split
    · rename_i hmem
      dsimp only
      split
      · rename_i hempty
        refine ⟨⟨fun session' chats hchats => ?_, rfl⟩, fun session' chat' => ?_⟩
        · have hchats : (m.sessionsWithActiveTurn.delete session).get session' = some chats := hchats
          rw [get_delete] at hchats
          exact h.nonempty session' chats (Option.ite_none_left_eq_some.mp hchats).2
        · show (∃ chats, (m.sessionsWithActiveTurn.delete session).get session' = some chats ∧
            chat' ∈ chats) ↔ _
          rw [get_delete]
          by_cases hs : session = session'
          · subst hs
            rw [if_pos rfl]
            refine iff_of_false nofun ?_
            rintro ⟨⟨chats, hchats, hchat⟩, hne⟩
            cases hget.symm.trans hchats
            refine not_mem_of_isEmpty hempty chat' (mem_erase.mpr ⟨?_, hchat⟩)
            rintro rfl
            exact hne ⟨rfl, rfl⟩
          · rw [if_neg hs]
            exact (and_iff_left fun hand => hs hand.1.symm).symm
      · rename_i hempty
        refine ⟨⟨fun session' chats hchats => ?_, ?_⟩, fun session' chat' => ?_⟩
        · have hchats : (m.sessionsWithActiveTurn.set session (activeChats.erase chat)).get
            session' = some chats := hchats
          rw [get_set] at hchats
          split at hchats
          · cases hchats
            simpa using hempty
          · exact h.nonempty session' chats hchats
        · rw [length_set _ hget]
          exact h.count
        · rw [get_set_tracked m session session' chat' (activeChats.erase chat) (.refl _)]
          split
          · rename_i hs
            subst hs
            rw [mem_erase]
            constructor
            · rintro ⟨hne, hchat⟩
              exact ⟨⟨activeChats, hget, hchat⟩, fun hand => hne hand.2⟩
            · rintro ⟨⟨chats, hchats, hchat⟩, hne⟩
              cases hget.symm.trans hchats
              exact ⟨fun heq => hne ⟨rfl, heq⟩, hchat⟩
          · rename_i hs
            exact (and_iff_left fun hand => hs hand.1.symm).symm
    · rename_i hmem
      refine hkeep ?_
      rintro ⟨chats, hchats, hchat⟩
      cases hget.symm.trans hchats
      exact hmem hchat

theorem addChatActiveTurn_spec (h : m.Counted) (session chat : Uri) :
    (m.addChatActiveTurn session chat).Counted ∧ ∀ session' chat',
      (m.addChatActiveTurn session chat).Tracked session' chat' ↔
        m.Tracked session' chat' ∨ (session' = session ∧ chat' = chat) := by
  obtain ⟨activeChats, hactive⟩ : ∃ activeChats, activeChats =
    (m.sessionsWithActiveTurn.get session).getD .empty := ⟨_, rfl⟩
  obtain ⟨k, hk⟩ : ∃ k : StateManager, k = { m with
    sessionsWithActiveTurn := m.sessionsWithActiveTurn.set session (activeChats.insert chat) } :=
    ⟨_, rfl⟩
  have hmem : ∀ chat', chat' ∈ activeChats ↔ m.Tracked session chat' := by
    intro chat'
    rw [hactive]
    unfold Tracked
    cases m.sessionsWithActiveTurn.get session with
    | none => exact iff_of_false (not_mem_empty chat') nofun
    | some chats => simp
  have htracked : ∀ k', k.SameTracking k' → ∀ session' chat', k'.Tracked session' chat' ↔
      m.Tracked session' chat' ∨ (session' = session ∧ chat' = chat) := by
    intro k' hsame session' chat'
    rw [get_set_tracked m session session' chat' (activeChats.insert chat) (hk ▸ hsame)]
    split
    · rename_i hs
      subst hs
      rw [mem_insert, hmem]
      constructor
      · rintro (rfl | hold)
        · exact .inr ⟨rfl, rfl⟩
        · exact .inl hold
      · rintro (hold | ⟨-, rfl⟩)
        · exact .inr hold
        · exact .inl rfl
    · rename_i hs
      exact (or_iff_left fun hand => hs hand.1.symm).symm
  have hnonempty : ∀ session' chats, k.sessionsWithActiveTurn.get session' = some chats →
      chats.isEmpty = false := by
    intro session' chats hchats
    rw [hk] at hchats
    rw [get_set] at hchats
    split at hchats
    · cases hchats
      refine Bool.eq_false_iff.mpr fun hempty => ?_
      exact not_mem_of_isEmpty hempty chat (mem_insert.mpr (.inl rfl))
    · exact h.nonempty session' chats hchats
  unfold addChatActiveTurn
  dsimp only
  rw [← hactive, ← hk]
  split
  · refine ⟨⟨hnonempty, rfl⟩, fun session' chat' => ?_⟩
    exact htracked k (.refl k) session' chat'
  · rename_i hempty
    refine ⟨⟨hnonempty, ?_⟩, htracked k (.refl k)⟩
    cases hget : m.sessionsWithActiveTurn.get session with
    | none =>
      rw [hget] at hactive
      exact absurd (hactive ▸ rfl) hempty
    | some chats =>
      rw [hk]
      rw [length_set _ hget]
      exact h.count

theorem trackActiveTurn_spec (h : m.Counted) (session chat : Uri) (hadActive hasActive : Bool) :
    (m.trackActiveTurn session chat hadActive hasActive).Counted ∧ ∀ session' chat',
      (m.trackActiveTurn session chat hadActive hasActive).Tracked session' chat' ↔
        if session' = session ∧ chat' = chat ∧ hadActive ≠ hasActive then hasActive = true
        else m.Tracked session' chat' := by
  unfold trackActiveTurn
  split
  · obtain ⟨hcounted, hadd⟩ := addChatActiveTurn_spec h session chat
    refine ⟨hcounted, fun session' chat' => ?_⟩
    rw [hadd]
    split
    · rename_i heq
      exact iff_of_true (.inr ⟨heq.1, heq.2.1⟩) rfl
    · rename_i hne
      exact or_iff_left fun hand => hne ⟨hand.1, hand.2, nofun⟩
  · obtain ⟨hcounted, hremove⟩ := removeChatActiveTurn_spec h session chat
    refine ⟨hcounted, fun session' chat' => ?_⟩
    rw [hremove]
    split
    · rename_i heq
      exact iff_of_false (fun hand => hand.2 ⟨heq.1, heq.2.1⟩) nofun
    · rename_i hne
      exact and_iff_left fun hand => hne ⟨hand.1, hand.2, nofun⟩
  · rename_i hfalse htrue
    refine ⟨h, fun session' chat' => ?_⟩
    rw [if_neg]
    rintro ⟨-, -, hne⟩
    cases hadActive with
    | false =>
      cases hasActive with
      | false => exact hne rfl
      | true => exact hfalse rfl rfl
    | true =>
      cases hasActive with
      | false => exact htrue rfl rfl
      | true => exact hne rfl

/-! ## Which chats run -/

theorem running_congr (h : m'.chatEntries = m.chatEntries) (chat : Uri) :
    m'.Running chat ↔ m.Running chat := by
  unfold Running getChatState
  rw [h]

theorem running_setChat (m : StateManager) (chat other : Uri) (entry : ChatEntry) :
    (m.setChat chat entry).Running other ↔
      if chat = other then ∃ state, entry.state = some state ∧ state.activeTurn.isSome = true
      else m.Running other := by
  unfold Running getChatState
  rw [get_setChat]
  split
  · rfl
  · rfl

theorem exists_turn_iff (state : Option ChatState) :
    (∃ s, state = some s ∧ s.activeTurn.isSome = true) ↔
      (state.bind (·.activeTurn)).isSome = true := by
  cases state with
  | none => exact iff_of_false (fun ⟨_, h, _⟩ => by cases h) nofun
  | some s => exact ⟨fun ⟨_, h, hs⟩ => by cases h; exact hs, fun hs => ⟨s, rfl, hs⟩⟩

theorem running_iff (m : StateManager) (chat : Uri) : m.Running chat ↔
    (((m.chatEntries.get chat).bind (·.state)).bind (·.activeTurn)).isSome = true :=
  exists_turn_iff _

variable {chat : Uri}

theorem running_setState {entry : ChatEntry} (hget : m.chatEntries.get chat = some entry)
    {state : Option ChatState}
    (hturn : (state.bind (·.activeTurn)).isSome = (entry.state.bind (·.activeTurn)).isSome)
    (other : Uri) : (m.setChat chat { entry with state }).Running other ↔ m.Running other := by
  rw [running_setChat]
  split
  · rename_i heq
    subst heq
    rw [exists_turn_iff, running_iff, hget, Option.bind_some, hturn]
  · rfl

theorem Running.entry (h : m.Running chat) :
    ∃ entry state, m.chatEntries.get chat = some entry ∧ entry.state = some state ∧
      state.activeTurn.isSome = true := by
  obtain ⟨state, hstate, hturn⟩ := h
  obtain ⟨entry, hentry, hsome⟩ := Option.bind_eq_some_iff.mp hstate
  exact ⟨entry, state, hentry, hsome, hturn⟩

variable {session : Uri}

theorem Running.inCatalog (h : m.Running chat) (hsound : m.Sound) (howns : Owns session chat) :
    m.InCatalog session chat := by
  obtain ⟨entry, state, hget, -, -⟩ := h.entry
  have heq := (hsound.owned.entries chat entry hget).unique howns
  exact heq ▸ hsound.listed chat entry hget nofun

theorem syncEntry_turn (session chat : Uri) (summary : ChatSummary) (old : Option ChatEntry)
    (action : SessionAction) :
    ((clearEntry action chat (syncEntry session summary old)).state.bind (·.activeTurn)) =
      (old.bind (·.state)).bind (·.activeTurn) := by
  have hsync : ((syncEntry session summary old).state.bind (·.activeTurn)) =
      (old.bind (·.state)).bind (·.activeTurn) := by
    cases old with
    | none => rfl
    | some existing =>
      show (existing.state.map fun s => s.withSummary summary).bind (·.activeTurn) =
        existing.state.bind (·.activeTurn)
      cases existing.state with
      | none | some _ => rfl
  rw [← hsync]
  unfold clearEntry
  split
  · split
    · cases (syncEntry session summary old).state with
      | none | some _ => rfl
    · rfl
  · rfl

theorem running_applySession_of_kept (hcatalogued : m.Catalogued) {session : Uri}
    {entry : SessionEntry} (hget : m.sessionStates.get session = some entry)
    {action : SessionAction}
    (hkept : ∀ chat e, m.chatEntries.get chat = some e → e.session = session → m.Running chat →
      chatEdit action chat (findBy ChatSummary.resource entry.state.chats chat) ≠ none)
    (chat : Uri) : (m.applySession session action).Running chat ↔ m.Running chat := by
  have hchat := get_applySession_chat m hget (hcatalogued.nodup session entry hget) action chat
  cases hedit : chatEdit action chat (findBy ChatSummary.resource entry.state.chats chat) with
  | some summary =>
    rw [hedit] at hchat
    rw [running_iff, running_iff, hchat, Option.bind_some, syncEntry_turn]
  | none =>
    rw [hedit] at hchat
    dsimp only at hchat
    constructor
    · intro h
      rw [running_iff, hchat] at h
      rw [running_iff]
      cases hentry : m.chatEntries.get chat with
      | none =>
        rw [hentry] at h
        exact h
      | some e =>
        rw [hentry, Option.filter_some] at h
        split at h
        · exact h
        · cases h
    · intro h
      obtain ⟨e, state, he, hstate, hturn⟩ := h.entry
      refine ⟨state, ?_, hturn⟩
      unfold getChatState
      rw [hchat, he, Option.filter_some, if_pos]
      · exact hstate
      · exact decide_eq_true fun hsession => hkept chat e he hsession h hedit

theorem running_applySession (hsound : m.Sound) {session : Uri} {action : SessionAction}
    (hremoved : ∀ chat, action = .chatRemoved chat → Owns session chat → ¬m.Running chat)
    (chat : Uri) : (m.applySession session action).Running chat ↔ m.Running chat := by
  cases hget : m.sessionStates.get session with
  | none => rw [applySession_of_none hget]
  | some entry =>
    refine running_applySession_of_kept hsound.catalogued hget (fun chat e he hs h hedit => ?_) chat
    have howns : Owns session chat := hs ▸ hsound.owned.entries chat e he
    obtain ⟨e', he', hmem⟩ := h.inCatalog hsound howns
    cases hget.symm.trans he'
    obtain ⟨summary, hfind⟩ := Option.isSome_iff_exists.mp (findBy_isSome_iff.mpr hmem)
    rw [hfind] at hedit
    unfold chatEdit at hedit
    split at hedit
    · split at hedit
      · cases hedit
      · cases hedit
    · split at hedit
      · rename_i removed heq
        exact hremoved chat (by rw [heq]) howns h
      · cases hedit
    · split at hedit
      · cases hedit
      · cases hedit
    · cases hedit

theorem running_setChat_idle {chat : Uri} (hidle : ¬m.Running chat) {entry : ChatEntry}
    (hturn : entry.state.bind (·.activeTurn) = none) (other : Uri) :
    (m.setChat chat entry).Running other ↔ m.Running other := by
  rw [running_setChat]
  split
  · rename_i heq
    subst heq
    refine iff_of_false (fun h => ?_) hidle
    rw [exists_turn_iff, hturn] at h
    cases h
  · rfl

/-! ## Operations -/

variable {action : SessionAction}

theorem Accounted.applySession (h : m.Accounted) (hsound : m.Sound)
    (hremoved : ∀ chat, action = .chatRemoved chat → Owns session chat → ¬m.Running chat) :
    (m.applySession session action).Accounted := by
  have htables := applySession_tables m session action
  exact h.congr ⟨htables.1, congrArg RootState.activeSessions htables.2.1⟩
    (running_applySession hsound hremoved)

theorem Accounted.dispatchSession (h : m.Accounted) (hsound : m.Sound)
    (hremoved : ∀ chat, action = .chatRemoved chat → Owns session chat → ¬m.Running chat) :
    (m.dispatchSession session action).Accounted :=
  (h.applySession hsound hremoved).congr ⟨rfl, rfl⟩ (running_congr rfl)

theorem Accounted.onChatStateChanged (h : m.Accounted) (howns : Owns session chat)
    {entry : ChatEntry} {prev next : ChatState} (hget : m.chatEntries.get chat = some entry)
    (hprev : entry.state = some prev)
    (hsound : (m.setChat chat { entry with state := some next }).Sound) :
    ((m.setChat chat { entry with state := some next }).onChatStateChanged session chat prev
      next).Accounted := by
  obtain ⟨k, hk⟩ : ∃ k, k = m.setChat chat { entry with state := some next } := ⟨_, rfl⟩
  have hcounted : k.Counted := h.toCounted.congr ⟨by rw [hk]; rfl, by rw [hk]; rfl⟩
  have hrunning : ∀ other, k.Running other ↔
      if chat = other then next.activeTurn.isSome = true else m.Running other := by
    intro other
    rw [hk, running_setChat]
    split
    · exact exists_turn_iff _
    · rfl
  have hold : m.Running chat ↔ prev.activeTurn.isSome = true := by
    rw [running_iff, hget, Option.bind_some, hprev]
    rfl
  rw [← hk] at hsound ⊢
  obtain ⟨se, hse, -⟩ : k.InCatalog entry.session chat :=
    hsound.listed chat { entry with state := some next } (by rw [hk, get_setChat, if_pos rfl]) nofun
  have hsession : entry.session = session :=
    (hsound.owned.entries chat { entry with state := some next }
      (by rw [hk, get_setChat, if_pos rfl])).unique howns
  rw [hsession] at hse
  have hspec := onChatStateChanged_spec hse chat prev next
  obtain ⟨hcounted', htracked⟩ := trackActiveTurn_spec hcounted session chat
    prev.activeTurn.isSome next.activeTurn.isSome
  have hsame : (k.trackActiveTurn session chat prev.activeTurn.isSome
      next.activeTurn.isSome).SameTracking (k.onChatStateChanged session chat prev next) :=
    ⟨hspec.active, congrArg RootState.activeSessions hspec.root⟩
  refine ⟨hcounted'.congr hsame, fun session' chat' => ?_⟩
  have hrunning' : (k.onChatStateChanged session chat prev next).Running chat' ↔
      k.Running chat' := by
    rw [running_congr hspec.chats.chatEntries]
    unfold forwardStatus
    split
    · rfl
    · exact running_applySession hsound (by rintro c ⟨⟩) chat'
  have hkeep : k.Tracked session' chat' ↔ m.Tracked session' chat' := by
    rw [hk]
    rfl
  rw [hsame.tracked, htracked, hrunning', hrunning, hkeep, h.tracked]
  by_cases hchat : chat = chat'
  · subst hchat
    rw [if_pos rfl]
    by_cases hs : session' = session
    · subst hs
      by_cases hturn : prev.activeTurn.isSome = next.activeTurn.isSome
      · rw [if_neg fun hand => hand.2.2 hturn, hold, hturn]
      · rw [if_pos ⟨rfl, rfl, hturn⟩]
        exact (and_iff_right howns).symm
    · rw [if_neg fun hand => hs hand.1]
      exact iff_of_false (fun hand => hs (hand.1.unique howns))
        (fun hand => hs (hand.1.unique howns))
  · rw [if_neg hchat, if_neg fun hand => hchat hand.2.1.symm]

theorem Accounted.applyChat (h : m.Accounted) (hsound : m.Sound) (howns : Owns session chat)
    (action : ChatAction) : (m.applyChat session chat action).Accounted := by
  unfold StateManager.applyChat
  split
  · exact h
  · rename_i entry hget
    split
    · exact h
    · rename_i prev hprev
      refine h.onChatStateChanged howns hget hprev (hsound.setState hget ?_)
      rintro s hs
      cases hs
      exact (chatReducer_dated prev action).resource.trans
        (hsound.catalogued.state chat entry prev hget hprev)

theorem Accounted.setState (h : m.Accounted) {chat : Uri} {entry : ChatEntry}
    (hget : m.chatEntries.get chat = some entry) {state : Option ChatState}
    (hturn : (state.bind (·.activeTurn)).isSome = (entry.state.bind (·.activeTurn)).isSome) :
    (m.setChat chat { entry with state }).Accounted :=
  h.congr ⟨rfl, rfl⟩ (running_setState hget hturn)

theorem bind_map_turn (state : Option ChatState) (edit : ChatState → ChatState)
    (hedit : ∀ s, (edit s).activeTurn = s.activeTurn) :
    ((state.map edit).bind (·.activeTurn)).isSome = (state.bind (·.activeTurn)).isSome := by
  cases state with
  | none => rfl
  | some s => exact congrArg Option.isSome (hedit s)

theorem Accounted.updateChatTitle (h : m.Accounted) (hsound : m.Sound) (session chat : Uri)
    (title : String) : (m.updateChatTitle session chat title).Accounted := by
  unfold StateManager.updateChatTitle
  cases hget : m.chatEntries.get chat with
  | none => exact h.dispatchSession hsound nofun
  | some entry =>
    refine Accounted.dispatchSession (h.setState hget ?_) (hsound.setState hget fun s hs => ?_) ?_
    · exact bind_map_turn _ _ fun _ => rfl
    · obtain ⟨state, hstate, heq⟩ := Option.map_eq_some_iff.mp hs
      rw [← heq]
      exact hsound.catalogued.state chat entry state hget hstate
    · rintro c ⟨⟩

theorem Accounted.snapshotDefaultChatTitle (h : m.Accounted) (hsound : m.Sound) (session : Uri)
    (state : SessionState) : (m.snapshotDefaultChatTitle session state).Accounted := by
  unfold StateManager.snapshotDefaultChatTitle
  dsimp only
  split
  · split
    · exact h.updateChatTitle hsound _ _ _
    · exact h
  · exact h

theorem not_running_of_not_listed (hsound : m.Sound) (howns : Owns session chat)
    {entry : SessionEntry} (hget : m.sessionStates.get session = some entry)
    (hnew : chat ∉ entry.state.chats.map ChatSummary.resource) : ¬m.Running chat := by
  intro h
  obtain ⟨e, he, hmem⟩ := h.inCatalog hsound howns
  cases hget.symm.trans he
  exact hnew hmem

theorem Accounted.addChat (h : m.Accounted) (hsound : m.Sound) (howns : Owns session chat)
    (options : ChatOptions) (turns : List Turn) :
    (m.addChat session chat options turns).Accounted := by
  unfold StateManager.addChat
  cases hget : m.sessionStates.get session with
  | none => exact h
  | some entry =>
    dsimp only
    split
    · exact h
    · rename_i hnew
      have hsnapshot := hsound.snapshotDefaultChatTitle session entry.state
      have haccounted := h.snapshotDefaultChatTitle hsound session entry.state
      obtain ⟨e, he⟩ := snapshotDefaultChatTitle_get hget entry.state
      have hresources := snapshotDefaultChatTitle_resources hget entry.state he
      generalize m.snapshotDefaultChatTitle session entry.state = s at hsnapshot haccounted he ⊢
      rw [he, Option.getD_some]
      generalize hsummary : newChatSummary session chat e options = summary
      have hresource : summary.resource = chat := by rw [← hsummary]; rfl
      obtain ⟨hc, -, -⟩ := @Sound.newChat s hsnapshot session chat
        { session, summary, state := some { createChatState summary with turns } } howns
        rfl hresource (by rintro st hst; cases hst; exact hresource)
      have hidle : ¬s.Running chat := not_running_of_not_listed hsnapshot howns he
        (by rw [hresources]; exact hnew)
      have hnewRunning := @running_setChat_idle s chat hidle
        { session, summary, state := some { createChatState summary with turns } } rfl
      have htables := applySession_tables (s.setChat chat
        { session, summary, state := some { createChatState summary with turns } }) session
          (.chatAdded summary)
      refine haccounted.congr ⟨htables.1, congrArg RootState.activeSessions htables.2.1⟩
        fun other => ?_
      refine (@running_applySession_of_kept _ hc session e he _ ?_ other).trans (hnewRunning other)
      intro other' e' he' hsession' hrunning hedit
      have hrunning := (hnewRunning other').mp hrunning
      have hne : chat ≠ other' := fun heq => hidle (heq ▸ hrunning)
      rw [get_setChat, if_neg hne] at he'
      obtain ⟨e₁, he₁, hmem⟩ := hsnapshot.listed other' e' he' (Option.some_ne_none _)
      rw [hsession', he] at he₁
      cases he₁
      obtain ⟨old, hold⟩ := Option.isSome_iff_exists.mp (findBy_isSome_iff.mpr hmem)
      rw [hold] at hedit
      unfold chatEdit at hedit
      dsimp only at hedit
      split at hedit
      · cases hedit
      · cases hedit

theorem Accounted.registerRestoredChatSummary (h : m.Accounted) (hsound : m.Sound)
    (howns : Owns session chat) (options : ChatOptions) :
    (m.registerRestoredChatSummary session chat options).Accounted := by
  unfold StateManager.registerRestoredChatSummary
  cases hget : m.sessionStates.get session with
  | none => exact h
  | some entry =>
    dsimp only
    split
    · exact h
    · rename_i hnew
      have hsnapshot := hsound.snapshotDefaultChatTitle session entry.state
      obtain ⟨e, he⟩ := snapshotDefaultChatTitle_get hget entry.state
      have hresources := snapshotDefaultChatTitle_resources hget entry.state he
      refine (h.snapshotDefaultChatTitle hsound session entry.state).congr ⟨rfl, rfl⟩ ?_
      have hidle := not_running_of_not_listed hsnapshot howns he (by rw [hresources]; exact hnew)
      exact running_setChat_idle hidle rfl

theorem Accounted.resolveChatState (h : m.Accounted) (chat : Uri) (turns : List Turn)
    (draft : Option Message) : (m.resolveChatState chat turns draft).Accounted := by
  unfold StateManager.resolveChatState
  split
  · exact h
  · rename_i entry hget
    split
    · exact h
    · rename_i hnone
      refine h.setState hget ?_
      rw [hnone]
      rfl

theorem Accounted.seedDefaultChatTurns (h : m.Accounted) (session : Uri) (turns : List Turn) :
    (m.seedDefaultChatTurns session turns).Accounted := by
  unfold StateManager.seedDefaultChatTurns
  dsimp only
  split
  · exact h
  · rename_i entry hget
    exact h.setState hget (bind_map_turn _ _ fun _ => rfl)

theorem Accounted.removeChat (h : m.Accounted) (hsound : m.Sound) (session chat : Uri) :
    (m.removeChat session chat).Accounted := by
  unfold StateManager.removeChat
  cases hget : m.sessionStates.get session with
  | none => exact h
  | some entry =>
    dsimp only
    split
    · rename_i hand
      have howns := hsound.owned.catalog session entry hget chat hand.1
      obtain ⟨hcounted, htracked⟩ := removeChatActiveTurn_spec h.toCounted session chat
      have hsame := removeChatActiveTurn_sameChats m session chat
      have hremoved := hsound.congr hsame
      generalize m.removeChatActiveTurn session chat = k at hcounted htracked hsame hremoved ⊢
      have hsub : ∀ other entry, (k.chatEntries.delete chat).get other = some entry →
          k.chatEntries.get other = some entry := fun other entry he => (get_delete_some he).2
      have hrunning : ∀ other, ({ k with chatEntries := k.chatEntries.delete chat } :
          StateManager).Running other ↔ other ≠ chat ∧ m.Running other := by
        intro other
        rw [running_iff, running_iff]
        rw [get_delete, hsame.chatEntries]
        split
        · rename_i heq
          exact iff_of_false (by simp) fun hand => hand.1 heq.symm
        · rename_i hne
          exact (and_iff_right (Ne.symm hne)).symm
      have hdeleted : ({ k with chatEntries := k.chatEntries.delete chat } : StateManager).Sound :=
        ⟨hremoved.catalogued.deleteChats hsub, hremoved.owned.deleteChats hsub,
          hremoved.listed.deleteChats hsub⟩
      have haccounted : ({ k with chatEntries := k.chatEntries.delete chat } :
          StateManager).Accounted := by
        refine ⟨hcounted.congr ⟨rfl, rfl⟩, fun session' chat' => ?_⟩
        show k.Tracked session' chat' ↔ _
        rw [htracked, hrunning, h.tracked]
        constructor
        · rintro ⟨⟨howns', hrunning'⟩, hne⟩
          refine ⟨howns', fun heq => hne ⟨?_, heq⟩, hrunning'⟩
          exact (heq ▸ howns' : Owns session' chat).unique howns
        · rintro ⟨howns', hne, hrunning'⟩
          exact ⟨⟨howns', hrunning'⟩, fun hand => hne hand.2⟩
      refine haccounted.dispatchSession hdeleted ?_
      rintro c ⟨⟩ - hrun
      exact ((hrunning chat).mp hrun).1 rfl
    · exact h

theorem get_foldl_delete_of_not_mem (chats : List Uri) (entries : Record Uri ChatEntry)
    {chat : Uri} (h : chat ∉ chats) :
    (chats.foldl (fun entries chat => entries.delete chat) entries).get chat =
      entries.get chat := by
  induction chats generalizing entries with
  | nil => rfl
  | cons first rest ih =>
    obtain ⟨hne, hrest⟩ := not_or.mp (fun hand => h (mem_cons.mpr hand))
    rw [foldl_cons, ih _ hrest, get_delete, if_neg (Ne.symm hne)]

theorem Accounted.dropSession (h : m.Accounted) (hsound : m.Sound) {entry : SessionEntry}
    (hget : m.sessionStates.get session = some entry) {k : StateManager} (hsame : SameChats m k)
    (hcounted : k.Counted) (htracked : ∀ session' chat, k.Tracked session' chat ↔
      session' ≠ session ∧ m.Tracked session' chat) :
    ({ k with
      chatEntries := ((entry.state.chats.map (·.resource)).foldl
        (fun entries chat => entries.delete chat) k.chatEntries).delete
          (buildDefaultChatUri session)
      sessionStates := k.sessionStates.delete session } : StateManager).Accounted := by
  refine ⟨hcounted.congr ⟨rfl, rfl⟩, fun session' chat => ?_⟩
  show k.Tracked session' chat ↔ _
  rw [htracked, h.tracked]
  refine Iff.trans ?_ (and_congr_right fun _ => (running_iff _ _).symm)
  rw [hsame.chatEntries, get_delete]
  constructor
  · rintro ⟨hne, howns, hrunning⟩
    have hforeign : ¬Owns session chat := fun howns' => hne (howns.unique howns')
    have hdefault : buildDefaultChatUri session ≠ chat :=
      fun heq => hforeign (heq ▸ owns_default session)
    have hlisted : chat ∉ entry.state.chats.map ChatSummary.resource :=
      fun hmem => hforeign (hsound.owned.catalog session entry hget chat hmem)
    refine ⟨howns, ?_⟩
    rw [if_neg hdefault, get_foldl_delete_of_not_mem _ _ hlisted]
    exact (running_iff m chat).mp hrunning
  · rintro ⟨howns, hrunning⟩
    split at hrunning
    · cases hrunning
    · cases hentry : (((entry.state.chats.map (·.resource)).foldl
          (fun entries chat => entries.delete chat) m.chatEntries).get chat) with
      | none =>
        rw [hentry] at hrunning
        cases hrunning
      | some e =>
        obtain ⟨hnot, hold⟩ := get_foldl_delete _ _ hentry
        rw [hentry] at hrunning
        have hrun : m.Running chat := by
          rw [running_iff, hold]
          exact hrunning
        refine ⟨?_, howns, hrun⟩
        rintro rfl
        exact not_running_of_not_listed hsound howns hget hnot hrun

theorem Accounted.removeSession (h : m.Accounted) (hsound : m.Sound) (session : Uri) :
    (m.removeSession session).Accounted := by
  unfold StateManager.removeSession
  cases hget : m.sessionStates.get session with
  | none => exact h
  | some entry =>
    dsimp only
    split
    · rename_i activeChats hactive
      refine h.dropSession hsound hget (k := ({ m with
        sessionsWithActiveTurn := m.sessionsWithActiveTurn.delete session } :
          StateManager).dispatchActiveSessions) ⟨rfl, rfl, rfl⟩ ⟨fun s chats hs => ?_, rfl⟩
        fun session' chat => ?_
      · have hs : (m.sessionsWithActiveTurn.delete session).get s = some chats := hs
        rw [get_delete] at hs
        exact h.nonempty s chats (Option.ite_none_left_eq_some.mp hs).2
      · show (∃ chats, (m.sessionsWithActiveTurn.delete session).get session' = some chats ∧
          chat ∈ chats) ↔ _
        rw [get_delete]
        split
        · rename_i heq
          exact iff_of_false (by simp) fun hand => hand.1 heq.symm
        · rename_i hne
          exact (and_iff_right (Ne.symm hne)).symm
    · rename_i hnone
      refine h.dropSession hsound hget ⟨rfl, rfl, rfl⟩ h.toCounted fun session' chat => ?_
      refine (and_iff_right_of_imp ?_).symm
      rintro ⟨chats, hchats, -⟩ rfl
      rw [hnone] at hchats
      cases hchats

theorem Accounted.newSession (h : m.Accounted) (hsound : m.Sound)
    (hnone : m.sessionStates.get session = none) (entry : SessionEntry) (summary : SessionSummary)
    (turns : List Turn) (draft : Option Message) (title : Option String) :
    ((m.setSession session entry).ensureDefaultChat session summary turns draft title).Accounted := by
  have hidle : ¬m.Running (buildDefaultChatUri session) := by
    intro hrunning
    obtain ⟨e, he, -⟩ := hrunning.inCatalog hsound (owns_default session)
    rw [hnone] at he
    cases he
  unfold StateManager.ensureDefaultChat
  dsimp only
  split
  · exact h.congr ⟨rfl, rfl⟩ (running_setChat_idle hidle rfl)
  · exact h.congr ⟨rfl, rfl⟩ (running_setChat_idle hidle rfl)

/-! ## Every event -/

/-- A running chat is not removed by an action, and an action that announces the number of
active sessions announces the current one. -/
def KeepsTurns (m : StateManager) : HostEvent → Prop
  | .dispatch session (.session (.chatRemoved chat)) _ => Owns session chat → ¬m.Running chat
  | .dispatch _ (.root (.activeSessionsChanged n)) _ => m.rootState.activeSessions = some n
  | _ => True

theorem Accounted.after (h : m.Accounted) (hsound : m.Sound) {event : HostEvent}
    (hown : OwnEvent event) (hkeeps : m.KeepsTurns event) : (m.after event).Accounted := by
  have hafter := after_cases m event
  generalize m.after event = m' at hafter ⊢
  cases hafter with
  | aside hsame hactive hcount =>
    refine h.congr ⟨hactive, hcount ?_⟩ (running_congr hsame.chatEntries)
    rintro channel n origin rfl
    exact hkeeps
  | session =>
    refine (h.applySession hsound ?_).congr ⟨rfl, rfl⟩ (running_congr rfl)
    rintro chat rfl
    exact hkeeps
  | @chat owner chatId action origin =>
    have howns : Owns owner (.chat owner chatId) := rfl
    exact (h.applyChat hsound howns _).congr ⟨rfl, rfl⟩ (running_congr rfl)
  | createSession hnone | restoreSession hnone => exact h.newSession hsound hnone _ _ _ _ _
  | addChat => exact h.addChat hsound hown _ _
  | registerRestoredChatSummary => exact h.registerRestoredChatSummary hsound hown _
  | resolveChatState => exact h.resolveChatState _ _ _
  | removeChat => exact h.removeChat hsound _ _
  | removeSession => exact h.removeSession hsound _
  | updateChatTitle => exact h.updateChatTitle hsound _ _ _
  | patchSession =>
    unfold StateManager.patchSession
    split
    · exact h
    · exact h.congr ⟨rfl, rfl⟩ (running_congr rfl)
  | seedDefaultChatTurns => exact h.seedDefaultChatTurns _ _

theorem accounted_created (h : m.Created) : m.Accounted := by
  obtain ⟨rootState, approve, keys, hactive, rfl⟩ := h
  refine ⟨⟨?_, hactive⟩, fun session chat => ?_⟩
  · intro session chats hchats
    cases hchats
  · refine iff_of_false ?_ ?_
    · rintro ⟨chats, hchats, -⟩
      cases hchats
    · rintro ⟨-, state, hstate, -⟩
      cases hstate

/-! ## Runs -/

theorem Accounted.tracked_iff (h : m.Accounted) (hsound : m.Sound) (session chat : Uri) :
    m.Tracked session chat ↔ m.LiveActive session chat := by
  rw [h.tracked]
  constructor
  · rintro ⟨howns, hrunning⟩
    exact ⟨hrunning.inCatalog hsound howns, hrunning⟩
  · rintro ⟨⟨entry, hget, hmem⟩, hrunning⟩
    exact ⟨hsound.owned.catalog session entry hget chat hmem, hrunning⟩

theorem Accounted.activeSessions (h : m.Accounted) (hsound : m.Sound) :
    m.rootState.activeSessions = some {session | ∃ chat, m.LiveActive session chat}.ncard := by
  have hkeys : {session | ∃ chat, m.LiveActive session chat} =
      ↑m.sessionsWithActiveTurn.keys.toFinset := by
    ext session
    rw [Set.mem_ofPred_eq, Finset.mem_coe, mem_toFinset, mem_keys_iff]
    constructor
    · rintro ⟨chat, hactive⟩
      obtain ⟨chats, hchats, -⟩ := (h.tracked_iff hsound session chat).mpr hactive
      exact ⟨chats, hchats⟩
    · rintro ⟨chats, hchats⟩
      obtain ⟨chat, hchat⟩ : ∃ chat, chat ∈ chats := by
        cases hmem : chats.elems with
        | nil =>
          have hempty := h.nonempty session chats hchats
          unfold OrderedSet.isEmpty at hempty
          rw [hmem] at hempty
          cases hempty
        | cons chat rest =>
          refine ⟨chat, ?_⟩
          rw [mem_def, hmem]
          exact mem_cons_self
      exact ⟨chat, (h.tracked_iff hsound session chat).mp ⟨chats, hchats, hchat⟩⟩
  have hnodup : m.sessionsWithActiveTurn.keys.Nodup := m.sessionsWithActiveTurn.nodup
  rw [h.count, hkeys, Set.ncard_coe_finset, toFinset_card_of_nodup hnodup]
  unfold Record.keys
  rw [length_map]

/-- The tracked chats are the live chats with an active turn, and the root state has the
number of their sessions. -/
theorem activeTurns_of_reachable
    (h : managing.ReachableVia (fun m event => OwnEvent event ∧ m.KeepsTurns event) m) :
    (∀ session chat, m.Tracked session chat ↔ m.LiveActive session chat) ∧
      m.rootState.activeSessions = some {session | ∃ chat, m.LiveActive session chat}.ncard := by
  have hinv : m.Sound ∧ m.Accounted := by
    refine @System.ReachableVia.invariant _ _ _ _ (fun m => m.Sound ∧ m.Accounted) ?_ ?_ _ h
    · exact fun s hs => ⟨sound_created hs, accounted_created hs⟩
    · rintro s event s' ⟨hsound, haccounted⟩ ⟨hown, hkeeps⟩ hstep
      cases Option.some.inj hstep
      exact ⟨hsound.after hown, haccounted.after hsound hown hkeeps⟩
  exact ⟨hinv.2.tracked_iff hinv.1, hinv.2.activeSessions hinv.1⟩

def turnsRun : List HostEvent :=
  [.dispatch (buildDefaultChatUri restoredSummary.resource)
    (.chat (.turnStarted "t" 5 ⟨"hi"⟩ none)) none,
   .perform (.addChat restoredSummary.resource (.chat restoredSummary.resource "peer")
     ⟨none, none, none⟩ []),
   .dispatch (.chat restoredSummary.resource "peer") (.chat (.turnStarted "u" 6 ⟨"hi"⟩ none)) none,
   .dispatch (buildDefaultChatUri restoredSummary.resource) (.chat (.turnComplete "t" 2)) none]

theorem activeTurns_of_reachable_turns :
    (∀ session chat, (turnsRun.foldl after restoredHost).Tracked session chat ↔
      (turnsRun.foldl after restoredHost).LiveActive session chat) ∧
      (turnsRun.foldl after restoredHost).rootState.activeSessions = some
        {session | ∃ chat, (turnsRun.foldl after restoredHost).LiveActive session chat}.ncard := by
  refine activeTurns_of_reachable ?_
  have hrestored : managing.ReachableVia (fun m event => OwnEvent event ∧ m.KeepsTurns event)
      restoredHost :=
    .step (i := .perform (.restoreSession restoredSummary [] none none)) (.init created_newHost)
      ⟨trivial, trivial⟩ rfl
  refine hrestored.run turnsRun ?_ rfl
  intro event hevent m
  simp only [turnsRun, mem_cons, not_mem_nil, or_false] at hevent
  rcases hevent with rfl | rfl | rfl | rfl
  · exact ⟨trivial, trivial⟩
  · exact ⟨rfl, trivial⟩
  · exact ⟨trivial, trivial⟩
  · exact ⟨trivial, trivial⟩

/-- The peer chat is removed by an action in the middle of its turn. -/
def strandedRun : List HostEvent :=
  turnsRun ++ [.dispatch restoredSummary.resource
    (.session (.chatRemoved (.chat restoredSummary.resource "peer"))) none]

theorem not_always_activeTurns : ¬ ∀ m, managing.Reachable m →
    (∀ session chat, m.Tracked session chat ↔ m.LiveActive session chat) ∧
      m.rootState.activeSessions = some {session | ∃ chat, m.LiveActive session chat}.ncard := by
  intro h
  have hreachable : managing.Reachable (strandedRun.foldl after restoredHost) :=
    System.Reachable.run reachable_restoredHost strandedRun rfl
  have htracked : (strandedRun.foldl after restoredHost).Tracked restoredSummary.resource
      (.chat restoredSummary.resource "peer") := ⟨_, rfl, by decide⟩
  obtain ⟨⟨entry, hget, hmem⟩, -⟩ := ((h _ hreachable).1 _ _).mp htracked
  cases hget
  revert hmem
  decide

end StateManager

end Fumie.AgentHost
