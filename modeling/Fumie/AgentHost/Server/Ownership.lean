import Fumie.AgentHost.Server.Catalog
import Fumie.AgentHost.State.ChatIdentity

/-!
# Chats belong to the session of their URI

A chat is kept under its URI, and the URI names a session. `Catalogued` holds in every run:
a catalog lists a chat once and a chat is filed under its own resource. `Owned` says that
catalogs and entries name chats of their own session only, and `Listed` that every entry is
in the catalog of its session. These hold as long as no step brings a chat of one session
into the catalog of another, which no service of the host does.

A session action makes the entries of its session agree with the new catalog, whatever they
were before, so `Listed` is needed of the other sessions only.
-/

namespace Fumie.AgentHost

open Fumie.Lib List StateManager Record

namespace StateManager

def Owns (session chat : Uri) : Prop := parseDefaultChatUri chat = some session

variable {chat : Uri}

theorem Owns.unique {session session' : Uri} (h : Owns session chat) (h' : Owns session' chat) :
    session = session' := Option.some.inj (h.symm.trans h')

variable (session : Uri)

theorem owns_default : Owns session (buildDefaultChatUri session) := rfl

structure Catalogued (m : StateManager) : Prop where
  nodup : ∀ session entry, m.sessionStates.get session = some entry →
    (entry.state.chats.map ChatSummary.resource).Nodup
  summary : ∀ chat entry, m.chatEntries.get chat = some entry → entry.summary.resource = chat
  state : ∀ chat entry state, m.chatEntries.get chat = some entry → entry.state = some state →
    state.resource = chat

/-- Chats are filed under the session their URI names. -/
structure Owned (m : StateManager) : Prop where
  catalog : ∀ session entry, m.sessionStates.get session = some entry →
    ∀ chat ∈ entry.state.chats.map ChatSummary.resource, Owns session chat
  entries : ∀ chat entry, m.chatEntries.get chat = some entry → Owns entry.session chat

def InCatalog (m : StateManager) (session chat : Uri) : Prop :=
  ∃ entry, m.sessionStates.get session = some entry ∧
    chat ∈ entry.state.chats.map ChatSummary.resource

def ListedBut (but : Option Uri) (m : StateManager) : Prop :=
  ∀ chat entry, m.chatEntries.get chat = some entry → some entry.session ≠ but →
    m.InCatalog entry.session chat

abbrev Listed (m : StateManager) : Prop := m.ListedBut none

structure Sound (m : StateManager) : Prop where
  catalogued : m.Catalogued
  owned : m.Owned
  listed : m.Listed

structure SoundWhen (own : Prop) (m : StateManager) : Prop where
  catalogued : m.Catalogued
  owned : own → m.Owned
  listed : own → m.Listed

variable {m m' : StateManager} {own : Prop}

theorem Sound.soundWhen (h : m.Sound) : m.SoundWhen own :=
  ⟨h.catalogued, fun _ => h.owned, fun _ => h.listed⟩

theorem SoundWhen.sound (h : m.SoundWhen own) (hown : own) : m.Sound :=
  ⟨h.catalogued, h.owned hown, h.listed hown⟩

theorem Catalogued.soundWhen (h : m.Catalogued) : m.SoundWhen False := ⟨h, nofun, nofun⟩

/-! ## Single moves -/

theorem Catalogued.congr (h : m.Catalogued) (hsame : SameChats m m') : m'.Catalogued := by
  obtain ⟨hsessions, hchats, -⟩ := hsame
  constructor
  · rw [hsessions]
    exact h.nodup
  · rw [hchats]
    exact h.summary
  · rw [hchats]
    exact h.state

theorem Owned.congr (h : m.Owned) (hsame : SameChats m m') : m'.Owned := by
  obtain ⟨hsessions, hchats, -⟩ := hsame
  constructor
  · rw [hsessions]
    exact h.catalog
  · rw [hchats]
    exact h.entries

variable {but : Option Uri}

theorem ListedBut.congr (h : m.ListedBut but) (hsame : SameChats m m') : m'.ListedBut but := by
  obtain ⟨hsessions, hchats, -⟩ := hsame
  unfold ListedBut InCatalog
  rw [hsessions, hchats]
  exact h

theorem SoundWhen.congr (h : m.SoundWhen own) (hsame : SameChats m m') : m'.SoundWhen own :=
  ⟨h.catalogued.congr hsame, fun ho => (h.owned ho).congr hsame,
    fun ho => (h.listed ho).congr hsame⟩

theorem Sound.congr (h : m.Sound) (hsame : SameChats m m') : m'.Sound :=
  ⟨h.catalogued.congr hsame, h.owned.congr hsame, h.listed.congr hsame⟩

theorem get_setChat (m : StateManager) (chat other : Uri) (entry : ChatEntry) :
    (m.setChat chat entry).chatEntries.get other =
      if chat = other then some entry else m.chatEntries.get other := get_set _ _ _ _

theorem get_setSession (m : StateManager) (session other : Uri) (entry : SessionEntry) :
    (m.setSession session entry).sessionStates.get other =
      if session = other then some entry else m.sessionStates.get other := get_set _ _ _ _

variable {entry : ChatEntry}

theorem Catalogued.setChat (h : m.Catalogued) (hsummary : entry.summary.resource = chat)
    (hstate : ∀ state, entry.state = some state → state.resource = chat) :
    (m.setChat chat entry).Catalogued := by
  refine ⟨h.nodup, fun other e he => ?_, fun other e state he hs => ?_⟩
  · rw [get_setChat] at he
    split at he
    · rename_i heq
      cases he
      exact hsummary.trans heq
    · exact h.summary other e he
  · rw [get_setChat] at he
    split at he
    · rename_i heq
      cases he
      exact (hstate state hs).trans heq
    · exact h.state other e state he hs

theorem Owned.setChat (h : m.Owned) (howns : Owns entry.session chat) :
    (m.setChat chat entry).Owned := by
  refine ⟨h.catalog, fun other e he => ?_⟩
  rw [get_setChat] at he
  split at he
  · rename_i heq
    cases he
    exact heq ▸ howns
  · exact h.entries other e he

theorem ListedBut.setChat (h : m.ListedBut but)
    (hlisted : some entry.session ≠ but → m.InCatalog entry.session chat) :
    (m.setChat chat entry).ListedBut but := by
  intro other e he hbut
  rw [get_setChat] at he
  split at he
  · rename_i heq
    cases he
    subst heq
    exact hlisted hbut
  · exact h other e he hbut

variable {entry : SessionEntry} {session : Uri}

theorem Catalogued.setSession (h : m.Catalogued)
    (hnodup : (entry.state.chats.map ChatSummary.resource).Nodup) :
    (m.setSession session entry).Catalogued := by
  refine ⟨fun other e he => ?_, h.summary, h.state⟩
  rw [get_setSession] at he
  split at he
  · cases he
    exact hnodup
  · exact h.nodup other e he

theorem Owned.setSession (h : m.Owned)
    (howns : ∀ chat ∈ entry.state.chats.map ChatSummary.resource, Owns session chat) :
    (m.setSession session entry).Owned := by
  refine ⟨fun other e he => ?_, h.entries⟩
  rw [get_setSession] at he
  split at he
  · rename_i heq
    cases he
    subst heq
    exact howns
  · exact h.catalog other e he

theorem ListedBut.setSession (h : m.ListedBut but) (hkept : ∀ chat, m.InCatalog session chat →
      chat ∈ entry.state.chats.map ChatSummary.resource) :
    (m.setSession session entry).ListedBut but := by
  intro chat e he hbut
  obtain ⟨old, hold, hmem⟩ := h chat e he hbut
  by_cases heq : session = e.session
  · refine ⟨entry, ?_, hkept chat ⟨old, heq ▸ hold, hmem⟩⟩
    rw [get_setSession, if_pos heq]
  · refine ⟨old, ?_, hmem⟩
    rw [get_setSession, if_neg heq]
    exact hold

/-! ## A session action -/

def OwnAction (session : Uri) : SessionAction → Prop
  | .chatAdded summary => Owns session summary.resource
  | _ => True

variable {summary : ChatSummary}

theorem syncEntry_resource (hsummary : summary.resource = chat) (old : Option ChatEntry)
    (action : SessionAction) :
    (clearEntry action chat (syncEntry session summary old)).summary.resource = chat ∧
      ∀ state, (clearEntry action chat (syncEntry session summary old)).state = some state →
        state.resource = chat := by
  have hsync : (syncEntry session summary old).summary.resource = chat ∧
      ∀ state, (syncEntry session summary old).state = some state → state.resource = chat := by
    cases old with
    | none =>
      refine ⟨hsummary, fun state hstate => ?_⟩
      have hnone : none = some state := hstate
      cases hnone
    | some existing =>
      refine ⟨hsummary, fun state hstate => ?_⟩
      have hmap : existing.state.map (fun s => s.withSummary summary) = some state := hstate
      obtain ⟨old, -, hold⟩ := Option.map_eq_some_iff.mp hmap
      rw [← hold]
      exact hsummary
  unfold clearEntry
  split
  · split
    · refine ⟨hsync.1, fun state hstate => ?_⟩
      obtain ⟨old, hold, rfl⟩ := Option.map_eq_some_iff.mp hstate
      exact hsync.2 old hold
    · exact hsync
  · exact hsync

theorem syncEntry_session {old : Option ChatEntry}
    (hold : ∀ entry, old = some entry → entry.session = session) (action : SessionAction) :
    (clearEntry action chat (syncEntry session summary old)).session = session := by
  have hsync : (syncEntry session summary old).session = session := by
    cases old with
    | none => rfl
    | some existing => exact hold existing rfl
  unfold clearEntry
  split
  · split
    · exact hsync
    · exact hsync
  · exact hsync

variable {action : SessionAction}

theorem chatEdit_resource {old : Option ChatSummary} (h : chatEdit action chat old = some summary)
    (hold : ∀ s, old = some s → s.resource = chat) : summary.resource = chat := by
  unfold chatEdit at h
  split at h
  · split at h
    · rename_i heq
      cases h
      exact heq
    · exact hold summary h
  · split at h
    · cases h
    · exact hold summary h
  · split at h
    · obtain ⟨s, hs, rfl⟩ := Option.map_eq_some_iff.mp h
      exact hold s hs
    · exact hold summary h
  · exact hold summary h

theorem Catalogued.applySession (h : m.Catalogued) (session : Uri) (action : SessionAction) :
    (m.applySession session action).Catalogued := by
  cases hget : m.sessionStates.get session with
  | none =>
    rw [applySession_of_none hget]
    exact h
  | some entry =>
    have hnodup := h.nodup session entry hget
    have hchat : ∀ chat e, (m.applySession session action).chatEntries.get chat = some e →
        e.summary.resource = chat ∧ ∀ state, e.state = some state → state.resource = chat := by
      intro chat e he
      rw [get_applySession_chat m hget hnodup] at he
      split at he
      · rename_i summary hedit
        cases he
        exact syncEntry_resource (chatEdit_resource hedit fun s hs => (findBy_some hs).2) _ _
      · obtain ⟨he, -⟩ := Option.filter_eq_some_iff.mp he
        exact ⟨h.summary chat e he, fun state => h.state chat e state he⟩
    refine ⟨fun other e he => ?_, fun chat e he => (hchat chat e he).1,
      fun chat e state he => (hchat chat e he).2 state⟩
    rw [get_applySession_session, hget] at he
    split at he
    · cases he
      exact (sessionReducer_chats action hnodup).1
    · exact h.nodup other e he

theorem Owned.applySession (h : m.Owned) (hc : m.Catalogued) {session : Uri}
    {action : SessionAction} (hown : OwnAction session action) :
    (m.applySession session action).Owned := by
  cases hget : m.sessionStates.get session with
  | none =>
    rw [applySession_of_none hget]
    exact h
  | some entry =>
    have hnodup := hc.nodup session entry hget
    have hedit : ∀ chat summary, chatEdit action chat
        (findBy ChatSummary.resource entry.state.chats chat) = some summary →
        Owns session chat := by
      intro chat summary hedit
      have hold : ∀ s, findBy ChatSummary.resource entry.state.chats chat = some s →
          Owns session chat := by
        intro s hs
        exact h.catalog session entry hget chat (findBy_isSome_iff.mp (by rw [hs]; rfl))
      unfold chatEdit at hedit
      split at hedit
      · split at hedit
        · rename_i heq
          exact heq ▸ hown
        · exact hold summary hedit
      · split at hedit
        · cases hedit
        · exact hold summary hedit
      · split at hedit
        · obtain ⟨s, hs, -⟩ := Option.map_eq_some_iff.mp hedit
          exact hold s hs
        · exact hold summary hedit
      · exact hold summary hedit
    refine ⟨fun other e he chat hmem => ?_, fun chat e he => ?_⟩
    · rw [get_applySession_session, hget] at he
      split at he
      · rename_i heq
        cases he
        subst heq
        rw [← findBy_isSome_iff, (sessionReducer_chats action hnodup).2] at hmem
        obtain ⟨summary, hsummary⟩ := Option.isSome_iff_exists.mp hmem
        exact hedit chat summary hsummary
      · exact h.catalog other e he chat hmem
    · rw [get_applySession_chat m hget hnodup] at he
      split at he
      · rename_i summary hsummary
        cases he
        have howns := hedit chat summary hsummary
        rw [syncEntry_session fun old hold => (h.entries chat old hold).unique howns]
        exact howns
      · exact h.entries chat e (Option.filter_eq_some_iff.mp he).1

theorem ListedBut.applySession (h : m.ListedBut (some session)) (hc : m.Catalogued)
    (hsome : (m.sessionStates.get session).isSome) (action : SessionAction)
    (howned : (m.applySession session action).Owned) : (m.applySession session action).Listed := by
  obtain ⟨entry, hget⟩ := Option.isSome_iff_exists.mp hsome
  have hnodup := hc.nodup session entry hget
  have hsession := get_applySession_session m session action
  intro chat e he _
  have howns := howned.entries chat e he
  rw [get_applySession_chat m hget hnodup] at he
  split at he
  · rename_i summary hsummary
    have hcatalog : chat ∈ (sessionReducer entry.state action).chats.map ChatSummary.resource := by
      rw [← findBy_isSome_iff, (sessionReducer_chats action hnodup).2, hsummary]
      rfl
    have hentry : (m.applySession session action).sessionStates.get session =
        some { entry with state := sessionReducer entry.state action } := by
      rw [hsession, if_pos rfl, hget]
      rfl
    have heq : e.session = session := howns.unique (howned.catalog _ _ hentry chat hcatalog)
    rw [heq]
    exact ⟨_, hentry, hcatalog⟩
  · obtain ⟨he, hne⟩ := Option.filter_eq_some_iff.mp he
    have hne : e.session ≠ session := by simpa using hne
    obtain ⟨old, hold, hmem⟩ := h chat e he fun heq => hne (Option.some.inj heq)
    refine ⟨old, ?_, hmem⟩
    rw [hsession, if_neg (Ne.symm hne)]
    exact hold

theorem SoundWhen.applySession (h : m.SoundWhen own) (hown : own → OwnAction session action) :
    (m.applySession session action).SoundWhen own := by
  refine ⟨h.catalogued.applySession session action,
    fun ho => (h.owned ho).applySession h.catalogued (hown ho), fun ho => ?_⟩
  cases hget : m.sessionStates.get session with
  | none =>
    rw [applySession_of_none hget]
    exact h.listed ho
  | some entry =>
    exact ListedBut.applySession (fun chat e he _ => h.listed ho chat e he nofun) h.catalogued
      (by rw [hget]; rfl) action ((h.owned ho).applySession h.catalogued (hown ho))

theorem sameChats_emit (m : StateManager) (channel : Uri) (action : StateAction)
    (origin : Option ActionOrigin) (reason : Option String) :
    SameChats m (m.emit channel action origin reason) := ⟨rfl, rfl, rfl⟩

theorem SoundWhen.dispatchSession (h : m.SoundWhen own) (hown : own → OwnAction session action) :
    (m.dispatchSession session action).SoundWhen own :=
  (h.applySession hown).congr (sameChats_emit _ _ _ _ _)

/-! ## A chat action -/

theorem mirrorChat_resources (entry : SessionEntry) {chat : Uri} {nextEntry : ChatSummary}
    (h : nextEntry.resource = chat) :
    (mirrorChat entry chat nextEntry).state.chats.map ChatSummary.resource =
      entry.state.chats.map ChatSummary.resource := by
  show (entry.state.chats.map fun c => if c.resource = chat then nextEntry else c).map
    ChatSummary.resource = _
  rw [map_map]
  refine map_congr_left fun c _ => ?_
  show (if c.resource = chat then nextEntry else c).resource = c.resource
  split
  · rename_i hc
    exact h.trans hc.symm
  · rfl

theorem SoundWhen.forwardStatus (h : m.SoundWhen own) (session chat : Uri) (entry : SessionEntry)
    (nextEntry : ChatSummary) : (m.forwardStatus session chat entry nextEntry).SoundWhen own := by
  unfold StateManager.forwardStatus
  split
  · exact h
  · exact h.applySession fun _ => trivial

theorem inCatalog_forwardStatus (hget : m.sessionStates.get session = some entry)
    (hnodup : (entry.state.chats.map ChatSummary.resource).Nodup) (chat : Uri)
    (nextEntry : ChatSummary) {other : Uri}
    (h : (m.forwardStatus session chat entry nextEntry).InCatalog session other) :
    other ∈ entry.state.chats.map ChatSummary.resource := by
  unfold StateManager.forwardStatus at h
  split at h
  · obtain ⟨e, he, hmem⟩ := h
    cases hget.symm.trans he
    exact hmem
  · obtain ⟨e, he, hmem⟩ := h
    rw [get_applySession_session, if_pos rfl, hget] at he
    cases he
    rw [← findBy_isSome_iff, (sessionReducer_chats _ hnodup).2] at hmem
    rw [← findBy_isSome_iff]
    unfold chatEdit at hmem
    dsimp only at hmem
    split at hmem
    · simpa using hmem
    · exact hmem

theorem SoundWhen.onChatStateChanged (h : m.SoundWhen own) (session : Uri) {chat : Uri} (prev : ChatState)
    {next : ChatState} (hresource : next.resource = chat) :
    (m.onChatStateChanged session chat prev next).SoundWhen own := by
  cases hget : m.sessionStates.get session with
  | none =>
    rw [onChatStateChanged_of_none hget]
    exact h.congr (trackActiveTurn_sameChats _ _ _ _ _)
  | some entry =>
    have hspec := onChatStateChanged_spec hget chat prev next
    have hforward := h.forwardStatus session chat entry (m.chatSummaryFromState next)
    have hresources := @mirrorChat_resources entry chat (m.chatSummaryFromState next) hresource
    have hnodup := h.catalogued.nodup session entry hget
    refine SoundWhen.congr ⟨hforward.catalogued.setSession ?_,
      fun ho => (hforward.owned ho).setSession ?_,
      fun ho => (hforward.listed ho).setSession ?_⟩ hspec.chats
    · rw [hresources]
      exact hnodup
    · rw [hresources]
      exact (h.owned ho).catalog session entry hget
    · intro other hother
      rw [hresources]
      exact inCatalog_forwardStatus hget hnodup chat _ hother

theorem SoundWhen.setState (h : m.SoundWhen own) {chat : Uri} {entry : ChatEntry}
    (hget : m.chatEntries.get chat = some entry) {state : Option ChatState}
    (hstate : ∀ s, state = some s → s.resource = chat) :
    (m.setChat chat { entry with state }).SoundWhen own :=
  ⟨h.catalogued.setChat (h.catalogued.summary chat entry hget) hstate,
    fun ho => (h.owned ho).setChat ((h.owned ho).entries chat entry hget),
    fun ho => (h.listed ho).setChat fun _ => h.listed ho chat entry hget nofun⟩

theorem SoundWhen.applyChat (h : m.SoundWhen own) (session chat : Uri) (action : ChatAction) :
    (m.applyChat session chat action).SoundWhen own := by
  unfold StateManager.applyChat
  split
  · exact h
  · rename_i entry hget
    split
    · exact h
    · rename_i prev hprev
      have hresource : (chatReducer prev action).resource = chat :=
        (chatReducer_dated prev action).resource.trans
          (h.catalogued.state chat entry prev hget hprev)
      refine SoundWhen.onChatStateChanged (h.setState hget ?_) session prev hresource
      rintro s hs
      cases hs
      exact hresource

/-! ## Operations -/

theorem SoundWhen.updateChatTitle (h : m.SoundWhen own) (session chat : Uri) (title : String) :
    (m.updateChatTitle session chat title).SoundWhen own := by
  refine SoundWhen.dispatchSession ?_ fun _ => trivial
  split
  · exact h
  · rename_i entry hget
    refine h.setState hget fun s hs => ?_
    obtain ⟨state, hstate, heq⟩ := Option.map_eq_some_iff.mp hs
    rw [← heq]
    exact h.catalogued.state chat entry state hget hstate

theorem SoundWhen.snapshotDefaultChatTitle (h : m.SoundWhen own) (session : Uri) (state : SessionState) :
    (m.snapshotDefaultChatTitle session state).SoundWhen own := by
  unfold StateManager.snapshotDefaultChatTitle
  dsimp only
  split
  · split
    · exact h.updateChatTitle _ _ _
    · exact h
  · exact h

theorem SoundWhen.newChat (h : m.SoundWhen own) {session chat : Uri} {entry : ChatEntry}
    (howns : own → Owns session chat) (hsession : entry.session = session)
    (hsummary : entry.summary.resource = chat)
    (hstate : ∀ s, entry.state = some s → s.resource = chat) :
    (m.setChat chat entry).Catalogued ∧ (own → (m.setChat chat entry).Owned) ∧
      (own → (m.setChat chat entry).ListedBut (some session)) := by
  refine ⟨h.catalogued.setChat hsummary hstate,
    fun ho => (h.owned ho).setChat (hsession ▸ howns ho),
    fun ho => ListedBut.setChat (fun other e he _ => h.listed ho other e he nofun) fun hne => ?_⟩
  exact absurd (congrArg some hsession) hne

theorem snapshotDefaultChatTitle_isSome (h : (m.sessionStates.get session).isSome) (other : Uri)
    (state : SessionState) :
    ((m.snapshotDefaultChatTitle other state).sessionStates.get session).isSome := by
  unfold StateManager.snapshotDefaultChatTitle StateManager.updateChatTitle dispatchSession
  dsimp only
  split
  · split
    · rw [emit_sessionStates, get_applySession_session]
      split
      · rename_i heq
        subst heq
        rw [Option.isSome_map]
        split
        · exact h
        · exact h
      · split
        · exact h
        · exact h
    · exact h
  · exact h

theorem snapshotDefaultChatTitle_get {session : Uri} {entry : SessionEntry}
    (hget : m.sessionStates.get session = some entry) (state : SessionState) :
    ∃ e, (m.snapshotDefaultChatTitle session state).sessionStates.get session = some e :=
  Option.isSome_iff_exists.mp
    (snapshotDefaultChatTitle_isSome (Option.isSome_of_eq_some hget) session state)

theorem SoundWhen.addChat (h : m.SoundWhen own) (howns : own → Owns session chat) (options : ChatOptions)
    (turns : List Turn) : (m.addChat session chat options turns).SoundWhen own := by
  unfold StateManager.addChat
  cases hget : m.sessionStates.get session with
  | none => exact h
  | some entry =>
    dsimp only
    split
    · exact h
    · have hsnapshot := h.snapshotDefaultChatTitle session entry.state
      have hsome := snapshotDefaultChatTitle_isSome (Option.isSome_of_eq_some hget)
        session entry.state
      generalize m.snapshotDefaultChatTitle session entry.state = s at hsnapshot hsome ⊢
      obtain ⟨hc, ho, hl⟩ := @SoundWhen.newChat s own hsnapshot session chat
        { session
          summary := newChatSummary session chat ((s.sessionStates.get session).getD entry) options
          state := some { createChatState (newChatSummary session chat
            ((s.sessionStates.get session).getD entry) options) with turns } }
        howns rfl rfl (by rintro st hst; cases hst; rfl)
      have hown : own → OwnAction session (.chatAdded (newChatSummary session chat
        ((s.sessionStates.get session).getD entry) options)) := howns
      refine SoundWhen.congr ?_ (sameChats_emit _ _ _ _ _)
      exact ⟨hc.applySession _ _, fun h => (ho h).applySession hc (hown h),
        fun h => (hl h).applySession hc hsome _ ((ho h).applySession hc (hown h))⟩

theorem SoundWhen.resolveChatState (h : m.SoundWhen own) (chat : Uri) (turns : List Turn)
    (draft : Option Message) : (m.resolveChatState chat turns draft).SoundWhen own := by
  unfold StateManager.resolveChatState
  split
  · exact h
  · rename_i entry hget
    split
    · exact h
    · refine h.setState hget fun s hs => ?_
      cases hs
      exact h.catalogued.summary chat entry hget

theorem SoundWhen.seedDefaultChatTurns (h : m.SoundWhen own) (session : Uri) (turns : List Turn) :
    (m.seedDefaultChatTurns session turns).SoundWhen own := by
  unfold StateManager.seedDefaultChatTurns
  dsimp only
  split
  · exact h
  · rename_i entry hget
    refine h.setState hget fun s hs => ?_
    obtain ⟨state, hstate, heq⟩ := Option.map_eq_some_iff.mp hs
    rw [← heq]
    exact h.catalogued.state _ entry state hget hstate

theorem SoundWhen.patchSession (h : m.SoundWhen own) (session : Uri) (config : Option SessionConfigState)
    (customizations : Option (List Customization)) (project : Option Payload)
    (workingDirectories : Option (List Uri)) (modifiedAt : Timestamp) :
    (m.patchSession session config customizations project workingDirectories modifiedAt).SoundWhen own := by
  unfold StateManager.patchSession
  split
  · exact h
  · rename_i entry hget
    refine ⟨h.catalogued.setSession (h.catalogued.nodup session entry hget),
      fun ho => (h.owned ho).setSession ((h.owned ho).catalog session entry hget),
      fun ho => (h.listed ho).setSession fun chat hchat => ?_⟩
    obtain ⟨e, he, hmem⟩ := hchat
    cases hget.symm.trans he
    exact hmem

theorem snapshotDefaultChatTitle_resources {session : Uri} {entry entry' : SessionEntry}
    (hget : m.sessionStates.get session = some entry) (state : SessionState)
    (hget' : (m.snapshotDefaultChatTitle session state).sessionStates.get session = some entry') :
    entry'.state.chats.map ChatSummary.resource = entry.state.chats.map ChatSummary.resource := by
  have hreducer : ∀ (st : SessionState) chat changes,
      (sessionReducer st (.chatUpdated chat changes)).chats.map ChatSummary.resource =
        st.chats.map ChatSummary.resource := by
    intro st chat changes
    unfold sessionReducer
    dsimp only
    split
    · rfl
    · rename_i idx hidx
      exact (findBy_modify (f := fun c => applyChatSummaryChanges c changes) hidx
        (fun _ => rfl) chat).1
  have htitle : ∀ chat title, (m.updateChatTitle session chat title).sessionStates.get session =
      some entry' → entry'.state.chats.map ChatSummary.resource =
        entry.state.chats.map ChatSummary.resource := by
    intro chat title h
    unfold StateManager.updateChatTitle StateManager.dispatchSession at h
    rw [emit_sessionStates, get_applySession_session, if_pos rfl] at h
    obtain ⟨e, he, rfl⟩ := Option.map_eq_some_iff.mp h
    have heq : e = entry := by
      split at he
      · exact Option.some.inj (he.symm.trans hget)
      · exact Option.some.inj (he.symm.trans hget)
    rw [hreducer, heq]
  unfold StateManager.snapshotDefaultChatTitle at hget'
  dsimp only at hget'
  split at hget'
  · split at hget'
    · exact htitle _ _ hget'
    · cases hget.symm.trans hget'
      rfl
  · cases hget.symm.trans hget'
    rfl

theorem SoundWhen.registerRestoredChatSummary (h : m.SoundWhen own) (howns : own → Owns session chat)
    (options : ChatOptions) : (m.registerRestoredChatSummary session chat options).SoundWhen own := by
  unfold StateManager.registerRestoredChatSummary
  cases hget : m.sessionStates.get session with
  | none => exact h
  | some entry =>
    dsimp only
    split
    · exact h
    · rename_i hnew
      have hsnapshot := h.snapshotDefaultChatTitle session entry.state
      obtain ⟨e, he⟩ := snapshotDefaultChatTitle_get hget entry.state
      have hresources := snapshotDefaultChatTitle_resources hget entry.state he
      obtain ⟨s, hs⟩ : ∃ s, s = m.snapshotDefaultChatTitle session entry.state := ⟨_, rfl⟩
      rw [← hs] at hsnapshot he ⊢
      rw [he, Option.getD_some]
      generalize hsummary : newChatSummary session chat e options = summary
      have hresource : summary.resource = chat := by rw [← hsummary]; rfl
      have hchats : (e.state.chats ++ [summary]).map ChatSummary.resource =
          e.state.chats.map ChatSummary.resource ++ [chat] := by
        rw [map_append, map_cons, hresource]
        rfl
      refine ⟨Catalogued.setChat (hsnapshot.catalogued.setSession ?_) hresource
          (fun s hs => absurd hs (Option.some_ne_none s).symm),
        fun ho => Owned.setChat ((hsnapshot.owned ho).setSession ?_) (howns ho), fun ho => ?_⟩
      · rw [hchats, nodup_append]
        refine ⟨hsnapshot.catalogued.nodup session e he, nodup_singleton _, ?_⟩
        rintro x hx y hy rfl
        obtain rfl := mem_singleton.mp hy
        rw [hresources] at hx
        exact hnew hx
      · intro other hother
        have hother : other ∈ (e.state.chats ++ [summary]).map ChatSummary.resource := hother
        rw [hchats, mem_append] at hother
        rcases hother with hother | hother
        · exact (hsnapshot.owned ho).catalog session e he other hother
        · rw [mem_singleton.mp hother]
          exact howns ho
      · refine ListedBut.setChat ((hsnapshot.listed ho).setSession fun other hother => ?_) fun _ => ?_
        · obtain ⟨e', he', hmem⟩ := hother
          cases he.symm.trans he'
          rw [hchats, mem_append]
          exact .inl hmem
        · refine ⟨{ e with state := { e.state with chats := e.state.chats ++ [summary] } }, ?_, ?_⟩
          · rw [get_setSession, if_pos rfl]
          · rw [hchats, mem_append]
            exact .inr (mem_singleton.mpr rfl)

variable {chatEntries : Record Uri ChatEntry}

theorem Catalogued.deleteChats (h : m.Catalogued)
    (hsub : ∀ chat entry, chatEntries.get chat = some entry →
      m.chatEntries.get chat = some entry) : ({ m with chatEntries } : StateManager).Catalogued :=
  ⟨h.nodup, fun chat e he => h.summary chat e (hsub chat e he),
    fun chat e state he => h.state chat e state (hsub chat e he)⟩

theorem Owned.deleteChats (h : m.Owned) (hsub : ∀ chat entry, chatEntries.get chat = some entry →
      m.chatEntries.get chat = some entry) : ({ m with chatEntries } : StateManager).Owned :=
  ⟨h.catalog, fun chat e he => h.entries chat e (hsub chat e he)⟩

theorem ListedBut.deleteChats (h : m.ListedBut but)
    (hsub : ∀ chat entry, chatEntries.get chat = some entry → m.chatEntries.get chat = some entry) :
    ({ m with chatEntries } : StateManager).ListedBut but :=
  fun chat e he => h chat e (hsub chat e he)

theorem get_delete_some {entries : Record Uri ChatEntry} {deleted : Uri} {entry : ChatEntry}
    (h : (entries.delete deleted).get chat = some entry) :
    chat ≠ deleted ∧ entries.get chat = some entry := by
  rw [get_delete] at h
  obtain ⟨hne, h⟩ := Option.ite_none_left_eq_some.mp h
  exact ⟨Ne.symm hne, h⟩

theorem SoundWhen.removeChat (h : m.SoundWhen own) (session chat : Uri) : (m.removeChat session chat).SoundWhen own := by
  unfold StateManager.removeChat
  split
  · exact h
  · split
    · have hremoved := h.congr (removeChatActiveTurn_sameChats m session chat)
      refine SoundWhen.dispatchSession ?_ fun _ => trivial
      have hsub : ∀ other entry, ((m.removeChatActiveTurn session chat).chatEntries.delete
          chat).get other = some entry →
          (m.removeChatActiveTurn session chat).chatEntries.get other = some entry :=
        fun other entry he => (get_delete_some he).2
      exact ⟨hremoved.catalogued.deleteChats hsub, fun ho => (hremoved.owned ho).deleteChats hsub,
        fun ho => (hremoved.listed ho).deleteChats hsub⟩
    · exact h

theorem get_foldl_delete (chats : List Uri) (entries : Record Uri ChatEntry) {chat : Uri}
    {entry : ChatEntry}
    (h : (chats.foldl (fun entries chat => entries.delete chat) entries).get chat = some entry) :
    chat ∉ chats ∧ entries.get chat = some entry := by
  induction chats generalizing entries with
  | nil => exact ⟨not_mem_nil, h⟩
  | cons first rest ih =>
    obtain ⟨hrest, h⟩ := ih _ h
    obtain ⟨hne, h⟩ := get_delete_some h
    refine ⟨fun hmem => ?_, h⟩
    rcases mem_cons.mp hmem with hmem | hmem
    · exact hne hmem
    · exact hrest hmem

theorem SoundWhen.dropSession (h : m.SoundWhen own) (hget : m.sessionStates.get session = some entry) :
    ({ m with
      chatEntries := ((entry.state.chats.map (·.resource)).foldl
        (fun entries chat => entries.delete chat) m.chatEntries).delete
          (buildDefaultChatUri session)
      sessionStates := m.sessionStates.delete session } : StateManager).SoundWhen own := by
  have hchats : ∀ chat e, (((entry.state.chats.map (·.resource)).foldl
      (fun entries chat => entries.delete chat) m.chatEntries).delete
        (buildDefaultChatUri session)).get chat = some e →
      m.chatEntries.get chat = some e ∧ (own → e.session ≠ session) := by
    intro chat e he
    obtain ⟨hnot, hold⟩ := get_foldl_delete _ _ (get_delete_some he).2
    refine ⟨hold, ?_⟩
    rintro ho rfl
    obtain ⟨e', he', hmem⟩ := h.listed ho chat e hold nofun
    cases hget.symm.trans he'
    exact hnot hmem
  have hsessions : ∀ other e, (m.sessionStates.delete session).get other = some e →
      m.sessionStates.get other = some e := by
    intro other e he
    rw [get_delete] at he
    exact (Option.ite_none_left_eq_some.mp he).2
  refine ⟨⟨fun other e he => h.catalogued.nodup other e (hsessions other e he),
    fun chat e he => h.catalogued.summary chat e (hchats chat e he).1,
    fun chat e state he => h.catalogued.state chat e state (hchats chat e he).1⟩,
    fun ho => ⟨fun other e he => (h.owned ho).catalog other e (hsessions other e he),
      fun chat e he => (h.owned ho).entries chat e (hchats chat e he).1⟩, ?_⟩
  intro ho chat e he _
  obtain ⟨he, hne⟩ := hchats chat e he
  obtain ⟨old, hold, hmem⟩ := h.listed ho chat e he nofun
  refine ⟨old, ?_, hmem⟩
  rw [get_delete, if_neg (Ne.symm (hne ho))]
  exact hold

theorem SoundWhen.removeSession (h : m.SoundWhen own) (session : Uri) : (m.removeSession session).SoundWhen own := by
  unfold StateManager.removeSession
  cases hget : m.sessionStates.get session with
  | none => exact h
  | some entry =>
    dsimp only
    split
    · exact SoundWhen.dropSession (m := ({ m with
        sessionsWithActiveTurn := m.sessionsWithActiveTurn.delete session } :
          StateManager).dispatchActiveSessions) (h.congr ⟨rfl, rfl, rfl⟩) hget
    · exact h.dropSession hget

theorem SoundWhen.newSession (h : m.SoundWhen own) (hnone : m.sessionStates.get session = none)
    (entry : SessionEntry) (hchats : entry.state.chats = []) (summary : SessionSummary)
    (turns : List Turn) (draft : Option Message) (title : Option String) :
    ((m.setSession session entry).ensureDefaultChat session summary turns draft title).SoundWhen own := by
  have hfresh : ∀ chat e, m.chatEntries.get chat = some e → own → e.session ≠ session := by
    rintro chat e he ho rfl
    obtain ⟨old, hold, -⟩ := h.listed ho chat e he nofun
    rw [hnone] at hold
    cases hold
  unfold ensureDefaultChat
  dsimp only
  obtain ⟨chatSummary, hsummary⟩ : ∃ chatSummary : ChatSummary, chatSummary =
    { createDefaultChatSummary summary (buildDefaultChatUri session) with
      title := title.getD "" } := ⟨_, rfl⟩
  have hresource : chatSummary.resource = buildDefaultChatUri session := by rw [hsummary]; rfl
  rw [← hsummary]
  have hentry : ((m.setSession session entry).setChat (buildDefaultChatUri session)
      { session, summary := chatSummary
        state := some { createChatState chatSummary with turns, draft } }).sessionStates.get
          session = some entry := by
    show (m.setSession session entry).sessionStates.get session = _
    rw [get_setSession, if_pos rfl]
  rw [hentry]
  have hc : (m.setSession session entry).Catalogued :=
    h.catalogued.setSession (by rw [hchats]; exact nodup_nil)
  have ho : own → (m.setSession session entry).Owned :=
    fun ho => (h.owned ho).setSession (by rw [hchats]; nofun)
  refine ⟨Catalogued.setSession (hc.setChat hresource ?_) (nodup_singleton _),
    fun h => Owned.setSession ((ho h).setChat (owns_default session)) ?_, ?_⟩
  · rintro st hst
    cases hst
    exact hresource
  · intro chat hchat
    obtain rfl := mem_singleton.mp hchat
    rw [hresource]
    exact owns_default session
  · intro ho chat e he _
    have he : ((m.setSession session entry).setChat (buildDefaultChatUri session)
        { session, summary := chatSummary
          state := some { createChatState chatSummary with turns, draft } }).chatEntries.get chat =
        some e := he
    rw [get_setChat] at he
    split at he
    · rename_i heq
      cases he
      refine ⟨_, by rw [get_setSession, if_pos rfl], ?_⟩
      refine mem_singleton.mpr ?_
      rw [← heq]
      exact hresource.symm
    · have hne := hfresh chat e he ho
      obtain ⟨old, hold, hmem⟩ := h.listed ho chat e he nofun
      refine ⟨old, ?_, hmem⟩
      rw [get_setSession, if_neg (Ne.symm hne)]
      show (m.setSession session entry).sessionStates.get e.session = some old
      rw [get_setSession, if_neg (Ne.symm hne)]
      exact hold

/-! ## Every event -/

/-- No step brings a chat of one session into the catalog of another. -/
def OwnEvent : HostEvent → Prop
  | .dispatch session (.session action) _ => OwnAction session action
  | .perform (.addChat session chat _ _) => Owns session chat
  | .perform (.registerRestoredChatSummary session chat _) => Owns session chat
  | _ => True

theorem rootReducer_activeSessions (state : RootState) {action : RootAction}
    (h : ∀ n, action ≠ .activeSessionsChanged n) :
    (rootReducer state action).activeSessions = state.activeSessions := by
  unfold rootReducer
  split
  · rfl
  · rename_i n
    exact absurd rfl (h n)
  · rfl
  · split
    · rfl
    · rfl

inductive After (m : StateManager) : HostEvent → StateManager → Prop where
  | aside {e : HostEvent} {m' : StateManager} (h : SameChats m m')
      (hactive : m'.sessionsWithActiveTurn = m.sessionsWithActiveTurn)
      (hcount : (∀ channel n origin, e = .dispatch channel (.root (.activeSessionsChanged n)) origin →
        m.rootState.activeSessions = some n) →
          m'.rootState.activeSessions = m.rootState.activeSessions) : After m e m'
  | session {session : Uri} {action : SessionAction} {origin : Option ActionOrigin} :
      After m (.dispatch session (.session action) origin)
        ((m.applySession session action).emit session (.session action) origin none)
  | chat {owner : Uri} {chatId : String} {action : ChatAction} {origin : Option ActionOrigin} :
      After m (.dispatch (.chat owner chatId) (.chat action) origin)
        ((m.applyChat owner (.chat owner chatId) action).emit (.chat owner chatId) (.chat action)
          origin none)
  | createSession {summary : SessionSummary} (hnone : m.sessionStates.get summary.resource = none) :
      After m (.perform (.createSession summary)) ((m.setSession summary.resource
        { state := createSessionState summary, modifiedAt := summary.modifiedAt }).ensureDefaultChat
          summary.resource summary [] none none)
  | restoreSession {summary : SessionSummary} {turns : List Turn} {draft : Option Message}
      {title : Option String} (hnone : m.sessionStates.get summary.resource = none) :
      After m (.perform (.restoreSession summary turns draft title)) ((m.setSession summary.resource
        { state := { createSessionState summary with lifecycle := .ready }
          modifiedAt := summary.modifiedAt }).ensureDefaultChat summary.resource summary turns draft
            title)
  | addChat {session chat : Uri} {options : ChatOptions} {turns : List Turn} :
      After m (.perform (.addChat session chat options turns)) (m.addChat session chat options turns)
  | registerRestoredChatSummary {session chat : Uri} {options : ChatOptions} :
      After m (.perform (.registerRestoredChatSummary session chat options))
        (m.registerRestoredChatSummary session chat options)
  | resolveChatState {chat : Uri} {turns : List Turn} {draft : Option Message} :
      After m (.perform (.resolveChatState chat turns draft)) (m.resolveChatState chat turns draft)
  | removeChat {session chat : Uri} :
      After m (.perform (.removeChat session chat)) (m.removeChat session chat)
  | removeSession {session : Uri} :
      After m (.perform (.removeSession session)) (m.removeSession session)
  | updateChatTitle {session chat : Uri} {title : String} :
      After m (.perform (.updateChatTitle session chat title)) (m.updateChatTitle session chat title)
  | patchSession {session : Uri} {config : Option SessionConfigState}
      {customizations : Option (List Customization)} {project : Option Payload}
      {workingDirectories : Option (List Uri)} {modifiedAt : Timestamp} :
      After m (.perform (.patchSession session config customizations project workingDirectories
        modifiedAt)) (m.patchSession session config customizations project workingDirectories
          modifiedAt)
  | seedDefaultChatTurns {session : Uri} {turns : List Turn} :
      After m (.perform (.seedDefaultChatTurns session turns)) (m.seedDefaultChatTurns session turns)

theorem after_cases (m : StateManager) (e : HostEvent) : After m e (m.after e) := by
  have hsame : SameChats m m := ⟨rfl, rfl, rfl⟩
  cases e with
  | dispatch channel action origin =>
    show After m _ (m.applyAndEmit channel action origin)
    unfold applyAndEmit
    cases action with
    | root a =>
      dsimp only
      split
      · exact .aside hsame rfl fun _ => rfl
      · refine .aside ⟨rfl, rfl, rfl⟩ rfl fun hroot => ?_
        cases a with
        | activeSessionsChanged n => exact (hroot channel n origin rfl).symm
        | configChanged config replace =>
          refine rootReducer_activeSessions _ fun n => ?_
          cases replace with
          | true | false => rintro ⟨⟩
        | _ =>
          refine rootReducer_activeSessions _ ?_
          rintro n ⟨⟩
    | session a => exact .session
    | chat a =>
      cases channel with
      | chat owner chatId => exact .chat
      | _ => exact .aside hsame rfl fun _ => rfl
    | changeset a =>
      dsimp only
      split
      · exact .aside hsame rfl fun _ => rfl
      · exact .aside ⟨rfl, rfl, rfl⟩ rfl fun _ => rfl
    | _ => exact .aside ⟨rfl, rfl, rfl⟩ rfl fun _ => rfl
  | perform operation =>
    cases operation with
    | createSession summary =>
      show After m _ (m.createSession summary)
      unfold createSession
      dsimp only
      split
      · exact .aside hsame rfl fun _ => rfl
      · rename_i hnone
        exact .createSession hnone
    | restoreSession summary turns draft title =>
      show After m _ (m.restoreSession summary turns draft title)
      unfold restoreSession
      dsimp only
      split
      · exact .aside hsame rfl fun _ => rfl
      · rename_i hnone
        exact .restoreSession hnone
    | addChat session chat options turns => exact .addChat
    | registerRestoredChatSummary session chat options => exact .registerRestoredChatSummary
    | resolveChatState chat turns draft => exact .resolveChatState
    | removeChat session chat => exact .removeChat
    | removeSession session => exact .removeSession
    | updateChatTitle session chat title => exact .updateChatTitle
    | patchSession session config customizations project workingDirectories modifiedAt =>
      exact .patchSession
    | seedDefaultChatTurns session turns => exact .seedDefaultChatTurns
    | registerChangeset changeset status =>
      show After m _ (m.registerChangeset changeset status)
      unfold registerChangeset
      split
      · exact .aside hsame rfl fun _ => rfl
      · exact .aside ⟨rfl, rfl, rfl⟩ rfl fun _ => rfl
    | evictChangeset changeset => exact .aside ⟨rfl, rfl, rfl⟩ rfl fun _ => rfl
    | disposeChangeset changeset =>
      show After m _ (m.disposeChangeset changeset)
      unfold disposeChangeset applyAndEmit
      split
      · exact .aside hsame rfl fun _ => rfl
      · exact .aside ⟨rfl, rfl, rfl⟩ rfl fun _ => rfl
    | setAnnotations resource state =>
      cases state with
      | some state | none => exact .aside ⟨rfl, rfl, rfl⟩ rfl fun _ => rfl

theorem resolveChatState_sessionStates (m : StateManager) (chat : Uri) (turns : List Turn)
    (draft : Option Message) :
    (m.resolveChatState chat turns draft).sessionStates = m.sessionStates := by
  unfold resolveChatState
  split
  · rfl
  · split
    · rfl
    · rfl

theorem seedDefaultChatTurns_sessionStates (m : StateManager) (session : Uri) (turns : List Turn) :
    (m.seedDefaultChatTurns session turns).sessionStates = m.sessionStates := by
  unfold seedDefaultChatTurns
  dsimp only
  split
  · rfl
  · rfl

theorem SoundWhen.after (h : m.SoundWhen own) {event : HostEvent} (hown : own → OwnEvent event) :
    (m.after event).SoundWhen own := by
  have hafter := after_cases m event
  generalize m.after event = m' at hafter ⊢
  cases hafter with
  | aside hsame => exact h.congr hsame
  | session => exact (h.applySession hown).congr (sameChats_emit _ _ _ _ _)
  | chat => exact (h.applyChat _ _ _).congr (sameChats_emit _ _ _ _ _)
  | createSession hnone | restoreSession hnone => exact h.newSession hnone _ rfl _ _ _ _
  | addChat => exact h.addChat hown _ _
  | registerRestoredChatSummary => exact h.registerRestoredChatSummary hown _
  | resolveChatState => exact h.resolveChatState _ _ _
  | removeChat => exact h.removeChat _ _
  | removeSession => exact h.removeSession _
  | updateChatTitle => exact h.updateChatTitle _ _ _
  | patchSession => exact h.patchSession _ _ _ _ _ _
  | seedDefaultChatTurns => exact h.seedDefaultChatTurns _ _

theorem Sound.setState (h : m.Sound) {chat : Uri} {entry : ChatEntry}
    (hget : m.chatEntries.get chat = some entry) {state : Option ChatState}
    (hstate : ∀ s, state = some s → s.resource = chat) :
    (m.setChat chat { entry with state }).Sound :=
  SoundWhen.sound (h.soundWhen.setState hget hstate) trivial

theorem Sound.forwardStatus (h : m.Sound) (session chat : Uri) (entry : SessionEntry)
    (nextEntry : ChatSummary) : (m.forwardStatus session chat entry nextEntry).Sound :=
  SoundWhen.sound (h.soundWhen.forwardStatus session chat entry nextEntry) trivial

theorem Sound.snapshotDefaultChatTitle (h : m.Sound) (session : Uri) (state : SessionState) :
    (m.snapshotDefaultChatTitle session state).Sound :=
  SoundWhen.sound (h.soundWhen.snapshotDefaultChatTitle session state) trivial

theorem Sound.newChat (h : m.Sound) {session chat : Uri} {entry : ChatEntry}
    (howns : Owns session chat) (hsession : entry.session = session)
    (hsummary : entry.summary.resource = chat)
    (hstate : ∀ s, entry.state = some s → s.resource = chat) :
    (m.setChat chat entry).Catalogued ∧ (m.setChat chat entry).Owned ∧
      (m.setChat chat entry).ListedBut (some session) := by
  obtain ⟨hc, ho, hl⟩ := @SoundWhen.newChat m True h.soundWhen session chat entry
    (fun _ => howns) hsession hsummary hstate
  exact ⟨hc, ho trivial, hl trivial⟩

theorem Sound.after (h : m.Sound) {event : HostEvent} (hown : OwnEvent event) :
    (m.after event).Sound := SoundWhen.sound (h.soundWhen.after fun _ => hown) trivial

theorem sound_created (h : m.Created) : m.Sound := by
  obtain ⟨rootState, approve, keys, -, rfl⟩ := h
  have hsessions : ∀ session entry, (StateManager.create rootState approve keys).sessionStates.get
      session ≠ some entry := fun _ entry he => absurd he (Option.some_ne_none entry).symm
  have hchats : ∀ chat entry, (StateManager.create rootState approve keys).chatEntries.get chat ≠
      some entry := fun _ entry he => absurd he (Option.some_ne_none entry).symm
  exact ⟨⟨fun s e he => absurd he (hsessions s e), fun c e he => absurd he (hchats c e),
      fun c e _ he => absurd he (hchats c e)⟩,
    ⟨fun s e he => absurd he (hsessions s e), fun c e he => absurd he (hchats c e)⟩,
    fun c e he => absurd he (hchats c e)⟩

/-! ## Catalogs in every run -/

theorem Catalogued.setState (h : m.Catalogued) {chat : Uri} {entry : ChatEntry}
    (hget : m.chatEntries.get chat = some entry) {state : Option ChatState}
    (hstate : ∀ s, state = some s → s.resource = chat) :
    (m.setChat chat { entry with state }).Catalogued :=
  h.setChat (h.summary chat entry hget) hstate

theorem Catalogued.snapshotDefaultChatTitle (h : m.Catalogued) (session : Uri)
    (state : SessionState) : (m.snapshotDefaultChatTitle session state).Catalogued :=
  (h.soundWhen.snapshotDefaultChatTitle session state).catalogued

theorem Catalogued.after (h : m.Catalogued) (event : HostEvent) : (m.after event).Catalogued :=
  (h.soundWhen.after nofun).catalogued

theorem catalogued_of_reachable (h : managing.Reachable m) : m.Catalogued := by
  refine System.ReachableVia.invariant ?_ ?_ h
  · exact fun s hs => (sound_created hs).catalogued
  · intro s event s' hs _ hstep
    cases Option.some.inj hstep
    exact hs.after event

end StateManager

end Fumie.AgentHost
