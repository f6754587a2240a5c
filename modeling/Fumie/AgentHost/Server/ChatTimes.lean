import Fumie.AgentHost.Server.Coherence

/-!
# Times of chats and sessions

The time of a session is the latest of its chats, computed anew by every chat action. It
never moves back while no catalog entry does and while some listed chat is as recent as the
session (`Recent`): the chat that made it so may be removed.

Together with coherence: the times of the chat states do not move back either.
-/

namespace Fumie.AgentHost

open Fumie.Lib List Option

def latest (chats : List ChatSummary) : Timestamp :=
  chats.foldl (fun latest c => max latest c.modifiedAt) 0

theorem le_foldl_max_iff (chats : List ChatSummary) (t init : Timestamp) :
    t ≤ chats.foldl (fun latest c => max latest c.modifiedAt) init ↔
      t ≤ init ∨ ∃ c ∈ chats, t ≤ c.modifiedAt := by
  induction chats generalizing init with
  | nil =>
    constructor
    · exact .inl
    · rintro (h | ⟨c, hc, -⟩)
      · exact h
      · cases hc
  | cons first rest ih =>
    rw [foldl_cons, ih, le_max_iff]
    constructor
    · rintro ((h | h) | ⟨c, hc, h⟩)
      · exact .inl h
      · exact .inr ⟨first, mem_cons_self, h⟩
      · exact .inr ⟨c, mem_cons_of_mem _ hc, h⟩
    · rintro (h | ⟨c, hc, h⟩)
      · exact .inl (.inl h)
      · rcases mem_cons.mp hc with rfl | hc
        · exact .inl (.inr h)
        · exact .inr ⟨c, hc, h⟩

variable {chats : List ChatSummary} {event : HostEvent}

theorem le_latest_iff {t : Timestamp} :
    t ≤ latest chats ↔ t ≤ 0 ∨ ∃ c ∈ chats, t ≤ c.modifiedAt := le_foldl_max_iff chats t 0

namespace SessionEntry

def Recent (entry : SessionEntry) : Prop := entry.modifiedAt ≤ latest entry.state.chats

structure NoOlder (entry entry' : SessionEntry) : Prop where
  session : entry.modifiedAt ≤ entry'.modifiedAt
  chats : ∀ chat old new, findBy ChatSummary.resource entry.state.chats chat = some old →
    findBy ChatSummary.resource entry'.state.chats chat = some new → old.modifiedAt ≤ new.modifiedAt

structure Grows (entry entry' : SessionEntry) : Prop where
  session : entry'.modifiedAt = entry.modifiedAt
  chats : ∀ chat old, findBy ChatSummary.resource entry.state.chats chat = some old →
    ∃ new, findBy ChatSummary.resource entry'.state.chats chat = some new ∧
      old.modifiedAt ≤ new.modifiedAt

variable {entry entry' entry'' : SessionEntry}

theorem Grows.refl (entry : SessionEntry) : Grows entry entry :=
  ⟨rfl, fun _ old h => ⟨old, h, le_refl _⟩⟩

theorem Grows.trans (h : Grows entry entry') (h' : Grows entry' entry'') : Grows entry entry'' := by
  refine ⟨h'.session.trans h.session, fun chat old hold => ?_⟩
  obtain ⟨new, hnew, hle⟩ := h.chats chat old hold
  obtain ⟨newer, hnewer, hle'⟩ := h'.chats chat new hnew
  exact ⟨newer, hnewer, hle.trans hle'⟩

theorem Grows.noOlder (h : Grows entry entry') : NoOlder entry entry' := by
  refine ⟨h.session.ge, fun chat old new hold hnew => ?_⟩
  obtain ⟨new', hnew', hle⟩ := h.chats chat old hold
  cases hnew.symm.trans hnew'
  exact hle

theorem Recent.grows (h : entry.Recent) (hgrows : Grows entry entry')
    (hnodup : (entry.state.chats.map ChatSummary.resource).Nodup) : entry'.Recent := by
  unfold Recent at h ⊢
  rw [hgrows.session, le_latest_iff]
  rcases le_latest_iff.mp h with hzero | ⟨c, hc, hle⟩
  · exact .inl hzero
  · obtain ⟨new, hnew, hle'⟩ := hgrows.chats c.resource c (findBy_of_mem hnodup hc)
    exact .inr ⟨new, (findBy_some hnew).1, hle.trans hle'⟩

end SessionEntry

namespace StateManager

def Recent (m : StateManager) : Prop :=
  ∀ session entry, m.sessionStates.get session = some entry → entry.Recent

def Grows (m m' : StateManager) : Prop :=
  ∀ session entry', m'.sessionStates.get session = some entry' →
    ∃ entry, m.sessionStates.get session = some entry ∧ entry.Grows entry'

/-- Every session is recent and has no earlier time. -/
def Timely (m m' : StateManager) : Prop :=
  ∀ session entry', m'.sessionStates.get session = some entry' →
    entry'.Recent ∧ ∀ entry, m.sessionStates.get session = some entry → entry.NoOlder entry'

variable {m m' m'' : StateManager}

theorem Grows.of_same (h : m'.sessionStates = m.sessionStates) : m.Grows m' := by
  intro session entry' hget
  exact ⟨entry', h ▸ hget, .refl entry'⟩

theorem Grows.trans (h : m.Grows m') (h' : m'.Grows m'') : m.Grows m'' := by
  intro session entry'' hget
  obtain ⟨entry', hget', hgrows'⟩ := h' session entry'' hget
  obtain ⟨entry, hget, hgrows⟩ := h session entry' hget'
  exact ⟨entry, hget, hgrows.trans hgrows'⟩

theorem Grows.timely (h : m.Grows m') (hc : m.Catalogued) (hrecent : m.Recent) : m.Timely m' := by
  intro session entry' hget'
  obtain ⟨entry, hget, hgrows⟩ := h session entry' hget'
  refine ⟨(hrecent session entry hget).grows hgrows (hc.nodup session entry hget),
    fun old hold => ?_⟩
  cases hget.symm.trans hold
  exact hgrows.noOlder

/-! ## A session action -/

def KeepsTime (m : StateManager) (session : Uri) : SessionAction → Prop
  | .chatAdded summary => ∀ entry old, m.sessionStates.get session = some entry →
    findBy ChatSummary.resource entry.state.chats summary.resource = some old →
      old.modifiedAt ≤ summary.modifiedAt
  | .chatUpdated chat changes => ∀ entry old t, m.sessionStates.get session = some entry →
    findBy ChatSummary.resource entry.state.chats chat = some old →
      changes.modifiedAt = some t → old.modifiedAt ≤ t
  | .chatRemoved chat => ∀ entry, m.sessionStates.get session = some entry →
    entry.modifiedAt ≤ latest (entry.state.chats.filter fun c => c.resource ≠ chat)
  | _ => True

variable {session : Uri} {chat : Uri}

theorem KeepsTime.chatEdit {action : SessionAction} (h : m.KeepsTime session action)
    {entry : SessionEntry} (hget : m.sessionStates.get session = some entry) {old new : ChatSummary}
    (hold : findBy ChatSummary.resource entry.state.chats chat = some old)
    (hedit : chatEdit action chat (some old) = some new) : old.modifiedAt ≤ new.modifiedAt := by
  unfold Fumie.AgentHost.chatEdit at hedit
  split at hedit
  · split at hedit
    · rename_i heq
      cases hedit
      exact h entry old hget (heq ▸ hold)
    · exact (Option.some.inj hedit ▸ le_refl _)
  · split at hedit
    · cases hedit
    · exact (Option.some.inj hedit ▸ le_refl _)
  · rename_i updated changes
    split at hedit
    · rename_i heq
      cases hedit
      show old.modifiedAt ≤ changes.modifiedAt.getD old.modifiedAt
      cases htime : changes.modifiedAt with
      | none => exact le_refl _
      | some t => exact h entry old t hget (heq ▸ hold) htime
    · exact (Option.some.inj hedit ▸ le_refl _)
  · exact (Option.some.inj hedit ▸ le_refl _)

theorem grows_applySession (hc : m.Catalogued) {session : Uri} {action : SessionAction}
    (h : m.KeepsTime session action) (hremoved : ∀ chat, action ≠ .chatRemoved chat) :
    m.Grows (m.applySession session action) := by
  intro other entry' hget'
  rw [get_applySession_session] at hget'
  split at hget'
  · rename_i heq
    subst heq
    obtain ⟨entry, hget, rfl⟩ := map_eq_some_iff.mp hget'
    refine ⟨entry, hget, rfl, fun chat old hold => ?_⟩
    have hfind := (sessionReducer_chats action (hc.nodup session entry hget)).2 chat
    rw [hold] at hfind
    obtain ⟨new, hnew⟩ : ∃ new, chatEdit action chat (some old) = some new := by
      unfold Fumie.AgentHost.chatEdit
      split
      · split
        · exact ⟨_, rfl⟩
        · exact ⟨_, rfl⟩
      · rename_i removed
        exact absurd rfl (hremoved removed)
      · split
        · exact ⟨_, rfl⟩
        · exact ⟨_, rfl⟩
      · exact ⟨_, rfl⟩
    exact ⟨new, hfind.trans hnew, h.chatEdit hget hold hnew⟩
  · exact ⟨entry', hget', .refl entry'⟩

theorem timely_applySession (hc : m.Catalogued) (hrecent : m.Recent) {session : Uri}
    {action : SessionAction} (h : m.KeepsTime session action) :
    m.Timely (m.applySession session action) := by
  by_cases hremoved : ∀ chat, action ≠ .chatRemoved chat
  · exact (grows_applySession hc h hremoved).timely hc hrecent
  · obtain ⟨removed, haction⟩ := not_forall.mp hremoved
    obtain rfl := not_not.mp haction
    intro other entry' hget'
    rw [get_applySession_session] at hget'
    split at hget'
    · rename_i heq
      subst heq
      obtain ⟨entry, hget, rfl⟩ := map_eq_some_iff.mp hget'
      have hnodup := hc.nodup session entry hget
      have hfind := (sessionReducer_chats (.chatRemoved removed) hnodup).2
      refine ⟨?_, fun old hold => ?_⟩
      · refine le_latest_iff.mpr ?_
        rcases le_latest_iff.mp (h entry hget) with hzero | ⟨c, hmem, hle⟩
        · exact .inl hzero
        · obtain ⟨hmem, hne⟩ := mem_filter.mp hmem
          have hne : removed ≠ c.resource := Ne.symm (by simpa using hne)
          have hkept := hfind c.resource
          rw [findBy_of_mem hnodup hmem] at hkept
          have hkept := hkept.trans (if_neg hne)
          exact .inr ⟨c, (findBy_some hkept).1, hle⟩
      · cases hget.symm.trans hold
        refine ⟨le_refl _, fun chat before after hbefore hafter => ?_⟩
        rw [hfind, hbefore] at hafter
        exact h.chatEdit hget hbefore hafter
    · exact ⟨hrecent other entry' hget', fun old hold => by
        cases hget'.symm.trans hold
        exact (SessionEntry.Grows.refl entry').noOlder⟩

/-! ## A chat action -/

theorem aggregate_modifiedAt (h : chats ≠ []) (defaultChat : Option Uri) :
    (aggregateChatSummaries chats defaultChat).modifiedAt = some (latest chats) := by
  cases chats with
  | nil => exact absurd rfl h
  | cons first rest => rfl

theorem noOlder_mirrorChat {entry : SessionEntry} (hrecent : entry.Recent)
    (hnodup : (entry.state.chats.map ChatSummary.resource).Nodup) {chat : Uri}
    {nextEntry : ChatSummary} (hresource : nextEntry.resource = chat)
    (h : ∀ old, findBy ChatSummary.resource entry.state.chats chat = some old →
      old.modifiedAt ≤ nextEntry.modifiedAt) :
    (mirrorChat entry chat nextEntry).Recent ∧ entry.NoOlder (mirrorChat entry chat nextEntry) := by
  have hfind := findBy_mirrorChat entry hresource
  have hgrows : ∀ other old, findBy ChatSummary.resource entry.state.chats other = some old →
      ∃ new, findBy ChatSummary.resource (mirrorChat entry chat nextEntry).state.chats other =
        some new ∧ old.modifiedAt ≤ new.modifiedAt := by
    intro other old hold
    refine ⟨_, by rw [hfind, hold]; rfl, ?_⟩
    dsimp only
    split
    · rename_i hc
      refine h old ?_
      rw [← hc, (findBy_some hold).2]
      exact hold
    · exact le_refl _
  have htime : entry.modifiedAt ≤ (mirrorChat entry chat nextEntry).modifiedAt ∧
      (mirrorChat entry chat nextEntry).Recent := by
    have hle : entry.modifiedAt ≤ latest (mirrorChat entry chat nextEntry).state.chats := by
      rw [le_latest_iff]
      rcases le_latest_iff.mp hrecent with hzero | ⟨c, hc, hle⟩
      · exact .inl hzero
      · obtain ⟨new, hnew, hle'⟩ := hgrows c.resource c (findBy_of_mem hnodup hc)
        exact .inr ⟨new, (findBy_some hnew).1, hle.trans hle'⟩
    by_cases hempty : (mirrorChat entry chat nextEntry).state.chats = []
    · have hsame : (mirrorChat entry chat nextEntry).modifiedAt = entry.modifiedAt := by
        show (aggregateChatSummaries (mirrorChat entry chat nextEntry).state.chats
          entry.state.defaultChat).modifiedAt.getD entry.modifiedAt = _
        rw [hempty]
        rfl
      unfold SessionEntry.Recent
      rw [hsame]
      exact ⟨le_refl _, hle⟩
    · have hlatest : (mirrorChat entry chat nextEntry).modifiedAt =
          latest (mirrorChat entry chat nextEntry).state.chats := by
        show (aggregateChatSummaries (mirrorChat entry chat nextEntry).state.chats
          entry.state.defaultChat).modifiedAt.getD entry.modifiedAt = _
        rw [aggregate_modifiedAt hempty]
        rfl
      exact ⟨hlatest ▸ hle, hlatest.le⟩
  refine ⟨htime.2, htime.1, fun other old new hold hnew => ?_⟩
  obtain ⟨new', hnew', hle⟩ := hgrows other old hold
  cases hnew.symm.trans hnew'
  exact hle

theorem timely_onChatStateChanged (hc : m.Catalogued) (hrecent : m.Recent) {session chat : Uri}
    (prev : ChatState) {next : ChatState} (hresource : next.resource = chat)
    (h : ∀ entry old, m.sessionStates.get session = some entry →
      findBy ChatSummary.resource entry.state.chats chat = some old →
        old.modifiedAt ≤ next.modifiedAt) :
    m.Timely (m.onChatStateChanged session chat prev next) := by
  have hkept : ∀ other entry', m.sessionStates.get other = some entry' →
      entry'.Recent ∧ ∀ entry, m.sessionStates.get other = some entry → entry.NoOlder entry' := by
    intro other entry' hget'
    refine ⟨hrecent other entry' hget', fun entry hget => ?_⟩
    cases hget.symm.trans hget'
    exact (SessionEntry.Grows.refl entry').noOlder
  cases hget : m.sessionStates.get session with
  | none =>
    rw [onChatStateChanged_of_none hget]
    intro other entry' hget'
    rw [(trackActiveTurn_sameChats m session chat _ _).sessionStates] at hget'
    exact hkept other entry' hget'
  | some entry =>
    have hspec := onChatStateChanged_spec hget chat prev next
    intro other entry' hget'
    rw [hspec.chats.sessionStates, get_setSession] at hget'
    split at hget'
    · rename_i heq
      subst heq
      cases hget'
      obtain ⟨hrecent', hno⟩ := @noOlder_mirrorChat entry (hrecent session entry hget)
        (hc.nodup session entry hget) chat (m.chatSummaryFromState next) hresource
        fun old hold => h entry old hget hold
      refine ⟨hrecent', fun old hold => ?_⟩
      cases hget.symm.trans hold
      exact hno
    · rename_i hne
      rw [get_forwardStatus_session m entry _ hne] at hget'
      exact hkept other entry' hget'

theorem timely_applyChat (hsound : m.Sound) (hcoherent : m.Coherent) (hrecent : m.Recent)
    (howns : Owns session chat) {action : ChatAction}
    (h : ∀ prev t, m.getChatState chat = some prev → action.timestamp? prev = some t →
      prev.modifiedAt ≤ t) : m.Timely (m.applyChat session chat action) := by
  have hsame : ∀ k : StateManager, k.sessionStates = m.sessionStates → m.Timely k :=
    fun k hk => (Grows.of_same hk).timely hsound.catalogued hrecent
  unfold StateManager.applyChat
  cases hget : m.chatEntries.get chat with
  | none => exact hsame m rfl
  | some entry =>
    dsimp only
    split
    · exact hsame m rfl
    · rename_i prev hprev
      have hdated := chatReducer_dated prev action
      have hresource : (chatReducer prev action).resource = chat :=
        hdated.resource.trans (hsound.catalogued.state chat entry prev hget hprev)
      have hc : (m.setChat chat { entry with
          state := some (chatReducer prev action) }).Catalogued := by
        refine hsound.catalogued.setState hget ?_
        rintro s hs
        cases hs
        exact hresource
      have hset : (m.setChat chat { entry with
          state := some (chatReducer prev action) }).Recent := hrecent
      have hstate : m.getChatState chat = some prev := by
        unfold getChatState
        rw [hget]
        exact hprev
      have htimely := @timely_onChatStateChanged _ hc hset session chat prev _ hresource
        fun e old he hold => ?_
      · exact htimely
      · have hat := hcoherent chat entry hget e
          (by rw [(hsound.owned.entries chat entry hget).unique howns]; exact he)
        rw [hold] at hat
        have hold : old = m.chatSummaryFromState prev := by
          unfold entrySummary at hat
          rw [hprev] at hat
          exact Option.some.inj hat
        rw [hold, hdated.modifiedAt]
        cases htime : action.timestamp? prev with
        | none => exact le_refl _
        | some t => exact h prev t hstate htime

/-! ## Operations -/

theorem grows_updateChatTitle (hc : m.Catalogued) (session chat : Uri) (title : String) :
    m.Grows (m.updateChatTitle session chat title) := by
  have htitle : ∀ k : StateManager, k.sessionStates = m.sessionStates → k.Catalogued →
      ∀ changes : ChatSummaryChanges, changes.modifiedAt = none →
        m.Grows (k.dispatchSession session (.chatUpdated chat changes)) := by
    intro k hk hck changes hnone
    refine (Grows.of_same hk).trans (Grows.trans
      (@grows_applySession k hck session (.chatUpdated chat changes) ?_
        (by rintro c ⟨⟩)) (.of_same (emit_sessionStates _ _ _ _)))
    intro entry old t _ _ ht
    rw [hnone] at ht
    cases ht
  unfold StateManager.updateChatTitle
  cases hget : m.chatEntries.get chat with
  | none => exact htitle m rfl hc _ rfl
  | some entry =>
    refine htitle (m.setChat chat { entry with
      state := entry.state.map fun (state : ChatState) => { state with title := title } }) rfl
        (hc.setState hget fun s hs => ?_) _ rfl
    obtain ⟨state, hstate, heq⟩ := map_eq_some_iff.mp hs
    rw [← heq]
    exact hc.state chat entry state hget hstate

theorem grows_snapshotDefaultChatTitle (hc : m.Catalogued) (session : Uri) (state : SessionState) :
    m.Grows (m.snapshotDefaultChatTitle session state) := by
  unfold StateManager.snapshotDefaultChatTitle
  dsimp only
  split
  · split
    · exact grows_updateChatTitle hc _ _ _
    · exact .of_same rfl
  · exact .of_same rfl

theorem grows_addChat (hc : m.Catalogued) (session chat : Uri) (options : ChatOptions)
    (turns : List Turn) : m.Grows (m.addChat session chat options turns) := by
  unfold StateManager.addChat
  cases hget : m.sessionStates.get session with
  | none => exact .of_same rfl
  | some entry =>
    dsimp only
    split
    · exact .of_same rfl
    · rename_i hnew
      have hsnapshot := hc.snapshotDefaultChatTitle session entry.state
      have hgrows := grows_snapshotDefaultChatTitle hc session entry.state
      have hresources := fun e he => @snapshotDefaultChatTitle_resources m session entry e hget
        entry.state he
      generalize m.snapshotDefaultChatTitle session entry.state = s at hsnapshot hgrows hresources ⊢
      obtain ⟨summary, hsummary⟩ : ∃ summary, summary = newChatSummary session chat
        ((s.sessionStates.get session).getD entry) options := ⟨_, rfl⟩
      have hresource : summary.resource = chat := by rw [hsummary]; rfl
      rw [← hsummary]
      have hcset : (s.setChat chat
          { session, summary, state := some { createChatState summary with turns } }).Catalogued := by
        refine hsnapshot.setChat hresource ?_
        rintro st hst
        cases hst
        exact hresource
      refine hgrows.trans (Grows.trans (@grows_applySession _ hcset session
        (.chatAdded summary) ?_ (by rintro c ⟨⟩)) (.of_same (emit_sessionStates _ _ _ _)))
      intro e old he hold
      have hlisted := findBy_isSome_iff.mp (by rw [hold]; rfl)
      rw [hresources e he, hresource] at hlisted
      exact absurd hlisted hnew

theorem grows_registerRestoredChatSummary (hc : m.Catalogued) (session chat : Uri)
    (options : ChatOptions) : m.Grows (m.registerRestoredChatSummary session chat options) := by
  unfold StateManager.registerRestoredChatSummary
  cases hget : m.sessionStates.get session with
  | none => exact .of_same rfl
  | some entry =>
    dsimp only
    split
    · exact .of_same rfl
    · have hgrows := grows_snapshotDefaultChatTitle hc session entry.state
      obtain ⟨e, he⟩ := snapshotDefaultChatTitle_get hget entry.state
      rw [he, getD_some]
      refine hgrows.trans fun other entry' hget' => ?_
      have hset : ((m.snapshotDefaultChatTitle session entry.state).setSession session
          { e with state := { e.state with chats := e.state.chats ++
            [newChatSummary session chat e options] } }).sessionStates.get other =
              some entry' := hget'
      rw [get_setSession] at hset
      split at hset
      · rename_i heq
        subst heq
        cases hset
        refine ⟨e, he, rfl, fun c old hold => ⟨old, ?_, le_refl _⟩⟩
        show (e.state.chats ++ _).find? (fun x => x.resource = c) = some old
        rw [find?_append]
        exact congrArg (Option.or · _) hold
      · exact ⟨entry', hset, .refl entry'⟩

theorem timely_removeChat (hc : m.Catalogued) (hrecent : m.Recent)
    (h : ∀ entry, m.sessionStates.get session = some entry →
      ¬(some chat = entry.state.defaultChat ∨ isDefaultChatUri chat) →
        m.KeepsTime session (.chatRemoved chat)) : m.Timely (m.removeChat session chat) := by
  unfold StateManager.removeChat
  cases hget : m.sessionStates.get session with
  | none => exact (Grows.of_same rfl).timely hc hrecent
  | some entry =>
    dsimp only
    split
    · rename_i hand
      have hsame := removeChatActiveTurn_sameChats m session chat
      have hsessions : ({ m.removeChatActiveTurn session chat with
          chatEntries := (m.removeChatActiveTurn session chat).chatEntries.delete chat } :
            StateManager).sessionStates = m.sessionStates := hsame.sessionStates
      have hdeleted : ({ m.removeChatActiveTurn session chat with
          chatEntries := (m.removeChatActiveTurn session chat).chatEntries.delete chat } :
            StateManager).Catalogued :=
        (hc.congr hsame).deleteChats fun other entry he => (get_delete_some he).2
      have htimely := @timely_applySession _ hdeleted
        (by unfold Recent; rw [hsessions]; exact hrecent) session (.chatRemoved chat)
        (by unfold KeepsTime; rw [hsessions]; exact h entry hget hand.2)
      unfold Timely at htimely
      rw [hsessions] at htimely
      exact htimely
    · exact (Grows.of_same rfl).timely hc hrecent

theorem timely_removeSession (hrecent : m.Recent) (session : Uri) :
    m.Timely (m.removeSession session) := by
  have hsub : ∀ k : StateManager, (∀ other e, k.sessionStates.get other = some e →
      m.sessionStates.get other = some e) → m.Timely k := by
    intro k hk other entry' hget'
    refine ⟨hrecent other entry' (hk other entry' hget'), fun entry hget => ?_⟩
    cases hget.symm.trans (hk other entry' hget')
    exact (SessionEntry.Grows.refl entry').noOlder
  have hdelete : ∀ k : StateManager, k.sessionStates = m.sessionStates.delete session →
      m.Timely k := by
    intro k hk
    refine hsub k fun other e he => ?_
    rw [hk, Record.get_delete] at he
    exact (ite_none_left_eq_some.mp he).2
  unfold StateManager.removeSession
  split
  · exact hsub m fun _ _ he => he
  · split
    · exact hdelete _ rfl
    · exact hdelete _ rfl

theorem timely_newSession (hrecent : m.Recent) (hnone : m.sessionStates.get session = none)
    {entry : SessionEntry} {summary : SessionSummary}
    (htime : entry.modifiedAt = summary.modifiedAt) (turns : List Turn) (draft : Option Message)
    (title : Option String) :
    m.Timely ((m.setSession session entry).ensureDefaultChat session summary turns draft title) := by
  unfold StateManager.ensureDefaultChat
  dsimp only
  have hentry : ((m.setSession session entry).setChat (buildDefaultChatUri session)
      { session
        summary := { createDefaultChatSummary summary (buildDefaultChatUri session) with
          title := title.getD "" }
        state := some { createChatState { createDefaultChatSummary summary
          (buildDefaultChatUri session) with title := title.getD "" } with
            turns, draft } }).sessionStates.get session = some entry := by
    show (m.setSession session entry).sessionStates.get session = _
    rw [get_setSession, if_pos rfl]
  rw [hentry]
  intro other entry' hget'
  rw [get_setSession] at hget'
  split at hget'
  · rename_i heq
    subst heq
    cases hget'
    refine ⟨le_latest_iff.mpr (.inr ⟨_, mem_singleton.mpr rfl, ?_⟩), fun old hold => ?_⟩
    · exact htime.le
    · rw [hnone] at hold
      cases hold
  · rename_i hne
    have hget' : (m.setSession session entry).sessionStates.get other = some entry' := hget'
    rw [get_setSession, if_neg hne] at hget'
    refine ⟨hrecent other entry' hget', fun old hold => ?_⟩
    cases hold.symm.trans hget'
    exact (SessionEntry.Grows.refl entry').noOlder

/-! ## Runs -/

def KeepsCatalog (m : StateManager) : HostEvent → Prop
  | .dispatch session (.session action) _ => m.KeepsSummary action ∧ m.KeepsTime session action
  | .dispatch channel (.chat action) _ => ∀ prev, m.getChatState channel = some prev →
    StatusAlone (m.chatSummaryFromState prev) (m.chatSummaryFromState (chatReducer prev action)) ∧
      ∀ t, action.timestamp? prev = some t → prev.modifiedAt ≤ t
  | .perform (.updateChatTitle session chat _) => Owns session chat
  | .perform (.removeChat session chat) => ∀ entry, m.sessionStates.get session = some entry →
    ¬(some chat = entry.state.defaultChat ∨ isDefaultChatUri chat) →
      m.KeepsTime session (.chatRemoved chat)
  | .perform (.patchSession session _ _ _ _ modifiedAt) => ∀ entry,
    m.sessionStates.get session = some entry →
      entry.modifiedAt ≤ modifiedAt ∧ modifiedAt ≤ latest entry.state.chats
  | _ => True

theorem Coherent.after (h : m.Coherent) (hsound : m.Sound) (hown : OwnEvent event)
    (hkeeps : m.KeepsCatalog event) : (m.after event).Coherent := by
  have hafter := after_cases m event
  generalize m.after event = m' at hafter ⊢
  cases hafter with
  | aside hsame => exact h.congr hsame
  | session => exact (h.applySession hsound hown hkeeps.1).congr (sameChats_emit _ _ _ _ _)
  | @chat owner chatId action origin =>
    have howns : Owns owner (.chat owner chatId) := rfl
    exact (h.applyChat hsound howns fun prev hprev => (hkeeps prev hprev).1).congr
      (sameChats_emit _ _ _ _ _)
  | createSession hnone | restoreSession hnone => exact h.newSession hsound hnone _ _ _ _ _
  | addChat => exact h.addChat hsound hown _ _
  | registerRestoredChatSummary => exact h.registerRestoredChatSummary hsound _ _ _
  | resolveChatState => exact h.resolveChatState _ _ _
  | removeChat => exact h.removeChat hsound _ _
  | removeSession => exact h.removeSession _
  | updateChatTitle => exact h.updateChatTitle hsound hkeeps _
  | patchSession => exact h.patchSession _ _ _ _ _ _
  | seedDefaultChatTurns => exact h.seedDefaultChatTurns _ _

theorem timely_after (hsound : m.Sound) (hcoherent : m.Coherent) (hrecent : m.Recent)
    (hkeeps : m.KeepsCatalog event) : m.Timely (m.after event) := by
  have hsame : ∀ {k : StateManager}, k.sessionStates = m.sessionStates → m.Timely k :=
    fun hk => (Grows.of_same hk).timely hsound.catalogued hrecent
  have hafter := after_cases m event
  generalize m.after event = m' at hafter ⊢
  cases hafter with
  | aside h => exact hsame h.sessionStates
  | session =>
    intro session entry' hget'
    exact timely_applySession hsound.catalogued hrecent hkeeps.2 session entry' hget'
  | @chat owner chatId action origin =>
    have howns : Owns owner (.chat owner chatId) := rfl
    have htimely := timely_applyChat hsound hcoherent hrecent howns
      fun prev t hprev => (hkeeps prev hprev).2 t
    intro session entry' hget'
    exact htimely session entry' hget'
  | createSession hnone | restoreSession hnone => exact timely_newSession hrecent hnone rfl _ _ _
  | addChat => exact (grows_addChat hsound.catalogued _ _ _ _).timely hsound.catalogued hrecent
  | registerRestoredChatSummary =>
    exact (grows_registerRestoredChatSummary hsound.catalogued _ _ _).timely
      hsound.catalogued hrecent
  | resolveChatState => exact hsame (resolveChatState_sessionStates _ _ _ _)
  | removeChat => exact timely_removeChat hsound.catalogued hrecent hkeeps
  | removeSession => exact timely_removeSession hrecent _
  | updateChatTitle =>
    exact (grows_updateChatTitle hsound.catalogued _ _ _).timely hsound.catalogued hrecent
  | @patchSession session =>
    unfold StateManager.patchSession
    cases hget : m.sessionStates.get session with
    | none => exact hsame rfl
    | some entry =>
      intro other entry' hget'
      rw [get_setSession] at hget'
      split at hget'
      · rename_i heq
        subst heq
        cases hget'
        obtain ⟨hle, hrecent'⟩ := hkeeps entry hget
        refine ⟨hrecent', fun old hold => ?_⟩
        cases hget.symm.trans hold
        refine ⟨hle, fun chat before after hbefore hafter => ?_⟩
        cases hbefore.symm.trans hafter
        exact le_refl _
      · refine ⟨hrecent other entry' hget', fun old hold => ?_⟩
        cases hold.symm.trans hget'
        exact (SessionEntry.Grows.refl entry').noOlder
  | seedDefaultChatTurns => exact hsame (seedDefaultChatTurns_sessionStates _ _ _)

/-- Neither a session nor a chat has an earlier time. -/
structure NeverBack (m m' : StateManager) : Prop where
  session : ∀ session entry entry', m.sessionStates.get session = some entry →
    m'.sessionStates.get session = some entry' → entry.modifiedAt ≤ entry'.modifiedAt
  catalog : ∀ session entry entry' chat old new, m.sessionStates.get session = some entry →
    m'.sessionStates.get session = some entry' →
    findBy ChatSummary.resource entry.state.chats chat = some old →
    findBy ChatSummary.resource entry'.state.chats chat = some new → old.modifiedAt ≤ new.modifiedAt
  chat : ∀ chat state state', m.getChatState chat = some state →
    m'.getChatState chat = some state' → state.modifiedAt ≤ state'.modifiedAt

theorem Coherent.loaded (h : m.Coherent) (hsound : m.Sound) {state : ChatState}
    (hstate : m.getChatState chat = some state) :
    ∃ session entry, Owns session chat ∧ m.sessionStates.get session = some entry ∧
      findBy ChatSummary.resource entry.state.chats chat = some (m.chatSummaryFromState state) := by
  obtain ⟨e, he, hloaded⟩ := bind_eq_some_iff.mp hstate
  obtain ⟨entry, hget, -⟩ := hsound.listed chat e he nofun
  have hat := h chat e he entry hget
  unfold entrySummary at hat
  rw [hloaded] at hat
  exact ⟨e.session, entry, hsound.owned.entries chat e he, hget, hat⟩

theorem Timely.neverBack (h : m.Timely m') (hsound : m.Sound) (hcoherent : m.Coherent)
    (hsound' : m'.Sound) (hcoherent' : m'.Coherent) : m.NeverBack m' := by
  have hcatalog : ∀ session entry entry' chat old new, m.sessionStates.get session = some entry →
      m'.sessionStates.get session = some entry' →
      findBy ChatSummary.resource entry.state.chats chat = some old →
      findBy ChatSummary.resource entry'.state.chats chat = some new →
        old.modifiedAt ≤ new.modifiedAt :=
    fun session entry entry' chat old new hget hget' =>
      ((h session entry' hget').2 entry hget).chats chat old new
  refine ⟨fun session entry entry' hget hget' => ((h session entry' hget').2 entry hget).session,
    hcatalog, fun chat state state' hstate hstate' => ?_⟩
  obtain ⟨session, entry, howns, hget, hlisted⟩ := hcoherent.loaded hsound hstate
  obtain ⟨session', entry', howns', hget', hlisted'⟩ := hcoherent'.loaded hsound' hstate'
  obtain rfl := howns.unique howns'
  exact hcatalog session entry entry' chat (m.chatSummaryFromState state)
    (m'.chatSummaryFromState state') hget hget' hlisted hlisted'

/-- In a run that keeps the catalogs, every loaded chat is in the catalog of its session with
the summary of its state, and no step of the run moves a time back. -/
theorem catalog_of_reachable
    (h : managing.ReachableVia (fun m event => OwnEvent event ∧ m.KeepsCatalog event) m) :
    (∀ chat entry state, m.chatEntries.get chat = some entry → entry.state = some state →
      ∃ se, m.sessionStates.get entry.session = some se ∧
        findBy ChatSummary.resource se.state.chats chat = some (m.chatSummaryFromState state)) ∧
      ∀ event, OwnEvent event → m.KeepsCatalog event → m.NeverBack (m.after event) := by
  have hinv : m.Sound ∧ m.Coherent ∧ m.Recent := by
    refine @System.ReachableVia.invariant _ _ _ _ (fun m => m.Sound ∧ m.Coherent ∧ m.Recent)
      ?_ ?_ _ h
    · refine fun s hs => ⟨sound_created hs, ?_, ?_⟩
      · obtain ⟨rootState, approve, keys, -, rfl⟩ := hs
        intro chat entry he
        cases he
      · obtain ⟨rootState, approve, keys, -, rfl⟩ := hs
        intro session entry he
        cases he
    · rintro s event s' ⟨hsound, hcoherent, hrecent⟩ ⟨hown, hkeeps⟩ hstep
      cases Option.some.inj hstep
      exact ⟨hsound.after hown, hcoherent.after hsound hown hkeeps, fun session entry' hget' =>
        (timely_after hsound hcoherent hrecent hkeeps session entry' hget').1⟩
  obtain ⟨hsound, hcoherent, hrecent⟩ := hinv
  refine ⟨fun chat entry state hget hstate => ?_, fun event hown hkeeps => ?_⟩
  · obtain ⟨se, hse, -⟩ := hsound.listed chat entry hget nofun
    have hat := hcoherent chat entry hget se hse
    unfold entrySummary at hat
    rw [hstate] at hat
    exact ⟨se, hse, hat⟩
  · exact (timely_after hsound hcoherent hrecent hkeeps).neverBack hsound hcoherent
      (hsound.after hown) (hcoherent.after hsound hown hkeeps)

def turnBegun (startedAt : Timestamp) : HostEvent :=
  .dispatch (buildDefaultChatUri restoredSummary.resource)
    (.chat (.turnStarted "t" startedAt ⟨"hi"⟩ none)) none

def answered : HostEvent :=
  .dispatch (buildDefaultChatUri restoredSummary.resource)
    (.chat (.activityChanged (some "Thinking"))) none

/-- The turn starts at the time the chat already has. -/
theorem catalog_of_reachable_turn :
    (∀ chat entry state, (restoredHost.after (turnBegun 0)).chatEntries.get chat = some entry →
      entry.state = some state →
      ∃ se, (restoredHost.after (turnBegun 0)).sessionStates.get entry.session = some se ∧
        findBy ChatSummary.resource se.state.chats chat =
          some ((restoredHost.after (turnBegun 0)).chatSummaryFromState state)) ∧
      (restoredHost.after (turnBegun 0)).NeverBack
        ((restoredHost.after (turnBegun 0)).after answered) := by
  have hrestored : managing.ReachableVia (fun m event => OwnEvent event ∧ m.KeepsCatalog event)
      restoredHost :=
    .step (i := .perform (.restoreSession restoredSummary [] none none)) (.init created_newHost)
      ⟨trivial, trivial⟩ rfl
  have hturn : managing.ReachableVia (fun m event => OwnEvent event ∧ m.KeepsCatalog event)
      (restoredHost.after (turnBegun 0)) := by
    refine .step (i := turnBegun 0) hrestored ⟨trivial, fun prev hprev => ?_⟩ rfl
    cases hprev
    refine ⟨fun _ => rfl, fun t ht => ?_⟩
    cases ht
    decide
  obtain ⟨hcatalog, hnever⟩ := catalog_of_reachable hturn
  refine ⟨hcatalog, hnever answered trivial fun prev hprev => ?_⟩
  cases hprev
  exact ⟨fun hne => absurd rfl hne, nofun⟩

/-- A turn that starts later than the chat was modified leaves the chat with its old time, and
the next action takes the time of the catalog and the session back to it. -/
theorem not_always_catalog :
    (¬ ∀ m, managing.Reachable m →
      ∀ chat entry state, m.chatEntries.get chat = some entry → entry.state = some state →
        ∃ se, m.sessionStates.get entry.session = some se ∧
          findBy ChatSummary.resource se.state.chats chat = some (m.chatSummaryFromState state)) ∧
      ¬ ∀ m channel activity, managing.Reachable m →
        m.NeverBack (m.after (.dispatch channel (.chat (.activityChanged activity)) none)) := by
  have hturn : managing.Reachable (restoredHost.after (turnBegun 5)) :=
    .step (i := turnBegun 5) reachable_restoredHost trivial rfl
  constructor
  · intro h
    obtain ⟨se, hse, hlisted⟩ := h _ hturn (buildDefaultChatUri restoredSummary.resource) _ _ rfl rfl
    cases hse
    have htime := congrArg (Option.map fun c : ChatSummary => c.modifiedAt) hlisted
    revert htime
    decide
  · intro h
    have hle := (h _ (buildDefaultChatUri restoredSummary.resource) (some "Thinking")
      hturn).session restoredSummary.resource _ _ rfl rfl
    revert hle
    decide

end StateManager

end Fumie.AgentHost
