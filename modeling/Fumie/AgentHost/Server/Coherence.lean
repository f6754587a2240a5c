import Fumie.AgentHost.Server.Ownership

/-!
# The catalog and the chat states

A chat is kept twice: its summary in the catalog of its session, its state under its own
URI. `Coherent` says that the catalog has `chatSummaryFromState` of the state, and of a chat
that is not loaded the summary it was registered with.

Session actions are copied from the catalog into the states, chat actions from the state
into the catalog. A chat action that changes the status does both: the nested `chatUpdated`
copies the old catalog entry, with the new status and activity, over the new state before
the new entry is written. The copies agree after it only when nothing else had changed, and
a turn that starts or ends changes the time as well.
-/

namespace Fumie.AgentHost

open Fumie.Lib List BitVec Option

namespace StateManager

def entrySummary (m : StateManager) (entry : ChatEntry) : ChatSummary :=
  match entry.state with
  | some state => m.chatSummaryFromState state
  | none => entry.summary

def CoherentAt (m : StateManager) (chat : Uri) : Prop :=
  ∀ entry, m.chatEntries.get chat = some entry → ∀ se, m.sessionStates.get entry.session = some se →
      findBy ChatSummary.resource se.state.chats chat = some (m.entrySummary entry)

def Coherent (m : StateManager) : Prop := ∀ chat, m.CoherentAt chat

variable {m m' : StateManager}

theorem entrySummary_congr (h : m'.autoApproveBySetting = m.autoApproveBySetting)
    (entry : ChatEntry) : m'.entrySummary entry = m.entrySummary entry := by
  unfold entrySummary
  split
  · exact chatSummaryFromState_congr h _
  · rfl

variable {chat : Uri}

theorem CoherentAt.congr (h : m.CoherentAt chat) (hsame : SameChats m m') : m'.CoherentAt chat := by
  obtain ⟨hsessions, hchats, happroved⟩ := hsame
  intro entry hentry se hse
  rw [hchats] at hentry
  rw [hsessions] at hse
  rw [entrySummary_congr happroved]
  exact h entry hentry se hse

theorem Coherent.congr (h : m.Coherent) (hsame : SameChats m m') : m'.Coherent :=
  fun chat => (h chat).congr hsame

/-! ## Merging a summary into a state -/

theorem chatSummaryStatus_congr {state state' : ChatState}
    (hturn : state'.activeTurn = state.activeTurn) (hstatus : state'.status = state.status) :
    m.chatSummaryStatus state' = m.chatSummaryStatus state := by
  unfold chatSummaryStatus hasAutoApprovedPendingConfirmation chatAwaitsUserInput
  rw [hturn, hstatus]

theorem chatSummaryStatus_idem (m : StateManager) (state : ChatState) :
    m.chatSummaryStatus { state with status := m.chatSummaryStatus state } =
      m.chatSummaryStatus state := by
  have hdemoted : ((state.status &&& ~~~STATUS_ACTIVITY_MASK) ||| SessionStatus.InProgress) &&&
      SessionStatus.InputNeeded ≠ SessionStatus.InputNeeded := by
    have hmask : ~~~STATUS_ACTIVITY_MASK &&& SessionStatus.InputNeeded = 0#32 := by decide
    rw [and_or_distrib_right, BitVec.and_assoc, hmask, and_zero, zero_or]
    decide
  by_cases hneeds : state.status &&& SessionStatus.InputNeeded ≠ SessionStatus.InputNeeded
  · have hsame : m.chatSummaryStatus state = state.status := if_pos hneeds
    exact chatSummaryStatus_congr rfl hsame
  · by_cases happroved : (m.hasAutoApprovedPendingConfirmation state &&
        !m.chatAwaitsUserInput state) = true
    · have hdemote : m.chatSummaryStatus state =
          (state.status &&& ~~~STATUS_ACTIVITY_MASK) ||| SessionStatus.InProgress :=
        (if_neg hneeds).trans (if_pos happroved)
      rw [hdemote]
      exact if_pos hdemoted
    · have hsame : m.chatSummaryStatus state = state.status :=
        (if_neg hneeds).trans (if_neg happroved)
      exact chatSummaryStatus_congr rfl hsame

def noChanges : ChatSummaryChanges where
  title := none
  status := none
  activity := none
  modifiedAt := none
  origin := none
  interactivity := none
  workingDirectories := none

variable (state : ChatState)

theorem summary_withSummary (summary : ChatSummary) (changes : ChatSummaryChanges)
    (hstatus : m.chatSummaryStatus { state with status := summary.status } = summary.status)
    (hactivity : (if changes.activity = some none then none
      else summary.activity.or state.activity) = summary.activity)
    (horigin : (if changes.origin = some none then none
      else summary.origin.or state.origin) = summary.origin)
    (hinteractivity : (if changes.interactivity = some none then none
      else summary.interactivity.or state.interactivity) = summary.interactivity)
    (hdirectories : (if changes.workingDirectories = some none then none
      else summary.workingDirectories.or state.workingDirectories) = summary.workingDirectories) :
    m.chatSummaryFromState (clearState changes (state.withSummary summary)) = summary := by
  have hmerged : m.chatSummaryStatus (clearState changes (state.withSummary summary)) =
      summary.status :=
    (@chatSummaryStatus_congr m { state with status := summary.status } _ rfl rfl).trans hstatus
  unfold chatSummaryFromState
  rw [hmerged]
  unfold clearState ChatState.withSummary
  rw [hactivity, horigin, hinteractivity, hdirectories]

theorem or_self_eq {α : Type} (o : Option α) : o.or o = o := by
  cases o with
  | none | some _ => rfl

theorem summary_withSummary_self (m : StateManager) (state : ChatState) :
    m.chatSummaryFromState (state.withSummary (m.chatSummaryFromState state)) =
      m.chatSummaryFromState state := by
  refine summary_withSummary state (m.chatSummaryFromState state) noChanges ?_ ?_ ?_ ?_ ?_
  · exact chatSummaryStatus_idem m state
  · exact or_self_eq _
  · exact or_self_eq _
  · exact or_self_eq _
  · exact or_self_eq _

theorem ite_cleared {α : Type} [DecidableEq α] (change : Option (Option α)) (old : Option α) :
    (if change = some none then none else (change.getD old).or old) = change.getD old := by
  cases change with
  | none => exact or_self_eq old
  | some cleared =>
    cases cleared with
    | none | some _ => rfl

theorem summary_applyChanges {state : ChatState} {changes : ChatSummaryChanges}
    (hstatus : ∀ status, changes.status = some status →
      m.chatSummaryStatus { state with status } = status) :
    m.chatSummaryFromState (clearState changes
      (state.withSummary (applyChatSummaryChanges (m.chatSummaryFromState state) changes))) =
      applyChatSummaryChanges (m.chatSummaryFromState state) changes := by
  refine summary_withSummary state _ changes ?_ ?_ ?_ ?_ ?_
  · show m.chatSummaryStatus { state with
      status := changes.status.getD (m.chatSummaryStatus state) } = changes.status.getD _
    cases hchange : changes.status with
    | none => exact chatSummaryStatus_idem m state
    | some status => exact hstatus status hchange
  · exact ite_cleared changes.activity state.activity
  · exact ite_cleared changes.origin state.origin
  · exact ite_cleared changes.interactivity state.interactivity
  · exact ite_cleared changes.workingDirectories state.workingDirectories

/-! ## A session action -/

def KeepsSummary (m : StateManager) : SessionAction → Prop
  | .chatAdded summary => ∀ state, m.getChatState summary.resource = some state →
    m.chatSummaryFromState (state.withSummary summary) = summary
  | .chatUpdated chat changes => ∀ state status, m.getChatState chat = some state →
    changes.status = some status → m.chatSummaryStatus { state with status } = status
  | _ => True

variable {action : SessionAction} {session : Uri}

theorem entrySummary_edit (hkeeps : m.KeepsSummary action) {entry : ChatEntry}
    (hget : m.chatEntries.get chat = some entry) {summary : ChatSummary}
    (hedit : chatEdit action chat (some (m.entrySummary entry)) = some summary) :
    m.entrySummary (clearEntry action chat (syncEntry session summary (some entry))) = summary := by
  obtain ⟨owner, registered, loaded⟩ := entry
  have hself : m.entrySummary ⟨owner, registered, loaded⟩ = summary →
      m.entrySummary (syncEntry session summary (some ⟨owner, registered, loaded⟩)) = summary := by
    rintro rfl
    cases loaded with
    | none => rfl
    | some state => exact summary_withSummary_self m state
  have hstate : ∀ state, loaded = some state → m.getChatState chat = some state := by
    intro state hstate
    unfold getChatState
    rw [hget]
    exact hstate
  unfold chatEdit at hedit
  split at hedit
  · rename_i added
    split at hedit
    · rename_i heq
      cases hedit
      subst heq
      cases loaded with
      | none => rfl
      | some state => exact hkeeps state (hstate state rfl)
    · exact hself (Option.some.inj hedit)
  · split at hedit
    · cases hedit
    · exact hself (Option.some.inj hedit)
  · rename_i updated changes
    split at hedit
    · rename_i heq
      subst heq
      cases hedit
      unfold clearEntry
      dsimp only
      rw [if_pos rfl]
      cases loaded with
      | none => rfl
      | some state =>
        refine summary_applyChanges fun status hstatus => ?_
        exact hkeeps state status (hstate state rfl) hstatus
    · rename_i hne
      unfold clearEntry
      dsimp only
      rw [if_neg hne]
      exact hself (Option.some.inj hedit)
  · rename_i hadded hremoved hupdated
    have hclear : ∀ e, clearEntry action chat e = e := by
      intro e
      unfold clearEntry
      split
      · rename_i updated changes
        exact absurd rfl (hupdated updated changes)
      · rfl
    rw [hclear]
    exact hself (Option.some.inj hedit)

theorem coherentAt_applySession {chat : Uri} (hc : m.Catalogued) (ho : m.Owned) {session : Uri}
    {action : SessionAction} (hown : OwnAction session action)
    (hforeign : ∀ entry, m.chatEntries.get chat = some entry → entry.session ≠ session →
      ∀ se, m.sessionStates.get entry.session = some se →
        findBy ChatSummary.resource se.state.chats chat = some (m.entrySummary entry))
    (hedited : ∀ entry, m.chatEntries.get chat = some entry → entry.session = session →
      ∀ se, m.sessionStates.get session = some se → ∀ summary,
        chatEdit action chat (findBy ChatSummary.resource se.state.chats chat) = some summary →
          m.entrySummary (clearEntry action chat (syncEntry session summary (some entry))) =
            summary) : (m.applySession session action).CoherentAt chat := by
  cases hget : m.sessionStates.get session with
  | none =>
    rw [applySession_of_none hget]
    intro e he se hse
    refine hforeign e he ?_ se hse
    rintro rfl
    rw [hget] at hse
    cases hse
  | some entry =>
    have hnodup := hc.nodup session entry hget
    have howned := ho.applySession hc hown
    intro e' he' se hse
    rw [entrySummary_congr (applySession_tables m session action).2.2.2]
    have howns := howned.entries chat e' he'
    rw [get_applySession_chat m hget hnodup] at he'
    rw [get_applySession_session, hget] at hse
    cases hedit : chatEdit action chat (findBy ChatSummary.resource entry.state.chats chat) with
    | some summary =>
      rw [hedit] at he'
      cases he'
      have hlisted : chat ∈ (sessionReducer entry.state action).chats.map ChatSummary.resource := by
        rw [← findBy_isSome_iff, (sessionReducer_chats action hnodup).2, hedit]
        rfl
      have hsession : Owns session chat := by
        refine howned.catalog session
          { entry with state := sessionReducer entry.state action } ?_ chat hlisted
        rw [get_applySession_session, if_pos rfl, hget]
        rfl
      rw [if_pos (hsession.unique howns)] at hse
      cases hse
      rw [(sessionReducer_chats action hnodup).2, hedit]
      cases hold : m.chatEntries.get chat with
      | none =>
        have hnone : (clearEntry action chat (syncEntry session summary none)).state = none ∧
            (clearEntry action chat (syncEntry session summary none)).summary = summary := by
          unfold clearEntry
          split
          · split
            · exact ⟨rfl, rfl⟩
            · exact ⟨rfl, rfl⟩
          · exact ⟨rfl, rfl⟩
        unfold entrySummary
        rw [hnone.1]
        exact congrArg some hnone.2.symm
      | some existing =>
        have hsame : existing.session = session := (ho.entries chat existing hold).unique hsession
        exact congrArg some (hedited existing hold hsame entry hget summary hedit).symm
    | none =>
      rw [hedit] at he'
      obtain ⟨he', hne⟩ := filter_eq_some_iff.mp he'
      have hne : e'.session ≠ session := by simpa using hne
      rw [if_neg (Ne.symm hne)] at hse
      exact hforeign e' he' hne se hse

theorem CoherentAt.applySession (h : m.CoherentAt chat) (hc : m.Catalogued) (ho : m.Owned)
    (hown : OwnAction session action) (hkeeps : m.KeepsSummary action) :
    (m.applySession session action).CoherentAt chat := by
  refine coherentAt_applySession hc ho hown (fun e he _ => h e he) ?_
  rintro e he rfl se hse summary hedit
  rw [h e he se hse] at hedit
  exact entrySummary_edit hkeeps he hedit

theorem Coherent.applySession (h : m.Coherent) (hsound : m.Sound) (hown : OwnAction session action)
    (hkeeps : m.KeepsSummary action) : (m.applySession session action).Coherent :=
  fun chat => (h chat).applySession hsound.catalogued hsound.owned hown hkeeps

/-! ## A chat action -/

def StatusAlone (old nextEntry : ChatSummary) : Prop :=
  old.status ≠ nextEntry.status →
    nextEntry = { old with status := nextEntry.status, activity := nextEntry.activity }

theorem findBy_mirrorChat (entry : SessionEntry) {chat : Uri} {nextEntry : ChatSummary}
    (hresource : nextEntry.resource = chat) (other : Uri) :
    findBy ChatSummary.resource (mirrorChat entry chat nextEntry).state.chats other =
      (findBy ChatSummary.resource entry.state.chats other).map fun c =>
        if c.resource = chat then nextEntry else c := by
  refine findBy_map fun c => ?_
  split
  · rename_i hc
    exact hresource.trans hc.symm
  · rfl

theorem CoherentAt.setChat {other : Uri} (h : m.CoherentAt other) (hne : chat ≠ other)
    (entry : ChatEntry) : (m.setChat chat entry).CoherentAt other := by
  intro e he se hse
  rw [get_setChat, if_neg hne] at he
  exact h e he se hse

theorem get_forwardStatus_session (m : StateManager) {other : Uri} (entry : SessionEntry)
    (nextEntry : ChatSummary) (hne : session ≠ other) :
    (m.forwardStatus session chat entry nextEntry).sessionStates.get other =
      m.sessionStates.get other := by
  unfold forwardStatus
  split
  · rfl
  · rw [get_applySession_session, if_neg hne]

theorem findBy_forwardStatus {session chat : Uri} {entry : SessionEntry}
    (hget : m.sessionStates.get session = some entry)
    (hnodup : (entry.state.chats.map ChatSummary.resource).Nodup) (nextEntry : ChatSummary) :
    ∃ entry', (m.forwardStatus session chat entry nextEntry).sessionStates.get session =
      some entry' ∧ ∀ other, chat ≠ other → findBy ChatSummary.resource entry'.state.chats other =
          findBy ChatSummary.resource entry.state.chats other := by
  unfold forwardStatus
  split
  · exact ⟨entry, hget, fun _ _ => rfl⟩
  · refine ⟨_, by rw [get_applySession_session, if_pos rfl, hget]; rfl, fun other hne => ?_⟩
    rw [(sessionReducer_chats _ hnodup).2]
    unfold chatEdit
    dsimp only
    rw [if_neg hne]

theorem entrySummary_forwardStatus {entry : SessionEntry}
    (hget : m.sessionStates.get session = some entry)
    (hnodup : (entry.state.chats.map ChatSummary.resource).Nodup) {chatEntry : ChatEntry}
    {next : ChatState} (hchat : m.chatEntries.get chat = some { chatEntry with state := some next })
    {old : ChatSummary} (hold : findBy ChatSummary.resource entry.state.chats chat = some old)
    (hcond : StatusAlone old (m.chatSummaryFromState next)) :
    ∃ e, (m.forwardStatus session chat entry (m.chatSummaryFromState next)).chatEntries.get chat =
      some e ∧ m.entrySummary e = m.chatSummaryFromState next := by
  unfold forwardStatus
  rw [hold]
  split
  · exact ⟨_, hchat, rfl⟩
  · rename_i hne
    have hstatus : old.status ≠ (m.chatSummaryFromState next).status :=
      fun h => hne (congrArg some h)
    have happlied : applyChatSummaryChanges old (forwarded (m.chatSummaryFromState next)) =
        m.chatSummaryFromState next := (hcond hstatus).symm
    have hedit : chatEdit (.chatUpdated chat (forwarded (m.chatSummaryFromState next))) chat
        (some old) = some (m.chatSummaryFromState next) :=
      (if_pos rfl).trans (congrArg some happlied)
    rw [get_applySession_chat m hget hnodup, hold, hedit, hchat]
    refine ⟨_, rfl, ?_⟩
    unfold clearEntry
    dsimp only
    rw [if_pos rfl]
    refine summary_withSummary next _ _ (chatSummaryStatus_idem m next) ?_ ?_ ?_ ?_
    · show (if some next.activity = some none then none else next.activity.or next.activity) =
        next.activity
      cases next.activity with
      | none | some _ => rfl
    · exact or_self_eq _
    · exact or_self_eq _
    · exact or_self_eq _

theorem Coherent.onChatStateChanged (h : m.Coherent) (howns : Owns session chat) {entry : ChatEntry}
    {prev next : ChatState} (hget : m.chatEntries.get chat = some entry)
    (hprev : entry.state = some prev)
    (hsound : (m.setChat chat { entry with state := some next }).Sound)
    (hcond : StatusAlone (m.chatSummaryFromState prev) (m.chatSummaryFromState next)) :
    ((m.setChat chat { entry with state := some next }).onChatStateChanged session chat prev
      next).Coherent := by
  have hresource := hsound.catalogued.state chat { entry with state := some next } next
    (by rw [get_setChat, if_pos rfl]) rfl
  obtain ⟨k, hk⟩ : ∃ k, k = m.setChat chat { entry with state := some next } := ⟨_, rfl⟩
  have hchat : k.chatEntries.get chat = some { entry with state := some next } := by
    rw [hk, get_setChat, if_pos rfl]
  have hothers : ∀ other, chat ≠ other → k.CoherentAt other := fun other hne => by
    rw [hk]
    exact (h other).setChat hne _
  have happroved : k.autoApproveBySetting = m.autoApproveBySetting := by rw [hk]; rfl
  have hsummary : ∀ state, k.chatSummaryFromState state = m.chatSummaryFromState state :=
    chatSummaryFromState_congr happroved
  rw [← hk] at hsound ⊢
  have hsession : entry.session = session := (hsound.owned.entries chat _ hchat).unique howns
  obtain ⟨se, hse, -⟩ : k.InCatalog entry.session chat :=
    hsound.listed chat { entry with state := some next } hchat nofun
  have hlisted : findBy ChatSummary.resource se.state.chats chat =
      some (k.chatSummaryFromState prev) := by
    have hat := h chat entry hget se (by rw [hk] at hse; exact hse)
    unfold entrySummary at hat
    rw [hprev] at hat
    rw [hsummary]
    exact hat
  rw [hsession] at hse
  have hnodup := hsound.catalogued.nodup session se hse
  have hspec := onChatStateChanged_spec hse chat prev next
  refine Coherent.congr ?_ hspec.chats
  obtain ⟨f, hf⟩ : ∃ f, f = k.forwardStatus session chat se (k.chatSummaryFromState next) :=
    ⟨_, rfl⟩
  have hforward : ∀ other, chat ≠ other → f.CoherentAt other := by
    intro other hne
    rw [hf]
    unfold forwardStatus
    split
    · exact hothers other hne
    · refine (hothers other hne).applySession hsound.catalogued hsound.owned trivial ?_
      intro state status hstate hstatus
      cases hstatus
      unfold getChatState at hstate
      rw [hchat] at hstate
      cases hstate
      exact chatSummaryStatus_idem k next
  have hfsummary : ∀ e, f.entrySummary e = k.entrySummary e := by
    refine fun e => entrySummary_congr ?_ e
    rw [hf]
    unfold forwardStatus
    split
    · rfl
    · exact (applySession_tables k session _).2.2.2
  have hfsound : f.Sound := by
    rw [hf]
    exact hsound.forwardStatus session chat se _
  obtain ⟨se', hse', hcatalog⟩ := @findBy_forwardStatus k session chat se hse hnodup
    (k.chatSummaryFromState next)
  rw [← hf] at hse' ⊢
  intro other e he se₂ hse₂
  have he : f.chatEntries.get other = some e := he
  rw [get_setSession] at hse₂
  show _ = some (f.entrySummary e)
  split at hse₂
  · rename_i hsame
    cases hse₂
    have hmirror := @findBy_mirrorChat se chat (k.chatSummaryFromState next) hresource other
    rw [hmirror]
    by_cases hother : chat = other
    · subst hother
      obtain ⟨e₁, he₁, hsum⟩ := entrySummary_forwardStatus hse hnodup hchat hlisted
        (by rw [hsummary, hsummary]; exact hcond)
      rw [← hf] at he₁
      cases he₁.symm.trans he
      rw [hlisted, hfsummary, hsum, map_some]
      exact congrArg some (if_pos (findBy_some hlisted).2)
    · have hat := hforward other hother e he se' (hsame ▸ hse')
      rw [hcatalog other hother] at hat
      rw [hat, map_some]
      exact congrArg some (if_neg fun hres => hother (hres.symm.trans (findBy_some hat).2))
  · rename_i hne
    have hother : chat ≠ other := by
      rintro rfl
      exact hne (howns.unique (hfsound.owned.entries chat e he))
    exact hforward other hother e he se₂ hse₂

theorem Coherent.applyChat (h : m.Coherent) (hsound : m.Sound) (howns : Owns session chat)
    {action : ChatAction} (hcond : ∀ prev, m.getChatState chat = some prev →
      StatusAlone (m.chatSummaryFromState prev)
        (m.chatSummaryFromState (chatReducer prev action))) :
    (m.applyChat session chat action).Coherent := by
  unfold StateManager.applyChat
  cases hget : m.chatEntries.get chat with
  | none => exact h
  | some entry =>
    dsimp only
    split
    · exact h
    · rename_i prev hprev
      refine h.onChatStateChanged howns hget hprev (hsound.setState hget ?_) (hcond prev ?_)
      · rintro s hs
        cases hs
        exact (chatReducer_dated prev action).resource.trans
          (hsound.catalogued.state chat entry prev hget hprev)
      · unfold getChatState
        rw [hget]
        exact hprev

/-! ## Operations -/

theorem Coherent.dispatchSession (h : m.Coherent) (hsound : m.Sound)
    (hown : OwnAction session action) (hkeeps : m.KeepsSummary action) :
    (m.dispatchSession session action).Coherent :=
  (h.applySession hsound hown hkeeps).congr (sameChats_emit _ _ _ _ _)

theorem Coherent.updateChatTitle (h : m.Coherent) (hsound : m.Sound) (howns : Owns session chat)
    (title : String) : (m.updateChatTitle session chat title).Coherent := by
  unfold StateManager.updateChatTitle
  cases hget : m.chatEntries.get chat with
  | none => exact h.dispatchSession hsound trivial (fun _ _ _ => nofun)
  | some entry =>
    obtain ⟨owner, registered, loaded⟩ := entry
    have hrenamed := @Sound.setState m hsound chat _ hget (loaded.map fun (state : ChatState) =>
      { state with title := title }) fun s hs => by
        obtain ⟨state, hstate, heq⟩ := map_eq_some_iff.mp hs
        rw [← heq]
        exact hsound.catalogued.state chat _ state hget hstate
    refine Coherent.congr (fun other => ?_) (sameChats_emit _ _ _ _ _)
    by_cases hne : chat = other
    · subst hne
      refine coherentAt_applySession hrenamed.catalogued hrenamed.owned trivial ?_ ?_
      · intro e he hforeign
        exact absurd ((hrenamed.owned.entries chat e he).unique howns) hforeign
      · intro e he hsame se hse summary hedit
        rw [get_setChat, if_pos rfl] at he
        cases he
        rw [h chat _ hget se (by rw [hsame]; exact hse)] at hedit
        unfold chatEdit at hedit
        dsimp only at hedit
        rw [if_pos rfl] at hedit
        cases hedit
        cases loaded with
        | none =>
          unfold clearEntry
          dsimp only
          rw [if_pos rfl]
          rfl
        | some state =>
          unfold clearEntry
          dsimp only
          rw [if_pos rfl]
          exact summary_withSummary_self m { state with title }
    · exact ((h other).setChat hne _).applySession hrenamed.catalogued hrenamed.owned trivial
        (fun _ _ _ => nofun)

theorem Coherent.snapshotDefaultChatTitle (h : m.Coherent) (hsound : m.Sound) (session : Uri)
    (state : SessionState) : (m.snapshotDefaultChatTitle session state).Coherent := by
  unfold StateManager.snapshotDefaultChatTitle
  dsimp only
  split
  · split
    · exact h.updateChatTitle hsound (owns_default session) _
    · exact h
  · exact h

theorem summary_createChatState (m : StateManager) (summary : ChatSummary) (turns : List Turn)
    (draft : Option Message) :
    m.chatSummaryFromState { createChatState summary with turns, draft } = summary := by
  have hstatus : m.chatSummaryStatus { createChatState summary with turns, draft } =
      summary.status := by
    unfold chatSummaryStatus
    split
    · rfl
    · exact if_neg nofun
  unfold chatSummaryFromState
  rw [hstatus]
  rfl

theorem Coherent.addChat (h : m.Coherent) (hsound : m.Sound) (howns : Owns session chat)
    (options : ChatOptions) (turns : List Turn) :
    (m.addChat session chat options turns).Coherent := by
  unfold StateManager.addChat
  cases hget : m.sessionStates.get session with
  | none => exact h
  | some entry =>
    dsimp only
    split
    · exact h
    · have hsnapshot := hsound.snapshotDefaultChatTitle session entry.state
      have hcoherent := h.snapshotDefaultChatTitle hsound session entry.state
      generalize m.snapshotDefaultChatTitle session entry.state = s at hsnapshot hcoherent ⊢
      obtain ⟨summary, hsummary⟩ : ∃ summary, summary = newChatSummary session chat
        ((s.sessionStates.get session).getD entry) options := ⟨_, rfl⟩
      have hresource : summary.resource = chat := by rw [hsummary]; rfl
      rw [← hsummary]
      obtain ⟨hc, ho, -⟩ := @Sound.newChat s hsnapshot session chat
        { session, summary, state := some { createChatState summary with turns } } howns
        rfl hresource (by rintro st hst; cases hst; exact hresource)
      have hcreated : ∀ k : StateManager, k.chatSummaryFromState
          { createChatState summary with turns } = summary :=
        fun k => summary_createChatState k summary turns none
      have hkeeps : (s.setChat chat
          { session, summary, state := some { createChatState summary with turns } }).KeepsSummary
            (.chatAdded summary) := by
        intro state hstate
        unfold getChatState at hstate
        rw [hresource, get_setChat, if_pos rfl] at hstate
        cases hstate
        have hself := summary_withSummary_self (s.setChat chat
          { session, summary, state := some { createChatState summary with turns } })
            { createChatState summary with turns }
        rwa [hcreated] at hself
      have hown : OwnAction session (.chatAdded summary) :=
        (congrArg parseDefaultChatUri hresource).trans howns
      refine Coherent.congr (fun other => ?_) (sameChats_emit _ _ _ _ _)
      by_cases hne : chat = other
      · subst hne
        refine coherentAt_applySession hc ho hown ?_ ?_
        · intro e he hforeign
          exact absurd ((ho.entries chat e he).unique howns) hforeign
        · intro e he _ se hse added hedit
          refine entrySummary_edit hkeeps he ?_
          rw [← hedit]
          unfold chatEdit
          dsimp only
          rw [if_pos hresource, if_pos hresource]
      · exact ((hcoherent other).setChat hne _).applySession hc ho hown hkeeps

theorem Coherent.registerRestoredChatSummary (h : m.Coherent) (hsound : m.Sound)
    (session chat : Uri) (options : ChatOptions) :
    (m.registerRestoredChatSummary session chat options).Coherent := by
  unfold StateManager.registerRestoredChatSummary
  cases hget : m.sessionStates.get session with
  | none => exact h
  | some entry =>
    dsimp only
    split
    · exact h
    · rename_i hnew
      have hsnapshot := hsound.snapshotDefaultChatTitle session entry.state
      have hcoherent := h.snapshotDefaultChatTitle hsound session entry.state
      obtain ⟨e, he⟩ := snapshotDefaultChatTitle_get hget entry.state
      have hresources := snapshotDefaultChatTitle_resources hget entry.state he
      generalize m.snapshotDefaultChatTitle session entry.state = s at hsnapshot hcoherent he ⊢
      rw [he, getD_some]
      generalize hsummary : newChatSummary session chat e options = summary
      have hresource : summary.resource = chat := by rw [← hsummary]; rfl
      intro other e' he' se hse
      rw [get_setChat] at he'
      have hse : (s.setSession session { e with state := { e.state with
          chats := e.state.chats ++ [summary] } }).sessionStates.get e'.session = some se := hse
      rw [get_setSession] at hse
      split at he'
      · rename_i heq
        cases he'
        rw [if_pos rfl] at hse
        cases hse
        have hnone : findBy ChatSummary.resource e.state.chats other = none :=
          findBy_eq_none_iff.mpr (by rw [hresources, ← heq]; exact hnew)
        show (e.state.chats ++ [summary]).find? (fun c => c.resource = other) = some summary
        rw [find?_append]
        refine (congrArg (Option.or · _) hnone).trans ?_
        rw [none_or]
        exact find?_cons_of_pos (by simpa using hresource.trans heq)
      · split at hse
        · rename_i heq
          cases hse
          have hat := hcoherent other e' he' e (heq ▸ he)
          show (e.state.chats ++ [summary]).find? (fun c => c.resource = other) = _
          rw [find?_append]
          exact congrArg (Option.or · _) hat
        · exact hcoherent other e' he' se hse

theorem Coherent.setState (h : m.Coherent) {chat : Uri} {entry : ChatEntry}
    (hget : m.chatEntries.get chat = some entry) {state : Option ChatState}
    (hsame : m.entrySummary { entry with state } = m.entrySummary entry) :
    (m.setChat chat { entry with state }).Coherent := by
  intro other e he se hse
  rw [get_setChat] at he
  split at he
  · rename_i heq
    cases he
    subst heq
    show _ = some (m.entrySummary { entry with state })
    rw [hsame]
    exact h chat entry hget se hse
  · exact h other e he se hse

theorem Coherent.resolveChatState (h : m.Coherent) (chat : Uri) (turns : List Turn)
    (draft : Option Message) : (m.resolveChatState chat turns draft).Coherent := by
  unfold StateManager.resolveChatState
  split
  · exact h
  · rename_i entry hget
    split
    · exact h
    · rename_i hnone
      refine h.setState hget ?_
      unfold entrySummary
      rw [hnone]
      exact summary_createChatState m entry.summary turns draft

theorem Coherent.seedDefaultChatTurns (h : m.Coherent) (session : Uri) (turns : List Turn) :
    (m.seedDefaultChatTurns session turns).Coherent := by
  unfold StateManager.seedDefaultChatTurns
  dsimp only
  split
  · exact h
  · rename_i entry hget
    refine h.setState hget ?_
    obtain ⟨owner, registered, loaded⟩ := entry
    cases loaded with
    | none | some _ => rfl

theorem Coherent.delete (h : m.Coherent)
    (hchats : ∀ chat entry, m'.chatEntries.get chat = some entry →
      m.chatEntries.get chat = some entry)
    (hsessions : ∀ session entry, m'.sessionStates.get session = some entry →
      m.sessionStates.get session = some entry)
    (happroved : m'.autoApproveBySetting = m.autoApproveBySetting) : m'.Coherent := by
  intro chat e he se hse
  rw [entrySummary_congr happroved]
  exact h chat e (hchats chat e he) se (hsessions _ se hse)

theorem Coherent.removeChat (h : m.Coherent) (hsound : m.Sound) (session chat : Uri) :
    (m.removeChat session chat).Coherent := by
  unfold StateManager.removeChat
  cases hget : m.sessionStates.get session with
  | none => exact h
  | some entry =>
    dsimp only
    split
    · have hsame := removeChatActiveTurn_sameChats m session chat
      have hremoved := hsound.congr hsame
      generalize m.removeChatActiveTurn session chat = k at hsame hremoved ⊢
      have hsub : ∀ other entry, (k.chatEntries.delete chat).get other = some entry →
          k.chatEntries.get other = some entry := fun other entry he => (get_delete_some he).2
      have hdeleted : ({ k with chatEntries := k.chatEntries.delete chat } : StateManager).Sound :=
        ⟨hremoved.catalogued.deleteChats hsub, hremoved.owned.deleteChats hsub,
          hremoved.listed.deleteChats hsub⟩
      have hcoherent : ({ k with chatEntries := k.chatEntries.delete chat } :
          StateManager).Coherent := (h.congr hsame).delete hsub (fun _ _ hs => hs) rfl
      exact hcoherent.dispatchSession hdeleted trivial trivial
    · exact h

theorem Coherent.removeSession (h : m.Coherent) (session : Uri) :
    (m.removeSession session).Coherent := by
  unfold StateManager.removeSession
  cases hget : m.sessionStates.get session with
  | none => exact h
  | some entry =>
    have hdrop : ∀ k : StateManager, SameChats m k → ({ k with
        chatEntries := ((entry.state.chats.map (·.resource)).foldl
          (fun entries chat => entries.delete chat) k.chatEntries).delete
            (buildDefaultChatUri session)
        sessionStates := k.sessionStates.delete session } : StateManager).Coherent := by
      intro k hk
      refine (h.congr hk).delete (fun chat e he => ?_) (fun other e he => ?_) rfl
      · exact (get_foldl_delete _ _ (get_delete_some he).2).2
      · have he : (k.sessionStates.delete session).get other = some e := he
        rw [Record.get_delete] at he
        exact (ite_none_left_eq_some.mp he).2
    dsimp only
    split
    · exact hdrop _ ⟨rfl, rfl, rfl⟩
    · exact hdrop m ⟨rfl, rfl, rfl⟩

theorem Coherent.newSession (h : m.Coherent) (hsound : m.Sound)
    (hnone : m.sessionStates.get session = none) (entry : SessionEntry) (summary : SessionSummary)
    (turns : List Turn) (draft : Option Message) (title : Option String) :
    ((m.setSession session entry).ensureDefaultChat session summary turns draft title).Coherent := by
  unfold StateManager.ensureDefaultChat
  dsimp only
  obtain ⟨chatSummary, hsummary⟩ : ∃ chatSummary : ChatSummary, chatSummary =
    { createDefaultChatSummary summary (buildDefaultChatUri session) with
      title := title.getD "" } := ⟨_, rfl⟩
  have hresource : chatSummary.resource = buildDefaultChatUri session := by rw [hsummary]; rfl
  rw [← hsummary]
  have hentry : ((m.setSession session entry).setChat (buildDefaultChatUri session)
      { session, summary := chatSummary
        state := some { createChatState chatSummary with turns, draft } }).sessionStates.get
          session = some entry := by
    show (m.setSession session entry).sessionStates.get session = _
    rw [get_setSession, if_pos rfl]
  rw [hentry]
  intro chat e he se hse
  have he : ((m.setSession session entry).setChat (buildDefaultChatUri session)
      { session, summary := chatSummary
        state := some { createChatState chatSummary with turns, draft } }).chatEntries.get chat =
      some e := he
  rw [get_setSession] at hse
  rw [get_setChat] at he
  split at he
  · rename_i heq
    cases he
    rw [if_pos rfl] at hse
    cases hse
    have hcreated : ∀ k : StateManager, k.chatSummaryFromState
        { createChatState chatSummary with turns, draft } = chatSummary :=
      fun k => summary_createChatState k chatSummary turns draft
    show findBy ChatSummary.resource [chatSummary] chat = some (StateManager.chatSummaryFromState _ _)
    rw [hcreated]
    exact find?_cons_of_pos (by simpa using hresource.trans heq)
  · have hne : session ≠ e.session := by
      rintro rfl
      obtain ⟨old, hold, -⟩ := hsound.listed chat e he (some_ne_none _)
      rw [hnone] at hold
      cases hold
    rw [if_neg hne] at hse
    have hse : (m.setSession session entry).sessionStates.get e.session = some se := hse
    rw [get_setSession, if_neg hne] at hse
    exact h chat e he se hse

theorem Coherent.patchSession (h : m.Coherent) (session : Uri) (config : Option SessionConfigState)
    (customizations : Option (List Customization)) (project : Option Payload)
    (workingDirectories : Option (List Uri)) (modifiedAt : Timestamp) :
    (m.patchSession session config customizations project workingDirectories
      modifiedAt).Coherent := by
  unfold StateManager.patchSession
  split
  · exact h
  · rename_i entry hget
    intro chat e he se hse
    rw [get_setSession] at hse
    split at hse
    · rename_i heq
      cases hse
      exact h chat e he entry (heq ▸ hget)
    · exact h chat e he se hse

end StateManager

end Fumie.AgentHost
