import Fumie.AgentHost.Server.Ownership

/-!
# A subscriber of a session channel

`SessionReplica` is a subscriber that took a snapshot of the session and folds
`sessionReducer` over the envelopes of its channel. Session actions and the operations that
dispatch them keep the two states equal. A chat action does not go through the reducer: the
manager writes the catalog entry and the aggregate of the catalog into the session and
emits the status and the activity of the chat only, so the subscriber follows exactly when
there was nothing else to write (`Forwarded`).
-/

namespace Fumie.AgentHost

open Fumie.Lib List StateManager Option

/-! ## The subscriber -/

def sessionActionOn (session : Uri) (e : ActionEnvelope StateAction) : Option SessionAction :=
  match e.action with
  | .session action => if e.channel = session then some action else none
  | _ => none

def replay (session : Uri) (state : SessionState)
    (envelopes : List (ActionEnvelope StateAction)) : SessionState :=
  (envelopes.filterMap (sessionActionOn session)).foldl sessionReducer state

structure SessionReplica where
  manager : StateManager
  state : SessionState

def Dispatches : HostEvent → Bool
  | .dispatch _ _ _ => true
  | .perform (.addChat _ _ _ _) => true
  | .perform (.removeChat _ _) => true
  | .perform (.updateChatTitle _ _ _) => true
  | _ => false

def SessionReplica.step (session : Uri) (r : SessionReplica) (event : HostEvent) :
    Option SessionReplica :=
  if Dispatches event then
    let manager := r.manager.after event
    some ⟨manager, replay session r.state (manager.emitted.drop r.manager.emitted.length)⟩
  else none

def following (session : Uri) : System SessionReplica HostEvent :=
  .ofStep
    (fun r => managing.Reachable r.manager ∧
      (r.manager.getSnapshot session).map (·.state) = some (.session r.state))
    (SessionReplica.step session)

def SessionReplica.InStep (session : Uri) (r : SessionReplica) : Prop :=
  (r.manager.sessionStates.get session).map (·.state) = some r.state

/-! ## What a chat action forwards -/

def forwardedEntry (old nextEntry : ChatSummary) : ChatSummary :=
  if old.status = nextEntry.status then old
  else { old with status := nextEntry.status, activity := nextEntry.activity }

structure Forwarded (state : SessionState) (chat : Uri) (nextEntry : ChatSummary) : Prop where
  entry : ∀ old ∈ state.chats, old.resource = chat → nextEntry = forwardedEntry old nextEntry
  status : ∀ status, (StateManager.aggregateChatSummaries (state.chats.map fun c =>
    if c.resource = chat then nextEntry else c) state.defaultChat).status = some status →
      mergeSessionStatus state.status status = state.status
  activity : (StateManager.aggregateChatSummaries (state.chats.map fun c =>
    if c.resource = chat then nextEntry else c) state.defaultChat).activity = state.activity

def SessionReplica.Forwards (session : Uri) (r : SessionReplica) : HostEvent → Prop
  | .dispatch channel (.chat action) _ =>
    parseDefaultChatUri channel = some session →
      ∀ prev, r.manager.getChatState channel = some prev →
        Forwarded r.state channel (r.manager.chatSummaryFromState (chatReducer prev action))
  | _ => True

/-! ## Following -/

theorem replay_append (session : Uri) (state : SessionState)
    (envelopes envelopes' : List (ActionEnvelope StateAction)) :
    replay session state (envelopes ++ envelopes') =
      replay session (replay session state envelopes) envelopes' := by
  unfold replay
  rw [filterMap_append, foldl_append]

variable {action : StateAction} {entry : SessionEntry}

namespace StateManager

def Follows (session : Uri) (m m' : StateManager) : Prop :=
  ∃ envelopes, m'.emitted = m.emitted ++ envelopes ∧ (m'.sessionStates.get session).map (·.state) =
      (m.sessionStates.get session).map fun entry => replay session entry.state envelopes

variable {m m' m'' : StateManager} {session : Uri}

theorem Follows.trans (h : m.Follows session m') (h' : m'.Follows session m'') :
    m.Follows session m'' := by
  obtain ⟨envelopes, hemitted, hstate⟩ := h
  obtain ⟨envelopes', hemitted', hstate'⟩ := h'
  refine ⟨envelopes ++ envelopes', by rw [hemitted', hemitted, append_assoc], ?_⟩
  rw [hstate']
  cases hget : m.sessionStates.get session with
  | none =>
    rw [hget] at hstate
    rw [map_eq_none_iff.mp hstate]
    rfl
  | some entry =>
    rw [hget] at hstate
    obtain ⟨entry', hget', hentry'⟩ := map_eq_some_iff.mp hstate
    rw [hget']
    simp only [map_some, Option.some.injEq]
    rw [hentry', replay_append]

theorem Follows.of_same (hemitted : m'.emitted = m.emitted)
    (hstates : m'.sessionStates = m.sessionStates) : m.Follows session m' :=
  ⟨[], by rw [hemitted, append_nil], by rw [hstates]; rfl⟩

theorem Follows.refl (m : StateManager) (session : Uri) : m.Follows session m := .of_same rfl rfl

theorem follows_emit (haction : ∀ a, action ≠ .session a) (hemitted : m'.emitted = m.emitted)
    (hstates : m'.sessionStates = m.sessionStates) (channel : Uri) (origin : Option ActionOrigin)
    (reason : Option String) : m.Follows session (m'.emit channel action origin reason) := by
  refine ⟨_, congrArg (· ++ _) hemitted, ?_⟩
  rw [emit_sessionStates, hstates]
  have hnone : ∀ seq, sessionActionOn session ⟨channel, action, seq, origin, reason⟩ = none := by
    intro seq
    cases action with
    | session a => exact absurd rfl (haction a)
    | _ => rfl
  unfold replay
  rw [filterMap_cons_none (hnone _)]
  rfl

theorem follows_session (m : StateManager) (session channel : Uri) (action : SessionAction)
    (origin : Option ActionOrigin) :
    m.Follows session
      ((m.applySession channel action).emit channel (.session action) origin none) := by
  refine ⟨_, congrArg (· ++ _) (applySession_tables m channel action).2.2.1, ?_⟩
  rw [emit_sessionStates, get_applySession_session]
  by_cases h : channel = session
  · subst h
    rw [if_pos rfl, Option.map_map]
    unfold replay sessionActionOn
    simp [Function.comp_def]
  · rw [if_neg h]
    unfold replay sessionActionOn
    simp [h]

theorem follows_dispatchActiveSessions (hemitted : m'.emitted = m.emitted)
    (hstates : m'.sessionStates = m.sessionStates) :
    m.Follows session m'.dispatchActiveSessions := by
  exact follows_emit (by rintro a ⟨⟩) hemitted hstates _ _ _

theorem follows_removeChatActiveTurn (m : StateManager) (session owner chat : Uri) :
    m.Follows session (m.removeChatActiveTurn owner chat) := by
  unfold removeChatActiveTurn
  split
  · exact .refl m session
  · split
    · dsimp only
      split
      · exact follows_dispatchActiveSessions rfl rfl
      · exact .of_same rfl rfl
    · exact .refl m session

theorem follows_trackActiveTurn (m : StateManager) (session owner chat : Uri)
    (hadActive hasActive : Bool) :
    m.Follows session (m.trackActiveTurn owner chat hadActive hasActive) := by
  unfold trackActiveTurn
  split
  · unfold addChatActiveTurn
    dsimp only
    split
    · exact follows_dispatchActiveSessions rfl rfl
    · exact .of_same rfl rfl
  · exact follows_removeChatActiveTurn m session owner chat
  · exact .refl m session

/-! ## Chat actions -/

theorem mirrorChat_state {chat : Uri} {nextEntry : ChatSummary}
    (hnodup : (entry.state.chats.map ChatSummary.resource).Nodup)
    (h : Forwarded entry.state chat nextEntry) :
    (mirrorChat entry chat nextEntry).state =
      if (findBy ChatSummary.resource entry.state.chats chat).map (·.status) =
          some nextEntry.status then entry.state
      else sessionReducer entry.state (.chatUpdated chat (forwarded nextEntry)) := by
  obtain ⟨hentry, hstatus, hactivity⟩ := h
  obtain ⟨chats, hchats⟩ : ∃ chats, chats = entry.state.chats.map fun c =>
    if c.resource = chat then nextEntry else c := ⟨_, rfl⟩
  have hmirror : (mirrorChat entry chat nextEntry).state = { entry.state with chats } := by
    unfold mirrorChat
    dsimp only
    rw [← hchats] at hstatus hactivity ⊢
    rw [hactivity]
    cases hagg : (aggregateChatSummaries chats entry.state.defaultChat).status with
    | none => rfl
    | some status =>
      rw [map_some, getD_some, hstatus status hagg]
  have hforwarded : chats = entry.state.chats.map fun c =>
      if c.resource = chat then forwardedEntry c nextEntry else c := by
    rw [hchats]
    refine map_congr_left fun c hc => ?_
    split
    · rename_i hres
      exact hentry c hc hres
    · rfl
  rw [hmirror]
  cases hfind : findBy ChatSummary.resource entry.state.chats chat with
  | none =>
    have hnot := findBy_eq_none_iff.mp hfind
    have hsame : chats = entry.state.chats := by
      rw [hchats]
      refine (map_congr_left fun c hc => ?_).trans (map_id _)
      exact if_neg fun hres => hnot (mem_map.mpr ⟨c, hc, hres⟩)
    have hidx : (entry.state.chats.findIdx? fun c => c.resource = chat) = none := by
      refine findIdx?_eq_none_iff.mpr fun c hc => ?_
      exact decide_eq_false fun hres => hnot (mem_map.mpr ⟨c, hc, hres⟩)
    rw [if_neg (by simp), hsame]
    unfold sessionReducer
    dsimp only
    rw [hidx]
  | some old =>
    obtain ⟨hold, hres⟩ := findBy_some hfind
    have heq : ∀ c ∈ entry.state.chats, c.resource = chat → c = old := fun c hc hcres =>
      inj_on_of_nodup_map hnodup hc hold (hcres.trans hres.symm)
    by_cases hst : old.status = nextEntry.status
    · have hsome : (some old).map (·.status) = some nextEntry.status := congrArg some hst
      rw [if_pos hsome, hforwarded]
      have hsame : (entry.state.chats.map fun c =>
          if c.resource = chat then forwardedEntry c nextEntry else c) = entry.state.chats := by
        refine (map_congr_left fun c hc => ?_).trans (map_id _)
        split
        · rename_i hcres
          rw [heq c hc hcres]
          exact if_pos hst
        · rfl
      rw [hsame]
    · have hsome : ¬(some old).map (·.status) = some nextEntry.status :=
        fun h => hst (Option.some.inj h)
      rw [if_neg hsome]
      unfold sessionReducer
      dsimp only
      cases hidx : entry.state.chats.findIdx? fun c => c.resource = chat with
      | none =>
        have hfalse := findIdx?_eq_none_iff.mp hidx old hold
        rw [decide_eq_false_iff_not] at hfalse
        exact absurd hres hfalse
      | some idx =>
        dsimp only
        rw [modify_eq_map hnodup hidx, hforwarded]
        congr 1
        refine map_congr_left fun c hc => ?_
        split
        · rename_i hcres
          rw [heq c hc hcres]
          exact if_neg hst
        · rfl

theorem Follows.setSession (h : m.Follows session m') {owner : Uri}
    (hentry : owner = session → (m'.sessionStates.get session).map (·.state) = some entry.state) :
    m.Follows session (m'.setSession owner entry) := by
  obtain ⟨envelopes, hemitted, hstate⟩ := h
  refine ⟨envelopes, hemitted, ?_⟩
  rw [get_setSession, ← hstate]
  by_cases howner : owner = session
  · rw [if_pos howner]
    exact (hentry howner).symm
  · rw [if_neg howner]

theorem follows_onChatStateChanged (hcatalogued : m.Catalogued) (session owner chat : Uri)
    (prev next : ChatState)
    (h : owner = session → ∀ entry, m.sessionStates.get session = some entry →
      Forwarded entry.state chat (m.chatSummaryFromState next)) :
    m.Follows session (m.onChatStateChanged owner chat prev next) := by
  have htrack := follows_trackActiveTurn m session owner chat prev.activeTurn.isSome
    next.activeTurn.isSome
  have hsame := trackActiveTurn_sameChats m owner chat prev.activeTurn.isSome next.activeTurn.isSome
  unfold onChatStateChanged
  generalize m.trackActiveTurn owner chat prev.activeTurn.isSome next.activeTurn.isSome = t
    at htrack hsame ⊢
  dsimp only
  rw [hsame.sessionStates, chatSummaryFromState_congr hsame.isAutoApproved]
  cases hget : m.sessionStates.get owner with
  | none => exact htrack
  | some entry =>
    dsimp only
    have hgett : t.sessionStates.get owner = some entry := hsame.sessionStates ▸ hget
    have hforward : t.forwardChatStatus owner chat entry.state (m.chatSummaryFromState next) =
        if (findBy ChatSummary.resource entry.state.chats chat).map (·.status) =
            some (m.chatSummaryFromState next).status then t
        else t.dispatchSession owner
          (.chatUpdated chat (forwarded (m.chatSummaryFromState next))) := rfl
    rw [hforward]
    have hstate := fun howner : owner = session => mirrorChat_state
      (hcatalogued.nodup owner entry hget) (h howner entry (howner ▸ hget))
    split
    · rename_i hsame
      refine htrack.setSession fun howner => ?_
      rw [hstate howner, if_pos hsame, ← howner, hgett]
      rfl
    · rename_i hne
      refine (htrack.trans (follows_session t session owner _ none)).setSession fun howner => ?_
      rw [hstate howner, if_neg hne, ← howner, emit_sessionStates, get_applySession_session,
        if_pos rfl, hgett]
      rfl

theorem follows_applyChat (hcatalogued : m.Catalogued) (session owner chat : Uri)
    (action : ChatAction)
    (h : owner = session → ∀ entry, m.sessionStates.get session = some entry →
      ∀ prev, m.getChatState chat = some prev →
        Forwarded entry.state chat (m.chatSummaryFromState (chatReducer prev action))) :
    m.Follows session (m.applyChat owner chat action) := by
  unfold applyChat
  cases hget : m.chatEntries.get chat with
  | none => exact .refl m session
  | some entry =>
    cases hprev : entry.state with
    | none =>
      dsimp only
      rw [hprev]
      exact .refl m session
    | some prev =>
      dsimp only
      rw [hprev]
      have hresource : (chatReducer prev action).resource = chat :=
        (chatReducer_dated prev action).resource.trans
          (hcatalogued.state chat entry prev hget hprev)
      refine @Follows.trans _ (m.setChat chat
        { entry with state := some (chatReducer prev action) }) _ _ (.of_same rfl rfl) ?_
      refine follows_onChatStateChanged (hcatalogued.setState hget ?_) _ _ _ _ _ ?_
      · rintro s hs
        cases hs
        exact hresource
      · intro howner e he
        refine h howner e he prev ?_
        unfold getChatState
        rw [hget]
        exact hprev

/-! ## Operations -/

theorem follows_dispatchSession (m : StateManager) (session owner : Uri)
    (action : SessionAction) : m.Follows session (m.dispatchSession owner action) :=
  follows_session m session owner action none

theorem follows_updateChatTitle (m : StateManager) (session owner chat : Uri) (title : String) :
    m.Follows session (m.updateChatTitle owner chat title) := by
  refine Follows.trans ?_ (follows_dispatchSession _ session owner _)
  split
  · exact .refl m session
  · exact .of_same rfl rfl

theorem follows_snapshotDefaultChatTitle (m : StateManager) (session owner : Uri)
    (state : SessionState) : m.Follows session (m.snapshotDefaultChatTitle owner state) := by
  unfold snapshotDefaultChatTitle
  dsimp only
  split
  · split
    · exact follows_updateChatTitle m session owner _ _
    · exact .refl m session
  · exact .refl m session

theorem follows_addChat (m : StateManager) (session owner chat : Uri) (options : ChatOptions)
    (turns : List Turn) : m.Follows session (m.addChat owner chat options turns) := by
  unfold addChat
  split
  · exact .refl m session
  · rename_i entry hget
    split
    · exact .refl m session
    · refine Follows.trans ?_ (follows_dispatchSession _ session owner _)
      exact (follows_snapshotDefaultChatTitle m session owner entry.state).trans (.of_same rfl rfl)

theorem follows_removeChat (m : StateManager) (session owner chat : Uri) :
    m.Follows session (m.removeChat owner chat) := by
  unfold removeChat
  split
  · exact .refl m session
  · split
    · refine Follows.trans ?_ (follows_dispatchSession _ session owner _)
      exact (follows_removeChatActiveTurn m session owner chat).trans (.of_same rfl rfl)
    · exact .refl m session

theorem follows_applyAndEmit (hcatalogued : m.Catalogued) (session channel : Uri)
    (origin : Option ActionOrigin)
    (h : ∀ a, action = .chat a → parseDefaultChatUri channel = some session →
      ∀ entry, m.sessionStates.get session = some entry →
      ∀ prev, m.getChatState channel = some prev →
        Forwarded entry.state channel (m.chatSummaryFromState (chatReducer prev a))) :
    m.Follows session (m.applyAndEmit channel action origin) := by
  unfold applyAndEmit
  cases action with
  | root _ | changeset _ =>
    dsimp only
    split
    · exact .refl m session
    · exact follows_emit (by rintro a ⟨⟩) rfl rfl _ _ _
  | session action => exact follows_session m session channel action origin
  | chat action =>
    dsimp only
    split
    · rename_i owner chatId
      refine Follows.trans (follows_applyChat hcatalogued session owner _ action ?_)
        (follows_emit (by rintro a ⟨⟩) rfl rfl _ _ _)
      rintro rfl entry he prev hprev
      exact h action rfl rfl entry he prev hprev
    · exact .refl m session
  | annotations action => exact follows_emit (by rintro a ⟨⟩) rfl rfl _ _ _
  | _ => exact follows_emit (by rintro a ⟨⟩) rfl rfl _ _ _

end StateManager

/-! ## Runs -/

namespace SessionReplica

variable {session : Uri} {r : SessionReplica}

theorem inStep_of_snapshot {m : StateManager} {state : SessionState}
    (h : (m.getSnapshot session).map (·.state) = some (.session state)) :
    (m.sessionStates.get session).map (·.state) = some state := by
  unfold getSnapshot at h
  split at h
  · cases h
  · split at h
    · cases h
    · split at h
      · obtain ⟨snapshot, hsnapshot, hstate⟩ := map_eq_some_iff.mp h
        obtain ⟨chat, -, rfl⟩ := map_eq_some_iff.mp hsnapshot
        cases hstate
      · split at h
        · cases h
        · obtain ⟨snapshot, hsnapshot, hstate⟩ := map_eq_some_iff.mp h
          obtain ⟨entry, hget, rfl⟩ := map_eq_some_iff.mp hsnapshot
          cases hstate
          rw [hget]
          rfl

theorem follows_after (hcatalogued : r.manager.Catalogued) (hr : r.InStep session)
    {event : HostEvent} (hdispatches : Dispatches event) (hforwards : r.Forwards session event) :
    r.manager.Follows session (r.manager.after event) := by
  cases event with
  | dispatch channel action origin =>
    refine StateManager.follows_applyAndEmit hcatalogued session channel origin ?_
    rintro a rfl howner entry hget prev hprev
    have hstate : entry.state = r.state := by
      have h : (r.manager.sessionStates.get session).map (·.state) = some r.state := hr
      rw [hget] at h
      exact Option.some.inj h
    rw [hstate]
    exact hforwards howner prev hprev
  | perform operation =>
    cases operation with
    | addChat owner chat options turns => exact StateManager.follows_addChat _ _ _ _ _ _
    | removeChat owner chat => exact StateManager.follows_removeChat _ _ _ _
    | updateChatTitle owner chat title => exact StateManager.follows_updateChatTitle _ _ _ _ _
    | _ => cases hdispatches

/-- A subscriber stays in step as long as every chat action forwards what it writes. -/
theorem inStep_of_reachable
    (h : (following session).ReachableVia (fun r event => r.Forwards session event) r) :
    r.InStep session := by
  refine (@System.ReachableVia.invariant _ _ _ _
    (fun r => r.manager.Catalogued ∧ r.InStep session) ?_ ?_ _ h).2
  · rintro s ⟨hmanager, hsnapshot⟩
    exact ⟨catalogued_of_reachable hmanager, inStep_of_snapshot hsnapshot⟩
  · rintro s event s' ⟨hcatalogued, hin⟩ hok hstep
    obtain ⟨hdispatches, hs'⟩ := ite_none_right_eq_some.mp hstep
    cases Option.some.inj hs'
    refine ⟨hcatalogued.after event, ?_⟩
    obtain ⟨envelopes, hemitted, hstate⟩ := follows_after hcatalogued hin hdispatches hok
    have hin : (s.manager.sessionStates.get session).map (·.state) = some s.state := hin
    obtain ⟨entry, hget, hentry⟩ := map_eq_some_iff.mp hin
    show ((s.manager.after event).sessionStates.get session).map (·.state) = some (replay session
      s.state ((s.manager.after event).emitted.drop s.manager.emitted.length))
    rw [hstate, hget, hemitted, drop_left, ← hentry]
    rfl

def restored : SessionReplica where
  manager := restoredHost
  state := ((restoredHost.sessionStates.get restoredSummary.resource).get rfl).state

theorem restored_init : (following restoredSummary.resource).init restored :=
  ⟨reachable_restoredHost, rfl⟩

def draftWritten : HostEvent :=
  .dispatch (buildDefaultChatUri restoredSummary.resource) (.chat (.draftChanged (some ⟨"d"⟩))) none

theorem inStep_of_reachable_draft : InStep restoredSummary.resource
      ((restored.step restoredSummary.resource draftWritten).get rfl) := by
  refine inStep_of_reachable (.step (i := draftWritten) (.init restored_init) ?_
    (some_get rfl).symm)
  intro _ prev hprev
  cases hprev
  refine ⟨by decide, fun status hstatus => ?_, by decide⟩
  cases hstatus
  decide

def turnBegun : HostEvent :=
  .dispatch (buildDefaultChatUri restoredSummary.resource)
    (.chat (.turnStarted "t" 5 ⟨"hi"⟩ none)) none

/-- A turn starts: the manager has the session in progress, the subscriber has it idle. -/
theorem not_always_inStep : ¬ ∀ session r, (following session).Reachable r → r.InStep session := by
  intro h
  have hrun : (following restoredSummary.resource).Reachable
      ((restored.step restoredSummary.resource turnBegun).get rfl) :=
    .step (i := turnBegun) (.init restored_init) trivial (some_get rfl).symm
  have hin := h _ _ hrun
  have hstatus := congrArg (Option.map fun state : SessionState => state.status) hin
  revert hstatus
  decide

end SessionReplica

end Fumie.AgentHost
