import Fumie.AgentHost.Server.Coherence
import Fumie.AgentHost.Server.SummaryStream

/-!
# What changes a summary

`summaryAt` is the summary of a session as the manager alone knows it. `Retouches` says what
one step of the manager may do to the summaries: those of all sessions but one stay, and of
that one the provider and the annotations. `retouches_applyAndEmit` is the reason that
summaries are not lost: the one session is the one `marked` names.
-/

namespace Fumie.AgentHost

open Fumie.Lib Option

/-! ## The session reducer -/

variable (state : SessionState)

theorem onCustomizations_toSessionMetadata
    (edit : List Customization → Option (List Customization)) :
    (onCustomizations state edit).toSessionMetadata = state.toSessionMetadata ∧
      (onCustomizations state edit)._meta = state._meta := by
  unfold onCustomizations
  split
  · exact ⟨rfl, rfl⟩
  · exact ⟨rfl, rfl⟩

theorem sessionReducer_fixed (action : SessionAction) :
    (sessionReducer state action).provider = state.provider ∧
      (sessionReducer state action).annotations = state.annotations := by
  have hcustom : ∀ edit, (onCustomizations state edit).provider = state.provider ∧
      (onCustomizations state edit).annotations = state.annotations := by
    intro edit
    have h := (onCustomizations_toSessionMetadata state edit).1
    exact ⟨congrArg SessionMetadata.provider h, congrArg SessionMetadata.annotations h⟩
  cases action with
  | customizationToggled _ _ | customizationRemoved _ | mcpServerStateChanged _ _ _
  | mcpServerStartRequested _ | mcpServerStopRequested _ => exact hcustom _
  | chatRemoved _ | chatUpdated _ _ | configChanged _ _ | activeClientRemoved _
  | workingDirectorySet _ | workingDirectoryReplaced _ _ | inputNeededRemoved _ =>
    unfold sessionReducer
    dsimp only
    split
    · exact ⟨rfl, rfl⟩
    · exact ⟨rfl, rfl⟩
  | workingDirectoryRemoved directory =>
    unfold sessionReducer
    dsimp only
    split
    · exact ⟨rfl, rfl⟩
    · split
      · exact ⟨rfl, rfl⟩
      · exact ⟨rfl, rfl⟩
  | _ => exact ⟨rfl, rfl⟩

def OnChats : SessionAction → Prop
  | .chatAdded _ => True
  | .chatRemoved _ => True
  | .chatUpdated _ _ => True
  | _ => False

theorem sessionReducer_onChats {action : SessionAction} (h : OnChats action) (state : SessionState) :
    (sessionReducer state action).toSessionMetadata = state.toSessionMetadata ∧
      (sessionReducer state action)._meta = state._meta := by
  cases action with
  | chatAdded summary => exact ⟨rfl, rfl⟩
  | chatRemoved _ | chatUpdated _ _ =>
    unfold sessionReducer
    dsimp only
    split
    · exact ⟨rfl, rfl⟩
    · exact ⟨rfl, rfl⟩
  | _ => exact absurd h not_false

variable {e e' : SessionEntry}

namespace StateManager

variable {m m' m'' : StateManager}

/-! ## The summary of an entry -/

theorem toSummary_congr {e e' : SessionEntry}
    (hdata : e'.state.toSessionMetadata = e.state.toSessionMetadata)
    (hmeta : e'.state._meta = e.state._meta) (htime : e'.modifiedAt = e.modifiedAt)
    (session : Uri) : toSummary session e' = toSummary session e := by
  unfold toSummary
  rw [hdata, hmeta, htime]

theorem toSummary_of_fieldsEqual (hfields : summaryFieldsEqual e.state e'.state = true)
    (hprovider : e'.state.provider = e.state.provider) (htime : e'.modifiedAt = e.modifiedAt)
    (session : Uri) : toSummary session e' = toSummary session e := by
  simp only [summaryFieldsEqual, Bool.and_eq_true, decide_eq_true_eq] at hfields
  obtain ⟨⟨⟨⟨⟨⟨htitle, hstatus⟩, hactivity⟩, hproject⟩, hdirectories⟩, hannotations⟩, hmeta⟩ :=
    hfields
  simp only [toSummary]
  rw [htitle, hstatus, hactivity, hproject, hdirectories, hannotations, hmeta, hprovider, htime]

def summaryAt (m : StateManager) (session : Uri) : Option SessionSummary :=
  (m.sessionStates.get session).map (toSummary session)

def SameBase (a b : SessionSummary) : Prop :=
  a.provider = b.provider ∧ a.annotations = b.annotations

theorem sameBase_toSummary (hprovider : e'.state.provider = e.state.provider)
    (hannotations : e'.state.annotations = e.state.annotations) (session : Uri) :
    SameBase (toSummary session e) (toSummary session e') :=
  ⟨hprovider.symm, hannotations.symm⟩

structure Retouches (touched : Option Uri) (m m' : StateManager) : Prop where
  kept : ∀ session, touched ≠ some session → m'.summaryAt session = m.summaryAt session
  base : ∀ session after, m'.summaryAt session = some after →
    ∃ before, m.summaryAt session = some before ∧ SameBase before after

theorem Retouches.of_kept (h : ∀ session, m'.summaryAt session = m.summaryAt session)
    (touched : Option Uri) : Retouches touched m m' :=
  ⟨fun session _ => h session, fun session after hafter =>
    ⟨after, (h session).symm.trans hafter, rfl, rfl⟩⟩

theorem Retouches.of_marked {session : Uri} {marked : Bool} (h : Retouches (some session) m m')
    (hunmarked : marked = false → m'.summaryAt session = m.summaryAt session) :
    Retouches (if marked then some session else none) m m' := by
  cases marked with
  | true => exact h
  | false =>
    apply Retouches.of_kept
    intro other
    by_cases heq : session = other
    · exact heq ▸ hunmarked rfl
    · exact h.kept other fun hsome => heq (Option.some.inj hsome)

variable {entry : SessionEntry} {session : Uri}

theorem summaryAt_of_get (h : m.sessionStates.get session = some entry) :
    m.summaryAt session = some (toSummary session entry) := by
  unfold summaryAt
  rw [h]
  rfl

theorem summaryAt_congr (h : m'.sessionStates = m.sessionStates) (session : Uri) :
    m'.summaryAt session = m.summaryAt session := by
  unfold summaryAt
  rw [h]

theorem summaryAt_setSession (m : StateManager) (session other : Uri) (entry : SessionEntry) :
    (m.setSession session entry).summaryAt other =
      if session = other then some (toSummary other entry) else m.summaryAt other := by
  unfold summaryAt
  rw [get_setSession]
  split
  · rfl
  · rfl

theorem retouches_setSession {old new : SessionEntry}
    (hold : m.sessionStates.get session = some old)
    (hprovider : new.state.provider = old.state.provider)
    (hannotations : new.state.annotations = old.state.annotations) :
    Retouches (some session) m (m.setSession session new) := by
  refine ⟨fun other hne => ?_, fun other after hafter => ?_⟩
  · rw [summaryAt_setSession, if_neg fun heq => hne (congrArg some heq)]
  · rw [summaryAt_setSession] at hafter
    split at hafter
    · rename_i heq
      subst heq
      obtain rfl := Option.some.inj hafter
      exact ⟨toSummary session old, summaryAt_of_get hold,
        sameBase_toSummary hprovider hannotations session⟩
    · exact ⟨after, hafter, rfl, rfl⟩

/-! ## Session actions -/

theorem summaryAt_applySession_of_ne {other : Uri} (hne : session ≠ other) (m : StateManager)
    (action : SessionAction) :
    (m.applySession session action).summaryAt other = m.summaryAt other := by
  unfold summaryAt
  rw [get_applySession_session, if_neg hne]

variable {action : SessionAction}

theorem summaryAt_onChats (h : OnChats action) (m : StateManager) (session other : Uri) :
    (m.applySession session action).summaryAt other = m.summaryAt other := by
  by_cases heq : session = other
  · subst heq
    unfold summaryAt
    rw [get_applySession_session, if_pos rfl, map_map]
    congr 1
    funext entry
    obtain ⟨hdata, hmeta⟩ := sessionReducer_onChats h entry.state
    exact @toSummary_congr entry { entry with state := sessionReducer entry.state action } hdata
      hmeta rfl session
  · exact summaryAt_applySession_of_ne heq m action

theorem retouches_applySession (m : StateManager) (session : Uri) (action : SessionAction) :
    Retouches (if m.sessionMarked session action then some session else none) m
      (m.applySession session action) := by
  cases hget : m.sessionStates.get session with
  | none =>
    rw [applySession_of_none hget]
    exact .of_kept (fun _ => rfl) _
  | some entry =>
    obtain ⟨hprovider, hannotations⟩ := sessionReducer_fixed entry.state action
    obtain ⟨new, hnew⟩ : ∃ new, new =
      { entry with state := sessionReducer entry.state action } := ⟨_, rfl⟩
    have hstate : new.state = sessionReducer entry.state action := by rw [hnew]
    rw [← hstate] at hprovider hannotations
    have hafter : (m.applySession session action).summaryAt session =
        some (toSummary session new) := by
      unfold summaryAt
      rw [get_applySession_session, if_pos rfl, hget, hnew]
      rfl
    apply Retouches.of_marked
    · refine ⟨fun other hne => ?_, fun other after hsome => ?_⟩
      · exact summaryAt_applySession_of_ne (fun heq => hne (congrArg some heq)) m action
      · by_cases heq : session = other
        · subst heq
          rw [hafter] at hsome
          obtain rfl := Option.some.inj hsome
          exact ⟨toSummary session entry, summaryAt_of_get hget,
            sameBase_toSummary hprovider hannotations session⟩
        · rw [summaryAt_applySession_of_ne heq] at hsome
          exact ⟨after, hsome, rfl, rfl⟩
    · intro hunmarked
      have hequal : summaryFieldsEqual entry.state new.state = true := by
        unfold sessionMarked at hunmarked
        rw [hget] at hunmarked
        rw [hstate]
        simpa using hunmarked
      have htime : new.modifiedAt = entry.modifiedAt := by rw [hnew]
      rw [hafter, summaryAt_of_get hget]
      exact congrArg some (toSummary_of_fieldsEqual hequal hprovider htime session)

theorem summaryAt_dispatchSession (h : OnChats action) (m : StateManager) (session other : Uri) :
    (m.dispatchSession session action).summaryAt other = m.summaryAt other :=
  (summaryAt_congr rfl other).trans (summaryAt_onChats h m session other)

/-! ## Chat actions -/

theorem summaryAt_forwardStatus (m : StateManager) (session chat other : Uri)
    (entry : SessionEntry) (nextEntry : ChatSummary) :
    (m.forwardStatus session chat entry nextEntry).summaryAt other = m.summaryAt other := by
  unfold forwardStatus
  split
  · rfl
  · have hchats : OnChats (.chatUpdated chat (forwarded nextEntry)) := trivial
    exact summaryAt_onChats hchats m session other

variable {nextEntry : ChatSummary}

theorem retouches_mirrorChat {chat : Uri} (hget : m.sessionStates.get session = some entry)
    (hafter : ∀ other, m'.summaryAt other =
      if session = other then some (toSummary other (mirrorChat entry chat nextEntry))
      else m.summaryAt other) : Retouches (some session) m m' := by
  refine ⟨fun other hne => ?_, fun other after hsome => ?_⟩
  · rw [hafter, if_neg fun heq => hne (congrArg some heq)]
  · rw [hafter] at hsome
    by_cases heq : session = other
    · subst heq
      rw [if_pos rfl] at hsome
      obtain rfl := Option.some.inj hsome
      exact ⟨toSummary session entry, summaryAt_of_get hget, rfl, rfl⟩
    · rw [if_neg heq] at hsome
      exact ⟨after, hsome, rfl, rfl⟩

theorem toSummary_mirrorChat {chat : Uri}
    (hstatus : (mirrorChat entry chat nextEntry).state.status = entry.state.status)
    (hactivity : (mirrorChat entry chat nextEntry).state.activity = entry.state.activity)
    (htime : (mirrorChat entry chat nextEntry).modifiedAt = entry.modifiedAt) (session : Uri) :
    toSummary session (mirrorChat entry chat nextEntry) = toSummary session entry := by
  have hdata : (mirrorChat entry chat nextEntry).state.toSessionMetadata =
      { entry.state.toSessionMetadata with
        status := (mirrorChat entry chat nextEntry).state.status
        activity := (mirrorChat entry chat nextEntry).state.activity } := rfl
  apply toSummary_congr
  · rw [hdata, hstatus, hactivity]
  · rfl
  · exact htime

theorem retouches_applyChat (m : StateManager) (session chat : Uri) (action : ChatAction) :
    Retouches (if m.chatMarked session chat action then some session else none) m
      (m.applyChat session chat action) := by
  unfold applyChat
  cases hchat : m.chatEntries.get chat with
  | none => exact .of_kept (fun _ => rfl) _
  | some chatEntry =>
    obtain ⟨owner, registered, loaded⟩ := chatEntry
    cases loaded with
    | none => exact .of_kept (fun _ => rfl) _
    | some prev =>
      obtain ⟨t, ht⟩ : ∃ t, t = m.setChat chat
        ⟨owner, registered, some (chatReducer prev action)⟩ := ⟨_, rfl⟩
      have hsessions : t.sessionStates = m.sessionStates := by
        rw [ht]
        rfl
      have happrove : t.autoApproveBySetting = m.autoApproveBySetting := by
        rw [ht]
        rfl
      dsimp only
      rw [← ht]
      cases hget : m.sessionStates.get session with
      | none =>
        rw [onChatStateChanged_of_none (hsessions ▸ hget)]
        apply Retouches.of_kept
        intro other
        have hsame := trackActiveTurn_sameChats t session chat prev.activeTurn.isSome
          (chatReducer prev action).activeTurn.isSome
        exact summaryAt_congr (hsame.sessionStates.trans hsessions) other
      | some entry =>
        have hchanged : ChatChanged t session chat entry prev (chatReducer prev action)
            (t.onChatStateChanged session chat prev (chatReducer prev action)) :=
          onChatStateChanged_spec (hsessions ▸ hget) chat prev (chatReducer prev action)
        have hspec := hchanged.chats.sessionStates
        rw [chatSummaryFromState_congr happrove] at hspec
        have hafter : ∀ other, (t.onChatStateChanged session chat prev
            (chatReducer prev action)).summaryAt other =
            if session = other then
              some (toSummary other (mirrorChat entry chat
                (m.chatSummaryFromState (chatReducer prev action))))
            else m.summaryAt other := by
          intro other
          rw [summaryAt_congr hspec, summaryAt_setSession, summaryAt_forwardStatus,
            summaryAt_congr hsessions]
        apply Retouches.of_marked (retouches_mirrorChat hget hafter)
        intro hunmarked
        unfold chatMarked at hunmarked
        rw [hchat, hget] at hunmarked
        simp only [bind_some, Bool.not_eq_false', Bool.and_eq_true, decide_eq_true_eq] at hunmarked
        obtain ⟨⟨hstatus, hactivity⟩, htime⟩ := hunmarked
        rw [hafter, if_pos rfl, summaryAt_of_get hget]
        exact congrArg some (toSummary_mirrorChat hstatus hactivity htime session)

/-! ## A dispatch -/

theorem retouches_applyAndEmit (m : StateManager) (channel : Uri) (action : StateAction)
    (origin : Option ActionOrigin) :
    Retouches (m.marked channel action) m (m.applyAndEmit channel action origin) := by
  have hafter := after_cases m (.dispatch channel action origin)
  show Retouches _ m (m.after (.dispatch channel action origin))
  generalize m.after (.dispatch channel action origin) = m' at hafter ⊢
  cases hafter with
  | aside h => exact .of_kept (fun session => summaryAt_congr h.sessionStates session) _
  | @session _ a =>
    obtain ⟨hkept, hbase⟩ := retouches_applySession m channel a
    exact ⟨hkept, hbase⟩
  | @chat owner chatId a =>
    obtain ⟨hkept, hbase⟩ := retouches_applyChat m owner (.chat owner chatId) a
    exact ⟨hkept, hbase⟩

/-! ## Operations -/

theorem summaryAt_updateChatTitle (m : StateManager) (session chat other : Uri) (title : String) :
    (m.updateChatTitle session chat title).summaryAt other = m.summaryAt other := by
  unfold updateChatTitle
  have hchats : ∀ changes, OnChats (.chatUpdated chat changes) := fun _ => trivial
  rw [summaryAt_dispatchSession (hchats _)]
  split
  · rfl
  · rfl

theorem summaryAt_snapshotDefaultChatTitle (m : StateManager) (session other : Uri)
    (state : SessionState) :
    (m.snapshotDefaultChatTitle session state).summaryAt other = m.summaryAt other := by
  unfold snapshotDefaultChatTitle
  dsimp only
  split
  · split
    · exact summaryAt_updateChatTitle m session _ other _
    · rfl
  · rfl

theorem summaryAt_addChat (m : StateManager) (session chat other : Uri) (options : ChatOptions)
    (turns : List Turn) : (m.addChat session chat options turns).summaryAt other =
      m.summaryAt other := by
  unfold addChat
  split
  · rfl
  · rename_i entry hget
    split
    · rfl
    · have hchats : ∀ summary, OnChats (.chatAdded summary) := fun _ => trivial
      rw [summaryAt_dispatchSession (hchats _)]
      exact summaryAt_snapshotDefaultChatTitle m session other entry.state

theorem summaryAt_registerRestoredChatSummary (m : StateManager) (session chat other : Uri)
    (options : ChatOptions) : (m.registerRestoredChatSummary session chat options).summaryAt other =
      m.summaryAt other := by
  unfold registerRestoredChatSummary
  split
  · rfl
  · rename_i entry hget
    split
    · rfl
    · dsimp only
      obtain ⟨t, ht⟩ : ∃ t, t = m.snapshotDefaultChatTitle session entry.state := ⟨_, rfl⟩
      have hkept : ∀ other, t.summaryAt other = m.summaryAt other := by
        intro other
        rw [ht]
        exact summaryAt_snapshotDefaultChatTitle m session other entry.state
      rw [← ht]
      obtain ⟨current, hcurrent, -⟩ :=
        map_eq_some_iff.mp ((hkept session).trans (summaryAt_of_get hget))
      rw [hcurrent, getD_some, ← hkept other]
      show (t.setSession session _).summaryAt other = _
      rw [summaryAt_setSession]
      split
      · rename_i heq
        subst heq
        rw [summaryAt_of_get hcurrent]
        rfl
      · rfl

theorem summaryAt_removeChat (m : StateManager) (session chat other : Uri) :
    (m.removeChat session chat).summaryAt other = m.summaryAt other := by
  unfold removeChat
  split
  · rfl
  · split
    · have hchats : OnChats (.chatRemoved chat) := trivial
      rw [summaryAt_dispatchSession hchats]
      exact summaryAt_congr (removeChatActiveTurn_sameChats m session chat).sessionStates other
    · rfl

theorem summaryAt_perform {operation : Operation} (h : SummaryStream.ofChats operation = true)
    (m : StateManager) (session : Uri) :
    (m.perform operation).summaryAt session = m.summaryAt session := by
  have hafter := after_cases m (.perform operation)
  show (m.after (.perform operation)).summaryAt session = _
  generalize m.after (.perform operation) = m' at hafter ⊢
  cases hafter with
  | aside hsame => exact summaryAt_congr hsame.sessionStates session
  | addChat => exact summaryAt_addChat m _ _ session _ _
  | registerRestoredChatSummary => exact summaryAt_registerRestoredChatSummary m _ _ session _
  | resolveChatState => exact summaryAt_congr (resolveChatState_sessionStates m _ _ _) session
  | removeChat => exact summaryAt_removeChat m _ _ session
  | updateChatTitle => exact summaryAt_updateChatTitle m _ _ session _
  | seedDefaultChatTurns => exact summaryAt_congr (seedDefaultChatTurns_sessionStates m _ _) session
  | createSession | restoreSession | removeSession | patchSession => cases h

/-! ## Sessions -/

theorem summaryAt_ensureDefaultChat (m : StateManager) (session other : Uri)
    (summary : SessionSummary) (turns : List Turn) (draft : Option Message) (title : Option String) :
    (m.ensureDefaultChat session summary turns draft title).summaryAt other =
      m.summaryAt other := by
  unfold ensureDefaultChat
  dsimp only
  split
  · rfl
  · rename_i entry hget
    rw [summaryAt_setSession]
    split
    · rename_i heq
      subst heq
      exact (summaryAt_of_get hget).symm
    · rfl

def seeded (summary : SessionSummary) : SessionSummary := { summary with origin := none }

variable {summary : SessionSummary}

theorem summaryAt_createSession (hnew : m.sessionStates.get summary.resource = none) (other : Uri) :
    (m.createSession summary).summaryAt other =
      if summary.resource = other then some (seeded summary) else m.summaryAt other := by
  unfold createSession
  dsimp only
  rw [hnew]
  rw [summaryAt_ensureDefaultChat, summaryAt_setSession]
  split
  · rename_i heq
    subst heq
    rfl
  · rfl

theorem summaryAt_restoreSession (hnew : m.sessionStates.get summary.resource = none)
    (turns : List Turn) (draft : Option Message) (title : Option String) (other : Uri) :
    (m.restoreSession summary turns draft title).summaryAt other =
      if summary.resource = other then some (seeded summary) else m.summaryAt other := by
  unfold restoreSession
  dsimp only
  rw [hnew]
  rw [summaryAt_ensureDefaultChat, summaryAt_setSession]
  split
  · rename_i heq
    subst heq
    rfl
  · rfl

theorem summaryAt_removeSession (m : StateManager) (session other : Uri) :
    (m.removeSession session).summaryAt other =
      if session = other then none else m.summaryAt other := by
  have hdelete : ∀ {t : StateManager}, t.sessionStates = m.sessionStates →
      ((t.sessionStates.delete session).get other).map (toSummary other) =
        if session = other then none else m.summaryAt other := by
    intro t ht
    rw [Record.get_delete, ht]
    split
    · rfl
    · rfl
  unfold removeSession
  split
  · rename_i hnone
    split
    · rename_i heq
      subst heq
      unfold summaryAt
      rw [hnone]
      rfl
    · rfl
  · split
    · exact hdelete rfl
    · exact hdelete rfl

end StateManager

end Fumie.AgentHost
