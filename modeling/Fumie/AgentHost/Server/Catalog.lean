import Fumie.AgentHost.Server.StateManager
import Fumie.Lib.Runs

/-!
# Sessions, chats and the catalog

What each function of the state manager does to the session states, to the chat entries
and to the set of active chats, one lemma a function and a table. `chatEdit` is what a
session action does to the catalog entry of one chat, and `syncEntry` what the
synchronisation that follows does to the chat's own entry.

`HostEvent` is a dispatch or an operation of a service, and `managing` are the runs of
a manager from its creation.
-/

namespace Fumie.AgentHost

open Fumie.Lib List Record

/-! ## The catalog under the session reducer -/

variable (action : SessionAction)

def chatEdit (chat : Uri) (old : Option ChatSummary) : Option ChatSummary :=
  match action with
  | .chatAdded summary => if summary.resource = chat then some summary else old
  | .chatRemoved removed => if removed = chat then none else old
  | .chatUpdated updated changes =>
    if updated = chat then old.map (applyChatSummaryChanges · changes) else old
  | _ => old

theorem onCustomizations_chats (state : SessionState)
    (edit : List Customization → Option (List Customization)) :
    (onCustomizations state edit).chats = state.chats := by
  unfold onCustomizations
  split
  · rfl
  · rfl

theorem sessionReducer_chats {state : SessionState}
    (hnodup : (state.chats.map ChatSummary.resource).Nodup) :
    ((sessionReducer state action).chats.map ChatSummary.resource).Nodup ∧
      ∀ chat, findBy ChatSummary.resource (sessionReducer state action).chats chat =
        chatEdit action chat (findBy ChatSummary.resource state.chats chat) := by
  have hsame : ∀ {state' : SessionState}, state'.chats = state.chats →
      (state'.chats.map ChatSummary.resource).Nodup ∧
        ∀ chat, findBy ChatSummary.resource state'.chats chat =
          findBy ChatSummary.resource state.chats chat := by
    intro state' heq
    rw [heq]
    exact ⟨hnodup, fun _ => rfl⟩
  cases action with
  | chatAdded summary => exact ⟨nodup_upsertBy hnodup, fun chat => findBy_upsertBy⟩
  | chatRemoved removed =>
    unfold sessionReducer
    dsimp only
    cases hremove : removeBy (·.resource) state.chats removed with
    | none =>
      refine ⟨hnodup, fun chat => ?_⟩
      have hnone : findBy ChatSummary.resource state.chats removed = none := by
        rcases removeBy_cases ChatSummary.resource state.chats removed with
          ⟨-, hnone⟩ | ⟨pre, x, post, hsome, -⟩
        · exact hnone
        · rw [hremove] at hsome
          cases hsome
      show _ = if removed = chat then none else _
      by_cases h : removed = chat
      · rw [if_pos h, ← h]
        exact hnone
      · rw [if_neg h]
    | some chats =>
      exact ⟨(findBy_removeBy hnodup hremove removed).1, fun chat =>
        (findBy_removeBy hnodup hremove chat).2⟩
  | chatUpdated updated changes =>
    unfold sessionReducer
    dsimp only
    cases hidx : state.chats.findIdx? fun c => c.resource = updated with
    | none =>
      refine ⟨hnodup, fun chat => ?_⟩
      show _ = if updated = chat then _ else _
      by_cases h : updated = chat
      · have hnone : findBy ChatSummary.resource state.chats chat = none := by
          refine findBy_eq_none_iff.mpr fun hmem => ?_
          obtain ⟨x, hx, hk⟩ := mem_map.mp hmem
          have hfalse := findIdx?_eq_none_iff.mp hidx x hx
          rw [decide_eq_false_iff_not] at hfalse
          exact hfalse (hk.trans h.symm)
        rw [if_pos h, hnone]
        rfl
      · rw [if_neg h]
    | some idx =>
      have hmodify := findBy_modify (f := fun c => applyChatSummaryChanges c changes) hidx
        fun _ => rfl
      refine ⟨?_, fun chat => (hmodify chat).2⟩
      rw [(hmodify updated).1]
      exact hnodup
  | configChanged _ _ | activeClientRemoved _ | workingDirectorySet _
  | workingDirectoryReplaced _ _ | inputNeededRemoved _ =>
    refine hsame ?_
    unfold sessionReducer
    dsimp only
    split
    · rfl
    · rfl
  | workingDirectoryRemoved directory =>
    refine hsame ?_
    unfold sessionReducer
    dsimp only
    split
    · rfl
    · split
      · rfl
      · rfl
  | customizationToggled _ _ | customizationRemoved _ | mcpServerStateChanged _ _ _
  | mcpServerStartRequested _ | mcpServerStopRequested _ => exact hsame (onCustomizations_chats _ _)
  | _ => exact hsame rfl

variable {entry : SessionEntry} {m' : StateManager}

namespace StateManager

variable {m : StateManager}

/-! ## What does not touch a table -/

@[simp] theorem emit_sessionStates (channel : Uri) (action : StateAction)
    (origin : Option ActionOrigin) (reason : Option String) :
    (m.emit channel action origin reason).sessionStates = m.sessionStates := rfl

structure SameChats (m m' : StateManager) : Prop where
  sessionStates : m'.sessionStates = m.sessionStates
  chatEntries : m'.chatEntries = m.chatEntries
  isAutoApproved : m'.autoApproveBySetting = m.autoApproveBySetting

theorem removeChatActiveTurn_sameChats (m : StateManager) (session chat : Uri) :
    SameChats m (m.removeChatActiveTurn session chat) := by
  unfold removeChatActiveTurn
  split
  · exact ⟨rfl, rfl, rfl⟩
  · split
    · dsimp only
      split
      · exact ⟨rfl, rfl, rfl⟩
      · exact ⟨rfl, rfl, rfl⟩
    · exact ⟨rfl, rfl, rfl⟩

theorem trackActiveTurn_sameChats (m : StateManager) (session chat : Uri)
    (hadActive hasActive : Bool) :
    SameChats m (m.trackActiveTurn session chat hadActive hasActive) := by
  unfold trackActiveTurn
  split
  · unfold addChatActiveTurn
    dsimp only
    split
    · exact ⟨rfl, rfl, rfl⟩
    · exact ⟨rfl, rfl, rfl⟩
  · exact removeChatActiveTurn_sameChats m session chat
  · exact ⟨rfl, rfl, rfl⟩

/-! ## Synchronisation -/

def syncEntry (session : Uri) (summary : ChatSummary) : Option ChatEntry → ChatEntry
  | some existing => { existing with summary, state := existing.state.map (·.withSummary summary) }
  | none => { session, summary, state := none }

theorem get_sync_fold (session chat : Uri) (summaries : List ChatSummary)
    (hnodup : (summaries.map ChatSummary.resource).Nodup) (entries : Record Uri ChatEntry) :
    (summaries.foldl (fun (entries : Record Uri ChatEntry) summary =>
      match entries.get summary.resource with
      | some existing =>
        entries.set summary.resource
          { existing with summary, state := existing.state.map (·.withSummary summary) }
      | none => entries.set summary.resource { session, summary, state := none }) entries).get chat =
      match findBy ChatSummary.resource summaries chat with
      | some summary => some (syncEntry session summary (entries.get chat))
      | none => entries.get chat := by
  induction summaries generalizing entries with
  | nil => rfl
  | cons summary rest ih =>
    obtain ⟨hnew, hrest⟩ := nodup_cons.mp hnodup
    have hstep : (match entries.get summary.resource with
        | some existing =>
          entries.set summary.resource
            { existing with summary, state := existing.state.map (·.withSummary summary) }
        | none => entries.set summary.resource { session, summary, state := none }) =
        entries.set summary.resource (syncEntry session summary (entries.get summary.resource)) := by
      cases entries.get summary.resource with
      | none | some _ => rfl
    rw [foldl_cons, hstep, ih hrest, get_set]
    by_cases h : summary.resource = chat
    · subst h
      have hnone : findBy ChatSummary.resource rest summary.resource = none :=
        findBy_eq_none_iff.mpr hnew
      have hsome : findBy ChatSummary.resource (summary :: rest) summary.resource = some summary :=
        find?_cons_of_pos (by simp)
      rw [hnone, hsome]
      simp
    · have hcons : findBy ChatSummary.resource (summary :: rest) chat =
          findBy ChatSummary.resource rest chat := find?_cons_of_neg (by simpa using h)
      rw [hcons, if_neg h]

theorem get_synchronizeChatEntries (m : StateManager) (session chat : Uri)
    {summaries : List ChatSummary} (hnodup : (summaries.map ChatSummary.resource).Nodup) :
    (m.synchronizeChatEntries session summaries).chatEntries.get chat =
      match findBy ChatSummary.resource summaries chat with
      | some summary => some (syncEntry session summary (m.chatEntries.get chat))
      | none => (m.chatEntries.get chat).filter fun entry => entry.session ≠ session := by
  unfold synchronizeChatEntries
  rw [get_filter_eq]
  refine (congrArg (Option.filter _)
    (get_sync_fold session chat summaries hnodup m.chatEntries)).trans ?_
  cases hfind : findBy ChatSummary.resource summaries chat with
  | none =>
    have hnot := findBy_eq_none_iff.mp hfind
    simp only [hnot, not_false_eq_true, decide_true, Bool.and_true]
    congr 1
    funext entry
    exact (decide_not).symm
  | some summary =>
    have hmem : chat ∈ summaries.map ChatSummary.resource :=
      findBy_isSome_iff.mp (by rw [hfind]; rfl)
    simp [hmem]

/-! ## A session action -/

def clearEntry (chat : Uri) (entry : ChatEntry) : ChatEntry :=
  match action with
  | .chatUpdated updated changes =>
    if updated = chat then { entry with state := entry.state.map (clearState changes) } else entry
  | _ => entry

variable {session : Uri}

theorem applySession_of_none (h : m.sessionStates.get session = none) (action : SessionAction) :
    m.applySession session action = m := by
  unfold applySession
  rw [h]

theorem clearChat_tables (m : StateManager) (chat : Uri) (changes : ChatSummaryChanges)
    (summaries : List ChatSummary) :
    (m.clearChat chat changes summaries).sessionStates = m.sessionStates ∧
      (m.clearChat chat changes summaries).sessionsWithActiveTurn = m.sessionsWithActiveTurn ∧
      (m.clearChat chat changes summaries).rootState = m.rootState ∧
      (m.clearChat chat changes summaries).emitted = m.emitted ∧
      (m.clearChat chat changes summaries).autoApproveBySetting = m.autoApproveBySetting := by
  unfold clearChat
  split
  · exact ⟨rfl, rfl, rfl, rfl, rfl⟩
  · split
    · exact ⟨rfl, rfl, rfl, rfl, rfl⟩
    · exact ⟨rfl, rfl, rfl, rfl, rfl⟩

theorem applySession_tables (m : StateManager) (session : Uri) (action : SessionAction) :
    (m.applySession session action).sessionsWithActiveTurn = m.sessionsWithActiveTurn ∧
      (m.applySession session action).rootState = m.rootState ∧
      (m.applySession session action).emitted = m.emitted ∧
      (m.applySession session action).autoApproveBySetting = m.autoApproveBySetting := by
  unfold applySession
  split
  · exact ⟨rfl, rfl, rfl, rfl⟩
  · split
    · obtain ⟨-, h₂, h₃, h₄, h₅⟩ := clearChat_tables _ _ _ _
      exact ⟨h₂, h₃, h₄, h₅⟩
    · exact ⟨rfl, rfl, rfl, rfl⟩

theorem get_applySession_session (m : StateManager) (session : Uri) (action : SessionAction)
    (other : Uri) :
    (m.applySession session action).sessionStates.get other =
      if session = other then
        (m.sessionStates.get session).map fun entry =>
          { entry with state := sessionReducer entry.state action }
      else m.sessionStates.get other := by
  unfold applySession
  cases hget : m.sessionStates.get session with
  | none =>
    by_cases h : session = other
    · subst h
      rw [if_pos rfl]
      exact hget
    · rw [if_neg h]
  | some entry =>
    have hset : (m.setSession session
        { entry with state := sessionReducer entry.state action }).sessionStates.get other =
        if session = other then some { entry with state := sessionReducer entry.state action }
        else m.sessionStates.get other := get_set _ _ _ _
    dsimp only
    split
    · rw [(clearChat_tables _ _ _ _).1]
      exact hset
    · exact hset

theorem get_clearChat (m : StateManager) (updated chat : Uri) (changes : ChatSummaryChanges)
    (summaries : List ChatSummary) :
    (m.clearChat updated changes summaries).chatEntries.get chat =
      if updated = chat ∧ chat ∈ summaries.map ChatSummary.resource then
        (m.chatEntries.get chat).map fun entry =>
          { entry with state := entry.state.map (clearState changes) }
      else m.chatEntries.get chat := by
  unfold clearChat
  cases hget : m.chatEntries.get updated with
  | none =>
    dsimp only
    split
    · rename_i h
      rw [← h.1, hget]
      rfl
    · rfl
  | some entry =>
    dsimp only
    split
    · rename_i hmem
      have hset : (m.setChat updated { entry with
          state := entry.state.map fun state => clearState changes state }).chatEntries.get chat =
          if updated = chat then some { entry with state := entry.state.map (clearState changes) }
          else m.chatEntries.get chat := get_set _ _ _ _
      rw [hset]
      by_cases h : updated = chat
      · subst h
        rw [if_pos rfl, if_pos ⟨rfl, hmem⟩, hget]
        rfl
      · rw [if_neg h, if_neg fun hand => h hand.1]
    · rename_i hmem
      rw [if_neg]
      rintro ⟨rfl, hmem'⟩
      exact hmem hmem'

theorem get_applySession_chat (m : StateManager) (hget : m.sessionStates.get session = some entry)
    (hnodup : (entry.state.chats.map ChatSummary.resource).Nodup) (action : SessionAction)
    (chat : Uri) :
    (m.applySession session action).chatEntries.get chat =
      match chatEdit action chat (findBy ChatSummary.resource entry.state.chats chat) with
      | some summary =>
        some (clearEntry action chat (syncEntry session summary (m.chatEntries.get chat)))
      | none => (m.chatEntries.get chat).filter fun e => e.session ≠ session := by
  obtain ⟨hnodup', hfind⟩ := sessionReducer_chats action hnodup
  have hsync := get_synchronizeChatEntries (m.setSession session
    { entry with state := sessionReducer entry.state action }) session chat hnodup'
  rw [hfind chat] at hsync
  unfold applySession
  rw [hget]
  cases action with
  | chatUpdated updated changes =>
    rw [get_clearChat, hsync]
    have hmem : chat ∈ (sessionReducer entry.state (.chatUpdated updated changes)).chats.map
        ChatSummary.resource ↔ (chatEdit (.chatUpdated updated changes) chat
          (findBy ChatSummary.resource entry.state.chats chat)).isSome := by
      rw [← findBy_isSome_iff, hfind chat]
    cases hedit : chatEdit (.chatUpdated updated changes) chat
        (findBy ChatSummary.resource entry.state.chats chat) with
    | none =>
      rw [hedit] at hmem
      rw [if_neg fun hand => absurd (hmem.mp hand.2) nofun]
      rfl
    | some summary =>
      rw [hedit] at hmem
      by_cases h : updated = chat
      · rw [if_pos ⟨h, hmem.mpr rfl⟩]
        unfold clearEntry
        dsimp only
        rw [if_pos h]
        rfl
      · rw [if_neg fun hand => h hand.1]
        unfold clearEntry
        dsimp only
        rw [if_neg h]
        rfl
  | _ => exact hsync

/-! ## A chat action -/

def forwarded (nextEntry : ChatSummary) : ChatSummaryChanges :=
  { title := none, status := some nextEntry.status, activity := some nextEntry.activity,
    modifiedAt := none, origin := none, interactivity := none, workingDirectories := none }

theorem chatSummaryFromState_congr (h : m'.autoApproveBySetting = m.autoApproveBySetting)
    (state : ChatState) : m'.chatSummaryFromState state = m.chatSummaryFromState state := by
  unfold chatSummaryFromState chatSummaryStatus hasAutoApprovedPendingConfirmation
    chatAwaitsUserInput isAutoApproved
  rw [h]

def forwardStatus (m : StateManager) (session chat : Uri) (entry : SessionEntry)
    (nextEntry : ChatSummary) : StateManager :=
  if (findBy ChatSummary.resource entry.state.chats chat).map (·.status) = some nextEntry.status
  then m
  else m.applySession session (.chatUpdated chat (forwarded nextEntry))

structure ChatChanged (m : StateManager) (session chat : Uri) (entry : SessionEntry)
    (prev next : ChatState) (m' : StateManager) : Prop where
  chats : SameChats ((m.forwardStatus session chat entry (m.chatSummaryFromState next)).setSession
    session (mirrorChat entry chat (m.chatSummaryFromState next))) m'
  active : m'.sessionsWithActiveTurn = (m.trackActiveTurn session chat prev.activeTurn.isSome
    next.activeTurn.isSome).sessionsWithActiveTurn
  root : m'.rootState = (m.trackActiveTurn session chat prev.activeTurn.isSome
    next.activeTurn.isSome).rootState

theorem SameChats.applySession (h : SameChats m m') (session : Uri) (action : SessionAction) :
    SameChats (m.applySession session action) (m'.applySession session action) := by
  obtain ⟨hsessions, hchats, happroved⟩ := h
  have hclear : ∀ {k k' : StateManager}, SameChats k k' → ∀ chat changes summaries,
      SameChats (k.clearChat chat changes summaries) (k'.clearChat chat changes summaries) := by
    rintro k k' ⟨h₁, h₂, h₃⟩ chat changes summaries
    unfold clearChat
    rw [h₂]
    split
    · exact ⟨h₁, h₂, h₃⟩
    · split
      · refine ⟨h₁, ?_, h₃⟩
        show k'.chatEntries.set _ _ = k.chatEntries.set _ _
        rw [h₂]
      · exact ⟨h₁, h₂, h₃⟩
  unfold StateManager.applySession
  rw [hsessions]
  split
  · exact ⟨hsessions, hchats, happroved⟩
  · rename_i entry _
    have hsync : SameChats
        ((m.setSession session
          { entry with state := sessionReducer entry.state action }).synchronizeChatEntries session
            (sessionReducer entry.state action).chats)
        ((m'.setSession session
          { entry with state := sessionReducer entry.state action }).synchronizeChatEntries session
            (sessionReducer entry.state action).chats) := by
      unfold synchronizeChatEntries setSession
      refine ⟨?_, ?_, happroved⟩
      · rw [hsessions]
      · rw [hchats]
    split
    · exact hclear hsync _ _ _
    · exact hsync

theorem onChatStateChanged_spec (hget : m.sessionStates.get session = some entry) (chat : Uri)
    (prev next : ChatState) :
    ChatChanged m session chat entry prev next (m.onChatStateChanged session chat prev next) := by
  have hsame := trackActiveTurn_sameChats m session chat prev.activeTurn.isSome
    next.activeTurn.isSome
  unfold onChatStateChanged
  obtain ⟨t, ht⟩ : ∃ t, t = m.trackActiveTurn session chat prev.activeTurn.isSome
    next.activeTurn.isSome := ⟨_, rfl⟩
  rw [← ht] at hsame ⊢
  have hsummary := chatSummaryFromState_congr hsame.isAutoApproved next
  dsimp only
  rw [hsame.sessionStates, hget]
  dsimp only
  rw [hsummary]
  have hforward : (t.forwardChatStatus session chat entry.state (m.chatSummaryFromState next)) =
      if (findBy ChatSummary.resource entry.state.chats chat).map (·.status) =
          some (m.chatSummaryFromState next).status then t
      else t.dispatchSession session
        (.chatUpdated chat (forwarded (m.chatSummaryFromState next))) := rfl
  rw [hforward]
  have htables := applySession_tables t session
    (.chatUpdated chat (forwarded (m.chatSummaryFromState next)))
  have happly := hsame.applySession session
    (.chatUpdated chat (forwarded (m.chatSummaryFromState next)))
  have hset : ∀ {k k' : StateManager} (e : SessionEntry), SameChats k k' →
      SameChats (k.setSession session e) (k'.setSession session e) := by
    rintro k k' e ⟨h₁, h₂, h₃⟩
    refine ⟨?_, h₂, h₃⟩
    show k'.sessionStates.set _ _ = k.sessionStates.set _ _
    rw [h₁]
  refine ⟨?_, ?_, ?_⟩
  · unfold forwardStatus
    split
    · exact hset _ hsame
    · exact hset _ ⟨happly.sessionStates, happly.chatEntries, happly.isAutoApproved⟩
  · rw [← ht]
    split
    · rfl
    · exact htables.1
  · rw [← ht]
    split
    · rfl
    · exact htables.2.1

theorem onChatStateChanged_of_none (h : m.sessionStates.get session = none) (chat : Uri)
    (prev next : ChatState) :
    m.onChatStateChanged session chat prev next =
      m.trackActiveTurn session chat prev.activeTurn.isSome next.activeTurn.isSome := by
  unfold onChatStateChanged
  dsimp only
  rw [(trackActiveTurn_sameChats m session chat _ _).sessionStates, h]

end StateManager

/-! ## Runs -/

inductive HostEvent where
  | dispatch (channel : Uri) (action : StateAction) (origin : Option ActionOrigin)
  | perform (operation : StateManager.Operation)

def StateManager.after (m : StateManager) : HostEvent → StateManager
  | .dispatch channel action origin => m.applyAndEmit channel action origin
  | .perform operation => m.perform operation

def StateManager.Created (m : StateManager) : Prop :=
  ∃ rootState autoApproveBySetting providerBackedRootConfigKeys, rootState.activeSessions = some 0 ∧
      m = .create rootState autoApproveBySetting providerBackedRootConfigKeys

def managing : System StateManager HostEvent :=
  .ofStep StateManager.Created fun m event => some (m.after event)

/-! A host with one restored session. -/

def newHost : StateManager :=
  .create { agents := [], activeSessions := some 0, terminals := none, config := none, _meta := none }
    (fun _ => false) (fun _ => [])

theorem created_newHost : newHost.Created := ⟨_, _, _, rfl, rfl⟩

def restoredSummary : SessionSummary where
  provider := "copilot"
  title := "Session"
  status := SessionStatus.Idle
  activity := none
  origin := none
  project := none
  workingDirectories := none
  annotations := none
  resource := .session "copilot" "s"
  modifiedAt := 0
  _meta := none

def restoredHost : StateManager :=
  newHost.after (.perform (.restoreSession restoredSummary [] none none))

theorem reachable_restoredHost : managing.Reachable restoredHost :=
  .step (.init created_newHost) trivial rfl

end Fumie.AgentHost
