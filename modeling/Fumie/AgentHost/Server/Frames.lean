import Fumie.AgentHost.Server.Handler

/-!
# What the operations of the protocol server leave alone

Emitting an envelope and handling disconnect timers reach the manager, the messages
written, the replay buffer and the timers, and nothing else: `Quiet` says so. A
client record is made by `startClientToolCallDisconnectTimeout` only for a client
without one, which none of its callers asks for.
-/

namespace Fumie.AgentHost.ProtocolServerHandler

open Fumie.Lib List Option

def Quiet (s s' : ProtocolServerHandler) : Prop :=
  ∃ manager written replayBuffer timers, s' = { s with manager, written, replayBuffer, timers }

namespace Quiet

theorem refl (s : ProtocolServerHandler) : Quiet s s := ⟨_, _, _, _, rfl⟩

theorem trans {s₁ s₂ s₃ : ProtocolServerHandler} (h : Quiet s₁ s₂) (h' : Quiet s₂ s₃) :
    Quiet s₁ s₃ := by
  obtain ⟨_, _, _, _, rfl⟩ := h
  obtain ⟨_, _, _, _, rfl⟩ := h'
  exact ⟨_, _, _, _, rfl⟩

theorem clients {s s' : ProtocolServerHandler} (h : Quiet s s') : s'.clients = s.clients := by
  obtain ⟨_, _, _, _, rfl⟩ := h
  rfl

theorem service {s s' : ProtocolServerHandler} (h : Quiet s s') : s'.service = s.service := by
  obtain ⟨_, _, _, _, rfl⟩ := h
  rfl

theorem connections {s s' : ProtocolServerHandler} (h : Quiet s s') :
    s'.connections = s.connections := by
  obtain ⟨_, _, _, _, rfl⟩ := h
  rfl

theorem foldl {α : Type} {f : ProtocolServerHandler → α → ProtocolServerHandler}
    (list : List α) (hf : ∀ a ∈ list, ∀ s, Quiet s (f s a)) (s : ProtocolServerHandler) :
    Quiet s (list.foldl f s) := by
  induction list generalizing s with
  | nil => exact refl s
  | cons a rest ih =>
    rw [foldl_cons]
    exact (hf a mem_cons_self s).trans (ih (fun b hb => hf b (mem_cons_of_mem _ hb)) _)

theorem foldl_of_clients {α : Type} {f : ProtocolServerHandler → α → ProtocolServerHandler}
    (list : List α) (s : ProtocolServerHandler)
    (hf : ∀ a ∈ list, ∀ s', s'.clients = s.clients → Quiet s' (f s' a)) :
    Quiet s (list.foldl f s) := by
  suffices h : ∀ (rest : List α), (∀ a ∈ rest, a ∈ list) → ∀ s', Quiet s s' →
      Quiet s (rest.foldl f s') from h list (fun _ ha => ha) s (refl s)
  intro rest
  induction rest with
  | nil => exact fun _ s' hs' => hs'
  | cons a rest ih =>
    intro hmem s' hs'
    rw [foldl_cons]
    exact ih (fun b hb => hmem b (mem_cons_of_mem _ hb)) _
      (hs'.trans (hf a (hmem a mem_cons_self) s' hs'.clients))

end Quiet

variable (s : ProtocolServerHandler)

/-! ## Writing and timers -/

theorem quiet_send (t : Nat) (message : ServerMessage) : Quiet s (s.send t message) := by
  unfold send
  split
  · exact ⟨_, _, _, _, rfl⟩
  · exact Quiet.refl s

theorem quiet_broadcastAction (envelope : Envelope) : Quiet s (s.broadcastAction envelope) := by
  refine Quiet.foldl _ (fun record _ s => ?_) s
  unfold sendAction
  split
  · split
    · exact quiet_send s _ _
    · exact Quiet.refl s
  · exact Quiet.refl s

theorem quiet_setTimer (timer : DisconnectTimer) : Quiet s (s.setTimer timer) := ⟨_, _, _, _, rfl⟩

theorem quiet_disposeTimeouts (record : Option ClientRecord) :
    Quiet s (s.disposeTimeouts record) := by
  unfold disposeTimeouts
  split
  · exact ⟨_, _, _, _, rfl⟩
  · exact Quiet.refl s

variable (clientId : ClientId) (channel : Uri)

theorem quiet_clearTimeout : Quiet s (s.clearClientToolCallDisconnectTimeout clientId channel) := by
  unfold clearClientToolCallDisconnectTimeout
  split
  · exact ⟨_, _, _, _, rfl⟩
  · exact Quiet.refl s

variable {record : GraceRecord}

theorem startTimeout_of_grace {clientId : ClientId}
    (h : s.clients.get clientId = some (.grace record)) (session chatChannel : Uri) :
    s.startClientToolCallDisconnectTimeout clientId session chatChannel =
      s.setTimer { record := record.id, key := .chat chatChannel, clientId, session
                   deadline := s.now + max 0 (CLIENT_TOOL_CALL_DISCONNECT_TIMEOUT -
                    (s.now - record.lastSeenAt)) } := by
  unfold startClientToolCallDisconnectTimeout ensureGraceRecord
  simp only [h]

theorem quiet_startTimeout {clientId : ClientId} (h : s.clients.get clientId = some (.grace record))
    (session chatChannel : Uri) :
    Quiet s (s.startClientToolCallDisconnectTimeout clientId session chatChannel) := by
  rw [startTimeout_of_grace s h]
  exact quiet_setTimer s _

theorem isInGrace_iff {clientId : ClientId} :
    s.isInGrace clientId = true ↔ ∃ record, s.clients.get clientId = some (.grace record) := by
  unfold isInGrace
  constructor
  · intro h
    split at h
    · rename_i record hget
      exact ⟨record, hget⟩
    · cases h
  · rintro ⟨record, hget⟩
    rw [hget]

variable (session chatChannel : Uri)

theorem quiet_checkOrphaned : Quiet s (s.checkOrphanedClientToolCalls session chatChannel) := by
  refine Quiet.foldl_of_clients _ s fun clientId hmem s' hs' => ?_
  obtain ⟨record, hget⟩ := (isInGrace_iff s).mp (mem_filter.mp (mem_eraseDups.mp hmem)).2
  exact quiet_startTimeout s' (by rw [hs']; exact hget) _ _

/-! ## Emitting -/

theorem quiet_handleEnvelope (envelope : Envelope) : Quiet s (s.handleEnvelope envelope) := by
  have hpush : Quiet s { s with replayBuffer := pushReplay s.replayBuffer envelope } :=
    ⟨_, _, _, _, rfl⟩
  have hbroadcast := hpush.trans (quiet_broadcastAction _ envelope)
  unfold handleEnvelope
  split
  · split
    · exact hbroadcast.trans (quiet_checkOrphaned _ _ _)
    · exact hbroadcast
  · exact hbroadcast

theorem quiet_afterManager (manager : StateManager) : Quiet s (s.afterManager manager) := by
  have hmanager : Quiet s { s with manager } := ⟨_, _, _, _, rfl⟩
  exact hmanager.trans (Quiet.foldl _ (fun envelope _ s => quiet_handleEnvelope s envelope) _)

theorem quiet_dispatchAction (action : StateAction) (origin : Option ActionOrigin) :
    Quiet s (s.dispatchAction channel action origin) :=
  quiet_afterManager s _

/-! ## Releasing a client from a session -/

theorem quiet_failClientToolCall (turnId : String) (state : SessionWithDefaultChat)
    (clientId : ClientId) (tc : ToolCallState) :
    Quiet s (s.failClientToolCall chatChannel turnId state clientId tc) := by
  unfold failClientToolCall
  split
  · exact (quiet_dispatchAction s _ _ _).trans (quiet_dispatchAction _ _ _ _)
  · exact quiet_dispatchAction s _ _ _

theorem quiet_completeDisconnected :
    Quiet s (s.completeDisconnectedClientToolCalls clientId chatChannel) := by
  unfold completeDisconnectedClientToolCalls
  split
  · exact Quiet.refl s
  · split
    · exact Quiet.refl s
    · exact Quiet.foldl _ (fun pending _ s => quiet_failClientToolCall s _ _ _ _ _) s

theorem quiet_removeActiveClient (clientId : ClientId) :
    Quiet s (s.removeActiveClient session clientId) := by
  unfold removeActiveClient
  split
  · exact Quiet.refl s
  · split
    · exact quiet_dispatchAction s _ _ _
    · exact Quiet.refl s

theorem quiet_releaseActiveClient (clientId : ClientId) (chatChannel : Uri) :
    Quiet s (s.releaseActiveClientForSession session clientId chatChannel) :=
  ((quiet_clearTimeout s _ _).trans (quiet_completeDisconnected _ _ _)).trans
    (quiet_removeActiveClient _ _ _)

theorem quiet_reconcile (k : Nat) : Quiet s (s.reconcileActiveClientsAfterReconnect k) := by
  refine Quiet.foldl _ (fun session _ s => ?_) s
  unfold reconcileSession
  split
  · exact Quiet.refl s
  · split
    · refine Quiet.foldl _ (fun chat _ s => ?_) s
      split
      · exact quiet_releaseActiveClient s _ _ _
      · exact Quiet.refl s
    · exact Quiet.refl s

theorem quiet_leaveChannel (clientId : ClientId) : Quiet s (s.leaveChannel channel clientId) := by
  unfold leaveChannel
  split
  · exact quiet_releaseActiveClient s _ _ _
  · exact Quiet.refl s
  · split
    · exact Quiet.refl s
    · exact Quiet.foldl _ (fun chat _ s => quiet_releaseActiveClient s _ _ _) s

theorem quiet_fireTimer (timer : DisconnectTimer) : Quiet s (s.fireTimer timer) := by
  have herase : Quiet s { s with timers := s.timers.erase timer } := ⟨_, _, _, _, rfl⟩
  unfold fireTimer
  split
  · exact herase
  · exact herase.trans (quiet_releaseActiveClient _ _ _ _)

theorem quiet_startSessionTimeouts {clientId : ClientId}
    (h : s.clients.get clientId = some (.grace record)) (session : Uri) :
    Quiet s (s.startSessionTimeouts clientId session) := by
  unfold startSessionTimeouts
  split
  · exact Quiet.refl s
  · split
    · refine Quiet.foldl_of_clients _ s fun chat _ s' hs' => ?_
      exact quiet_startTimeout s' (by rw [hs']; exact h) _ _
    · exact Quiet.refl s

theorem quiet_startManagedSettings : Quiet s (s.startManagedSettingsTimeout clientId) := by
  unfold startManagedSettingsTimeout
  split
  · exact quiet_setTimer s _
  · exact Quiet.refl s

theorem quiet_handleClientDisconnected {clientId : ClientId} {record : GraceRecord}
    (h : s.clients.get clientId = some (.grace record)) :
    Quiet s (s.handleClientDisconnected clientId) := by
  have hsettings := quiet_startManagedSettings s clientId
  refine hsettings.trans (Quiet.foldl_of_clients _ _ fun session _ s' hs' => ?_)
  exact quiet_startSessionTimeouts s' (by rw [hs', hsettings.clients]; exact h) session

/-! ## What an event does -/

variable {s}

def Aside (s s' : ProtocolServerHandler) : Prop := ∃ now terminals handshakes reconnects,
  Quiet { s with now, terminals, handshakes, reconnects } s'

inductive Turn (s : ProtocolServerHandler) : ServerEvent → ProtocolServerHandler → Prop where
  | aside {e : ServerEvent} {s' : ProtocolServerHandler} (h : Aside s s') : Turn s e s'
  | connect : Turn s .connect
      { s.setTransport s.nextTransport { isOpen := true, client := none } with
        nextTransport := s.nextTransport + 1 }
  | handshake {t : Nat} {handshake : Handshake} {starts : Uri → Bool} {throws : Bool}
      (hopen : (s.transports t).isOpen = true)
      (hbarrier : s.beforeHandshake handshake.clientId = false) :
      Turn s (.handshake t handshake starts throws) (s.runHandshake t handshake starts throws)
  | settled {i t : Nat} {handshake : Handshake} {starts : Uri → Bool} {throws : Bool}
      (hget : s.handshakes[i]? = some (t, handshake)) (hopen : (s.transports t).isOpen = true) :
      Turn s (.barrierSettled i starts throws)
        ({ s with handshakes := s.handshakes.eraseIdx i }.runHandshake t handshake starts throws)
  | subscribe {t k : Nat} {channel : Uri} {starts : Bool} (hk : s.connectionOf t = some k) :
      Turn s (.subscribe t channel starts) (s.handleSubscribe k channel starts)
  | unsubscribe {t k : Nat} {channel : Uri} (hk : s.connectionOf t = some k) :
      Turn s (.unsubscribe t channel) (s.removeSubscription k channel)
  | close {t : Nat} (hopen : (s.transports t).isOpen = true) : Turn s (.close t) (s.close t)
  | registerTask {i : Nat} (hi : (s.tasks i).phase = .releasing) :
      Turn s (.registerTask i) (s.registerTask i)
  | restoreTask {i : Nat} (hi : (s.tasks i).phase = .restoring) :
      Turn s (.restoreTask i) (s.restoreTask i)
  | failTask {i : Nat} (hi : (s.tasks i).phase = .restoring) : Turn s (.failTask i) (s.failTask i)
  | installTask {i : Nat} {snapshot : StateSnapshot} (hi : (s.tasks i).phase = .read snapshot) :
      Turn s (.resumeTask i) (s.installTask i snapshot)
  | answered {e : ServerEvent} {s' : ProtocolServerHandler} {i : Nat} {phase : TaskPhase}
      (hi : (s.tasks i).phase.isRegistered = false) (hsettled : (s.tasks i).phase ≠ .settled none)
      (hphase : phase.inService = false) (h : Aside (s.setPhase i phase) s') : Turn s e s'
  | collectResourceWatch {channel : Uri} : Turn s (.collectResourceWatch channel)
      { s with service := s.service.collectResourceWatch channel }

theorem turn_of_step {e : ServerEvent} {s' : ProtocolServerHandler} (hstep : s.step e = some s') :
    Turn s e s' := by
  have hquiet : ∀ s', Quiet s s' → Turn s e s' := fun s' h => .aside ⟨_, _, _, _, h⟩
  have hrespond : ∀ i, (s.tasks i).phase.isRegistered = false →
      (s.tasks i).phase ≠ .settled none → Turn s e (s.respondTask i) := by
    intro i hi hsettled
    unfold respondTask
    dsimp only
    split
    · exact .answered hi hsettled rfl ⟨_, _, _, _, quiet_send _ _ _⟩
    · exact .answered hi hsettled rfl ⟨_, _, _, _, quiet_send _ _ _⟩
  unfold step at hstep
  cases e with
  | connect =>
    cases hstep
    exact .connect
  | handshake t handshake starts throws =>
    obtain ⟨⟨hopen, -⟩, hstep⟩ := ite_none_right_eq_some.mp hstep
    split at hstep
    · cases hstep
      exact .aside ⟨_, _, _, _, Quiet.refl _⟩
    · rename_i hbarrier
      cases hstep
      exact .handshake hopen (Bool.eq_false_of_not_eq_true hbarrier)
  | barrierSettled i starts throws =>
    obtain ⟨⟨t, handshake⟩, hget, rfl⟩ := map_eq_some_iff.mp hstep
    dsimp only
    split
    · rename_i hopen
      exact .settled hget hopen
    · exact .aside ⟨_, _, _, _, Quiet.refl _⟩
  | barrierFailed i =>
    obtain ⟨⟨t, handshake⟩, -, rfl⟩ := map_eq_some_iff.mp hstep
    exact .aside ⟨_, _, _, _, quiet_send _ _ _⟩
  | subscribe t channel starts =>
    obtain ⟨k, hk, rfl⟩ := map_eq_some_iff.mp hstep
    exact .subscribe hk
  | unsubscribe t channel =>
    obtain ⟨k, hk, rfl⟩ := map_eq_some_iff.mp hstep
    exact .unsubscribe hk
  | close t =>
    obtain ⟨hopen, hstep⟩ := ite_none_right_eq_some.mp hstep
    cases hstep
    exact .close hopen
  | registerTask i =>
    obtain ⟨hi, hstep⟩ := ite_none_right_eq_some.mp hstep
    cases hstep
    exact .registerTask hi
  | restoreTask i =>
    obtain ⟨hi, hstep⟩ := ite_none_right_eq_some.mp hstep
    cases hstep
    exact .restoreTask hi
  | failTask i =>
    obtain ⟨hi, hstep⟩ := ite_none_right_eq_some.mp hstep
    cases hstep
    exact .failTask hi
  | resumeTask i =>
    dsimp only at hstep
    split at hstep
    · rename_i snapshot hi
      cases hstep
      exact .installTask hi
    · rename_i r hi howner
      cases hstep
      exact .answered (by rw [hi]; rfl) (by rw [hi]; nofun) rfl ⟨_, _, _, _, Quiet.refl _⟩
    · cases hstep
  | respondTask i =>
    dsimp only at hstep
    split at hstep
    · rename_i hi howner
      cases hstep
      exact hrespond i (by rw [hi]; rfl) (by rw [hi]; nofun)
    · rename_i hi howner
      cases hstep
      exact hrespond i (by rw [hi]; rfl) (by rw [hi]; nofun)
    · cases hstep
  | finishReconnect r =>
    obtain ⟨-, hstep⟩ := ite_none_right_eq_some.mp hstep
    cases hstep
    obtain ⟨_, _, _, _, h⟩ := quiet_reconcile s (s.reconnects r).connection
    unfold finishReconnect
    rw [h]
    exact .aside ⟨_, _, _, _, _, _, _, _, rfl⟩
  | respondReconnect r =>
    dsimp only at hstep
    split at hstep
    · cases hstep
      unfold respondReconnect
      dsimp only
      split
      · exact .aside ⟨_, _, _, _, quiet_send _ _ _⟩
      · exact .aside ⟨_, _, _, _, Quiet.refl _⟩
    · cases hstep
  | dispatch channel action origin =>
    cases hstep
    exact hquiet _ (quiet_dispatchAction s _ _ _)
  | reject _ _ _ _ | manager _ =>
    cases hstep
    exact hquiet _ (quiet_afterManager s _)
  | terminal _ _ | advance _ =>
    cases hstep
    exact .aside ⟨_, _, _, _, Quiet.refl _⟩
  | collectResourceWatch channel =>
    cases hstep
    exact .collectResourceWatch
  | fireTimer timer =>
    obtain ⟨-, hstep⟩ := ite_none_right_eq_some.mp hstep
    cases hstep
    exact hquiet _ (quiet_fireTimer s timer)

end Fumie.AgentHost.ProtocolServerHandler
