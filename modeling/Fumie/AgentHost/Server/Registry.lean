import Fumie.AgentHost.Server.Frames

/-!
# Live connections

`live` lists the connections in the active record of a client. The connection of an
open transport is live (`Registry`); a second handshake on a transport leaves its
first connection live for good. `SameRegistry` is the frame for everything that neither
attaches nor detaches a connection, and the handshakes and the close are three
lemmas over it.
-/

namespace Fumie.AgentHost.ProtocolServerHandler

open Fumie.Lib List Function Record Option

variable {s s' : ProtocolServerHandler}

def live (s : ProtocolServerHandler) (c : ClientId) : List Nat :=
  match s.clients.get c with
  | some (.active connections) => connections
  | _ => []

variable {c : ClientId}

theorem live_of_active {connections : List Nat} (h : s.clients.get c = some (.active connections)) :
    s.live c = connections := by
  unfold live
  rw [h]

theorem active_of_mem_live {c : ClientId} {k : Nat} (h : k ∈ s.live c) :
    s.clients.get c = some (.active (s.live c)) := by
  unfold live at h ⊢
  cases hget : s.clients.get c with
  | none =>
    rw [hget] at h
    cases h
  | some record =>
    cases record with
    | active connections => rfl
    | grace record =>
      rw [hget] at h
      cases h

/-! ## The invariant and its frame -/

structure Registry (s : ProtocolServerHandler) : Prop where
  nodup : ∀ c, (s.live c).Nodup
  bound : ∀ c k, k ∈ s.live c → k < s.nextConnection
  owner : ∀ c k, k ∈ s.live c → (s.connections k).clientId = c
  live_of_open : ∀ t k, s.connectionOf t = some k → k ∈ s.live (s.connections k).clientId
  client : ∀ t k, (s.transports t).client = some k →
    k < s.nextConnection ∧ (s.connections k).transport = t
  fresh : ∀ t, s.nextTransport ≤ t → s.transports t = default

theorem Registry.extend (hs : Registry s) (hlive : ∀ c, s'.live c = s.live c)
    (howner : ∀ k, k < s.nextConnection → (s'.connections k).clientId = (s.connections k).clientId)
    (htransport : ∀ k, k < s.nextConnection →
      (s'.connections k).transport = (s.connections k).transport)
    (htransports : s'.transports = s.transports)
    (hnext : s.nextConnection ≤ s'.nextConnection)
    (hnextTransport : s'.nextTransport = s.nextTransport) : Registry s' := by
  have hopen : ∀ t, s'.connectionOf t = s.connectionOf t := by
    intro t
    unfold connectionOf
    rw [htransports]
  refine ⟨fun c => ?_, fun c k hk => ?_, fun c k hk => ?_, fun t k hk => ?_,
    fun t k hk => ?_, fun t ht => ?_⟩
  · rw [hlive]
    exact hs.nodup c
  · rw [hlive] at hk
    have := hs.bound c k hk
    omega
  · rw [hlive] at hk
    rw [howner k (hs.bound c k hk)]
    exact hs.owner c k hk
  · rw [hopen] at hk
    have hlive' := hs.live_of_open t k hk
    rw [howner k (hs.bound _ k hlive'), hlive]
    exact hlive'
  · rw [htransports] at hk
    obtain ⟨hbound, ht⟩ := hs.client t k hk
    rw [htransport k hbound]
    exact ⟨Nat.lt_of_lt_of_le hbound hnext, ht⟩
  · rw [htransports]
    exact hs.fresh t (hnextTransport ▸ ht)

structure SameRegistry (s s' : ProtocolServerHandler) : Prop where
  live : ∀ c, s'.live c = s.live c
  owner : ∀ k, (s'.connections k).clientId = (s.connections k).clientId
  transport : ∀ k, (s'.connections k).transport = (s.connections k).transport
  transports : s'.transports = s.transports
  nextConnection : s'.nextConnection = s.nextConnection
  nextTransport : s'.nextTransport = s.nextTransport

namespace SameRegistry

theorem refl (s : ProtocolServerHandler) : SameRegistry s s :=
  ⟨fun _ => rfl, fun _ => rfl, fun _ => rfl, rfl, rfl, rfl⟩

theorem trans {s₁ s₂ s₃ : ProtocolServerHandler} (h : SameRegistry s₁ s₂)
    (h' : SameRegistry s₂ s₃) : SameRegistry s₁ s₃ where
  live c := (h'.live c).trans (h.live c)
  owner k := (h'.owner k).trans (h.owner k)
  transport k := (h'.transport k).trans (h.transport k)
  transports := h'.transports.trans h.transports
  nextConnection := h'.nextConnection.trans h.nextConnection
  nextTransport := h'.nextTransport.trans h.nextTransport

theorem connectionOf (h : SameRegistry s s') (t : Nat) : s'.connectionOf t = s.connectionOf t := by
  unfold ProtocolServerHandler.connectionOf
  rw [h.transports]

theorem registry (h : SameRegistry s s') (hs : Registry s) : Registry s' :=
  hs.extend h.live (fun k _ => h.owner k) (fun k _ => h.transport k) h.transports
    (Nat.le_of_eq h.nextConnection.symm) h.nextTransport

theorem foldl {α : Type} {f : ProtocolServerHandler → α → ProtocolServerHandler}
    (hf : ∀ s a, SameRegistry s (f s a)) (list : List α) (s : ProtocolServerHandler) :
    SameRegistry s (list.foldl f s) := by
  induction list generalizing s with
  | nil => exact refl s
  | cons a rest ih =>
    rw [foldl_cons]
    exact (hf s a).trans (ih _)

end SameRegistry

theorem Quiet.sameRegistry (h : Quiet s s') : SameRegistry s s' := by
  obtain ⟨_, _, _, _, rfl⟩ := h
  exact ⟨fun _ => rfl, fun _ => rfl, fun _ => rfl, rfl, rfl, rfl⟩

/-! ## Operations that attach and detach nothing -/

@[simp] theorem setConnection_self (s : ProtocolServerHandler) (k : Nat)
    (connection : Connection) : (s.setConnection k connection).connections k = connection :=
  update_self ..

variable {k : Nat}

theorem setConnection_of_ne (s : ProtocolServerHandler) {j : Nat} (connection : Connection)
    (h : j ≠ k) : (s.setConnection k connection).connections j = s.connections j :=
  update_of_ne h ..

theorem sameRegistry_setConnection (s : ProtocolServerHandler) {connection : Connection}
    (howner : connection.clientId = (s.connections k).clientId)
    (htransport : connection.transport = (s.connections k).transport) :
    SameRegistry s (s.setConnection k connection) where
  live _ := rfl
  owner j := by
    by_cases hj : j = k
    · subst hj
      rw [setConnection_self]
      exact howner
    · rw [setConnection_of_ne s connection hj]
  transport j := by
    by_cases hj : j = k
    · subst hj
      rw [setConnection_self]
      exact htransport
    · rw [setConnection_of_ne s connection hj]
  transports := rfl
  nextConnection := rfl
  nextTransport := rfl

theorem sameRegistry_addSubscription (s : ProtocolServerHandler) (k : Nat)
    (channel : Uri) : SameRegistry s (s.addSubscription k channel) :=
  sameRegistry_setConnection s rfl rfl

theorem sameRegistry_newTask (s : ProtocolServerHandler) (task : Task) :
    SameRegistry s (s.newTask task) :=
  ⟨fun _ => rfl, fun _ => rfl, fun _ => rfl, rfl, rfl, rfl⟩

theorem sameRegistry_setPhase (s : ProtocolServerHandler) (i : Nat) (phase : TaskPhase) :
    SameRegistry s (s.setPhase i phase) :=
  ⟨fun _ => rfl, fun _ => rfl, fun _ => rfl, rfl, rfl, rfl⟩

theorem sameRegistry_setReconnect (s : ProtocolServerHandler) (r : Nat)
    (reconnect : Reconnect) : SameRegistry s (s.setReconnect r reconnect) :=
  ⟨fun _ => rfl, fun _ => rfl, fun _ => rfl, rfl, rfl, rfl⟩

theorem sameRegistry_service (s : ProtocolServerHandler) (service : AgentService) :
    SameRegistry s { s with service } :=
  ⟨fun _ => rfl, fun _ => rfl, fun _ => rfl, rfl, rfl, rfl⟩

theorem sameRegistry_removeSubscription (s : ProtocolServerHandler) (k : Nat)
    (channel : Uri) : SameRegistry s (s.removeSubscription k channel) := by
  unfold removeSubscription
  simp only
  split
  · have herase : SameRegistry s (s.setConnection k { s.connections k with
        subscriptions := (s.connections k).subscriptions.erase channel }) :=
      sameRegistry_setConnection s rfl rfl
    split
    · exact herase.trans (sameRegistry_service _ _)
    · split
      · exact herase
      · exact (herase.trans (sameRegistry_service _ _)).trans
          (quiet_leaveChannel _ _ _).sameRegistry
  · exact SameRegistry.refl s

theorem sameRegistry_handleSubscribe (s : ProtocolServerHandler) (k : Nat)
    (channel : Uri) (starts : Bool) : SameRegistry s (s.handleSubscribe k channel starts) := by
  unfold handleSubscribe
  split
  · split
    · exact ((sameRegistry_service s _).trans (sameRegistry_addSubscription _ _ _)).trans
        (sameRegistry_newTask _ _)
    · exact sameRegistry_newTask s _
  · split
    · exact sameRegistry_newTask s _
    · exact sameRegistry_newTask s _

theorem sameRegistry_registerTask (s : ProtocolServerHandler) (i : Nat) :
    SameRegistry s (s.registerTask i) := by
  unfold registerTask
  simp only
  split
  · exact (sameRegistry_service s _).trans (sameRegistry_setPhase _ _ _)
  · exact (sameRegistry_service s _).trans (sameRegistry_setPhase _ _ _)

theorem sameRegistry_failTask (s : ProtocolServerHandler) (i : Nat) :
    SameRegistry s (s.failTask i) :=
  (sameRegistry_service s _).trans (sameRegistry_setPhase _ _ _)

theorem sameRegistry_restoreTask (s : ProtocolServerHandler) (i : Nat) :
    SameRegistry s (s.restoreTask i) := by
  unfold restoreTask
  split
  · exact sameRegistry_setPhase s _ _
  · exact sameRegistry_failTask s i

theorem sameRegistry_installTask (s : ProtocolServerHandler) (i : Nat)
    (snapshot : StateSnapshot) : SameRegistry s (s.installTask i snapshot) := by
  have h := (sameRegistry_addSubscription s (s.tasks i).connection (s.tasks i).channel).trans
    (quiet_clearTimeout _ ((s.connections (s.tasks i).connection).clientId)
      (s.tasks i).channel).sameRegistry
  unfold installTask
  simp only
  split
  · exact h.trans (sameRegistry_setPhase _ _ _)
  · exact h.trans (sameRegistry_setPhase _ _ _)

theorem sameRegistry_startRestore (s : ProtocolServerHandler) (r : Nat) (k : Nat)
    (starts : Uri → Bool) (channel : Uri) : SameRegistry s (s.startRestore r k starts channel) := by
  unfold startRestore
  split
  · split
    · exact ((sameRegistry_service s _).trans (sameRegistry_addSubscription _ _ _)).trans
        (sameRegistry_newTask _ _)
    · exact sameRegistry_setReconnect s _ _
  · split
    · exact sameRegistry_newTask s _
    · exact sameRegistry_setReconnect s _ _

theorem sameRegistry_addInitialSubscriptions (k : Nat) (channels : List Uri)
    (s : ProtocolServerHandler) (snapshots : List StateSnapshot) :
    SameRegistry s (addInitialSubscriptions k channels s snapshots).1 := by
  induction channels generalizing s snapshots with
  | nil => exact SameRegistry.refl s
  | cons channel rest ih =>
    have hadd := sameRegistry_addSubscription s k channel
    unfold addInitialSubscriptions
    split
    · exact ((hadd.trans (sameRegistry_service _ _)).trans
        (quiet_clearTimeout _ _ _).sameRegistry).trans (ih _ _)
    · exact hadd

/-! ## Attaching -/

theorem live_setRecord_active (s : ProtocolServerHandler) (c c' : ClientId) (connections : List Nat) :
    (s.setRecord c (.active connections)).live c' =
      if c = c' then connections else s.live c' := by
  unfold live setRecord
  simp only [get_set]
  by_cases hc : c = c'
  · rw [if_pos hc, if_pos hc]
  · rw [if_neg hc, if_neg hc]

theorem live_pruneClientRecords (s : ProtocolServerHandler) (c : ClientId) :
    s.pruneClientRecords.live c = s.live c := by
  cases hget : s.clients.get c with
  | none =>
    have hnone : s.pruneClientRecords.clients.get c = none := by
      by_contra hne
      obtain ⟨record, hsome⟩ := ne_none_iff_exists'.mp hne
      rw [(get_filter hsome).1] at hget
      cases hget
    unfold live
    rw [hnone, hget]
  | some record =>
    cases record with
    | active connections =>
      have hsome : s.pruneClientRecords.clients.get c = some (.active connections) :=
        get_filter_of_pos hget rfl
      rw [live_of_active hsome, live_of_active hget]
    | grace record =>
      have hlive : s.live c = [] := by
        unfold live
        rw [hget]
      rw [hlive]
      unfold live
      split
      · rename_i connections hsome
        rw [(get_filter hsome).1] at hget
        cases hget
      · rfl

theorem live_attachConnection (s : ProtocolServerHandler) (c c' : ClientId) (k : Nat) :
    (s.attachConnection c k).live c' = if c = c' then s.live c ++ [k] else s.live c' := by
  unfold attachConnection
  rw [live_pruneClientRecords]
  split
  · rename_i connections hget
    rw [live_setRecord_active, live_of_active hget]
  · rename_i hget
    rw [live_setRecord_active]
    have hlive : s.live c = [] := by
      unfold live
      split
      · rename_i connections hactive
        exact absurd hactive (hget connections)
      · rfl
    rw [hlive]
    rfl

/-- The state in which a handshake runs: the new connection is in its record. -/
def attached (s : ProtocolServerHandler) (c : ClientId) (t : Nat) : ProtocolServerHandler :=
  (s.newConnection c t).attachConnection c s.nextConnection

theorem attached_connections (s : ProtocolServerHandler) (c : ClientId) (t : Nat) :
    (s.attached c t).connections = Function.update s.connections s.nextConnection
      { clientId := c, transport := t, subscriptions := .empty } := by
  unfold attached attachConnection
  split
  · rfl
  · rfl

theorem attached_nextConnection (s : ProtocolServerHandler) (c : ClientId) (t : Nat) :
    (s.attached c t).nextConnection = s.nextConnection + 1 := by
  unfold attached attachConnection
  split
  · rfl
  · rfl

theorem attached_transports (s : ProtocolServerHandler) (c : ClientId) (t : Nat) :
    (s.attached c t).transports = s.transports ∧
      (s.attached c t).nextTransport = s.nextTransport := by
  unfold attached attachConnection
  split
  · exact ⟨rfl, rfl⟩
  · exact ⟨rfl, rfl⟩

theorem live_attached (s : ProtocolServerHandler) (c c' : ClientId) (t : Nat) :
    (s.attached c t).live c' =
      if c = c' then s.live c ++ [s.nextConnection] else s.live c' :=
  live_attachConnection (s.newConnection c t) c c' s.nextConnection

/-! ## Detaching -/

structure Detached (s s' : ProtocolServerHandler) (k : Nat) : Prop where
  live : ∀ c, s'.live c =
    if (s.connections k).clientId = c then (s.live c).erase k else s.live c
  others : ∀ j, j ≠ k → s'.connections j = s.connections j
  owner : (s'.connections k).clientId = (s.connections k).clientId
  transport : (s'.connections k).transport = (s.connections k).transport
  service : s'.service = (releaseSubscriptions
    (s.hasSubscriptionInOtherConnection ((s.live (s.connections k).clientId).erase k) k)
    (s.connections k).clientId (s.connections k).subscriptions.elems s.service).1
  transports : s'.transports = s.transports
  nextConnection : s'.nextConnection = s.nextConnection
  nextTransport : s'.nextTransport = s.nextTransport
  tasks : s'.tasks = s.tasks
  nextTask : s'.nextTask = s.nextTask

structure SameButClients (s s' : ProtocolServerHandler) : Prop where
  connections : s'.connections = s.connections
  service : s'.service = s.service
  transports : s'.transports = s.transports
  nextConnection : s'.nextConnection = s.nextConnection
  nextTransport : s'.nextTransport = s.nextTransport
  tasks : s'.tasks = s.tasks
  nextTask : s'.nextTask = s.nextTask

variable {s₁ s₂ : ProtocolServerHandler}

theorem Detached.trans_quiet {s₃ : ProtocolServerHandler} (h : Detached s₁ s₂ k)
    (h' : Quiet s₂ s₃) : Detached s₁ s₃ k := by
  obtain ⟨_, _, _, _, rfl⟩ := h'
  exact ⟨h.live, h.others, h.owner, h.transport, h.service, h.transports, h.nextConnection,
    h.nextTransport, h.tasks, h.nextTask⟩

theorem detached_release (hs : SameButClients s s₁)
    (hlive : ∀ c, s₁.live c =
      if (s.connections k).clientId = c then (s.live c).erase k else s.live c) :
    Detached s (s₁.releaseClientSubscriptions k
      ((s.live (s.connections k).clientId).erase k)).1 k := by
  unfold releaseClientSubscriptions hasSubscriptionInOtherConnection
  simp only [hs.connections, hs.service]
  split
  · rename_i service hrelease
    have hservice := congrArg Prod.fst hrelease
    exact {
      live := hlive
      others := fun j hj => setConnection_of_ne _ _ hj
      owner := (congrArg Connection.clientId (setConnection_self _ k _)).trans rfl
      transport := (congrArg Connection.transport (setConnection_self _ k _)).trans rfl
      service := hservice.symm
      transports := hs.transports
      nextConnection := hs.nextConnection
      nextTransport := hs.nextTransport
      tasks := hs.tasks
      nextTask := hs.nextTask }
  · rename_i service hrelease
    have hservice := congrArg Prod.fst hrelease
    exact ⟨hlive, fun _ _ => rfl, rfl, rfl, hservice.symm, hs.transports, hs.nextConnection,
      hs.nextTransport, hs.tasks, hs.nextTask⟩

theorem detached_detachConnection (s : ProtocolServerHandler) (k : Nat) :
    Detached s (s.detachConnection k (s.live (s.connections k).clientId)).1 k := by
  have hlive : ∀ c, (s.setRecord (s.connections k).clientId (.active
      ((s.live (s.connections k).clientId).erase k))).live c =
        if (s.connections k).clientId = c then (s.live c).erase k else s.live c := by
    intro c
    rw [live_setRecord_active]
    by_cases hc : (s.connections k).clientId = c
    · rw [if_pos hc, if_pos hc, hc]
    · rw [if_neg hc, if_neg hc]
  obtain ⟨s₁, hs₁⟩ : ∃ s₁, s₁ = s.setRecord (s.connections k).clientId (.active
      ((s.live (s.connections k).clientId).erase k)) := ⟨_, rfl⟩
  have hframe : SameButClients s s₁ := by
    rw [hs₁]
    exact ⟨rfl, rfl, rfl, rfl, rfl, rfl, rfl⟩
  unfold detachConnection
  simp only
  rw [← hs₁] at hlive ⊢
  exact detached_release hframe hlive

theorem Detached.setClients (h : Detached s₁ s₂ k) {clients : Record ClientId ClientRecord}
    (hclients : ∀ c, { s₂ with clients }.live c = s₂.live c) (nextRecord : Nat)
    (departed : List ClientId) : Detached s₁ { s₂ with clients, nextRecord, departed } k :=
  ⟨fun c => (hclients c).trans (h.live c), h.others, h.owner, h.transport, h.service, h.transports,
    h.nextConnection, h.nextTransport, h.tasks, h.nextTask⟩

theorem live_set_grace (h : s.live c = []) (record : GraceRecord) (c' : ClientId) :
    (s.setRecord c (.grace record)).live c' = s.live c' := by
  by_cases hc : c = c'
  · subst hc
    rw [h]
    unfold ProtocolServerHandler.live setRecord
    simp only [get_set, if_true]
  · unfold ProtocolServerHandler.live setRecord
    simp only [get_set, if_neg hc]

theorem live_delete (h : s.live c = []) (c' : ClientId) :
    { s with clients := s.clients.delete c }.live c' = s.live c' := by
  by_cases hc : c = c'
  · subst hc
    rw [h]
    unfold ProtocolServerHandler.live
    simp only [get_delete, if_true]
  · unfold ProtocolServerHandler.live
    simp only [get_delete, if_neg hc]

theorem detached_rollback (hk : k ∈ s.live (s.connections k).clientId)
    (previous : Option ClientRecord) :
    Detached s (s.rollbackFailedInitialization k previous) k := by
  have hdetached := detached_detachConnection s k
  unfold rollbackFailedInitialization
  simp only [active_of_mem_live hk]
  split
  · rename_i s₁ hs₁
    rw [hs₁] at hdetached
    exact hdetached
  · rename_i s₁ hs₁
    rw [hs₁] at hdetached
    split
    · rename_i hempty
      have hnone : s₁.live (s.connections k).clientId = [] := by
        rw [hdetached.live, if_pos rfl]
        exact List.isEmpty_iff.mp hempty
      unfold restoreRecord
      split
      · exact hdetached.setClients (live_set_grace hnone _) _ _
      · exact hdetached.setClients (live_delete hnone) _ _
    · exact hdetached

theorem quiet_enterGrace (s : ProtocolServerHandler) (c : ClientId) :
    Quiet { s.newGraceRecord c true with departed := c :: s.departed } (s.enterGrace c) := by
  refine @quiet_handleClientDisconnected _ _ ⟨s.nextRecord, true, s.now⟩ ?_
  show (s.clients.set c _).get c = _
  rw [get_set, if_pos rfl]

theorem detached_disconnect (hk : k ∈ s.live (s.connections k).clientId) :
    Detached s (s.disconnect k) k := by
  have hdetached := detached_detachConnection s k
  unfold disconnect
  simp only [active_of_mem_live hk, hk, if_true]
  split
  · rename_i s₁ hs₁
    rw [hs₁] at hdetached
    exact hdetached
  · rename_i s₁ hs₁
    rw [hs₁] at hdetached
    split
    · rename_i hempty
      have hnone : s₁.live (s.connections k).clientId = [] := by
        rw [hdetached.live, if_pos rfl]
        exact List.isEmpty_iff.mp hempty
      exact (hdetached.setClients (live_set_grace hnone _) _ _).trans_quiet (quiet_enterGrace _ _)
    · exact hdetached

theorem disconnect_of_not_live (hk : k ∉ s.live (s.connections k).clientId) :
    s.disconnect k = s := by
  unfold disconnect
  simp only
  split
  · rename_i connections hget
    rw [live_of_active hget] at hk
    rw [if_neg hk]
  · rfl

/-! ## Runs -/

theorem Registry.not_live_next (hs : Registry s) (c : ClientId) : s.nextConnection ∉ s.live c := by
  intro h
  have := hs.bound c _ h
  omega

theorem attached_self (s : ProtocolServerHandler) (c : ClientId) (t : Nat) :
    (s.attached c t).connections s.nextConnection =
      { clientId := c, transport := t, subscriptions := .empty } := by
  rw [attached_connections, update_self]

theorem attached_of_lt (s : ProtocolServerHandler) (c : ClientId) (t : Nat)
    (hk : k < s.nextConnection) : (s.attached c t).connections k = s.connections k := by
  rw [attached_connections, update_of_ne (Nat.ne_of_lt hk)]

variable {c : ClientId} {t : Nat}

theorem Registry.attached (hs : Registry s) (c : ClientId) (t : Nat) : Registry (s.attached c t) := by
  obtain ⟨htransports, hnextTransport⟩ := attached_transports s c t
  have hopen : ∀ t', (s.attached c t).connectionOf t' = s.connectionOf t' := by
    intro t'
    unfold connectionOf
    rw [htransports]
  have hmem : ∀ c' k, k ∈ (s.attached c t).live c' →
      k ∈ s.live c' ∨ (k = s.nextConnection ∧ c' = c) := by
    intro c' k hk
    rw [live_attached] at hk
    split at hk
    · rename_i hc
      subst hc
      exact (mem_append.mp hk).imp id fun hk => ⟨mem_singleton.mp hk, rfl⟩
    · exact .inl hk
  refine ⟨fun c' => ?_, fun c' k hk => ?_, fun c' k hk => ?_, fun t' k hk => ?_,
    fun t' k hk => ?_, fun t' ht => ?_⟩
  · rw [live_attached]
    split
    · refine List.nodup_append.mpr ⟨hs.nodup c, nodup_singleton _, ?_⟩
      rintro a ha b hb rfl
      exact hs.not_live_next c (mem_singleton.mp hb ▸ ha)
    · exact hs.nodup c'
  · rw [attached_nextConnection]
    rcases hmem c' k hk with hk | ⟨rfl, -⟩
    · exact Nat.lt_succ_of_lt (hs.bound c' k hk)
    · exact Nat.lt_succ_self _
  · rcases hmem c' k hk with hk | ⟨rfl, rfl⟩
    · rw [attached_of_lt s c t (hs.bound c' k hk)]
      exact hs.owner c' k hk
    · rw [attached_self]
  · rw [hopen] at hk
    have hold := hs.live_of_open t' k hk
    rw [attached_of_lt s c t (hs.bound _ k hold), live_attached]
    split
    · rename_i hc
      rw [hc]
      exact mem_append_left _ hold
    · exact hold
  · rw [htransports] at hk
    obtain ⟨hbound, ht⟩ := hs.client t' k hk
    rw [attached_nextConnection, attached_of_lt s c t hbound]
    exact ⟨Nat.lt_succ_of_lt hbound, ht⟩
  · rw [htransports]
    exact hs.fresh t' (hnextTransport ▸ ht)

theorem attached_live_self (h : SameRegistry (s.attached c t) s') :
    (s'.connections s.nextConnection).clientId = c ∧
      s.nextConnection ∈ s'.live (s'.connections s.nextConnection).clientId := by
  have howner : (s'.connections s.nextConnection).clientId = c := by
    rw [h.owner, attached_self]
  refine ⟨howner, ?_⟩
  rw [howner, h.live, live_attached, if_pos rfl]
  exact mem_append_right _ (mem_singleton.mpr rfl)

theorem live_rolledBack (hs : Registry s) (h : SameRegistry (s.attached c t) s')
    (previous : Option ClientRecord) (c' : ClientId) :
    (s'.rollbackFailedInitialization s.nextConnection previous).live c' = s.live c' := by
  obtain ⟨howner, hk⟩ := attached_live_self h
  rw [(detached_rollback hk previous).live, howner, h.live, live_attached]
  by_cases hc : c = c'
  · subst hc
    rw [if_pos rfl, if_pos rfl, erase_append_right _ (hs.not_live_next c)]
    simp
  · rw [if_neg hc, if_neg hc]

theorem Registry.detached (hs : Registry s) (h : Detached s s' k)
    (hclosed : ∀ t, s.connectionOf t ≠ some k) : Registry s' := by
  have hmem : ∀ c j, j ∈ s'.live c → j ∈ s.live c := by
    intro c j hj
    rw [h.live] at hj
    split at hj
    · exact mem_of_mem_erase hj
    · exact hj
  have hsame : ∀ j, (s'.connections j).clientId = (s.connections j).clientId ∧
      (s'.connections j).transport = (s.connections j).transport := by
    intro j
    by_cases hj : j = k
    · subst hj
      exact ⟨h.owner, h.transport⟩
    · rw [h.others j hj]
      exact ⟨rfl, rfl⟩
  refine ⟨fun c => ?_, fun c j hj => ?_, fun c j hj => ?_, fun t' j hj => ?_,
    fun t' j hj => ?_, fun t' ht => ?_⟩
  · rw [h.live]
    split
    · exact (hs.nodup c).erase k
    · exact hs.nodup c
  · rw [h.nextConnection]
    exact hs.bound c j (hmem c j hj)
  · rw [(hsame j).1]
    exact hs.owner c j (hmem c j hj)
  · have hj : s.connectionOf t' = some j := by
      unfold connectionOf at hj ⊢
      rwa [h.transports] at hj
    have hold := hs.live_of_open t' j hj
    have hne : j ≠ k := fun heq => hclosed t' (heq ▸ hj)
    rw [(hsame j).1, h.live]
    split
    · exact (mem_erase_of_ne hne).mpr hold
    · exact hold
  · rw [h.transports] at hj
    rw [h.nextConnection, (hsame j).2]
    exact hs.client t' j hj
  · rw [h.transports]
    exact hs.fresh t' (h.nextTransport ▸ ht)

theorem Registry.rolledBack (hs : Registry s) (h : SameRegistry (s.attached c t) s')
    (previous : Option ClientRecord) :
    Registry (s'.rollbackFailedInitialization s.nextConnection previous) := by
  refine (h.registry (hs.attached c t)).detached
    (detached_rollback (attached_live_self h).2 previous) fun t' ht' => ?_
  rw [h.connectionOf] at ht'
  unfold connectionOf at ht'
  rw [(attached_transports s c t).1] at ht'
  split at ht'
  · exact Nat.lt_irrefl _ (hs.client t' _ ht').1
  · cases ht'

theorem connectionOf_setTransport (s : ProtocolServerHandler) (t t' : Nat)
    (transport : Transport) : (s.setTransport t transport).connectionOf t' =
      if t' = t then (if transport.isOpen then transport.client else none)
      else s.connectionOf t' := by
  unfold connectionOf setTransport
  simp only
  by_cases h : t' = t
  · subst h
    rw [if_pos rfl, update_self]
  · rw [if_neg h, update_of_ne h]

theorem Registry.setTransport (hs : Registry s) {transport : Transport}
    (hfresh : t < s.nextTransport) (hclient : ∀ k, transport.client = some k →
      k < s.nextConnection ∧ (s.connections k).transport = t)
    (hlive : transport.isOpen = true → ∀ k, transport.client = some k →
      k ∈ s.live (s.connections k).clientId) : Registry (s.setTransport t transport) := by
  refine ⟨hs.nodup, hs.bound, hs.owner, fun t' k hk => ?_, fun t' k hk => ?_, fun t' ht => ?_⟩
  · rw [connectionOf_setTransport] at hk
    split at hk
    · obtain ⟨hopen, hk⟩ := Option.ite_none_right_eq_some.mp hk
      exact hlive hopen k hk
    · exact hs.live_of_open t' k hk
  · have hk : (Function.update s.transports t transport t').client = some k := hk
    by_cases ht : t' = t
    · subst ht
      rw [update_self] at hk
      exact hclient k hk
    · rw [update_of_ne ht] at hk
      exact hs.client t' k hk
  · show Function.update s.transports t transport t' = default
    rw [update_of_ne (Nat.ne_of_gt (Nat.lt_of_lt_of_le hfresh ht))]
    exact hs.fresh t' ht

theorem Registry.lt_of_open (hs : Registry s) (hopen : (s.transports t).isOpen = true) :
    t < s.nextTransport := by
  by_contra hlt
  rw [hs.fresh t (Nat.le_of_not_lt hlt)] at hopen
  cases hopen

theorem Registry.opened (hs : Registry s) (h : SameRegistry (s.attached c t) s')
    (hopen : (s.transports t).isOpen = true) :
    Registry (s'.setTransport t { s'.transports t with client := some s.nextConnection }) := by
  refine (h.registry (hs.attached c t)).setTransport ?_ ?_ ?_
  · rw [h.nextTransport, (attached_transports s c t).2]
    exact hs.lt_of_open hopen
  · rintro k ⟨⟩
    rw [h.nextConnection, attached_nextConnection, h.transport, attached_self]
    exact ⟨Nat.lt_succ_self _, rfl⟩
  · rintro - k ⟨⟩
    exact (attached_live_self h).2

/-! ## Suspended calls -/

structure Suspended (s : ProtocolServerHandler) : Prop where
  fresh : ∀ i, s.nextTask ≤ i → (s.tasks i).phase = .settled none
  connection : ∀ i, i < s.nextTask → (s.tasks i).connection < s.nextConnection
  channel : ∀ i, (s.tasks i).phase.inService = true →
    classifyChannel (s.tasks i).channel = .state ∧ (s.tasks i).channel.parses = true

variable {i : Nat}

theorem Suspended.lt (hs : Suspended s) (h : (s.tasks i).phase.inService = true) :
    i < s.nextTask := by
  by_contra hlt
  rw [hs.fresh i (Nat.le_of_not_lt hlt)] at h
  cases h

theorem Suspended.frame (hs : Suspended s) (htasks : s'.tasks = s.tasks)
    (hnext : s'.nextTask = s.nextTask) (hconnection : s.nextConnection ≤ s'.nextConnection) :
    Suspended s' where
  fresh i hi := by
    rw [htasks]
    exact hs.fresh i (hnext ▸ hi)
  connection i hi := by
    rw [htasks]
    exact Nat.lt_of_lt_of_le (hs.connection i (hnext ▸ hi)) hconnection
  channel i hi := by
    rw [htasks] at hi ⊢
    exact hs.channel i hi

theorem Suspended.newTask (hs : Suspended s) {task : Task}
    (hconnection : task.connection < s.nextConnection)
    (hchannel : task.phase.inService = true →
      classifyChannel task.channel = .state ∧ task.channel.parses = true) :
    Suspended (s.newTask task) := by
  refine ⟨fun i hi => ?_, fun i hi => ?_, fun i hi => ?_⟩
  · have hi' : s.nextTask + 1 ≤ i := hi
    show (Function.update s.tasks s.nextTask task i).phase = _
    rw [update_of_ne (by omega)]
    exact hs.fresh i (by omega)
  · have hi' : i < s.nextTask + 1 := hi
    show (Function.update s.tasks s.nextTask task i).connection < s.nextConnection
    by_cases h : i = s.nextTask
    · subst h
      rw [update_self]
      exact hconnection
    · rw [update_of_ne h]
      exact hs.connection i (by omega)
  · have hi' : (Function.update s.tasks s.nextTask task i).phase.inService = true := hi
    show classifyChannel (Function.update s.tasks s.nextTask task i).channel = _ ∧
      (Function.update s.tasks s.nextTask task i).channel.parses = true
    by_cases h : i = s.nextTask
    · subst h
      rw [update_self] at hi' ⊢
      exact hchannel hi'
    · rw [update_of_ne h] at hi' ⊢
      exact hs.channel i hi'

variable {phase : TaskPhase}

theorem Suspended.setPhase (hs : Suspended s) (hi : i < s.nextTask)
    (hphase : phase.inService = true → (s.tasks i).phase.inService = true) :
    Suspended (s.setPhase i phase) := by
  refine ⟨fun j hj => ?_, fun j hj => ?_, fun j hj => ?_⟩
  · have hj' : s.nextTask ≤ j := hj
    show (Function.update s.tasks i _ j).phase = _
    rw [update_of_ne (by omega)]
    exact hs.fresh j hj'
  · show (Function.update s.tasks i _ j).connection < s.nextConnection
    by_cases h : j = i
    · subst h
      rw [update_self]
      exact hs.connection j hi
    · rw [update_of_ne h]
      exact hs.connection j hj
  · have hj' : (Function.update s.tasks i { s.tasks i with phase } j).phase.inService = true := hj
    show classifyChannel (Function.update s.tasks i { s.tasks i with phase } j).channel = _ ∧
      (Function.update s.tasks i { s.tasks i with phase } j).channel.parses = true
    by_cases h : j = i
    · subst h
      rw [update_self] at hj' ⊢
      exact hs.channel j (hphase hj')
    · rw [update_of_ne h] at hj' ⊢
      exact hs.channel j hj'

theorem Suspended.quiet (hs : Suspended s) (h : Quiet s s') : Suspended s' := by
  obtain ⟨_, _, _, _, rfl⟩ := h
  exact hs.frame rfl rfl (Nat.le_refl _)

theorem Suspended.addSubscription (hs : Suspended s) (k : Nat) (channel : Uri) :
    Suspended (s.addSubscription k channel) :=
  hs.frame rfl rfl (Nat.le_refl _)

theorem Suspended.startRestore (hs : Suspended s) (hk : k < s.nextConnection) (r : Nat)
    (starts : Uri → Bool) (channel : Uri) : Suspended (s.startRestore r k starts channel) := by
  unfold ProtocolServerHandler.startRestore
  split
  · split
    · refine Suspended.newTask ?_ hk nofun
      exact hs.frame rfl rfl (Nat.le_refl _)
    · exact hs.frame rfl rfl (Nat.le_refl _)
  · rename_i hstate
    split
    · rename_i hparses
      exact hs.newTask hk (fun _ => ⟨hstate, hparses⟩)
    · exact hs.frame rfl rfl (Nat.le_refl _)

theorem Suspended.startRestores (hs : Suspended s) {k : Nat} (hk : k < s.nextConnection) (r : Nat)
    (starts : Uri → Bool) (channels : List Uri) :
    Suspended (channels.foldl (fun s channel => s.startRestore r k starts channel) s) := by
  induction channels generalizing s with
  | nil => exact hs
  | cons channel rest ih =>
    rw [foldl_cons]
    refine ih (hs.startRestore hk r starts channel) ?_
    rw [(sameRegistry_startRestore s r k starts channel).nextConnection]
    exact hk

theorem Suspended.addInitialSubscriptions (hs : Suspended s) (k : Nat) (channels : List Uri)
    (snapshots : List StateSnapshot) :
    Suspended (ProtocolServerHandler.addInitialSubscriptions k channels s snapshots).1 := by
  induction channels generalizing s snapshots with
  | nil => exact hs
  | cons channel rest ih =>
    unfold ProtocolServerHandler.addInitialSubscriptions
    split
    · refine ih (Suspended.quiet ?_ (quiet_clearTimeout _ _ _)) _
      exact hs.frame rfl rfl (Nat.le_refl _)
    · exact hs.addSubscription k channel

theorem Suspended.detached (hs : Suspended s) (h : Detached s s' k) : Suspended s' :=
  hs.frame h.tasks h.nextTask (Nat.le_of_eq h.nextConnection.symm)

theorem Suspended.attached (hs : Suspended s) (c : ClientId) (t : Nat) :
    Suspended (s.attached c t) := by
  refine hs.frame ?_ ?_ ?_
  · unfold ProtocolServerHandler.attached attachConnection
    split
    · rfl
    · rfl
  · unfold ProtocolServerHandler.attached attachConnection
    split
    · rfl
    · rfl
  · rw [attached_nextConnection]
    omega

/-! ## Handshakes -/

section

variable (s : ProtocolServerHandler)

def handshakeBody (t : Nat) (handshake : Handshake)
    (starts : Uri → Bool) (throws : Bool) : ProtocolServerHandler :=
  match handshake with
  | .initializeRequest c channels =>
    (addInitialSubscriptions s.nextConnection channels (s.attached c t) []).1
  | .reconnectRequest c lastSeenServerSeq channels =>
    channels.foldl (fun s' channel => s'.startRestore s.nextReconnect s.nextConnection starts channel)
      ((s.attached c t).newReconnect
        { connection := s.nextConnection, lastSeenServerSeq
          canReplay := (s.attached c t).canReplay lastSeenServerSeq
          missing := [], reply := !throws, phase := .restoring })

/-- The handshake succeeded: its transport has the new connection. -/
def opened (t k : Nat) : ProtocolServerHandler :=
  s.setTransport t { s.transports t with client := some k }

def opens (handshake : Handshake) (throws : Bool) : Bool :=
  !throws && match handshake with
    | .initializeRequest _ channels => channels.all Uri.parses
    | .reconnectRequest c _ _ => (s.clients.get c).isSome

end

theorem parses_of_addInitialSubscriptions {k : Nat} {channels : List Uri}
    {snapshots result : List StateSnapshot}
    (h : addInitialSubscriptions k channels s snapshots = (s', some result)) :
    channels.all Uri.parses = true := by
  induction channels generalizing s snapshots with
  | nil => rfl
  | cons channel rest ih =>
    unfold addInitialSubscriptions at h
    split at h
    · rename_i hparses
      rw [all_cons, hparses, ih h]
      rfl
    · cases (Prod.mk.inj h).2

theorem runHandshake_cases (s : ProtocolServerHandler) (t : Nat) (handshake : Handshake)
    (starts : Uri → Bool) (throws : Bool) :
    Quiet s (s.runHandshake t handshake starts throws) ∨
    (s.opens handshake throws = true ∧
      Quiet ((s.handshakeBody t handshake starts throws).opened t s.nextConnection)
        (s.runHandshake t handshake starts throws)) ∨
    ∃ previous, Quiet ((s.handshakeBody t handshake starts throws).rollbackFailedInitialization
      s.nextConnection previous) (s.runHandshake t handshake starts throws) := by
  have hopened : ∀ (s' : ProtocolServerHandler) previous, Quiet (s'.opened t s.nextConnection)
      ((s'.disposeTimeouts previous).setTransport t
        { s'.transports t with client := some s.nextConnection }) := by
    intro s' previous
    obtain ⟨_, _, _, _, h⟩ := quiet_disposeTimeouts s' previous
    rw [h]
    exact ⟨_, _, _, _, rfl⟩
  unfold runHandshake handshakeBody
  cases handshake with
  | initializeRequest c channels =>
    right
    unfold handleInitialize
    simp only
    split
    · rename_i s' hs'
      right
      refine ⟨s.clients.get c, ?_⟩
      unfold ProtocolServerHandler.attached
      rw [hs']
      exact quiet_send _ _ _
    · rename_i s' snapshots hs'
      unfold ProtocolServerHandler.attached
      rw [hs']
      split
      · right
        exact ⟨s.clients.get c, quiet_send _ _ _⟩
      · rename_i hthrows
        left
        refine ⟨?_, (hopened s' _).trans (quiet_send _ _ _)⟩
        show (!throws && channels.all Uri.parses) = true
        rw [Bool.eq_false_of_not_eq_true hthrows, parses_of_addInitialSubscriptions hs']
        rfl
  | reconnectRequest c lastSeenServerSeq channels =>
    simp only
    unfold handleReconnect
    split
    · left
      exact quiet_send s _ _
    · rename_i existing hexisting
      right
      split
      · right
        exact ⟨some existing, quiet_send _ _ _⟩
      · rename_i hthrows
        left
        refine ⟨?_, hopened _ _⟩
        show (!throws && (s.clients.get c).isSome) = true
        rw [Bool.eq_false_of_not_eq_true hthrows, hexisting]
        rfl

theorem sameRegistry_handshakeBody (s : ProtocolServerHandler) (t : Nat) (handshake : Handshake)
    (starts : Uri → Bool) (throws : Bool) :
    SameRegistry (s.attached handshake.clientId t) (s.handshakeBody t handshake starts throws) := by
  cases handshake with
  | initializeRequest c channels => exact sameRegistry_addInitialSubscriptions _ _ _ _
  | reconnectRequest c lastSeenServerSeq channels =>
    refine @SameRegistry.trans _ ((s.attached c t).newReconnect _) _ ?_
      (SameRegistry.foldl (fun s' channel => sameRegistry_startRestore s' _ _ _ channel) _ _)
    exact ⟨fun _ => rfl, fun _ => rfl, fun _ => rfl, rfl, rfl, rfl⟩

theorem Suspended.handshakeBody (hs : Suspended s) (t : Nat) (handshake : Handshake)
    (starts : Uri → Bool) (throws : Bool) :
    Suspended (s.handshakeBody t handshake starts throws) := by
  cases handshake with
  | initializeRequest c channels => exact (hs.attached c t).addInitialSubscriptions _ _ _
  | reconnectRequest c lastSeenServerSeq channels =>
    refine Suspended.startRestores ?_ ?_ _ _ _
    · exact (hs.attached c t).frame rfl rfl (Nat.le_refl _)
    · show s.nextConnection < (s.attached c t).nextConnection
      rw [attached_nextConnection]
      omega

/-! ## Every run -/

structure Sound (s : ProtocolServerHandler) : Prop where
  registry : Registry s
  suspended : Suspended s

theorem Sound.frame (hs : Sound s) (hlive : ∀ c, s'.live c = s.live c)
    (hconnections : s'.connections = s.connections) (htransports : s'.transports = s.transports)
    (hnextConnection : s'.nextConnection = s.nextConnection)
    (hnextTransport : s'.nextTransport = s.nextTransport) (htasks : s'.tasks = s.tasks)
    (hnextTask : s'.nextTask = s.nextTask) : Sound s' where
  registry := hs.registry.extend hlive (fun _ _ => by rw [hconnections])
    (fun _ _ => by rw [hconnections]) htransports (Nat.le_of_eq hnextConnection.symm)
    hnextTransport
  suspended := hs.suspended.frame htasks hnextTask (Nat.le_of_eq hnextConnection.symm)

theorem Sound.quiet (hs : Sound s) (h : Quiet s s') : Sound s' :=
  ⟨h.sameRegistry.registry hs.registry, hs.suspended.quiet h⟩

theorem Sound.aside (hs : Sound s) (h : Aside s s') : Sound s' := by
  obtain ⟨_, _, _, _, h⟩ := h
  refine Sound.quiet ?_ h
  exact hs.frame (fun _ => rfl) rfl rfl rfl rfl rfl rfl

theorem mem_live_handshakeBody (s : ProtocolServerHandler) (t : Nat) (handshake : Handshake)
    (starts : Uri → Bool) (throws : Bool) :
    s.nextConnection ∈ (s.handshakeBody t handshake starts throws).live
      ((s.handshakeBody t handshake starts throws).connections s.nextConnection).clientId := by
  have h := sameRegistry_handshakeBody s t handshake starts throws
  rw [h.owner, h.live, attached_self, live_attached, if_pos rfl]
  exact mem_append_right _ (mem_singleton.mpr rfl)

theorem Sound.runHandshake (hs : Sound s) (hopen : (s.transports t).isOpen = true)
    (handshake : Handshake) (starts : Uri → Bool) (throws : Bool) :
    Sound (s.runHandshake t handshake starts throws) := by
  have hbody := sameRegistry_handshakeBody s t handshake starts throws
  have hsuspended := hs.suspended.handshakeBody t handshake starts throws
  rcases runHandshake_cases s t handshake starts throws with h | ⟨-, h⟩ | ⟨previous, h⟩
  · exact hs.quiet h
  · exact Sound.quiet ⟨hs.registry.opened hbody hopen, hsuspended.frame rfl rfl (Nat.le_refl _)⟩ h
  · have hdetached := detached_rollback
      (mem_live_handshakeBody s t handshake starts throws) previous
    exact Sound.quiet ⟨hs.registry.rolledBack hbody previous, hsuspended.detached hdetached⟩ h

theorem client_of_connectionOf (h : s.connectionOf t = some k) :
    (s.transports t).isOpen = true ∧ (s.transports t).client = some k := by
  unfold connectionOf at h
  split at h
  · rename_i hopen
    exact ⟨hopen, h⟩
  · cases h

theorem Registry.closeTransport (hs : Registry s) (hopen : (s.transports t).isOpen = true) :
    Registry (s.closeTransport t) :=
  hs.setTransport (hs.lt_of_open hopen) (hs.client t) nofun

theorem Registry.disconnect (hs : Registry s) (hopen : (s.transports t).isOpen = true)
    (hk : (s.transports t).client = some k) : Registry ((s.closeTransport t).disconnect k) := by
  by_cases hlive : k ∈ s.live (s.connections k).clientId
  · refine (hs.closeTransport hopen).detached (detached_disconnect hlive) fun t' ht' => ?_
    rw [ProtocolServerHandler.closeTransport, connectionOf_setTransport] at ht'
    split at ht'
    · cases ht'
    · rename_i hne
      have hclient := (client_of_connectionOf ht').2
      exact hne ((hs.client t' k hclient).2.symm.trans (hs.client t k hk).2)
  · have hnot : k ∉ (s.closeTransport t).live ((s.closeTransport t).connections k).clientId := hlive
    rw [disconnect_of_not_live hnot]
    exact hs.closeTransport hopen

theorem Suspended.handleSubscribe (hs : Suspended s) (hk : k < s.nextConnection) (channel : Uri)
    (starts : Bool) : Suspended (s.handleSubscribe k channel starts) := by
  unfold ProtocolServerHandler.handleSubscribe
  split
  · split
    · refine Suspended.newTask ?_ hk nofun
      exact hs.frame rfl rfl (Nat.le_refl _)
    · exact hs.newTask hk nofun
  · rename_i hstate
    split
    · rename_i hparses
      exact hs.newTask hk (fun _ => ⟨hstate, hparses⟩)
    · exact hs.newTask hk nofun

theorem Suspended.movePhase (hs : Suspended s) (hi : (s.tasks i).phase.inService = true) :
    Suspended (s.setPhase i phase) :=
  hs.setPhase (hs.lt hi) (fun _ => hi)

theorem Suspended.endPhase (hs : Suspended s) (hi : (s.tasks i).phase ≠ .settled none)
    (hphase : phase.inService = false) : Suspended (s.setPhase i phase) := by
  refine hs.setPhase ?_ (fun h => absurd (hphase.symm.trans h) (by decide))
  by_contra hlt
  exact hi (hs.fresh i (Nat.le_of_not_lt hlt))

theorem Sound.endPhase (hs : Sound s) (hi : (s.tasks i).phase ≠ .settled none)
    (hphase : phase.inService = false) : Sound (s.setPhase i phase) :=
  ⟨(sameRegistry_setPhase s i phase).registry hs.registry, hs.suspended.endPhase hi hphase⟩

theorem Sound.step (hs : Sound s) {e : ServerEvent} (hstep : s.step e = some s') : Sound s' := by
  have hservice : ∀ service, Sound { s with service } := fun service =>
    ⟨(sameRegistry_service s service).registry hs.registry,
      hs.suspended.frame rfl rfl (Nat.le_refl _)⟩
  cases turn_of_step hstep with
  | aside h => exact hs.aside h
  | connect =>
    have hnext : Sound { s with nextTransport := s.nextTransport + 1 } :=
      ⟨⟨hs.registry.nodup, hs.registry.bound, hs.registry.owner, hs.registry.live_of_open,
        hs.registry.client, fun t ht => hs.registry.fresh t (Nat.le_of_succ_le ht)⟩,
        hs.suspended.frame rfl rfl (Nat.le_refl _)⟩
    exact ⟨hnext.registry.setTransport (Nat.lt_succ_self _) nofun nofun,
      hs.suspended.frame rfl rfl (Nat.le_refl _)⟩
  | handshake hopen hbarrier => exact hs.runHandshake hopen _ _ _
  | @settled i t handshake starts throws hget hopen =>
    have hs₁ : Sound { s with handshakes := s.handshakes.eraseIdx i } :=
      hs.frame (fun _ => rfl) rfl rfl rfl rfl rfl rfl
    exact hs₁.runHandshake hopen handshake starts throws
  | @subscribe t k channel starts hk =>
    exact ⟨(sameRegistry_handleSubscribe s k channel starts).registry hs.registry,
      hs.suspended.handleSubscribe
        (hs.registry.client t k (client_of_connectionOf hk).2).1 channel starts⟩
  | @unsubscribe t k channel hk =>
    refine ⟨(sameRegistry_removeSubscription s k channel).registry hs.registry, ?_⟩
    unfold removeSubscription
    dsimp only
    split
    · split
      · exact hs.suspended.frame rfl rfl (Nat.le_refl _)
      · split
        · exact hs.suspended.frame rfl rfl (Nat.le_refl _)
        · refine Suspended.quiet ?_ (quiet_leaveChannel _ _ _)
          exact hs.suspended.frame rfl rfl (Nat.le_refl _)
    · exact hs.suspended
  | @close t hopen =>
    have hsuspended : Suspended (s.closeTransport t) := hs.suspended.frame rfl rfl (Nat.le_refl _)
    unfold ProtocolServerHandler.close
    split
    · exact ⟨hs.registry.closeTransport hopen, hsuspended⟩
    · rename_i k hk
      refine ⟨hs.registry.disconnect hopen hk, ?_⟩
      by_cases hlive : k ∈ (s.closeTransport t).live ((s.closeTransport t).connections k).clientId
      · exact hsuspended.detached (detached_disconnect hlive)
      · rw [disconnect_of_not_live hlive]
        exact hsuspended
  | @registerTask i hi =>
    refine ⟨(sameRegistry_registerTask s i).registry hs.registry, ?_⟩
    have hi : (s.tasks i).phase.inService = true := by rw [hi]; rfl
    unfold ProtocolServerHandler.registerTask
    dsimp only
    split
    · exact Suspended.movePhase (hservice _).suspended hi
    · exact Suspended.movePhase (hservice _).suspended hi
  | @restoreTask i hi =>
    refine ⟨(sameRegistry_restoreTask s i).registry hs.registry, ?_⟩
    have hi : (s.tasks i).phase.inService = true := by rw [hi]; rfl
    unfold ProtocolServerHandler.restoreTask
    split
    · exact hs.suspended.movePhase hi
    · exact Suspended.movePhase (hservice _).suspended hi
  | @failTask i hi =>
    refine ⟨(sameRegistry_failTask s i).registry hs.registry, ?_⟩
    exact Suspended.movePhase (hservice _).suspended (by rw [hi]; rfl)
  | @installTask i snapshot hi =>
    refine ⟨(sameRegistry_installTask s i snapshot).registry hs.registry, ?_⟩
    have hi : (s.tasks i).phase.inService = true := by rw [hi]; rfl
    have hq := hs.suspended.addSubscription (s.tasks i).connection (s.tasks i).channel
    have hquiet := quiet_clearTimeout (s.addSubscription (s.tasks i).connection
      (s.tasks i).channel) (s.connections (s.tasks i).connection).clientId (s.tasks i).channel
    have hi' : ∀ s₁, Quiet (s.addSubscription (s.tasks i).connection (s.tasks i).channel) s₁ →
        (s₁.tasks i).phase.inService = true := by
      rintro s₁ ⟨_, _, _, _, rfl⟩
      exact hi
    unfold ProtocolServerHandler.installTask
    dsimp only
    split
    · exact (hq.quiet hquiet).movePhase (hi' _ hquiet)
    · exact (hq.quiet hquiet).movePhase (hi' _ hquiet)
  | @answered e s' i phase hi hsettled hphase h =>
    exact (hs.endPhase hsettled hphase).aside h
  | collectResourceWatch => exact hservice _

end Fumie.AgentHost.ProtocolServerHandler
