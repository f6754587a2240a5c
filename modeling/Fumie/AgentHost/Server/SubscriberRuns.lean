import Fumie.AgentHost.Server.WatchBalance

/-!
# Subscriber entries over runs

`Accounted` says that every entry is owed to a live connection or a registered call
(`Owed`) and that a live connection whose transport is not open holds no state
channel. A call whose connection closed before its handler resumed breaks it: the
handler installs the subscription on a connection nobody will release. So do a watch
among the initial subscriptions and a second handshake that displaces a connection
with subscriptions. `KeepsSubscribers` leaves these steps out, and in every run without them a
client without connections and requests has no entry.
-/

namespace Fumie.AgentHost.ProtocolServerHandler

open Fumie.Lib AgentService List Function OrderedSet

variable {s s' : ProtocolServerHandler}

section

variable (s : ProtocolServerHandler)

def IsOpen (k : Nat) : Prop := ∃ t, s.connectionOf t = some k

/-! ## The steps that keep entries owed -/

def HandshakeKeepsSubscribers (t : Nat) (handshake : Handshake) (throws : Bool) : Prop :=
  (∀ c channels, handshake = .initializeRequest c channels →
    ∀ uri ∈ channels.takeWhile Uri.parses, classifyChannel uri = .state) ∧
  (s.opens handshake throws = true → ∀ k, (s.transports t).client = some k →
    ∀ uri ∈ (s.connections k).subscriptions, classifyChannel uri = .resourceWatch)

def ResumesOwed (i : Nat) : Prop :=
  let k := (s.tasks i).connection
  let c := (s.connections k).clientId
  s.IsOpen k ∨ (k ∉ s.live c ∧ (s.service.Subscribed (s.tasks i).channel c →
    s.Held (s.tasks i).channel c ∨ s.OtherCall i (s.tasks i).channel c))

def KeepsSubscribers : ServerEvent → Prop
  | .handshake t handshake _ throws =>
    s.beforeHandshake handshake.clientId = false → s.HandshakeKeepsSubscribers t handshake throws
  | .barrierSettled i _ throws => ∀ t handshake, s.handshakes[i]? = some (t, handshake) →
    (s.transports t).isOpen = true → s.HandshakeKeepsSubscribers t handshake throws
  | .resumeTask i => ∀ snapshot, (s.tasks i).phase = .read snapshot → s.ResumesOwed i
  | _ => True

end

/-! ## The invariant -/

structure Accounted (s : ProtocolServerHandler) : Prop where
  sound : Sound s
  owed : Owed s
  idle : ∀ c k, k ∈ s.live c → s.IsOpen k ∨
    ∀ ch ∈ (s.connections k).subscriptions, classifyChannel ch = .resourceWatch

theorem Accounted.frame (hs : Accounted s) (hsound : Sound s') (howed : Owed s')
    (hlive : ∀ c, s'.live c = s.live c) (htransports : s'.transports = s.transports)
    (hsub : ∀ c k, k ∈ s.live c → ∀ ch ∈ (s'.connections k).subscriptions,
      ch ∈ (s.connections k).subscriptions ∨ classifyChannel ch = .resourceWatch ∨ s.IsOpen k) :
    Accounted s' where
  sound := hsound
  owed := howed
  idle c k hk := by
    rw [hlive] at hk
    have hopen : s'.IsOpen k ↔ s.IsOpen k := by
      unfold IsOpen connectionOf
      rw [htransports]
    rw [hopen]
    by_cases hopen : s.IsOpen k
    · exact .inl hopen
    · refine Or.inr fun ch hmem => ?_
      rcases hsub c k hk ch hmem with hmem | hwatch | hopen'
      · exact (hs.idle c k hk).resolve_left hopen ch hmem
      · exact hwatch
      · exact absurd hopen' hopen

theorem Accounted.same (hs : Accounted s) (hsound : Sound s') (howed : Owed s')
    (hlive : ∀ c, s'.live c = s.live c) (htransports : s'.transports = s.transports)
    (hconnections : s'.connections = s.connections) : Accounted s' := by
  refine hs.frame hsound howed hlive htransports fun c k _ ch hmem => ?_
  rw [hconnections] at hmem
  exact .inl hmem

theorem Accounted.quiet (hs : Accounted s) (h : Quiet s s') : Accounted s' := by
  have hsound := hs.sound.quiet h
  have howed := hs.owed.quiet h
  obtain ⟨_, _, _, _, rfl⟩ := h
  exact hs.same hsound howed (fun _ => rfl) rfl rfl

theorem Accounted.aside (hs : Accounted s) (h : Aside s s') : Accounted s' := by
  obtain ⟨_, _, _, _, h⟩ := h
  refine Accounted.quiet ?_ h
  exact hs.same (hs.sound.frame (fun _ => rfl) rfl rfl rfl rfl rfl rfl)
    (hs.owed.frame (fun _ _ h => h) (fun _ => rfl) rfl rfl) (fun _ => rfl) rfl rfl

theorem Accounted.no_entry (hs : Accounted s) {c : ClientId}
    (hclosed : ∀ k, s.IsOpen k → (s.connections k).clientId ≠ c)
    (hsettled : ∀ i, (s.connections (s.tasks i).connection).clientId = c →
      (s.tasks i).phase.isRegistered = false) (ch : Uri) : ¬ s.service.Subscribed ch c := by
  intro hsub
  obtain ⟨hstate, -, ⟨k, hk, hmem⟩ | ⟨i, hphase, -, howner⟩⟩ := hs.owed.entry ch c hsub
  · rcases hs.idle c k hk with hopen | hwatch
    · exact hclosed k hopen (hs.sound.registry.owner c k hk)
    · rw [hwatch ch hmem] at hstate
      cases hstate
  · rw [hsettled i howner] at hphase
    cases hphase

/-! ## Requests -/

variable {k : Nat} {phase : TaskPhase}

theorem Accounted.handleSubscribe (hs : Accounted s) {channel : Uri} {starts : Bool}
    (hsound : Sound (s.handleSubscribe k channel starts)) :
    Accounted (s.handleSubscribe k channel starts) := by
  have howed := hs.owed.handleSubscribe hs.sound.suspended k channel starts
  have hframe := sameRegistry_handleSubscribe s k channel starts
  refine hs.frame hsound howed hframe.live hframe.transports fun c j hj ch hmem => ?_
  unfold ProtocolServerHandler.handleSubscribe at hmem
  split at hmem
  · rename_i hwatch
    split at hmem
    · rcases mem_addSubscription.mp hmem with ⟨-, rfl⟩ | hmem
      · exact Or.inr (.inl hwatch)
      · exact .inl hmem
    · exact .inl hmem
  · split at hmem
    · exact .inl hmem
    · exact .inl hmem

theorem removeSubscription_sub (s : ProtocolServerHandler) (k : Nat) (channel : Uri) (j : Nat) :
    ∀ ch ∈ ((s.removeSubscription k channel).connections j).subscriptions,
      ch ∈ (s.connections j).subscriptions := by
  intro ch hmem
  unfold ProtocolServerHandler.removeSubscription at hmem
  simp only at hmem
  split at hmem
  · split at hmem
    · exact (mem_eraseSubscription.mp hmem).1
    · split at hmem
      · exact (mem_eraseSubscription.mp hmem).1
      · rw [(quiet_leaveChannel _ _ _).connections] at hmem
        exact (mem_eraseSubscription.mp hmem).1
  · exact hmem

theorem Accounted.removeSubscription (hs : Accounted s) {t : Nat} {channel : Uri}
    (hsound : Sound (s.removeSubscription k channel)) (hk : s.connectionOf t = some k) :
    Accounted (s.removeSubscription k channel) := by
  have hr := hs.sound.registry
  have hframe := sameRegistry_removeSubscription s k channel
  exact hs.frame hsound (hs.owed.removeSubscription hr (hr.live_of_open t k hk)) hframe.live
    hframe.transports fun c j _ ch hmem => .inl (removeSubscription_sub s k channel j ch hmem)

/-! ## Calls of the agent service -/

variable {i : Nat}

theorem Owed.register (h : Owed s) (hs : Suspended s) (hi : (s.tasks i).phase = .releasing)
    (hphase : phase.isRegistered = true) :
    Owed ({ s with
      service := s.service.addSubscriber (s.tasks i).channel
        (s.connections (s.tasks i).connection).clientId }.setPhase i phase) where
  entry ch c hsub := by
    rcases (subscribed_addSubscriber s.service _ ch _ c).mp hsub with ⟨rfl, rfl⟩ | hsub
    · obtain ⟨hstate, hparses⟩ := hs.channel i (by rw [hi]; rfl)
      refine ⟨hstate, hparses, Or.inr ⟨i, ?_⟩⟩
      show (Function.update s.tasks i _ i).phase.isRegistered = true ∧
        (Function.update s.tasks i _ i).channel = (s.tasks i).channel ∧
          (s.connections (Function.update s.tasks i _ i).connection).clientId = _
      rw [update_self]
      exact ⟨hphase, rfl, rfl⟩
    · obtain ⟨hstate, hparses, howed⟩ := h.entry ch c hsub
      refine ⟨hstate, hparses, ?_⟩
      rcases howed with hheld | ⟨j, hj, hchannel, howner⟩
      · exact .inl hheld
      · have hne : j ≠ i := by
          rintro rfl
          rw [hi] at hj
          cases hj
        refine Or.inr ⟨j, ?_⟩
        show (Function.update s.tasks i _ j).phase.isRegistered = true ∧
          (Function.update s.tasks i _ j).channel = ch ∧
            (s.connections (Function.update s.tasks i _ j).connection).clientId = c
        rw [update_of_ne hne]
        exact ⟨hj, hchannel, howner⟩
  parses := h.parses

theorem Accounted.registerTask (hs : Accounted s) (hi : (s.tasks i).phase = .releasing)
    (hsound : Sound (s.registerTask i)) : Accounted (s.registerTask i) := by
  unfold ProtocolServerHandler.registerTask at hsound ⊢
  simp only at hsound ⊢
  split at hsound
  · exact hs.same hsound (hs.owed.register hs.sound.suspended hi rfl) (fun _ => rfl) rfl rfl
  · exact hs.same hsound (hs.owed.register hs.sound.suspended hi rfl) (fun _ => rfl) rfl rfl

theorem Owed.failTask (h : Owed s) (i : Nat) : Owed (s.failTask i) := by
  have hbefore : Owed { s with
      service := s.service.unsubscribe (s.tasks i).channel
        (s.connections (s.tasks i).connection).clientId } :=
    h.frame (fun ch c hsub => ((subscribed_unsubscribe s.service _ ch _ c).mp hsub).2)
      (fun _ => rfl) rfl rfl
  refine hbefore.setPhase fun _ => Or.inr ?_
  rintro c rfl hsub
  exact absurd ⟨rfl, rfl⟩ ((subscribed_unsubscribe s.service _ _ _ _).mp hsub).1

theorem Accounted.failTask (hs : Accounted s) (hsound : Sound (s.failTask i)) :
    Accounted (s.failTask i) :=
  hs.same hsound (hs.owed.failTask i) (fun _ => rfl) rfl rfl

theorem Accounted.restoreTask (hs : Accounted s) (hsound : Sound (s.restoreTask i)) :
    Accounted (s.restoreTask i) := by
  unfold ProtocolServerHandler.restoreTask at hsound ⊢
  split at hsound
  · exact hs.same hsound (hs.owed.setPhase fun _ => .inl rfl) (fun _ => rfl) rfl rfl
  · exact hs.failTask hsound

theorem Accounted.movePhase (hs : Accounted s) (hi : (s.tasks i).phase.isRegistered = false)
    (hsound : Sound (s.setPhase i phase)) : Accounted (s.setPhase i phase) := by
  refine hs.same hsound (hs.owed.setPhase fun h => ?_) (fun _ => rfl) rfl rfl
  rw [hi] at h
  cases h

theorem Accounted.installTask (hs : Accounted s) {snapshot : StateSnapshot}
    (hi : (s.tasks i).phase.inService = true) (hok : s.ResumesOwed i)
    (hsound : Sound (s.installTask i snapshot)) : Accounted (s.installTask i snapshot) := by
  have hr := hs.sound.registry
  obtain ⟨k, hk⟩ : ∃ k, k = (s.tasks i).connection := ⟨_, rfl⟩
  obtain ⟨ch, hch⟩ : ∃ ch, ch = (s.tasks i).channel := ⟨_, rfl⟩
  have hquiet := quiet_clearTimeout (s.addSubscription k ch) (s.connections k).clientId ch
  obtain ⟨s₁, hs₁⟩ : ∃ s₁, s₁ = (s.addSubscription k ch).clearClientToolCallDisconnectTimeout
      (s.connections k).clientId ch := ⟨_, rfl⟩
  rw [← hs₁] at hquiet
  have hparses : ch.parses = true := hch ▸ (hs.sound.suspended.channel i hi).2
  have howed₁ : Owed s₁ := (hs.owed.addSubscription k hparses).quiet hquiet
  have hmem : ∀ j uri, uri ∈ (s₁.connections j).subscriptions ↔
      (j = k ∧ uri = ch) ∨ uri ∈ (s.connections j).subscriptions := by
    intro j uri
    rw [hquiet.connections]
    exact mem_addSubscription
  have hsame : SameRegistry s s₁ := (sameRegistry_addSubscription s k ch).trans hquiet.sameRegistry
  have hheld : ∀ c, s.Held ch c → s₁.Held ch c := by
    rintro c ⟨j, hj, hold⟩
    exact ⟨j, (hsame.live c).symm ▸ hj, (hmem j ch).mpr (Or.inr hold)⟩
  have hservice : s₁.service = s.service := hquiet.service
  have htasks : s₁.tasks = s.tasks := by
    obtain ⟨_, _, _, _, rfl⟩ := hquiet
    rfl
  -- The entry is owed to the connection, or to what the condition names.
  have hcovered : ∀ c, (s.connections k).clientId = c → s₁.service.Subscribed ch c →
      s₁.Held ch c ∨ s₁.OtherCall i ch c := by
    rintro c rfl hsub
    unfold ResumesOwed at hok
    rw [← hk, ← hch] at hok
    rcases hok with ⟨t, hopen⟩ | ⟨-, hother⟩
    · refine .inl ⟨k, ?_, (hmem k ch).mpr (.inl ⟨rfl, rfl⟩)⟩
      rw [hsame.live]
      exact hr.live_of_open t k hopen
    · rw [hservice] at hsub
      rcases hother hsub with hold | ⟨j, hne, hphase, hchannel, howner⟩
      · exact .inl (hheld _ hold)
      · refine Or.inr ⟨j, hne, ?_⟩
        rw [htasks]
        exact ⟨hphase, hchannel, (hsame.owner _).trans howner⟩
  have howed : ∀ phase, Owed (s₁.setPhase i phase) := by
    intro phase
    refine howed₁.setPhase fun _ => Or.inr fun c hc hsub => ?_
    rw [htasks, ← hk, hsame.owner] at hc
    rw [htasks, ← hch] at hsub ⊢
    exact hcovered c hc hsub
  have hresult : ∃ phase, s.installTask i snapshot = s₁.setPhase i phase := by
    unfold ProtocolServerHandler.installTask
    simp only
    rw [← hk, ← hch, ← hs₁]
    split
    · exact ⟨_, rfl⟩
    · exact ⟨_, rfl⟩
  obtain ⟨phase, heq⟩ := hresult
  rw [heq] at hsound ⊢
  refine hs.frame hsound (howed phase) hsame.live hsame.transports fun c j hj uri huri => ?_
  rcases (hmem j uri).mp huri with ⟨rfl, -⟩ | hold
  · unfold ResumesOwed at hok
    rw [← hk] at hok
    rcases hok with hopen | ⟨hnot, -⟩
    · exact Or.inr (Or.inr hopen)
    · rw [hr.owner c j hj] at hnot
      exact absurd hj hnot
  · exact .inl hold

/-! ## Closing -/

theorem Accounted.close (hs : Accounted s) {t : Nat} (hopen : (s.transports t).isOpen = true)
    (hsound : Sound (s.close t)) : Accounted (s.close t) := by
  have hr := hs.sound.registry
  unfold ProtocolServerHandler.close at hsound ⊢
  cases hclient : (s.transports t).client with
  | none =>
    simp only [hclient] at hsound ⊢
    refine ⟨hsound, hs.owed.frame (fun _ _ h => h) (fun _ => rfl) rfl rfl, fun c k hk => ?_⟩
    rcases hs.idle c k hk with ⟨t', ht'⟩ | hwatch
    · refine .inl ⟨t', ?_⟩
      rw [connectionOf_closeTransport, if_neg ?_]
      · exact ht'
      · rintro rfl
        rw [(client_of_connectionOf ht').2] at hclient
        cases hclient
    · exact Or.inr hwatch
  | some k =>
    simp only [hclient] at hsound ⊢
    have hk : s.connectionOf t = some k := by
      unfold connectionOf
      rw [if_pos hopen, hclient]
    have hlive : k ∈ (s.closeTransport t).live ((s.closeTransport t).connections k).clientId :=
      hr.live_of_open t k hk
    have hdetached := detached_disconnect hlive
    have howed₁ : Owed (s.closeTransport t) := hs.owed.frame (fun _ _ h => h) (fun _ => rfl) rfl rfl
    refine ⟨hsound, owed_detached (hr.closeTransport hopen).nodup (hr.closeTransport hopen).owner howed₁.entry
      (fun c j hj _ => howed₁.parses c j hj)
      (fun uri huri => howed₁.parses _ k hlive uri (mem_of_mem_dropLast huri)) hdetached,
      fun c j hj => ?_⟩
    rw [hdetached.live] at hj
    have hjk : j ∈ s.live c ∧ j ≠ k := by
      split at hj
      · exact ⟨mem_of_mem_erase hj, fun heq => (hr.nodup c).not_mem_erase (heq ▸ hj)⟩
      · rename_i hc
        exact ⟨hj, fun heq => hc (heq ▸ hr.owner c j hj)⟩
    have hsame : ∀ t', ((s.closeTransport t).disconnect k).connectionOf t' =
        if t' = t then none else s.connectionOf t' := by
      intro t'
      rw [← connectionOf_closeTransport]
      unfold connectionOf
      rw [hdetached.transports]
    rcases hs.idle c j hjk.1 with ⟨t', ht'⟩ | hwatch
    · refine .inl ⟨t', ?_⟩
      rw [hsame, if_neg ?_]
      · exact ht'
      · rintro rfl
        exact hjk.2 (Option.some.inj (ht'.symm.trans hk))
    · right
      rw [hdetached.others j hjk.2]
      exact hwatch

/-! ## Handshakes -/

theorem attached_service (s : ProtocolServerHandler) (c : ClientId) (t : Nat) :
    (s.attached c t).service = s.service ∧ (s.attached c t).tasks = s.tasks := by
  unfold ProtocolServerHandler.attached attachConnection
  split
  · exact ⟨rfl, rfl⟩
  · exact ⟨rfl, rfl⟩

theorem Owed.attached (h : Owed s) (hs : Sound s) (c : ClientId) (t : Nat) :
    Owed (s.attached c t) := by
  have hr := hs.registry
  have hlive : ∀ c' j, j ∈ (s.attached c t).live c' → j ∈ s.live c' ∨ j = s.nextConnection := by
    intro c' j hj
    rw [live_attached] at hj
    split at hj
    · rename_i hc
      subst hc
      rcases mem_append.mp hj with hj | hj
      · exact .inl hj
      · exact Or.inr (mem_singleton.mp hj)
    · exact .inl hj
  refine ⟨fun ch c' hsub => ?_, fun c' j hj ch hmem => ?_⟩
  · rw [(attached_service s c t).1] at hsub
    obtain ⟨hstate, hparses, howed⟩ := h.entry ch c' hsub
    refine ⟨hstate, hparses, ?_⟩
    rcases howed with ⟨j, hj, hmem⟩ | ⟨i, hphase, hchannel, howner⟩
    · refine .inl ⟨j, ?_, ?_⟩
      · rw [live_attached]
        split
        · rename_i hc
          exact mem_append_left _ (hc ▸ hj)
        · exact hj
      · rw [attached_of_lt s c t (hr.bound c' j hj)]
        exact hmem
    · have hservice : (s.tasks i).phase.inService = true := by
        revert hphase
        cases (s.tasks i).phase with
        | restoring | read _ => exact fun _ => rfl
        | _ => exact fun hphase => by cases hphase
      have hlt := hs.suspended.connection i (hs.suspended.lt hservice)
      refine Or.inr ⟨i, ?_⟩
      rw [(attached_service s c t).2, attached_of_lt s c t hlt]
      exact ⟨hphase, hchannel, howner⟩
  · rcases hlive c' j hj with hj | rfl
    · rw [attached_of_lt s c t (hr.bound c' j hj)] at hmem
      exact h.parses c' j hj ch hmem
    · rw [attached_self] at hmem
      exact absurd hmem (not_mem_empty ch)

theorem Owed.startRestore (h : Owed s) (hs : Suspended s) (r k : Nat) (starts : Uri → Bool)
    (channel : Uri) : Owed (s.startRestore r k starts channel) := by
  unfold ProtocolServerHandler.startRestore
  split
  · rename_i hwatch
    split
    · rename_i service hservice
      have hacquired := h.acquire channel (starts channel)
      rw [hservice] at hacquired
      refine (hacquired.addSubscription k (parses_of_resourceWatch hwatch)).newTask ?_ _
      exact hs.frame rfl rfl (Nat.le_refl _)
    · exact h.frame (fun _ _ h => h) (fun _ => rfl) rfl rfl
  · split
    · exact h.newTask hs _
    · exact h.frame (fun _ _ h => h) (fun _ => rfl) rfl rfl

theorem Owed.startRestores (h : Owed s) (hs : Suspended s) (hk : k < s.nextConnection) (r : Nat)
    (starts : Uri → Bool) (channels : List Uri) :
    Owed (channels.foldl (fun s' channel => s'.startRestore r k starts channel) s) := by
  induction channels generalizing s with
  | nil => exact h
  | cons channel rest ih =>
    rw [foldl_cons]
    refine ih (h.startRestore hs r k starts channel) (hs.startRestore hk r starts channel) ?_
    rw [(sameRegistry_startRestore s r k starts channel).nextConnection]
    exact hk

variable {t : Nat} {handshake : Handshake} {starts : Uri → Bool} {throws : Bool}

structure HandshakeOwed (body : ProtocolServerHandler) (k : Nat) : Prop where
  entry : ∀ ch c, body.service.Subscribed ch c → classifyChannel ch = .state ∧
    ch.parses = true ∧ (body.Held ch c ∨ body.InService ch c)
  others : ∀ c j, j ∈ body.live c → j ≠ k →
    ∀ ch ∈ (body.connections j).subscriptions, ch.parses = true
  last : ∀ uri ∈ (body.connections k).subscriptions.elems.dropLast, uri.parses = true

theorem Owed.handshakeOwed (h : Owed s) {c : ClientId} (hk : k ∈ s.live c) : HandshakeOwed s k :=
  ⟨h.entry, fun c j hj _ => h.parses c j hj,
    fun uri huri => h.parses c k hk uri (mem_of_mem_dropLast huri)⟩

theorem Accounted.owed_reconnectBody (hs : Accounted s) (t : Nat) (c : ClientId)
    (lastSeenServerSeq : Nat) (channels : List Uri) (starts : Uri → Bool) (throws : Bool) :
    Owed (s.handshakeBody t (.reconnectRequest c lastSeenServerSeq channels) starts throws) := by
  refine Owed.startRestores ?_ ?_ ?_ _ _ _
  · exact (hs.owed.attached hs.sound c t).frame (fun _ _ h => h) (fun _ => rfl) rfl rfl
  · exact (hs.sound.suspended.attached c t).frame rfl rfl (Nat.le_refl _)
  · show s.nextConnection < (s.attached c t).nextConnection
    rw [attached_nextConnection]
    omega

theorem Accounted.handshakeOwed (hs : Accounted s)
    (hok : s.HandshakeKeepsSubscribers t handshake throws) :
    HandshakeOwed (s.handshakeBody t handshake starts throws) s.nextConnection := by
  cases handshake with
  | initializeRequest c channels =>
    obtain ⟨s₀, hs₀⟩ : ∃ s₀, s₀ = s.attached c t := ⟨_, rfl⟩
    obtain ⟨body, hbody⟩ : ∃ body, body =
        (addInitialSubscriptions s.nextConnection channels s₀ []).1 := ⟨_, rfl⟩
    have hsubscribes := subscribes_addInitial s.nextConnection channels s₀ []
    have hsame := sameRegistry_addInitialSubscriptions s.nextConnection channels s₀ []
    have howed₀ : Owed s₀ := hs₀ ▸ hs.owed.attached hs.sound c t
    have hself : s₀.connections s.nextConnection =
        { clientId := c, transport := t, subscriptions := .empty } := hs₀ ▸ attached_self s c t
    have hnext : s.nextConnection ∈ s₀.live c := by
      rw [hs₀, live_attached, if_pos rfl]
      exact mem_append_right _ (mem_singleton.mpr rfl)
    unfold ProtocolServerHandler.handshakeBody
    simp only
    rw [← hs₀, ← hbody]
    rw [← hbody] at hsubscribes hsame
    refine ⟨fun ch c' hsub => ?_, fun c' j hj hne ch hmem => ?_, hsubscribes.last fun uri huri => ?_⟩
    · rcases hsubscribes.entry ch c' hsub with hold | ⟨hc, hnew⟩
      · obtain ⟨hstate, hparses, hwas⟩ := howed₀.entry ch c' hold
        refine ⟨hstate, hparses, ?_⟩
        rcases hwas with ⟨j, hj, hmem⟩ | ⟨i, hphase, hchannel, howner⟩
        · refine .inl ⟨j, (hsame.live c').symm ▸ hj, ?_⟩
          by_cases hjk : j = s.nextConnection
          · rw [hjk] at hmem ⊢
            exact hsubscribes.subscribed ch (.inl hmem)
          · rw [hsubscribes.others j hjk]
            exact hmem
        · refine Or.inr ⟨i, ?_⟩
          rw [hsubscribes.tasks]
          exact ⟨hphase, hchannel, (hsame.owner _).trans howner⟩
      · refine ⟨hok.1 c channels rfl ch hnew, ?_, .inl ⟨s.nextConnection, ?_, ?_⟩⟩
        · exact mem_takeWhile_imp hnew
        · rw [hc, hself, hsame.live]
          exact hnext
        · exact hsubscribes.subscribed ch (Or.inr hnew)
    · rw [hsame.live] at hj
      rw [hsubscribes.others j hne] at hmem
      exact howed₀.parses c' j hj ch hmem
    · rw [hself] at huri
      cases huri
  | reconnectRequest c lastSeenServerSeq channels =>
    exact (hs.owed_reconnectBody t c lastSeenServerSeq channels starts throws).handshakeOwed
      (mem_live_handshakeBody s t _ starts throws)

theorem Accounted.owed_handshakeBody (hs : Accounted s)
    (hok : s.HandshakeKeepsSubscribers t handshake throws)
    (hopens : s.opens handshake throws = true) :
    Owed (s.handshakeBody t handshake starts throws) := by
  cases handshake with
  | initializeRequest c channels =>
    have howed : HandshakeOwed (s.handshakeBody t (.initializeRequest c channels) starts throws)
      s.nextConnection := hs.handshakeOwed hok
    refine ⟨howed.entry, fun c' j hj ch hmem => ?_⟩
    by_cases hne : j = s.nextConnection
    · subst hne
      have hall : channels.all Uri.parses = true := (Bool.and_eq_true_iff.mp hopens).2
      rcases (subscribes_addInitial s.nextConnection channels (s.attached c t) []).subscriptions
        ch hmem with hold | hin | ⟨hin, -⟩
      · rw [attached_self] at hold
        exact absurd hold (not_mem_empty ch)
      · exact mem_takeWhile_imp hin
      · exact all_eq_true.mp hall ch hin
    · exact howed.others c' j hj hne ch hmem
  | reconnectRequest c lastSeenServerSeq channels =>
    exact hs.owed_reconnectBody t c lastSeenServerSeq channels starts throws

theorem handshakeBody_others (s : ProtocolServerHandler) (t : Nat) (handshake : Handshake)
    (starts : Uri → Bool) (throws : Bool) {j : Nat} (hj : j ≠ s.nextConnection) :
    (s.handshakeBody t handshake starts throws).connections j = s.connections j := by
  have hattached : ∀ c, (s.attached c t).connections j = s.connections j := by
    intro c
    rw [attached_connections, update_of_ne hj]
  cases handshake with
  | initializeRequest c channels =>
    exact ((subscribes_addInitial s.nextConnection channels (s.attached c t) []).others j
      hj).trans (hattached c)
  | reconnectRequest c lastSeenServerSeq channels =>
    refine Eq.trans ?_ (hattached c)
    suffices h : ∀ s₀ : ProtocolServerHandler, (channels.foldl (fun s' channel =>
        s'.startRestore s.nextReconnect s.nextConnection starts channel) s₀).connections j =
          s₀.connections j from h _
    intro s₀
    induction channels generalizing s₀ with
    | nil => rfl
    | cons channel rest ih =>
      rw [foldl_cons]
      refine (ih _).trans ?_
      rcases startRestore_cases s₀ s.nextReconnect s.nextConnection starts channel with
        ⟨-, -, -, h⟩ | ⟨-, -, h⟩
      · rw [h]
        exact setConnection_of_ne _ _ hj
      · rw [h]

theorem Accounted.runHandshake (hs : Accounted s) (hopen : (s.transports t).isOpen = true)
    (hok : s.HandshakeKeepsSubscribers t handshake throws) :
    Accounted (s.runHandshake t handshake starts throws) := by
  have hr := hs.sound.registry
  have hbody := sameRegistry_handshakeBody s t handshake starts throws
  have hsuspended := hs.sound.suspended.handshakeBody t handshake starts throws
  have hothers := fun j (hj : j ≠ s.nextConnection) =>
    handshakeBody_others s t handshake starts throws hj
  have htransports : (s.handshakeBody t handshake starts throws).transports = s.transports := by
    rw [hbody.transports, (attached_transports s _ t).1]
  rcases runHandshake_cases s t handshake starts throws with h | ⟨hopens, h⟩ | ⟨previous, h⟩
  · exact hs.quiet h
  · refine Accounted.quiet ?_ h
    refine ⟨⟨hr.opened hbody hopen, hsuspended.frame rfl rfl (Nat.le_refl _)⟩,
      (hs.owed_handshakeBody hok hopens).frame (fun _ _ h => h) (fun _ => rfl) rfl rfl,
      fun c k hk => ?_⟩
    have hconnectionOf : ∀ t', ((s.handshakeBody t handshake starts throws).opened t
        s.nextConnection).connectionOf t' =
          if t' = t then some s.nextConnection else s.connectionOf t' := by
      intro t'
      unfold ProtocolServerHandler.opened
      rw [connectionOf_setTransport, htransports]
      simp only [hopen, if_true]
      unfold connectionOf
      rw [htransports]
    by_cases hnew : k = s.nextConnection
    · refine .inl ⟨t, ?_⟩
      rw [hconnectionOf, if_pos rfl, hnew]
    · have hlive : k ∈ s.live c := by
        have hk' : k ∈ (s.handshakeBody t handshake starts throws).live c := hk
        rw [hbody.live, live_attached] at hk'
        split at hk'
        · rename_i hc
          subst hc
          exact (mem_append.mp hk').resolve_right fun hmem => hnew (mem_singleton.mp hmem)
        · exact hk'
      have hwas : ((s.handshakeBody t handshake starts throws).opened t
          s.nextConnection).connections k = s.connections k := hothers k hnew
      rw [hwas]
      rcases hs.idle c k hlive with ⟨t', ht'⟩ | hwatch
      · by_cases ht : t' = t
        · subst ht
          exact Or.inr (hok.2 hopens k (client_of_connectionOf ht').2)
        · refine .inl ⟨t', ?_⟩
          rw [hconnectionOf, if_neg ht]
          exact ht'
      · exact Or.inr hwatch
  · have hdetached := detached_rollback
      (mem_live_handshakeBody s t handshake starts throws) previous
    have howed : HandshakeOwed (s.handshakeBody t handshake starts throws) s.nextConnection :=
      hs.handshakeOwed hok
    have hopened := hr.opened hbody hopen
    have hnodup : ∀ c, ((s.handshakeBody t handshake starts throws).live c).Nodup := hopened.nodup
    have howner : ∀ c j, j ∈ (s.handshakeBody t handshake starts throws).live c →
        ((s.handshakeBody t handshake starts throws).connections j).clientId = c := hopened.owner
    refine Accounted.quiet ?_ h
    refine ⟨⟨hr.rolledBack hbody previous, hsuspended.detached hdetached⟩,
      owed_detached hnodup howner howed.entry howed.others howed.last hdetached,
      fun c k hk => ?_⟩
    · rw [live_rolledBack hr hbody previous] at hk
      have hnew : k ≠ s.nextConnection := Nat.ne_of_lt (hr.bound c k hk)
      have hopen' : ∀ t', ((s.handshakeBody t handshake starts
          throws).rollbackFailedInitialization s.nextConnection previous).connectionOf t' =
            s.connectionOf t' := by
        intro t'
        unfold connectionOf
        rw [hdetached.transports, htransports]
      rw [hdetached.others k hnew, hothers k hnew]
      rcases hs.idle c k hk with ⟨t', ht'⟩ | hwatch
      · exact .inl ⟨t', (hopen' t').trans ht'⟩
      · exact Or.inr hwatch

/-! ## Every run -/

theorem subscribed_collectResourceWatch (service : AgentService) (channel ch : Uri) (c : ClientId) :
    (service.collectResourceWatch channel).Subscribed ch c ↔ service.Subscribed ch c := by
  unfold AgentService.collectResourceWatch AgentService.Subscribed
  split
  · exact Iff.rfl
  · split
    · exact Iff.rfl
    · exact Iff.rfl

theorem not_subscribed_create (ch : Uri) (c : ClientId) : ¬ AgentService.create.Subscribed ch c := by
  rintro ⟨_, h, -⟩
  cases h

theorem accounted_create (manager : StateManager) (beforeHandshake : ClientId → Bool) :
    Accounted (create manager beforeHandshake) where
  sound := sound_create manager beforeHandshake
  owed := ⟨fun ch c hsub => absurd hsub (not_subscribed_create ch c), fun _ _ hk => by cases hk⟩
  idle _ _ hk := by cases hk

theorem Accounted.step (hs : Accounted s) {e : ServerEvent} (hok : s.KeepsSubscribers e)
    (hstep : s.step e = some s') : Accounted s' := by
  have hsound : Sound s' := hs.sound.step hstep
  cases turn_of_step hstep with
  | aside h => exact hs.aside h
  | connect =>
    refine ⟨hsound, hs.owed.frame (fun _ _ h => h) (fun _ => rfl) rfl rfl, fun c k hk => ?_⟩
    rcases hs.idle c k hk with ⟨t, ht⟩ | hwatch
    · refine .inl ⟨t, (connectionOf_setTransport s s.nextTransport t ⟨true, none⟩).trans ?_⟩
      rw [if_neg ?_]
      · exact ht
      · rintro rfl
        have hclient := (client_of_connectionOf ht).2
        rw [hs.sound.registry.fresh _ (Nat.le_refl _)] at hclient
        cases hclient
    · exact Or.inr hwatch
  | handshake hopen hbarrier => exact hs.runHandshake hopen (hok hbarrier)
  | @settled i t handshake starts throws hget hopen =>
    have hs₁ : Accounted { s with handshakes := s.handshakes.eraseIdx i } :=
      hs.aside ⟨_, _, _, _, Quiet.refl _⟩
    exact hs₁.runHandshake hopen (hok t handshake hget hopen)
  | subscribe hk => exact hs.handleSubscribe hsound
  | unsubscribe hk => exact hs.removeSubscription hsound hk
  | close hopen => exact hs.close hopen hsound
  | registerTask hi => exact hs.registerTask hi hsound
  | restoreTask hi => exact hs.restoreTask hsound
  | failTask hi => exact hs.failTask hsound
  | @installTask i snapshot hi => exact hs.installTask (by rw [hi]; rfl) (hok snapshot hi) hsound
  | @answered e s' i phase hi hsettled hphase h =>
    exact (hs.movePhase hi (hs.sound.endPhase hsettled hphase)).aside h
  | @collectResourceWatch channel =>
    refine hs.same hsound (hs.owed.frame (fun ch c h => ?_) (fun _ => rfl) rfl rfl) (fun _ => rfl)
      rfl rfl
    exact (subscribed_collectResourceWatch s.service channel ch c).mp h

/-- A client without an open transport, all of whose requests have settled, is a
subscriber of no channel. -/
theorem no_leaked_subscription {manager : StateManager} {beforeHandshake : ClientId → Bool}
    (hs : (system manager beforeHandshake).ReachableVia KeepsSubscribers s) {c : ClientId}
    (hclosed : ∀ t k, s.connectionOf t = some k → (s.connections k).clientId ≠ c)
    (hsettled : ∀ i, i < s.nextTask → (s.connections (s.tasks i).connection).clientId = c →
      ∃ snapshot, (s.tasks i).phase = .settled snapshot) (ch : Uri) :
    ¬ s.service.Subscribed ch c := by
  have haccounted : Accounted s := by
    refine hs.invariant (fun s₀ hs₀ => ?_) fun _ _ _ h hok hstep => h.step hok hstep
    rw [show s₀ = create manager beforeHandshake from hs₀]
    exact accounted_create manager beforeHandshake
  refine haccounted.no_entry (fun k hk => ?_) (fun i hi => ?_) ch
  · obtain ⟨t, hk⟩ := hk
    exact hclosed t k hk
  · by_cases hlt : i < s.nextTask
    · obtain ⟨snapshot, hphase⟩ := hsettled i hlt hi
      rw [hphase]
      rfl
    · rw [haccounted.sound.suspended.fresh i (Nat.le_of_not_lt hlt)]
      rfl

def rootSnapshot : StateSnapshot := ⟨.root, .root default, 0⟩

/-- A client connects, subscribes to the root channel, gets its answer and closes. -/
def sampleLeft : ProtocolServerHandler :=
  (((((sampleConnected []).handleSubscribe 0 .root true).registerTask 0).installTask 0
    rootSnapshot).respondTask 0).close 0

theorem no_leaked_subscription_sample : ¬ sampleLeft.service.Subscribed .root "a" := by
  have hconnected : (system emptyServer.manager fun _ => false).ReachableVia KeepsSubscribers
      (sampleConnected []) := by
    refine .step (.step (i := .connect) (.init rfl) trivial rfl)
      (i := .handshake 0 (.initializeRequest "a" []) (fun _ => true) false) ?_ rfl
    refine fun _ => ⟨fun c channels hchannels uri huri => ?_, fun _ _ hk => (by cases hk)⟩
    cases hchannels
    cases huri
  have hinstalled : (system emptyServer.manager fun _ => false).ReachableVia KeepsSubscribers
      ((((sampleConnected []).handleSubscribe 0 .root true).registerTask 0).installTask 0
        rootSnapshot) := by
    refine .step (.step (.step hconnected (i := .subscribe 0 .root true) trivial rfl)
      (i := .registerTask 0) trivial rfl) (i := .resumeTask 0) ?_ rfl
    exact fun _ _ => .inl ⟨0, rfl⟩
  have hreached : (system emptyServer.manager fun _ => false).ReachableVia KeepsSubscribers
      sampleLeft :=
    .step (.step hinstalled (i := .respondTask 0) trivial rfl) (i := .close 0) trivial rfl
  refine no_leaked_subscription hreached (fun t k hk => ?_) (fun i hi _ => ?_) .root
  · have hnone : sampleLeft.connectionOf t = none := by
      cases t with
      | zero | succ _ => rfl
    rw [hnone] at hk
    cases hk
  · obtain rfl : i = 0 := Nat.lt_one_iff.mp hi
    exact ⟨_, rfl⟩

/-- The transport closes while the call is in service, then the call returns. -/
def leakingEvents : List ServerEvent :=
  [.connect, .handshake 0 (.initializeRequest "a" []) (fun _ => true) false,
    .subscribe 0 .root true, .registerTask 0, .close 0, .resumeTask 0, .respondTask 0,
    .advance 300001, .fireTimer ⟨0, .managedSettings, "a", .root, 30000⟩, .connect,
    .handshake 1 (.initializeRequest "b" []) (fun _ => true) false]

def leakingServer : ProtocolServerHandler :=
  (leakingEvents.foldlM step emptyServer).getD emptyServer

/-- The handler has answered and the grace record is gone, and the entry stays. -/
theorem subscription_leaks :
    ¬ ∀ (manager : StateManager) (beforeHandshake : ClientId → Bool) (s : ProtocolServerHandler),
      (system manager beforeHandshake).Reachable s → ∀ c,
        (∀ t k, s.connectionOf t = some k → (s.connections k).clientId ≠ c) →
        s.clients.get c = none →
        (∀ i, i < s.nextTask → (s.connections (s.tasks i).connection).clientId = c →
          ∃ snapshot, (s.tasks i).phase = .settled snapshot) →
        ∀ ch, ¬ s.service.Subscribed ch c := by
  intro h
  have hreached : (system emptyServer.manager fun _ => false).Reachable leakingServer :=
    System.Reachable.run (.init rfl) leakingEvents rfl
  refine h _ _ _ hreached "a" (fun t k hk => ?_) rfl (fun i hi _ => ?_) .root ⟨_, rfl, ?_⟩
  · have hk' : leakingServer.connectionOf t = if t = 1 then some 1 else none := by
      match t with
      | 0 => rfl
      | 1 => rfl
      | t + 2 => rfl
    rw [hk'] at hk
    split at hk
    · cases hk
      decide
    · cases hk
  · obtain rfl : i = 0 := Nat.lt_one_iff.mp hi
    exact ⟨_, rfl⟩
  · decide

end Fumie.AgentHost.ProtocolServerHandler
