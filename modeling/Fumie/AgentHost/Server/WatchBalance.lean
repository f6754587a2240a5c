import Fumie.AgentHost.Server.WatchHolders

/-!
# The balance of resource watches

A handshake first subscribes a connection that is not open yet (`Prepared`): then it
opens the connection or releases it again. `initialize` subscribes to a watch without
acquiring it, `reconnect` acquires a watch once for each time it is listed, and so
does `subscribe`, while a connection holds a watch at most once. `KeepsWatches` leaves
these steps out, and in every run without them the service counts exactly the
connections that hold a watch.
-/

namespace Fumie.AgentHost.ProtocolServerHandler

open Fumie.Lib AgentService List

variable {s s' : ProtocolServerHandler}

/-! ## The steps that keep the balance -/

def HandshakeKeepsWatches (s : ProtocolServerHandler) (t : Nat) (handshake : Handshake)
    (starts : Uri → Bool) (throws : Bool) : Prop :=
  (match handshake with
  | .initializeRequest _ channels =>
    ∀ uri ∈ channels.takeWhile Uri.parses, classifyChannel uri = .state
  | .reconnectRequest c _ channels => (s.clients.get c).isSome = true →
    ∀ uri ∈ channels, classifyChannel uri = .resourceWatch →
      s.service.canAcquire uri (starts uri) = true → channels.count uri ≤ 1) ∧
  (s.opens handshake throws = true → ∀ k, (s.transports t).client = some k →
    ∀ uri ∈ (s.connections k).subscriptions, classifyChannel uri = .state)

def KeepsWatches (s : ProtocolServerHandler) : ServerEvent → Prop
  | .handshake t handshake starts throws =>
    s.beforeHandshake handshake.clientId = false → s.HandshakeKeepsWatches t handshake starts throws
  | .barrierSettled i starts throws => ∀ t handshake, s.handshakes[i]? = some (t, handshake) →
    (s.transports t).isOpen = true → s.HandshakeKeepsWatches t handshake starts throws
  | .subscribe t channel _ => classifyChannel channel = .resourceWatch →
    ∀ k, s.connectionOf t = some k → channel ∉ (s.connections k).subscriptions
  | _ => True

/-! ## Subscribing a connection that is not open -/

structure Prepared (n : Uri → Nat) (s s' : ProtocolServerHandler) (k : Nat) : Prop where
  others : ∀ j, j ≠ k → s'.connections j = s.connections j
  counts : ∀ ch, classifyChannel ch = .resourceWatch →
    s'.service.Counts ch (n ch + if ch ∈ (s'.connections k).subscriptions then 1 else 0)

structure Subscribes (s s' : ProtocolServerHandler) (k : Nat) (channels : List Uri) : Prop where
  others : ∀ j, j ≠ k → s'.connections j = s.connections j
  service : SameWatches s.service s'.service
  subscriptions : ∀ uri ∈ (s'.connections k).subscriptions,
    uri ∈ (s.connections k).subscriptions ∨ uri ∈ channels.takeWhile Uri.parses ∨
      (uri ∈ channels ∧ uri.parses = false)
  entry : ∀ ch c, s'.service.Subscribed ch c → s.service.Subscribed ch c ∨
    (c = (s.connections k).clientId ∧ ch ∈ channels.takeWhile Uri.parses)
  subscribed : ∀ ch, ch ∈ (s.connections k).subscriptions ∨ ch ∈ channels.takeWhile Uri.parses →
    ch ∈ (s'.connections k).subscriptions
  tasks : s'.tasks = s.tasks
  last : (∀ uri ∈ (s.connections k).subscriptions.elems, uri.parses = true) →
    ∀ uri ∈ (s'.connections k).subscriptions.elems.dropLast, uri.parses = true

theorem mem_dropLast_insert {set : OrderedSet Uri} {a uri : Uri}
    (h : uri ∈ (set.insert a).elems.dropLast) : uri ∈ set.elems := by
  unfold OrderedSet.insert at h
  split at h
  · exact mem_of_mem_dropLast h
  · have h' : uri ∈ (set.elems ++ [a]).dropLast := h
    rw [dropLast_concat] at h'
    exact h'

theorem subscribes_addInitial (k : Nat) (channels : List Uri) (s : ProtocolServerHandler)
    (snapshots : List StateSnapshot) :
    Subscribes s (addInitialSubscriptions k channels s snapshots).1 k channels := by
  induction channels generalizing s snapshots with
  | nil =>
    refine ⟨fun _ _ => rfl, SameWatches.refl _, fun _ h => .inl h, fun _ _ h => .inl h,
      fun ch h => ?_, rfl, fun h uri huri => ?_⟩
    · exact h.resolve_right not_mem_nil
    · exact h uri (mem_of_mem_dropLast huri)
  | cons channel rest ih =>
    unfold addInitialSubscriptions
    have hothers : ∀ j, j ≠ k → (s.addSubscription k channel).connections j = s.connections j :=
      fun j hj => setConnection_of_ne _ _ hj
    have hself : ((s.addSubscription k channel).connections k).subscriptions =
        (s.connections k).subscriptions.insert channel := by
      unfold addSubscription
      rw [setConnection_self]
    have howner : ((s.addSubscription k channel).connections k).clientId =
        (s.connections k).clientId := (sameRegistry_addSubscription s k channel).owner k
    by_cases hparses : channel.parses = true
    · rw [if_pos hparses]
      obtain ⟨s₁, hs₁⟩ : ∃ s₁, s₁ = { s.addSubscription k channel with
          service := (s.addSubscription k channel).service.addSubscriber channel
            (s.connections k).clientId }.clearClientToolCallDisconnectTimeout
              (s.connections k).clientId channel := ⟨_, rfl⟩
      have hquiet : Quiet _ s₁ := hs₁ ▸ quiet_clearTimeout _ _ _
      rw [← hs₁]
      have hrest := ih s₁ (snapshots ++ (s.manager.getSnapshot channel).toList)
      have hconnections : s₁.connections = (s.addSubscription k channel).connections :=
        hquiet.connections
      have hwatches : SameWatches s.service s₁.service := by
        rw [hquiet.service]
        exact sameWatches_addSubscriber _ _ _
      have htasks : s₁.tasks = s.tasks := by
        obtain ⟨_, _, _, _, h⟩ := hquiet
        rw [h]
        rfl
      have hmem : ∀ uri, uri ∈ (s₁.connections k).subscriptions ↔
          uri = channel ∨ uri ∈ (s.connections k).subscriptions := by
        intro uri
        rw [hconnections, hself, OrderedSet.mem_insert]
      refine ⟨fun j hj => ?_, hwatches.trans hrest.service, ?_, ?_, ?_,
        hrest.tasks.trans htasks, fun hall => hrest.last fun uri huri => ?_⟩
      · rw [hrest.others j hj, hconnections]
        exact hothers j hj
      · intro uri huri
        rw [takeWhile_cons_of_pos hparses]
        rcases hrest.subscriptions uri huri with hold | hnew | hbad
        · rcases (hmem uri).mp hold with rfl | hold
          · exact .inr (.inl mem_cons_self)
          · exact .inl hold
        · exact .inr (.inl (mem_cons_of_mem _ hnew))
        · exact .inr (.inr ⟨mem_cons_of_mem _ hbad.1, hbad.2⟩)
      · intro ch c hsub
        rw [takeWhile_cons_of_pos hparses]
        rcases hrest.entry ch c hsub with hold | ⟨hc, hnew⟩
        · rw [hquiet.service] at hold
          rcases (subscribed_addSubscriber s.service channel ch _ c).mp hold with ⟨rfl, rfl⟩ | hold
          · exact .inr ⟨rfl, mem_cons_self⟩
          · exact .inl hold
        · rw [hconnections, howner] at hc
          exact .inr ⟨hc, mem_cons_of_mem _ hnew⟩
      · intro ch hch
        rw [takeWhile_cons_of_pos hparses, mem_cons] at hch
        refine hrest.subscribed ch ?_
        rw [hmem]
        rcases hch with hold | rfl | hnew
        · exact .inl (.inr hold)
        · exact .inl (.inl rfl)
        · exact .inr hnew
      · rcases (hmem uri).mp huri with rfl | huri
        · exact hparses
        · exact hall uri huri
    · rw [if_neg hparses]
      refine ⟨hothers, SameWatches.refl _, fun uri huri => ?_, fun _ _ h => .inl h,
        fun ch hch => ?_, rfl, fun hall uri huri => ?_⟩
      · rw [hself, OrderedSet.mem_insert] at huri
        rcases huri with rfl | hold
        · exact .inr (.inr ⟨mem_cons_self, Bool.eq_false_of_not_eq_true hparses⟩)
        · exact .inl hold
      · rw [takeWhile_cons_of_neg hparses] at hch
        rw [hself, OrderedSet.mem_insert]
        exact .inr (hch.resolve_right not_mem_nil)
      · rw [hself] at huri
        exact hall uri (mem_dropLast_insert huri)

theorem startRestore_cases (s : ProtocolServerHandler) (r k : Nat) (starts : Uri → Bool)
    (channel : Uri) :
    (classifyChannel channel = .resourceWatch ∧
      s.service.canAcquire channel (starts channel) = true ∧
      (s.startRestore r k starts channel).service =
        (s.service.onResourceWatchSubscribed channel (starts channel)).1 ∧
      (s.startRestore r k starts channel).connections = (s.addSubscription k channel).connections) ∨
    ((classifyChannel channel = .resourceWatch →
        s.service.canAcquire channel (starts channel) = false) ∧
      (s.startRestore r k starts channel).service = s.service ∧
      (s.startRestore r k starts channel).connections = s.connections) := by
  unfold startRestore
  cases hclass : classifyChannel channel with
  | state =>
    refine .inr ⟨fun h => (by cases h), ?_⟩
    simp only
    split
    · exact ⟨rfl, rfl⟩
    · exact ⟨rfl, rfl⟩
  | resourceWatch =>
    simp only
    cases hcan : s.service.canAcquire channel (starts channel) with
    | false =>
      rw [acquire_fails hcan]
      exact .inr ⟨fun _ => rfl, rfl, rfl⟩
    | true =>
      obtain ⟨service', _, heq, -⟩ := acquire_succeeds hcan
      rw [heq]
      exact Or.inl ⟨trivial, rfl, rfl, rfl⟩

theorem prepared_startRestores {n : Uri → Nat} (r k : Nat) (starts : Uri → Bool)
    (channels : List Uri) (s₀ : ProtocolServerHandler) (h₀ : Prepared n s s₀ k)
    (hparses : ∀ uri ∈ (s₀.connections k).subscriptions, uri.parses = true)
    (honce : ∀ uri ∈ channels, classifyChannel uri = .resourceWatch →
      s₀.service.canAcquire uri (starts uri) = true →
        channels.count uri ≤ 1 ∧ uri ∉ (s₀.connections k).subscriptions) :
    Prepared n s (channels.foldl (fun s' channel => s'.startRestore r k starts channel) s₀) k ∧
      ∀ uri ∈ ((channels.foldl (fun s' channel => s'.startRestore r k starts channel)
        s₀).connections k).subscriptions, uri.parses = true := by
  induction channels generalizing s₀ with
  | nil => exact ⟨h₀, hparses⟩
  | cons channel rest ih =>
    rw [foldl_cons]
    have hcount : ∀ uri, rest.count uri ≤ (channel :: rest).count uri :=
      fun uri => (sublist_cons_self channel rest).count_le uri
    rcases startRestore_cases s₀ r k starts channel with
      ⟨hclass, hcan, hservice, hconnections⟩ | ⟨hnone, hservice, hconnections⟩
    · obtain ⟨hle, hnew⟩ := honce channel mem_cons_self hclass hcan
      have hrest : channel ∉ rest := by
        intro hmem
        rw [count_cons_self] at hle
        have := count_pos_iff.mpr hmem
        omega
      have hsub : ∀ j uri, uri ∈ ((s₀.startRestore r k starts channel).connections
          j).subscriptions ↔ (j = k ∧ uri = channel) ∨ uri ∈ (s₀.connections j).subscriptions := by
        intro j uri
        rw [hconnections]
        exact mem_addSubscription
      refine ih _ ⟨fun j hj => ?_, fun ch hch => ?_⟩ (fun uri huri => ?_)
        (fun uri huri hwatch hcan' => ?_)
      · rw [hconnections]
        exact (setConnection_of_ne _ _ hj).trans (h₀.others j hj)
      · have hcounts := (h₀.counts ch hch).acquire (starts channel) hcan
        rw [hservice]
        by_cases hc : ch = channel
        · subst hc
          rw [if_neg hnew, if_pos rfl] at hcounts
          rw [if_pos ((hsub k ch).mpr (Or.inl ⟨rfl, rfl⟩))]
          exact hcounts
        · rw [if_neg hc] at hcounts
          have hiff : ch ∈ ((s₀.startRestore r k starts channel).connections k).subscriptions ↔
              ch ∈ (s₀.connections k).subscriptions :=
            (hsub k ch).trans (or_iff_right fun h => hc h.2)
          simp only [hiff]
          exact hcounts
      · rcases (hsub k uri).mp huri with ⟨-, rfl⟩ | huri
        · exact parses_of_resourceWatch hclass
        · exact hparses uri huri
      · have hne : uri ≠ channel := fun heq => hrest (heq ▸ huri)
        rw [hservice, canAcquire_acquire hne] at hcan'
        obtain ⟨hle', hnew'⟩ := honce uri (mem_cons_of_mem _ huri) hwatch hcan'
        refine ⟨(hcount uri).trans hle', fun hmem => ?_⟩
        rcases (hsub k uri).mp hmem with ⟨-, heq⟩ | hmem
        · exact hne heq
        · exact hnew' hmem
    · refine ih _ ⟨fun j hj => ?_, fun ch hch => ?_⟩ (fun uri huri => ?_)
        (fun uri huri hwatch hcan' => ?_)
      · rw [hconnections]
        exact h₀.others j hj
      · rw [hservice, hconnections]
        exact h₀.counts ch hch
      · rw [hconnections] at huri
        exact hparses uri huri
      · rw [hservice] at hcan'
        obtain ⟨hle, hnew⟩ := honce uri (mem_cons_of_mem _ huri) hwatch hcan'
        rw [hconnections]
        exact ⟨(hcount uri).trans hle, hnew⟩

/-! ## Handshakes -/

variable {t : Nat} {handshake : Handshake} {starts : Uri → Bool} {throws : Bool}

theorem Balanced.prepared (hs : Balanced s) (hknown : ∀ c lastSeenServerSeq channels,
      handshake = .reconnectRequest c lastSeenServerSeq channels → (s.clients.get c).isSome = true)
    (hok : s.HandshakeKeepsWatches t handshake starts throws) :
    Prepared (fun ch => (s.holders ch).card) s (s.handshakeBody t handshake starts throws)
        s.nextConnection ∧
      ((∀ uri ∈ ((s.handshakeBody t handshake starts throws).connections
          s.nextConnection).subscriptions, uri.parses = true) ∨
        ∀ uri ∈ ((s.handshakeBody t handshake starts throws).connections
          s.nextConnection).subscriptions, classifyChannel uri = .state) ∧
      (s.opens handshake throws = true → ∀ uri ∈ ((s.handshakeBody t handshake starts
        throws).connections s.nextConnection).subscriptions, uri.parses = true) := by
  have hattached : ∀ c, ∀ j, j ≠ s.nextConnection →
      (s.attached c t).connections j = s.connections j := by
    intro c j hj
    rw [attached_connections, Function.update_of_ne hj]
  have hempty : ∀ c uri, uri ∉ ((s.attached c t).connections s.nextConnection).subscriptions := by
    intro c uri
    rw [attached_self]
    exact OrderedSet.not_mem_empty uri
  have hservice : ∀ c, (s.attached c t).service = s.service := by
    intro c
    unfold ProtocolServerHandler.attached attachConnection
    split
    · rfl
    · rfl
  cases handshake with
  | initializeRequest c channels =>
    have hsubscribes := subscribes_addInitial s.nextConnection channels (s.attached c t) []
    have hnew : ∀ uri ∈ ((s.handshakeBody t (.initializeRequest c channels) starts
        throws).connections s.nextConnection).subscriptions,
          uri ∈ channels.takeWhile Uri.parses ∨ (uri ∈ channels ∧ uri.parses = false) :=
      fun uri huri => (hsubscribes.subscriptions uri huri).resolve_left (hempty c uri)
    have hstate : ∀ uri ∈ ((s.handshakeBody t (.initializeRequest c channels) starts
        throws).connections s.nextConnection).subscriptions, classifyChannel uri = .state := by
      intro uri huri
      rcases hnew uri huri with hin | ⟨-, hbad⟩
      · exact hok.1 uri hin
      · cases hclass : classifyChannel uri with
        | state => rfl
        | resourceWatch =>
          rw [parses_of_resourceWatch hclass] at hbad
          cases hbad
    refine ⟨⟨fun j hj => ?_, fun ch hch => ?_⟩, .inr hstate, fun hopens uri huri => ?_⟩
    · exact (hsubscribes.others j hj).trans (hattached c j hj)
    · rw [if_neg fun hmem => ?_]
      · refine hsubscribes.service.counts ?_
        rw [hservice]
        exact hs.counts ch hch
      · have := hstate ch hmem
        rw [hch] at this
        cases this
    · have hall : channels.all Uri.parses = true := (Bool.and_eq_true_iff.mp hopens).2
      rcases hnew uri huri with hin | ⟨hin, -⟩
      · exact all_eq_true.mp hall uri ((takeWhile_sublist _).subset hin)
      · exact all_eq_true.mp hall uri hin
  | reconnectRequest c lastSeenServerSeq channels =>
    have honce := hok.1 (hknown c lastSeenServerSeq channels rfl)
    obtain ⟨s₀, hs₀⟩ : ∃ s₀, s₀ = (s.attached c t).newReconnect
        { connection := s.nextConnection, lastSeenServerSeq
          canReplay := (s.attached c t).canReplay lastSeenServerSeq
          missing := [], reply := !throws, phase := .restoring } := ⟨_, rfl⟩
    have hconnections : s₀.connections = (s.attached c t).connections := by
      rw [hs₀]
      rfl
    have hservice₀ : s₀.service = s.service := by
      rw [hs₀]
      exact hservice c
    have hnone : ∀ uri, uri ∉ (s₀.connections s.nextConnection).subscriptions := by
      intro uri
      rw [hconnections]
      exact hempty c uri
    have h₀ : Prepared (fun ch => (s.holders ch).card) s s₀ s.nextConnection := by
      refine ⟨fun j hj => ?_, fun ch hch => ?_⟩
      · rw [hconnections]
        exact hattached c j hj
      · rw [if_neg (hnone ch), hservice₀]
        exact hs.counts ch hch
    have hrestores := prepared_startRestores s.nextReconnect s.nextConnection starts channels s₀ h₀
      (fun uri huri => absurd huri (hnone uri))
      (fun uri huri hwatch hcan => ⟨honce uri huri hwatch (hservice₀ ▸ hcan), hnone uri⟩)
    unfold ProtocolServerHandler.handshakeBody
    simp only
    rw [← hs₀]
    exact ⟨hrestores.1, Or.inl hrestores.2, fun _ => hrestores.2⟩

variable {body : ProtocolServerHandler}

theorem Balanced.opened (hs : Balanced s) {k : Nat}
    (hbody : Prepared (fun ch => (s.holders ch).card) s body k) (hk : s.nextConnection ≤ k)
    (hparses : ∀ uri ∈ (body.connections k).subscriptions, uri.parses = true)
    (hopen : (s.transports t).isOpen = true) (htransports : body.transports = s.transports)
    (hdisplaced : ∀ k, (s.transports t).client = some k →
      ∀ uri ∈ (s.connections k).subscriptions, classifyChannel uri = .state)
    (hsound : Sound (body.opened t k)) : Balanced (body.opened t k) := by
  have hr := hs.sound.registry
  have hconnectionOf : ∀ t', (body.opened t k).connectionOf t' =
      if t' = t then some k else s.connectionOf t' := by
    intro t'
    unfold ProtocolServerHandler.opened
    rw [connectionOf_setTransport, htransports]
    simp only [hopen, if_true]
    unfold connectionOf
    rw [htransports]
  have hold : ∀ t' j, s.connectionOf t' = some j →
      j ≠ k ∧ body.connections j = s.connections j := by
    intro t' j hj
    have hlt := (hr.transport_of_connectionOf hj).1
    have hne : j ≠ k := by omega
    exact ⟨hne, hbody.others j hne⟩
  refine ⟨hsound, fun t' j hj uri hmem => ?_, fun ch hch => ?_⟩
  · rw [hconnectionOf] at hj
    split at hj
    · cases hj
      exact hparses uri hmem
    · have hmem' : uri ∈ (body.connections j).subscriptions := hmem
      rw [(hold t' j hj).2] at hmem'
      exact hs.parses t' j hj uri hmem'
  · have hcard : ((body.opened t k).holders ch).card = (s.holders ch).card +
        if ch ∈ (body.connections k).subscriptions then 1 else 0 := by
      refine card_of_mem_iff k (fun j => ?_) (fun _ hmem => ?_)
      · rw [mem_holders hsound.registry, mem_holders hr]
        show _ ∧ ch ∈ (body.connections j).subscriptions ↔ _
        constructor
        · rintro ⟨⟨t', hj⟩, hmem⟩
          rw [hconnectionOf] at hj
          split at hj
          · cases hj
            exact Or.inl ⟨rfl, hmem⟩
          · rw [(hold t' j hj).2] at hmem
            exact .inr ⟨⟨t', hj⟩, hmem⟩
        · rintro (⟨rfl, hmem⟩ | ⟨⟨t', hj⟩, hmem⟩)
          · refine ⟨⟨t, ?_⟩, hmem⟩
            rw [hconnectionOf, if_pos rfl]
          · rw [(hold t' j hj).2]
            refine ⟨⟨t', ?_⟩, hmem⟩
            rw [hconnectionOf, if_neg ?_]
            · exact hj
            · rintro rfl
              have hstate := hdisplaced j (client_of_connectionOf hj).2 ch hmem
              rw [hch] at hstate
              cases hstate
      · obtain ⟨⟨t', hj⟩, -⟩ := (mem_holders hr).mp hmem
        exact (hold t' k hj).1 rfl
    rw [hcard]
    exact hbody.counts ch hch

theorem Balanced.rolledBack (hs : Balanced s) {k : Nat}
    (hbody : Prepared (fun ch => (s.holders ch).card) s body k) (hk : s.nextConnection ≤ k)
    (hrelease : (∀ uri ∈ (body.connections k).subscriptions, uri.parses = true) ∨
      ∀ uri ∈ (body.connections k).subscriptions, classifyChannel uri = .state)
    (htransports : body.transports = s.transports) (hsound : Sound s')
    (hdetached : Detached body s' k) : Balanced s' := by
  have hr := hs.sound.registry
  have hopen : ∀ t', s'.connectionOf t' = s.connectionOf t' := by
    intro t'
    unfold connectionOf
    rw [hdetached.transports, htransports]
  have hold : ∀ t' j, s.connectionOf t' = some j → s'.connections j = s.connections j := by
    intro t' j hj
    have hlt := (hr.transport_of_connectionOf hj).1
    have hne : j ≠ k := by omega
    rw [hdetached.others j hne]
    exact hbody.others j hne
  refine ⟨hsound, fun t' j hj uri hmem => ?_, fun ch hch => ?_⟩
  · rw [hopen] at hj
    rw [hold t' j hj] at hmem
    exact hs.parses t' j hj uri hmem
  · have hsame : s'.holders ch = s.holders ch := by
      ext j
      rw [mem_holders hsound.registry, mem_holders hr]
      simp only [hopen]
      refine and_congr_right fun ⟨t', hj⟩ => ?_
      rw [hold t' j hj]
    have hcounts := hbody.counts ch hch
    rw [hsame, hdetached.service]
    rcases hrelease with hparses | hstate
    · exact counts_releaseSubscriptions (body.connections k).subscriptions.nodup hparses hch hcounts
    · rw [if_neg fun hmem => ?_] at hcounts
      · exact (sameWatches_releaseSubscriptions body.service hstate).counts hcounts
      · have := hstate ch hmem
        rw [hch] at this
        cases this

theorem Balanced.runHandshake (hs : Balanced s) (hopen : (s.transports t).isOpen = true)
    (hok : s.HandshakeKeepsWatches t handshake starts throws) :
    Balanced (s.runHandshake t handshake starts throws) := by
  by_cases hknown : ∀ c lastSeenServerSeq channels,
      handshake = .reconnectRequest c lastSeenServerSeq channels → (s.clients.get c).isSome = true
  · obtain ⟨hprepared, hrelease, hparses⟩ := hs.prepared hknown hok
    have hbody := sameRegistry_handshakeBody s t handshake starts throws
    have hsuspended := hs.sound.suspended.handshakeBody t handshake starts throws
    have htransports : (s.handshakeBody t handshake starts throws).transports = s.transports := by
      rw [hbody.transports, (attached_transports s _ t).1]
    rcases runHandshake_cases s t handshake starts throws with h | ⟨hopens, h⟩ | ⟨previous, h⟩
    · exact hs.quiet h
    · refine Balanced.quiet ?_ h
      exact hs.opened hprepared (Nat.le_refl _) (hparses hopens) hopen htransports (hok.2 hopens)
        ⟨hs.sound.registry.opened hbody hopen, hsuspended.frame rfl rfl (Nat.le_refl _)⟩
    · refine Balanced.quiet ?_ h
      have hdetached := detached_rollback
        (mem_live_handshakeBody s t handshake starts throws) previous
      exact hs.rolledBack hprepared (Nat.le_refl _) hrelease htransports
        ⟨hs.sound.registry.rolledBack hbody previous, hsuspended.detached hdetached⟩ hdetached
  · push Not at hknown
    obtain ⟨c, lastSeenServerSeq, channels, rfl, hnone⟩ := hknown
    have hget : s.clients.get c = none := Option.not_isSome_iff_eq_none.mp hnone
    refine hs.quiet ?_
    unfold ProtocolServerHandler.runHandshake handleReconnect
    simp only [hget]
    exact quiet_send s t _

/-! ## Every run -/

variable (manager : StateManager) (beforeHandshake : ClientId → Bool)

theorem connectionOf_create (t : Nat) :
    (create manager beforeHandshake).connectionOf t = none := rfl

theorem sound_create : Sound (create manager beforeHandshake) where
  registry := {
    nodup := fun _ => nodup_nil
    bound := nofun
    owner := nofun
    live_of_open := fun t k hk => by
      rw [connectionOf_create] at hk
      cases hk
    client := nofun
    fresh := fun _ _ => rfl }
  suspended := {
    fresh := fun _ _ => rfl
    connection := fun _ hi => absurd hi (Nat.not_lt_zero _)
    channel := nofun }

theorem balanced_create : Balanced (create manager beforeHandshake) where
  sound := sound_create manager beforeHandshake
  parses t k hk := by
    rw [connectionOf_create] at hk
    cases hk
  counts ch _ := ⟨rfl, fun _ => rfl, nofun⟩

/-! ## Suspended requests -/

theorem Balanced.installTask (hs : Balanced s) {i : Nat} {snapshot : StateSnapshot}
    (hsound : Sound (s.installTask i snapshot))
    (hchannel : classifyChannel (s.tasks i).channel = .state ∧
      (s.tasks i).channel.parses = true) : Balanced (s.installTask i snapshot) := by
  have hframe : (s.installTask i snapshot).connections =
        (s.addSubscription (s.tasks i).connection (s.tasks i).channel).connections ∧
      (s.installTask i snapshot).transports = s.transports ∧
      (s.installTask i snapshot).service = s.service := by
    obtain ⟨_, _, _, _, h⟩ := quiet_clearTimeout
      (s.addSubscription (s.tasks i).connection (s.tasks i).channel)
      (s.connections (s.tasks i).connection).clientId (s.tasks i).channel
    unfold ProtocolServerHandler.installTask
    simp only
    rw [h]
    split
    · exact ⟨rfl, rfl, rfl⟩
    · exact ⟨rfl, rfl, rfl⟩
  obtain ⟨hconnections, htransports, hservice⟩ := hframe
  refine hs.frame hsound (fun t => ?_) ?_ (fun k uri huri => ?_) (fun k uri huri _ => ?_)
  · unfold connectionOf
    rw [htransports]
  · rw [hservice]
    exact SameWatches.refl _
  · rw [hconnections] at huri
    rcases mem_addSubscription.mp huri with ⟨-, rfl⟩ | huri
    · exact .inr hchannel
    · exact Or.inl huri
  · rw [hconnections]
    exact mem_addSubscription.mpr (.inr huri)

theorem Balanced.step (hs : Balanced s) {e : ServerEvent} (hok : s.KeepsWatches e)
    (hstep : s.step e = some s') : Balanced s' := by
  have hsound : Sound s' := hs.sound.step hstep
  cases turn_of_step hstep with
  | aside h => exact hs.aside h
  | connect =>
    refine hs.frame hsound (fun t => ?_) (SameWatches.refl _) (fun _ _ h => Or.inl h)
      (fun _ _ h _ => h)
    refine (connectionOf_setTransport s s.nextTransport t ⟨true, none⟩).trans ?_
    split
    · rename_i ht
      unfold connectionOf
      rw [ht, hs.sound.registry.fresh _ (Nat.le_refl _)]
      rfl
    · rfl
  | handshake hopen hbarrier => exact hs.runHandshake hopen (hok hbarrier)
  | @settled i t handshake starts throws hget hopen =>
    have hs₁ : Balanced { s with handshakes := s.handshakes.eraseIdx i } :=
      hs.aside ⟨_, _, _, _, Quiet.refl _⟩
    exact hs₁.runHandshake hopen (hok t handshake hget hopen)
  | @subscribe t k channel starts hk =>
    exact hs.handleSubscribe hsound hk (fun hwatch => hok hwatch k hk)
  | unsubscribe hk => exact hs.removeSubscription hsound hk
  | close hopen => exact hs.close hopen hsound
  | @registerTask i hi =>
    unfold ProtocolServerHandler.registerTask at hsound ⊢
    dsimp only at hsound ⊢
    split at hsound
    · exact hs.same hsound rfl rfl (sameWatches_addSubscriber _ _ _)
    · exact hs.same hsound rfl rfl (sameWatches_addSubscriber _ _ _)
  | @restoreTask i hi =>
    unfold ProtocolServerHandler.restoreTask at hsound ⊢
    split at hsound
    · exact hs.same hsound rfl rfl (SameWatches.refl _)
    · exact hs.same hsound rfl rfl (sameWatches_unsubscribe _ _ _)
  | failTask hi => exact hs.same hsound rfl rfl (sameWatches_unsubscribe _ _ _)
  | @installTask i snapshot hi =>
    exact hs.installTask hsound (hs.sound.suspended.channel i (by rw [hi]; rfl))
  | @answered e s' i phase hi hsettled hphase h =>
    refine Balanced.aside ?_ h
    exact hs.same (hs.sound.endPhase hsettled hphase) rfl rfl (SameWatches.refl _)
  | @collectResourceWatch channel =>
    exact ⟨hsound, hs.parses, fun ch hch => (hs.counts ch hch).collect channel⟩

theorem balanced_reachable {manager : StateManager} {beforeHandshake : ClientId → Bool}
    (hs : (system manager beforeHandshake).ReachableVia KeepsWatches s) : Balanced s := by
  refine hs.invariant (fun s₀ hs₀ => ?_) fun _ _ _ h hok hstep => h.step hok hstep
  rw [show s₀ = create manager beforeHandshake from hs₀]
  exact balanced_create manager beforeHandshake

/-- The calls that acquired a watch and were not undone by a release are those of the
live connections that hold it; the watch waits for its collection exactly when there
are none, and is there while there is one. -/
theorem watch_balance {manager : StateManager} {beforeHandshake : ClientId → Bool}
    (hs : (system manager beforeHandshake).ReachableVia KeepsWatches s) {ch : Uri}
    (hch : classifyChannel ch = .resourceWatch) :
    (s.service.acquired.count ch : Int) - s.service.released.count ch = (s.holders ch).card ∧
      (∀ watch, s.service.resourceWatches.get ch = some watch →
        watch.subscribers = (s.holders ch).card ∧ (watch.pendingGc = true ↔ s.holders ch = ∅)) ∧
      ((s.holders ch).Nonempty → (s.service.resourceWatches.get ch).isSome = true) := by
  have hcounts := (balanced_reachable hs).counts ch hch
  refine ⟨?_, fun watch hget => ?_, fun hsome => ?_⟩
  · rw [hcounts.calls]
    omega
  · obtain ⟨hsubscribers, hgc⟩ := hcounts.watch watch hget
    exact ⟨hsubscribers, hgc.trans Finset.card_eq_zero⟩
  · by_contra hnone
    have hzero := hcounts.absent (Option.not_isSome_iff_eq_none.mp hnone)
    rw [Finset.card_eq_zero.mp hzero] at hsome
    exact Finset.not_nonempty_empty hsome

/-! ## Two runs -/

def emptyServer : ProtocolServerHandler :=
  create (.create default (fun _ => false) (fun _ => [])) fun _ => false

def sampleWatch : Uri := .resourceWatch "w"

def sampleConnected (channels : List Uri) : ProtocolServerHandler :=
  { emptyServer.setTransport 0 { isOpen := true, client := none } with
    nextTransport := 1 }.handleInitialize 0 "a" channels false

/-- The client of the first transport subscribes to a watch. -/
theorem watch_balance_sample : let s := (sampleConnected []).handleSubscribe 0 sampleWatch true
    s.holders sampleWatch = {0} ∧
      (s.service.acquired.count sampleWatch : Int) - s.service.released.count sampleWatch =
        (s.holders sampleWatch).card := by
  intro s
  have hconnected : (system emptyServer.manager fun _ => false).ReachableVia KeepsWatches
      (sampleConnected []) := by
    refine .step (.step (i := .connect) (.init rfl) trivial rfl)
      (i := .handshake 0 (.initializeRequest "a" []) (fun _ => true) false) ?_ rfl
    exact fun _ => ⟨fun _ h => (by cases h), fun _ _ hk => (by cases hk)⟩
  have hreached : (system emptyServer.manager fun _ => false).ReachableVia KeepsWatches s := by
    refine .step hconnected (i := .subscribe 0 sampleWatch true) ?_ rfl
    intro _ k hk
    obtain rfl : 0 = k := Option.some.inj hk
    decide
  exact ⟨by decide, (watch_balance hreached rfl).1⟩

/-- A watch among the initial subscriptions is held and never acquired. -/
theorem initial_watch_not_acquired :
    ¬ ∀ (manager : StateManager) (beforeHandshake : ClientId → Bool) (s : ProtocolServerHandler),
      (system manager beforeHandshake).Reachable s → ∀ ch, classifyChannel ch = .resourceWatch →
        (s.service.acquired.count ch : Int) - s.service.released.count ch =
          (s.holders ch).card := by
  intro h
  have hreached : (system emptyServer.manager fun _ => false).Reachable
      (sampleConnected [sampleWatch]) :=
    System.Reachable.run (.init rfl)
      [.connect, .handshake 0 (.initializeRequest "a" [sampleWatch]) (fun _ => true) false] rfl
  have := h _ _ _ hreached sampleWatch rfl
  revert this
  decide

end Fumie.AgentHost.ProtocolServerHandler
