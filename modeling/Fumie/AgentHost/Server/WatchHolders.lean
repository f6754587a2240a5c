import Fumie.AgentHost.Server.ResourceWatches
import Fumie.AgentHost.Server.Subscribers

/-!
# Holders of resource watches

`holders ch` are the connections of open transports that are subscribed to the watch
`ch`. `Balanced` says that the service counts exactly these, that every subscription
of an open connection parses, and that the registry is sound. A handshake first
subscribes a connection that is not open yet (`Prepared`), then opens it or releases
it again.
-/

namespace Fumie.AgentHost.ProtocolServerHandler

open Fumie.Lib AgentService Finset

variable {s s' : ProtocolServerHandler}

/-- The connection is that of an open transport and subscribed to the channel. -/
def Holds (s : ProtocolServerHandler) (ch : Uri) (k : Nat) : Prop :=
  s.connectionOf (s.connections k).transport = some k ∧ ch ∈ (s.connections k).subscriptions

instance (ch : Uri) : DecidablePred (s.Holds ch) := fun _ => inferInstanceAs (Decidable (_ ∧ _))

/-- Live connections that hold a subscription to the channel. -/
def holders (s : ProtocolServerHandler) (ch : Uri) : Finset Nat :=
  (Finset.range s.nextConnection).filter fun k => s.Holds ch k

structure Balanced (s : ProtocolServerHandler) : Prop where
  sound : Sound s
  parses : ∀ t k, s.connectionOf t = some k →
    ∀ uri ∈ (s.connections k).subscriptions, uri.parses = true
  counts : ∀ ch, classifyChannel ch = .resourceWatch → s.service.Counts ch (s.holders ch).card

variable {t k : Nat}

theorem Registry.transport_of_connectionOf (hr : Registry s) (h : s.connectionOf t = some k) :
    k < s.nextConnection ∧ (s.connections k).transport = t :=
  hr.client t k (client_of_connectionOf h).2

theorem mem_holders (hr : Registry s) {ch : Uri} : k ∈ s.holders ch ↔
      (∃ t, s.connectionOf t = some k) ∧ ch ∈ (s.connections k).subscriptions := by
  unfold holders
  rw [mem_filter, mem_range]
  constructor
  · rintro ⟨-, hopen, hmem⟩
    exact ⟨⟨_, hopen⟩, hmem⟩
  · rintro ⟨⟨t, hopen⟩, hmem⟩
    obtain ⟨hbound, rfl⟩ := hr.transport_of_connectionOf hopen
    exact ⟨hbound, hopen, hmem⟩

theorem card_of_mem_iff {A B : Finset Nat} (k : Nat) {p : Prop} [Decidable p]
    (h : ∀ j, j ∈ A ↔ (j = k ∧ p) ∨ j ∈ B) (hk : p → k ∉ B) :
    A.card = B.card + if p then 1 else 0 := by
  split
  · rename_i hp
    have hA : A = insert k B := by
      ext j
      rw [h, Finset.mem_insert]
      exact or_congr_left (and_iff_left hp)
    rw [hA, card_insert_of_notMem (hk hp)]
  · rename_i hp
    have hA : A = B := by
      ext j
      rw [h]
      exact or_iff_right fun hj => hp hj.2
    rw [hA]
    rfl

/-! ## Frames -/

theorem Balanced.frame (hs : Balanced s) (hsound : Sound s')
    (hopen : ∀ t, s'.connectionOf t = s.connectionOf t)
    (hservice : SameWatches s.service s'.service)
    (hsub : ∀ k, ∀ uri ∈ (s'.connections k).subscriptions, uri ∈ (s.connections k).subscriptions ∨
        (classifyChannel uri = .state ∧ uri.parses = true))
    (hkeep : ∀ k, ∀ uri ∈ (s.connections k).subscriptions,
      classifyChannel uri = .resourceWatch → uri ∈ (s'.connections k).subscriptions) :
    Balanced s' where
  sound := hsound
  parses t k hk uri hmem := by
    rw [hopen] at hk
    rcases hsub k uri hmem with hmem | ⟨-, hparses⟩
    · exact hs.parses t k hk uri hmem
    · exact hparses
  counts ch hch := by
    have hsame : s'.holders ch = s.holders ch := by
      ext k
      rw [mem_holders hsound.registry, mem_holders hs.sound.registry]
      simp only [hopen]
      refine and_congr_right fun _ => ⟨fun hmem => ?_, fun hmem => hkeep k ch hmem hch⟩
      rcases hsub k ch hmem with hmem | ⟨hstate, -⟩
      · exact hmem
      · rw [hch] at hstate
        cases hstate
    rw [hsame]
    exact hservice.counts (hs.counts ch hch)

theorem Balanced.same (hs : Balanced s) (hsound : Sound s')
    (hconnections : s'.connections = s.connections) (htransports : s'.transports = s.transports)
    (hservice : SameWatches s.service s'.service) : Balanced s' := by
  refine hs.frame hsound (fun t => ?_) hservice (fun k uri hmem => ?_) (fun k uri hmem _ => ?_)
  · unfold connectionOf
    rw [htransports]
  · rw [hconnections] at hmem
    exact Or.inl hmem
  · rw [hconnections]
    exact hmem

theorem Balanced.withService (hs : Balanced s) {service : AgentService}
    (h : SameWatches s.service service) : Balanced { s with service } :=
  hs.same ⟨(sameRegistry_service s service).registry hs.sound.registry,
    hs.sound.suspended.frame rfl rfl (Nat.le_refl _)⟩ rfl rfl h

theorem Balanced.quiet (hs : Balanced s) (h : Quiet s s') : Balanced s' := by
  have hsound := hs.sound.quiet h
  obtain ⟨_, _, _, _, rfl⟩ := h
  exact hs.same hsound rfl rfl (SameWatches.refl _)

theorem Balanced.aside (hs : Balanced s) (h : Aside s s') : Balanced s' := by
  obtain ⟨_, _, _, _, h⟩ := h
  refine Balanced.quiet ?_ h
  exact hs.same (hs.sound.frame (fun _ => rfl) rfl rfl rfl rfl rfl rfl) rfl rfl (SameWatches.refl _)

/-! ## Subscribing and unsubscribing -/

variable {channel : Uri}

theorem Balanced.adds (hs : Balanced s) (hsound : Sound s') (hk : s.connectionOf t = some k)
    (hopen : ∀ t, s'.connectionOf t = s.connectionOf t)
    (hsub : ∀ j uri, uri ∈ (s'.connections j).subscriptions ↔
      (j = k ∧ uri = channel) ∨ uri ∈ (s.connections j).subscriptions)
    (hnew : channel ∉ (s.connections k).subscriptions) (hparses : channel.parses = true)
    (hcounts : ∀ ch n, s.service.Counts ch n →
      s'.service.Counts ch (n + if ch = channel then 1 else 0)) : Balanced s' where
  sound := hsound
  parses t' j hj uri hmem := by
    rw [hopen] at hj
    rcases (hsub j uri).mp hmem with ⟨-, rfl⟩ | hmem
    · exact hparses
    · exact hs.parses t' j hj uri hmem
  counts ch hch := by
    have hr := hs.sound.registry
    have hcard : (s'.holders ch).card = (s.holders ch).card + if ch = channel then 1 else 0 := by
      refine card_of_mem_iff k (fun j => ?_) (fun hch hmem => ?_)
      · rw [mem_holders hsound.registry, mem_holders hr, hsub]
        simp only [hopen]
        constructor
        · rintro ⟨hj, hnew | hmem⟩
          · exact Or.inl hnew
          · exact Or.inr ⟨hj, hmem⟩
        · rintro (⟨rfl, rfl⟩ | ⟨hj, hmem⟩)
          · exact ⟨⟨t, hk⟩, Or.inl ⟨rfl, rfl⟩⟩
          · exact ⟨hj, Or.inr hmem⟩
      · exact hnew (hch ▸ ((mem_holders hr).mp hmem).2)
    rw [hcard]
    exact hcounts ch _ (hs.counts ch hch)

theorem Balanced.removes (hs : Balanced s) (hsound : Sound s') (hk : s.connectionOf t = some k)
    (hopen : ∀ t, s'.connectionOf t = s.connectionOf t)
    (hsub : ∀ j uri, uri ∈ (s.connections j).subscriptions ↔
      (j = k ∧ uri = channel) ∨ uri ∈ (s'.connections j).subscriptions)
    (hgone : channel ∉ (s'.connections k).subscriptions)
    (hcounts : ∀ ch n, s.service.Counts ch (n + if ch = channel then 1 else 0) →
      s'.service.Counts ch n) : Balanced s' where
  sound := hsound
  parses t' j hj uri hmem := by
    rw [hopen] at hj
    exact hs.parses t' j hj uri ((hsub j uri).mpr (Or.inr hmem))
  counts ch hch := by
    have hr := hs.sound.registry
    have hcard : (s.holders ch).card = (s'.holders ch).card + if ch = channel then 1 else 0 := by
      refine card_of_mem_iff k (fun j => ?_) (fun hch hmem => ?_)
      · rw [mem_holders hr, mem_holders hsound.registry, hsub]
        simp only [hopen]
        constructor
        · rintro ⟨hj, hold | hmem⟩
          · exact Or.inl hold
          · exact Or.inr ⟨hj, hmem⟩
        · rintro (⟨rfl, rfl⟩ | ⟨hj, hmem⟩)
          · exact ⟨⟨t, hk⟩, Or.inl ⟨rfl, rfl⟩⟩
          · exact ⟨hj, Or.inr hmem⟩
      · exact hgone (hch ▸ ((mem_holders hsound.registry).mp hmem).2)
    refine hcounts ch _ ?_
    rw [← hcard]
    exact hs.counts ch hch

theorem Balanced.handleSubscribe (hs : Balanced s) {starts : Bool}
    (hsound : Sound (s.handleSubscribe k channel starts)) (hk : s.connectionOf t = some k)
    (hnew : classifyChannel channel = .resourceWatch → channel ∉ (s.connections k).subscriptions) :
    Balanced (s.handleSubscribe k channel starts) := by
  unfold ProtocolServerHandler.handleSubscribe at hsound ⊢
  cases hclass : classifyChannel channel with
  | state =>
    simp only [hclass] at hsound ⊢
    split at hsound
    · rename_i hparses
      rw [if_pos hparses]
      exact hs.same hsound rfl rfl (SameWatches.refl _)
    · rename_i hparses
      rw [if_neg hparses]
      exact hs.same hsound rfl rfl (SameWatches.refl _)
  | resourceWatch =>
    simp only [hclass] at hsound ⊢
    cases hcan : s.service.canAcquire channel starts with
    | false =>
      rw [acquire_fails hcan] at hsound ⊢
      exact hs.same hsound rfl rfl (SameWatches.refl _)
    | true =>
      obtain ⟨service', _, heq, -⟩ := acquire_succeeds hcan
      have hcounts := fun ch n (h : s.service.Counts ch n) => h.acquire starts hcan
      rw [heq] at hsound hcounts ⊢
      exact hs.adds hsound hk (fun _ => rfl) (fun j uri => mem_addSubscription) (hnew hclass)
        (parses_of_resourceWatch hclass) hcounts

theorem Balanced.removeSubscription (hs : Balanced s)
    (hsound : Sound (s.removeSubscription k channel)) (hk : s.connectionOf t = some k) :
    Balanced (s.removeSubscription k channel) := by
  unfold ProtocolServerHandler.removeSubscription at hsound ⊢
  by_cases hmem : channel ∈ (s.connections k).subscriptions
  · rw [if_pos hmem] at hsound ⊢
    cases hclass : classifyChannel channel with
    | resourceWatch =>
      simp only [hclass] at hsound ⊢
      refine hs.removes hsound hk (fun _ => rfl) (fun j uri => ?_) (fun hgone => ?_)
        (fun ch n h => h.release)
      · refine Iff.trans ?_ (or_congr_right mem_eraseSubscription.symm)
        constructor
        · intro huri
          by_cases hjk : j = k ∧ uri = channel
          · exact Or.inl hjk
          · exact Or.inr ⟨huri, hjk⟩
        · rintro (⟨rfl, rfl⟩ | ⟨huri, -⟩)
          · exact hmem
          · exact huri
      · exact (mem_eraseSubscription.mp hgone).2 ⟨rfl, rfl⟩
    | state =>
      have hkeep : ∀ j, ∀ uri ∈ (s.connections j).subscriptions,
          classifyChannel uri = .resourceWatch → uri ∈ ((s.setConnection k { s.connections k with
            subscriptions := (s.connections k).subscriptions.erase channel }).connections
              j).subscriptions := by
        intro j uri huri hwatch
        refine mem_eraseSubscription.mpr ⟨huri, ?_⟩
        rintro ⟨-, rfl⟩
        rw [hclass] at hwatch
        cases hwatch
      have herase : SameRegistry s (s.setConnection k { s.connections k with
          subscriptions := (s.connections k).subscriptions.erase channel }) :=
        sameRegistry_setConnection s rfl rfl
      have hs₁ := hs.frame ⟨herase.registry hs.sound.registry,
          hs.sound.suspended.frame rfl rfl (Nat.le_refl _)⟩ (fun _ => rfl) (SameWatches.refl _)
        (fun j uri huri => Or.inl (mem_eraseSubscription.mp huri).1) hkeep
      simp only
      split
      · exact hs₁
      · exact (hs₁.withService (sameWatches_unsubscribe _ _ _)).quiet (quiet_leaveChannel _ _ _)
  · rw [if_neg hmem] at hsound ⊢
    exact hs

/-! ## Closing -/

theorem Balanced.detaches (hs : Balanced s) (hsound : Sound s') (hk : s.connectionOf t = some k)
    (hopen : ∀ t', s'.connectionOf t' = if t' = t then none else s.connectionOf t')
    (hothers : ∀ j, j ≠ k → s'.connections j = s.connections j) {held : Uri → Bool} {c : ClientId}
    (hservice : s'.service = (releaseSubscriptions held c
      (s.connections k).subscriptions.elems s.service).1) : Balanced s' := by
  have hr := hs.sound.registry
  have hne : ∀ t' j, s'.connectionOf t' = some j → s.connectionOf t' = some j ∧ j ≠ k := by
    intro t' j hj
    rw [hopen] at hj
    split at hj
    · cases hj
    · rename_i ht
      refine ⟨hj, ?_⟩
      rintro rfl
      exact ht ((hr.transport_of_connectionOf hj).2.symm.trans (hr.transport_of_connectionOf hk).2)
  refine ⟨hsound, fun t' j hj uri hmem => ?_, fun ch hch => ?_⟩
  · obtain ⟨hj', hjk⟩ := hne t' j hj
    rw [hothers j hjk] at hmem
    exact hs.parses t' j hj' uri hmem
  · have hcard : (s.holders ch).card = (s'.holders ch).card +
        if ch ∈ (s.connections k).subscriptions.elems then 1 else 0 := by
      refine card_of_mem_iff k (fun j => ?_) (fun _ hmem => ?_)
      · rw [mem_holders hr, mem_holders hsound.registry]
        constructor
        · rintro ⟨⟨t', hj⟩, hmem⟩
          by_cases hjk : j = k
          · subst hjk
            exact Or.inl ⟨rfl, hmem⟩
          · refine Or.inr ⟨⟨t', ?_⟩, ?_⟩
            · rw [hopen, if_neg ?_]
              · exact hj
              · rintro rfl
                exact hjk (Option.some.inj (hj.symm.trans hk))
            · rw [hothers j hjk]
              exact hmem
        · rintro (⟨rfl, hmem⟩ | ⟨⟨t', hj⟩, hmem⟩)
          · exact ⟨⟨t, hk⟩, hmem⟩
          · obtain ⟨hj', hjk⟩ := hne t' j hj
            rw [hothers j hjk] at hmem
            exact ⟨⟨t', hj'⟩, hmem⟩
      · obtain ⟨⟨t', hj⟩, -⟩ := (mem_holders hsound.registry).mp hmem
        exact (hne t' k hj).2 rfl
    rw [hservice]
    refine counts_releaseSubscriptions (s.connections k).subscriptions.nodup
      (hs.parses t k hk) hch ?_
    rw [← hcard]
    exact hs.counts ch hch

theorem connectionOf_closeTransport (s : ProtocolServerHandler) (t t' : Nat) :
    (s.closeTransport t).connectionOf t' = if t' = t then none else s.connectionOf t' := by
  unfold ProtocolServerHandler.closeTransport
  rw [connectionOf_setTransport]
  rfl

theorem Balanced.close (hs : Balanced s) {t : Nat} (hopen : (s.transports t).isOpen = true)
    (hsound : Sound (s.close t)) : Balanced (s.close t) := by
  unfold ProtocolServerHandler.close at hsound ⊢
  cases hclient : (s.transports t).client with
  | none =>
    simp only [hclient] at hsound ⊢
    refine hs.frame hsound (fun t' => ?_) (SameWatches.refl _) (fun _ _ h => Or.inl h)
      (fun _ _ h _ => h)
    rw [connectionOf_closeTransport]
    split
    · rename_i ht
      rw [ht]
      unfold connectionOf
      rw [if_pos hopen, hclient]
    · rfl
  | some k =>
    simp only [hclient] at hsound ⊢
    have hk : s.connectionOf t = some k := by
      unfold connectionOf
      rw [if_pos hopen, hclient]
    have hlive : k ∈ (s.closeTransport t).live ((s.closeTransport t).connections k).clientId :=
      hs.sound.registry.live_of_open t k hk
    have hdetached := detached_disconnect hlive
    refine hs.detaches hsound hk (fun t' => ?_) hdetached.others hdetached.service
    have hsame : ((s.closeTransport t).disconnect k).connectionOf t' =
        (s.closeTransport t).connectionOf t' := by
      unfold connectionOf
      rw [hdetached.transports]
    rw [hsame, connectionOf_closeTransport]

end Fumie.AgentHost.ProtocolServerHandler
