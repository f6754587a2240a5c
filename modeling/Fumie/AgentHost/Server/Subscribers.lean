import Fumie.AgentHost.Server.Registry

/-!
# Subscriber entries of the agent service

Every entry `(channel, clientId)` of the service is owed to something that will
release it: a live connection of the client subscribed to the channel, or a
`subscribe` call of the client that has registered and whose handler has not
resumed (`Owed`). A call whose connection closed in the meantime breaks this when
its handler resumes, and a watch among the initial subscriptions breaks it from the
start, since a watch is released another way.
-/

namespace Fumie.AgentHost.ProtocolServerHandler

open Fumie.Lib List AgentService Function

variable {s s' : ProtocolServerHandler}

/-! ## Releasing a list of subscriptions -/

theorem subscribed_onResourceWatchUnsubscribed (service : AgentService) (channel ch : Uri)
    (c : ClientId) :
    (service.onResourceWatchUnsubscribed channel).Subscribed ch c ↔ service.Subscribed ch c := by
  unfold onResourceWatchUnsubscribed AgentService.Subscribed
  simp only
  split
  · exact Iff.rfl
  · exact Iff.rfl

theorem subscribed_onResourceWatchSubscribed (service : AgentService) (channel : Uri)
    (starts : Bool) (ch : Uri) (c : ClientId) :
    (service.onResourceWatchSubscribed channel starts).1.Subscribed ch c ↔
      service.Subscribed ch c := by
  unfold onResourceWatchSubscribed AgentService.Subscribed
  split
  · exact Iff.rfl
  · split
    · exact Iff.rfl
    · exact Iff.rfl

theorem subscribed_releaseSubscriptions {held : Uri → Bool} {c : ClientId} {uris : List Uri}
    (service : AgentService) (h : ∀ uri ∈ uris.dropLast, uri.parses = true) (ch : Uri)
    (c' : ClientId) :
    (releaseSubscriptions held c uris service).1.Subscribed ch c' →
      service.Subscribed ch c' ∧ ¬ (c' = c ∧ ch ∈ uris ∧ ch.parses = true ∧
        classifyChannel ch = .state ∧ held ch = false) := by
  induction uris generalizing service with
  | nil => exact fun hsub => ⟨hsub, fun hmem => by cases hmem.2.1⟩
  | cons uri rest ih =>
    intro hsub
    have hrest : ∀ u ∈ rest.dropLast, u.parses = true := by
      intro u hu
      cases rest with
      | nil => cases hu
      | cons v rest =>
        rw [dropLast_cons_cons] at h
        exact h u (mem_cons_of_mem _ hu)
    -- What the release of the head did, when it went on with the rest.
    have hgo : ∀ service', (∀ ch c', service'.Subscribed ch c' → service.Subscribed ch c' ∧
          ¬ (c' = c ∧ ch = uri ∧ classifyChannel ch = .state ∧ held ch = false)) →
        (releaseSubscriptions held c rest service').1.Subscribed ch c' →
        service.Subscribed ch c' ∧ ¬ (c' = c ∧ ch ∈ uri :: rest ∧ ch.parses = true ∧
          classifyChannel ch = .state ∧ held ch = false) := by
      intro service' hhead hsub
      obtain ⟨hsub', hnot⟩ := ih service' hrest hsub
      obtain ⟨hbefore, hhead'⟩ := hhead ch c' hsub'
      refine ⟨hbefore, ?_⟩
      rintro ⟨hc, hmem, hparses, hstate, hheld⟩
      rcases mem_cons.mp hmem with rfl | hmem
      · exact hhead' ⟨hc, rfl, hstate, hheld⟩
      · exact hnot ⟨hc, hmem, hparses, hstate, hheld⟩
    unfold releaseSubscriptions at hsub
    split at hsub
    · rename_i hstate
      split at hsub
      · rename_i hheld
        refine hgo service (fun ch c' h => ⟨h, ?_⟩) hsub
        rintro ⟨-, rfl, -, hnot⟩
        rw [hheld] at hnot
        cases hnot
      · split at hsub
        · refine hgo _ (fun ch c' h => ?_) hsub
          obtain ⟨hne, hbefore⟩ := (subscribed_unsubscribe service uri ch c c').mp h
          exact ⟨hbefore, fun hnot => hne ⟨hnot.2.1.symm, hnot.1.symm⟩⟩
        · rename_i hparses
          refine ⟨hsub, ?_⟩
          rintro ⟨-, hmem, hparses', -⟩
          rcases mem_cons.mp hmem with rfl | hmem
          · exact hparses hparses'
          · cases rest with
            | nil => cases hmem
            | cons v rest =>
              rw [dropLast_cons_cons] at h
              exact hparses (h uri mem_cons_self)
    · rename_i hwatch
      refine hgo _ (fun ch c' h => ⟨?_, ?_⟩) hsub
      · exact (subscribed_onResourceWatchUnsubscribed service uri ch c').mp h
      · rintro ⟨-, rfl, hstate, -⟩
        rw [hwatch] at hstate
        cases hstate

/-! ## The invariant -/

section

variable (s : ProtocolServerHandler)

def Held (ch : Uri) (c : ClientId) : Prop := ∃ k ∈ s.live c, ch ∈ (s.connections k).subscriptions

def InService (ch : Uri) (c : ClientId) : Prop :=
  ∃ i, (s.tasks i).phase.isRegistered = true ∧ (s.tasks i).channel = ch ∧
    (s.connections (s.tasks i).connection).clientId = c

def OtherCall (i : Nat) (ch : Uri) (c : ClientId) : Prop :=
  ∃ j, j ≠ i ∧ (s.tasks j).phase.isRegistered = true ∧ (s.tasks j).channel = ch ∧
    (s.connections (s.tasks j).connection).clientId = c

end

structure Owed (s : ProtocolServerHandler) : Prop where
  entry : ∀ ch c, s.service.Subscribed ch c →
    classifyChannel ch = .state ∧ ch.parses = true ∧ (s.Held ch c ∨ s.InService ch c)
  parses : ∀ c k, k ∈ s.live c → ∀ ch ∈ (s.connections k).subscriptions, ch.parses = true

variable {ch : Uri}

theorem parses_of_resourceWatch (h : classifyChannel ch = .resourceWatch) : ch.parses = true := by
  cases ch with
  | resourceWatch payload => rfl
  | _ => cases h

variable {k : Nat}

theorem isHeldByOther_iff :
    s.isHeldByOther k ch = true ↔ ∃ j ∈ s.live (s.connections k).clientId, j ≠ k ∧
      ch ∈ (s.connections j).subscriptions := by
  unfold isHeldByOther hasSubscriptionInOtherConnection live
  cases s.clients.get (s.connections k).clientId with
  | none => simp
  | some record =>
    cases record with
    | active _ | grace _ => simp

theorem Owed.frame (h : Owed s) (hservice : ∀ ch c, s'.service.Subscribed ch c →
      s.service.Subscribed ch c)
    (hlive : ∀ c, s'.live c = s.live c) (hconnections : s'.connections = s.connections)
    (htasks : s'.tasks = s.tasks) : Owed s' where
  entry ch c hsub := by
    obtain ⟨hstate, hparses, howed⟩ := h.entry ch c (hservice ch c hsub)
    refine ⟨hstate, hparses, ?_⟩
    unfold Held InService at howed ⊢
    rw [hlive, hconnections, htasks]
    exact howed
  parses c k hk := by
    rw [hlive] at hk
    rw [hconnections]
    exact h.parses c k hk

theorem Owed.quiet (h : Owed s) (hq : Quiet s s') : Owed s' := by
  obtain ⟨_, _, _, _, rfl⟩ := hq
  exact h.frame (fun _ _ hsub => hsub) (fun _ => rfl) rfl rfl

/-! ## Subscribing -/

variable {channel : Uri}

theorem mem_addSubscription {j : Nat} :
    ch ∈ ((s.addSubscription k channel).connections j).subscriptions ↔
      (j = k ∧ ch = channel) ∨ ch ∈ (s.connections j).subscriptions := by
  unfold addSubscription
  by_cases hj : j = k
  · subst hj
    rw [setConnection_self]
    simp
  · rw [setConnection_of_ne _ _ hj]
    constructor
    · exact .inr
    · rintro (⟨h, -⟩ | h)
      · exact absurd h hj
      · exact h

theorem Owed.addSubscription (h : Owed s) (k : Nat) (hparses : channel.parses = true) :
    Owed (s.addSubscription k channel) where
  entry ch c hsub := by
    obtain ⟨hstate, hparses, howed⟩ := h.entry ch c hsub
    refine ⟨hstate, hparses, ?_⟩
    rcases howed with ⟨j, hj, hmem⟩ | ⟨i, hphase, hchannel, howner⟩
    · exact .inl ⟨j, hj, mem_addSubscription.mpr (.inr hmem)⟩
    · refine .inr ⟨i, hphase, hchannel, ?_⟩
      rw [(sameRegistry_addSubscription s k channel).owner]
      exact howner
  parses c j hj ch hmem := by
    rcases mem_addSubscription.mp hmem with ⟨-, rfl⟩ | hmem
    · exact hparses
    · exact h.parses c j hj ch hmem

theorem Owed.setPhase (h : Owed s) {i : Nat} {phase : TaskPhase}
    (hgone : (s.tasks i).phase.isRegistered = true → phase.isRegistered = true ∨
      ∀ c, (s.connections (s.tasks i).connection).clientId = c →
        s.service.Subscribed (s.tasks i).channel c → s.Held (s.tasks i).channel c ∨
          s.OtherCall i (s.tasks i).channel c) :
    Owed (s.setPhase i phase) where
  entry ch c hsub := by
    obtain ⟨hstate, hparses, howed⟩ := h.entry ch c hsub
    refine ⟨hstate, hparses, ?_⟩
    rcases howed with hheld | ⟨j, hphase, hchannel, howner⟩
    · exact .inl hheld
    · by_cases hj : j = i
      · subst hj
        rcases hgone hphase with hregistered | hgone
        · refine .inr ⟨j, ?_⟩
          show (Function.update s.tasks j _ j).phase.isRegistered = true ∧
            (Function.update s.tasks j _ j).channel = ch ∧
              (s.connections (Function.update s.tasks j _ j).connection).clientId = c
          rw [update_self]
          exact ⟨hregistered, hchannel, howner⟩
        · rw [hchannel] at hgone
          rcases hgone c howner hsub with hheld | ⟨i, hne, hphase', hchannel', howner'⟩
          · exact .inl hheld
          · refine .inr ⟨i, ?_⟩
            show (Function.update s.tasks j _ i).phase.isRegistered = true ∧
              (Function.update s.tasks j _ i).channel = ch ∧
                (s.connections (Function.update s.tasks j _ i).connection).clientId = c
            rw [update_of_ne hne]
            exact ⟨hphase', hchannel', howner'⟩
      · refine .inr ⟨j, ?_⟩
        show (Function.update s.tasks i _ j).phase.isRegistered = true ∧
          (Function.update s.tasks i _ j).channel = ch ∧
            (s.connections (Function.update s.tasks i _ j).connection).clientId = c
        rw [update_of_ne hj]
        exact ⟨hphase, hchannel, howner⟩
  parses := h.parses

theorem Owed.newTask (h : Owed s) (hs : Suspended s) (task : Task) : Owed (s.newTask task) where
  entry ch c hsub := by
    obtain ⟨hstate, hparses, howed⟩ := h.entry ch c hsub
    refine ⟨hstate, hparses, ?_⟩
    rcases howed with hheld | ⟨j, hphase, hchannel, howner⟩
    · exact .inl hheld
    · have hj : j ≠ s.nextTask := by
        rintro rfl
        rw [hs.fresh _ (Nat.le_refl _)] at hphase
        cases hphase
      refine .inr ⟨j, ?_⟩
      show (Function.update s.tasks s.nextTask task j).phase.isRegistered = true ∧
        (Function.update s.tasks s.nextTask task j).channel = ch ∧
          (s.connections (Function.update s.tasks s.nextTask task j).connection).clientId = c
      rw [update_of_ne hj]
      exact ⟨hphase, hchannel, howner⟩
  parses := h.parses

theorem Owed.acquire (h : Owed s) (channel : Uri) (starts : Bool) :
    Owed { s with service := (s.service.onResourceWatchSubscribed channel starts).1 } :=
  h.frame (fun ch c => (subscribed_onResourceWatchSubscribed s.service channel starts ch c).mp)
    (fun _ => rfl) rfl rfl

theorem Owed.handleSubscribe (h : Owed s) (hs : Suspended s) (k : Nat) (channel : Uri)
    (starts : Bool) : Owed (s.handleSubscribe k channel starts) := by
  unfold ProtocolServerHandler.handleSubscribe
  split
  · rename_i hwatch
    split
    · rename_i service hservice
      have hacquired := h.acquire channel starts
      rw [hservice] at hacquired
      refine (hacquired.addSubscription k (parses_of_resourceWatch hwatch)).newTask ?_ _
      exact hs.frame rfl rfl (Nat.le_refl _)
    · exact h.newTask hs _
  · split
    · exact h.newTask hs _
    · exact h.newTask hs _

/-! ## Unsubscribing -/

theorem mem_eraseSubscription {j : Nat} :
    ch ∈ ((s.setConnection k { s.connections k with
        subscriptions := (s.connections k).subscriptions.erase channel }).connections
          j).subscriptions ↔
      ch ∈ (s.connections j).subscriptions ∧ ¬ (j = k ∧ ch = channel) := by
  by_cases hj : j = k
  · subst hj
    rw [setConnection_self]
    rw [OrderedSet.mem_erase, and_comm]
    simp
  · rw [setConnection_of_ne _ _ hj]
    simp [hj]

theorem Owed.eraseSubscription (h : Owed s) (hr : Registry s) (hlive : ∀ c, s'.live c = s.live c)
    (htasks : s'.tasks = s.tasks)
    (hconnections : s'.connections = (s.setConnection k { s.connections k with
      subscriptions := (s.connections k).subscriptions.erase channel }).connections)
    (hservice : ∀ ch c, s'.service.Subscribed ch c → s.service.Subscribed ch c ∧
      (ch = channel → c = (s.connections k).clientId → classifyChannel ch = .state →
        ∃ j ∈ s.live c, j ≠ k ∧ ch ∈ (s.connections j).subscriptions)) : Owed s' where
  entry ch c hsub := by
    obtain ⟨hbefore, hother⟩ := hservice ch c hsub
    obtain ⟨hstate, hparses, howed⟩ := h.entry ch c hbefore
    refine ⟨hstate, hparses, ?_⟩
    have hkeep : ∀ j ∈ s.live c, ch ∈ (s.connections j).subscriptions →
        ¬ (j = k ∧ ch = channel) → s'.Held ch c := by
      intro j hj hmem hne
      refine ⟨j, (hlive c).symm ▸ hj, ?_⟩
      rw [hconnections]
      exact mem_eraseSubscription.mpr ⟨hmem, hne⟩
    rcases howed with ⟨j, hj, hmem⟩ | ⟨i, hphase, hchannel, howner⟩
    · by_cases hjk : j = k ∧ ch = channel
      · obtain ⟨rfl, rfl⟩ := hjk
        obtain ⟨j', hj', hne, hmem'⟩ := hother rfl (hr.owner c j hj).symm hstate
        exact .inl (hkeep j' hj' hmem' fun hjk => hne hjk.1)
      · exact .inl (hkeep j hj hmem hjk)
    · have herase : SameRegistry s (s.setConnection k { s.connections k with
          subscriptions := (s.connections k).subscriptions.erase channel }) :=
        sameRegistry_setConnection s rfl rfl
      refine .inr ⟨i, ?_⟩
      rw [htasks, hconnections]
      exact ⟨hphase, hchannel, (herase.owner _).trans howner⟩
  parses c j hj ch hmem := by
    rw [hlive] at hj
    rw [hconnections] at hmem
    exact h.parses c j hj ch (mem_eraseSubscription.mp hmem).1

theorem Owed.removeSubscription (h : Owed s) (hr : Registry s)
    (hk : k ∈ s.live (s.connections k).clientId) : Owed (s.removeSubscription k channel) := by
  unfold ProtocolServerHandler.removeSubscription
  simp only
  split
  · rename_i hmem
    cases hclass : classifyChannel channel with
    | resourceWatch =>
      refine h.eraseSubscription hr (fun _ => rfl) rfl rfl fun ch c hsub => ⟨?_, ?_⟩
      · exact (subscribed_onResourceWatchUnsubscribed s.service channel ch c).mp hsub
      · rintro rfl - hstate
        rw [hclass] at hstate
        cases hstate
    | state =>
      simp only
      split
      · rename_i hkept
        refine h.eraseSubscription hr (fun _ => rfl) rfl rfl fun ch c hsub => ⟨hsub, ?_⟩
        rintro rfl rfl -
        rcases Bool.or_eq_true_iff.mp hkept with hheld | hbad
        · obtain ⟨j, hj, hne, hmem'⟩ := isHeldByOther_iff.mp hheld
          rw [setConnection_self] at hj
          exact ⟨j, hj, hne, (mem_eraseSubscription.mp hmem').1⟩
        · rw [h.parses _ k hk ch hmem] at hbad
          cases hbad
      · refine Owed.quiet ?_ (quiet_leaveChannel _ _ _)
        refine h.eraseSubscription hr (fun _ => rfl) rfl rfl fun ch c hsub => ?_
        obtain ⟨hne, hbefore⟩ := (subscribed_unsubscribe s.service channel ch _ c).mp hsub
        exact ⟨hbefore, fun hch hc _ => absurd ⟨hch.symm, hc.symm⟩ hne⟩
  · exact h

/-! ## Detaching a connection -/

theorem owed_detached (hnodup : ∀ c, (s.live c).Nodup)
    (howner : ∀ c j, j ∈ s.live c → (s.connections j).clientId = c)
    (hentry : ∀ ch c, s.service.Subscribed ch c → classifyChannel ch = .state ∧
      ch.parses = true ∧ (s.Held ch c ∨ s.InService ch c)) (hothers : ∀ c j, j ∈ s.live c → j ≠ k →
      ∀ ch ∈ (s.connections j).subscriptions, ch.parses = true)
    (hlast : ∀ uri ∈ (s.connections k).subscriptions.elems.dropLast, uri.parses = true)
    (hdetached : Detached s s' k) : Owed s' where
  entry ch c hsub := by
    rw [hdetached.service] at hsub
    obtain ⟨hbefore, hnot⟩ := subscribed_releaseSubscriptions s.service hlast ch c hsub
    obtain ⟨hstate, hparses, howed⟩ := hentry ch c hbefore
    refine ⟨hstate, hparses, ?_⟩
    have hkeep : ∀ j ∈ s.live c, j ≠ k → ch ∈ (s.connections j).subscriptions → s'.Held ch c := by
      intro j hj hne hmem
      refine ⟨j, ?_, ?_⟩
      · rw [hdetached.live]
        split
        · exact (mem_erase_of_ne hne).mpr hj
        · exact hj
      · rw [hdetached.others j hne]
        exact hmem
    rcases howed with ⟨j, hj, hmem⟩ | ⟨i, hphase, hchannel, hclient⟩
    · left
      by_cases hjk : j = k
      · subst hjk
        have hown := howner c j hj
        have hheld : s.hasSubscriptionInOtherConnection
            ((s.live (s.connections j).clientId).erase j) j ch = true := by
          by_contra hfalse
          exact hnot ⟨hown.symm, hmem, hparses, hstate, Bool.eq_false_of_not_eq_true hfalse⟩
        obtain ⟨j', hj', hother⟩ := any_eq_true.mp hheld
        obtain ⟨hne, hmem'⟩ := Bool.and_eq_true_iff.mp hother
        rw [hown] at hj'
        exact hkeep j' (mem_of_mem_erase hj') (of_decide_eq_true hne) (of_decide_eq_true hmem')
      · exact hkeep j hj hjk hmem
    · right
      refine ⟨i, ?_⟩
      rw [hdetached.tasks]
      refine ⟨hphase, hchannel, Eq.trans ?_ hclient⟩
      by_cases hi : (s.tasks i).connection = k
      · rw [hi]
        exact hdetached.owner
      · rw [hdetached.others _ hi]
  parses c j hj ch hmem := by
    rw [hdetached.live] at hj
    have hjk : j ∈ s.live c ∧ j ≠ k := by
      split at hj
      · exact ⟨mem_of_mem_erase hj, fun heq => (hnodup c).not_mem_erase (heq ▸ hj)⟩
      · rename_i hc
        exact ⟨hj, fun heq => hc (heq ▸ howner c j hj)⟩
    rw [hdetached.others j hjk.2] at hmem
    exact hothers c j hjk.1 hjk.2 ch hmem

end Fumie.AgentHost.ProtocolServerHandler
