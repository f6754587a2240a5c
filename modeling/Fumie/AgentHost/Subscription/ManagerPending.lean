import Fumie.AgentHost.Subscription.ManagerRuns

/-!
# Pending actions in the subscription manager

Only a dispatch adds a pending action. Everything else the manager does carries
its subscriptions on: `Keeps` says of one subscription that it stays what it is
and its pending list at most shrinks, `Carries` says so of the whole manager.
`Held` is what follows over a run in which every dispatch takes a new number: no
two pending actions share one, in whichever subscriptions they are.
-/

namespace Fumie.AgentHost

open Fumie.Lib List Subscription WriteAheadKind Record

/-! ## One subscription -/

inductive Keeps : ManagedSubscription → ManagedSubscription → Prop where
  | writeAhead {k : WriteAheadKind} {sub sub' : Subscription k.State k.Action}
      (hclient : sub'.clientId = sub.clientId) (huri : sub'.uri = sub.uri)
      (hpending : sub'.pendingActions.Sublist sub.pendingActions) :
      Keeps (.writeAhead k sub) (.writeAhead k sub')
  | terminal {error error' : Option String} : Keeps (.terminal error) (.terminal error')

variable {sub sub' : ManagedSubscription} {clientId : ClientId} {resource : Uri}
  {j clientSeq n : Nat} {p : PendingDispatchAction} {action : StateAction}

namespace Keeps

theorem refl (sub : ManagedSubscription) : Keeps sub sub := by
  cases sub with
  | writeAhead k sub => exact .writeAhead rfl rfl (List.Sublist.refl _)
  | terminal error => exact .terminal

theorem trans {sub₁ sub₂ sub₃ : ManagedSubscription} (h₁ : Keeps sub₁ sub₂)
    (h₂ : Keeps sub₂ sub₃) : Keeps sub₁ sub₃ := by
  cases h₁ with
  | writeAhead hc hu hp =>
    cases h₂ with
    | writeAhead hc' hu' hp' => exact .writeAhead (hc'.trans hc) (hu'.trans hu) (hp'.trans hp)
  | terminal =>
    cases h₂ with
    | terminal => exact .terminal

theorem pending (h : Keeps sub sub') : sub'.pendingActions.Sublist sub.pendingActions := by
  cases h with
  | writeAhead hc hu hp =>
    unfold ManagedSubscription.pendingActions
    simp only [hu]
    exact hp.map _
  | terminal => exact List.Sublist.refl _

theorem tracksPending (h : Keeps sub sub') : sub'.tracksPending = sub.tracksPending := by
  cases h <;> rfl

end Keeps

/-! ### Operations on one subscription -/

theorem keeps_setError (sub : ManagedSubscription) (error : String) :
    Keeps sub (sub.setError error) := by
  cases sub with
  | writeAhead k sub => exact .writeAhead rfl rfl (List.Sublist.refl _)
  | terminal error => exact .terminal

theorem keeps_clearPending (sub : ManagedSubscription) : Keeps sub sub.clearPending := by
  cases sub with
  | writeAhead k sub =>
    unfold ManagedSubscription.clearPending
    simp only
    split
    · exact .writeAhead rfl rfl (nil_sublist _)
    · exact Keeps.refl _
  | terminal error => exact .terminal

theorem keeps_dropPendingByClientSeq (sub : ManagedSubscription) (clientSeq : Nat) :
    Keeps sub (sub.dropPendingByClientSeq clientSeq) := by
  cases sub with
  | writeAhead k sub =>
    unfold ManagedSubscription.dropPendingByClientSeq
    simp only
    split
    · exact .writeAhead rfl rfl eraseP_sublist
    · exact Keeps.refl _
  | terminal error => exact .terminal

theorem keeps_reconcile {k : WriteAheadKind} (sub : Subscription k.State k.Action)
    (e : ActionEnvelope k.Action) : Keeps (.writeAhead k sub) (.writeAhead k (k.cls.reconcile sub e)) := by
  obtain ⟨hclient, huri, _, _⟩ := k.reconcileSpec.frame sub e
  refine .writeAhead hclient huri ?_
  rw [k.reconcileSpec.pending]
  exact pendingAfter_sublist k.promotes sub e

theorem keeps_receiveEnvelope (sub : ManagedSubscription) (e : ActionEnvelope StateAction) :
    Keeps sub (sub.receiveEnvelope e) := by
  cases sub with
  | writeAhead k sub =>
    unfold ManagedSubscription.receiveEnvelope SubscriptionClass.receiveEnvelope
    simp only
    split
    · exact Keeps.refl _
    · rename_i e' _
      cases hc : sub.confirmedState with
      | none =>
        rw [receive_unhydrated k.cls hc]
        exact .writeAhead rfl rfl (List.Sublist.refl _)
      | some state =>
        rw [receive_hydrated k.cls hc]
        exact keeps_reconcile sub e'
  | terminal error => exact .terminal

theorem keeps_foldl_reconcile {k : WriteAheadKind} (envelopes : List (ActionEnvelope k.Action))
    (sub : Subscription k.State k.Action) :
    Keeps (.writeAhead k sub) (.writeAhead k (envelopes.foldl k.cls.reconcile sub)) := by
  induction envelopes generalizing sub with
  | nil => exact Keeps.refl _
  | cons e rest ih => exact (keeps_reconcile sub e).trans (ih (k.cls.reconcile sub e))

theorem keeps_handleSnapshot (sub : ManagedSubscription) (state : ResourceState) (fromSeq : Nat) :
    Keeps sub (sub.handleSnapshot state fromSeq) := by
  unfold ManagedSubscription.handleSnapshot
  split
  · rename_i k sub k' state
    split
    · rename_i hk
      subst hk
      have hstart : Keeps (.writeAhead k' sub) (.writeAhead k' { sub with
          confirmedState := some state, error := none, bufferedEnvelopes := [] }) :=
        .writeAhead rfl rfl (List.Sublist.refl _)
      have hreplay := hstart.trans (keeps_foldl_reconcile
        (sub.bufferedEnvelopes.filter fun e => fromSeq < e.serverSeq) _)
      refine hreplay.trans (.writeAhead ?_ ?_ ?_)
      · exact recomputeOptimistic_clientId ..
      · exact recomputeOptimistic_uri ..
      · rw [SubscriptionClass.handleSnapshot, recomputeOptimistic_pendingActions]
        exact List.Sublist.refl _
    · exact Keeps.refl _
  · exact .terminal
  · exact Keeps.refl _

namespace SubscriptionManager

variable {m m' : SubscriptionManager} {id : Nat}

/-! ## The manager -/

def Owned (clientId : ClientId) (resource : Uri) : ManagedSubscription → Prop
  | .writeAhead _ sub => sub.clientId = clientId ∧ sub.uri = resource
  | .terminal _ => True

structure Carries (m m' : SubscriptionManager) : Prop where
  clientId : m'.clientId = m.clientId
  nextEntry : m.nextEntry ≤ m'.nextEntry
  old : ∀ j, j < m.nextEntry → (m'.entries j).resource = (m.entries j).resource ∧
    Keeps (m.entries j).sub (m'.entries j).sub
  new : ∀ j, m.nextEntry ≤ j → j < m'.nextEntry → (m'.entries j).sub.pendingActions = [] ∧
    Owned m.clientId (m'.entries j).resource (m'.entries j).sub
  mapped : ∀ resource j, m'.subscriptions.get resource = some j →
    m.subscriptions.get resource = some j ∨ m.nextEntry ≤ j

theorem Keeps.owned (h : Keeps sub sub') (ho : Owned clientId resource sub) :
    Owned clientId resource sub' := by
  cases h with
  | writeAhead hc hu _ => exact ⟨hc.trans ho.1, hu.trans ho.2⟩
  | terminal => trivial

theorem Carries.refl (m : SubscriptionManager) : Carries m m :=
  ⟨rfl, Nat.le_refl _, fun _ _ => ⟨rfl, Keeps.refl _⟩,
    fun _ hge hlt => absurd hlt (Nat.not_lt.mpr hge), fun _ _ h => .inl h⟩

theorem Carries.trans {m₁ m₂ m₃ : SubscriptionManager} (h₁ : Carries m₁ m₂)
    (h₂ : Carries m₂ m₃) : Carries m₁ m₃ where
  clientId := h₂.clientId.trans h₁.clientId
  nextEntry := h₁.nextEntry.trans h₂.nextEntry
  old j hj := by
    obtain ⟨hres₁, hkeeps₁⟩ := h₁.old j hj
    obtain ⟨hres₂, hkeeps₂⟩ := h₂.old j (hj.trans_le h₁.nextEntry)
    exact ⟨hres₂.trans hres₁, hkeeps₁.trans hkeeps₂⟩
  new j hge hlt := by
    by_cases hj : j < m₂.nextEntry
    · obtain ⟨hres, hkeeps⟩ := h₂.old j hj
      obtain ⟨hnil, howned⟩ := h₁.new j hge hj
      refine ⟨sublist_nil.mp (hnil ▸ hkeeps.pending), ?_⟩
      rw [hres]
      exact Keeps.owned hkeeps howned
    · obtain ⟨hnil, howned⟩ := h₂.new j (Nat.not_lt.mp hj) hlt
      exact ⟨hnil, h₁.clientId ▸ howned⟩
  mapped resource j hj := by
    rcases h₂.mapped resource j hj with h | h
    · exact h₁.mapped resource j h
    · exact .inr (h₁.nextEntry.trans h)

theorem carries_setEntry {entry : ManagedEntry}
    (hresource : entry.resource = (m.entries id).resource)
    (hsub : Keeps (m.entries id).sub entry.sub) : Carries m (m.setEntry id entry) where
  clientId := rfl
  nextEntry := Nat.le_refl _
  old j _ := by
    by_cases hj : j = id
    · subst hj
      rw [setEntry_self]
      exact ⟨hresource, hsub⟩
    · rw [setEntry_of_ne hj]
      exact ⟨rfl, Keeps.refl _⟩
  new _ hge hlt := absurd hlt (Nat.not_lt.mpr hge)
  mapped _ _ h := .inl h

theorem carries_setSub (h : Keeps (m.entries id).sub sub) :
    Carries m (m.setSub id sub) := carries_setEntry rfl h

theorem carries_of_entries (hclient : m'.clientId = m.clientId) (hentries : m'.entries = m.entries)
    (hnext : m'.nextEntry = m.nextEntry) (hmapped : ∀ resource j,
      m'.subscriptions.get resource = some j → m.subscriptions.get resource = some j) :
    Carries m m' where
  clientId := hclient
  nextEntry := hnext.ge
  old j _ := by
    rw [hentries]
    exact ⟨rfl, Keeps.refl _⟩
  new _ hge hlt := absurd (hnext ▸ hlt) (Nat.not_lt.mpr hge)
  mapped resource j h := .inl (hmapped resource j h)

theorem carries_disposeTimer (m : SubscriptionManager) (id : Nat) :
    Carries m (m.disposeTimer id) := by
  have hset : Carries m (m.setEntry id { m.entries id with releaseTimer := none }) :=
    carries_setEntry rfl (Keeps.refl _)
  exact hset.trans (carries_of_entries rfl rfl rfl fun _ _ h => h)

theorem carries_removeIdle (m : SubscriptionManager) (id : Nat) : Carries m (m.removeIdle id) :=
  carries_of_entries rfl rfl rfl fun _ _ h => h

theorem carries_cancelScheduledRelease (m : SubscriptionManager) (id : Nat) :
    Carries m (m.cancelScheduledRelease id) := by
  have hset : Carries (m.disposeTimer id) ((m.disposeTimer id).setEntry id
      { (m.disposeTimer id).entries id with releaseExpired := false }) :=
    carries_setEntry rfl (Keeps.refl _)
  exact ((carries_disposeTimer m id).trans hset).trans (carries_removeIdle _ id)

theorem carries_disposeSubscriptionEntry (m : SubscriptionManager) (id : Nat) (unsubscribe : Bool)
    (cause : UnsubscribeCause) : Carries m (m.disposeSubscriptionEntry id unsubscribe cause) := by
  have hidle := (carries_disposeTimer m id).trans (carries_removeIdle _ id)
  refine hidle.trans ?_
  obtain ⟨m₁, hm₁⟩ : ∃ m₁, m₁ = (m.disposeTimer id).removeIdle id := ⟨_, rfl⟩
  unfold disposeSubscriptionEntry
  rw [← hm₁]
  have hsend : Carries m₁ (m₁.sendUnsubscribeOnce id unsubscribe cause) := by
    unfold sendUnsubscribeOnce
    split
    · have hset : Carries m₁ (m₁.setEntry id { m₁.entries id with unsubscribeSent := true }) :=
        carries_setEntry rfl (Keeps.refl _)
      exact hset.trans (carries_of_entries rfl rfl rfl fun _ _ h => h)
    · exact Carries.refl _
  refine hsend.trans ?_
  unfold disposeLocally
  split
  · exact Carries.refl _
  · exact carries_setEntry rfl (keeps_clearPending _)

theorem carries_finalize (m : SubscriptionManager) (id : Nat) (unsubscribe : Bool)
    (cause : UnsubscribeCause) : Carries m (m.finalizeSubscriptionEntry id unsubscribe cause) := by
  unfold finalizeSubscriptionEntry
  split
  · refine (carries_of_entries rfl rfl rfl fun resource j h => ?_ : Carries m
      { m with subscriptions := m.subscriptions.delete (m.entries id).resource }).trans
      (carries_disposeSubscriptionEntry _ id unsubscribe cause)
    rw [get_delete] at h
    split at h
    · cases h
    · exact h
  · exact carries_disposeSubscriptionEntry m id unsubscribe cause

theorem carries_expire (m : SubscriptionManager) (id : Nat) :
    Carries m (m.expireSubscriptionRelease id) := by
  unfold expireSubscriptionRelease
  simp only
  have hidle := carries_removeIdle m id
  split
  · exact hidle
  · have hset : Carries (m.removeIdle id) ((m.removeIdle id).setEntry id
        { (m.removeIdle id).entries id with releaseExpired := true }) :=
      carries_setEntry rfl (Keeps.refl _)
    split
    · exact (hidle.trans hset).trans (carries_finalize _ id false .released)
    · exact hidle.trans hset
    · exact (hidle.trans hset).trans (carries_finalize _ id true .released)

theorem carries_evictIdle (fuel : Nat) (m : SubscriptionManager) : Carries m (m.evictIdle fuel) := by
  induction fuel generalizing m with
  | zero => exact Carries.refl m
  | succ fuel ih =>
    unfold evictIdle
    split
    · exact Carries.refl m
    · split
      · exact Carries.refl m
      · exact ((carries_disposeTimer m _).trans (carries_expire _ _)).trans (ih _)

theorem carries_schedule (m : SubscriptionManager) (id : Nat) :
    Carries m (m.scheduleSubscriptionRelease id) := by
  have hcancel := carries_cancelScheduledRelease m id
  unfold scheduleSubscriptionRelease
  simp only
  split
  · exact hcancel.trans (carries_expire _ id)
  · obtain ⟨m₁, hm₁⟩ : ∃ m₁, m₁ = m.cancelScheduledRelease id := ⟨_, rfl⟩
    rw [← hm₁] at hcancel ⊢
    have hset : Carries m₁ (m₁.setEntry id { m₁.entries id with
        releaseTimer := some m₁.nextTimer }) := carries_setEntry rfl (Keeps.refl _)
    have harm : Carries m₁ (m₁.armRelease id) :=
      hset.trans (carries_of_entries rfl rfl rfl fun _ _ h => h)
    exact (hcancel.trans harm).trans (carries_evictIdle _ _)

theorem carries_disposeReference (m : SubscriptionManager) (id ownerId : Nat) :
    Carries m (m.disposeReference id ownerId) := by
  unfold disposeReference
  split
  · obtain ⟨m₁, hm₁⟩ : ∃ m₁, m₁ = m.setEntry id { m.entries id with
      holders := (m.entries id).holders.erase ownerId } := ⟨_, rfl⟩
    have h₁ : Carries m m₁ := hm₁ ▸ carries_setEntry rfl (Keeps.refl _)
    rw [← hm₁]
    refine h₁.trans ?_
    unfold releaseSubscription
    split
    · exact Carries.refl _
    · have hset : Carries m₁ (m₁.setEntry id { m₁.entries id with
          refCount := (m₁.entries id).refCount - 1 }) := carries_setEntry rfl (Keeps.refl _)
      simp only
      split
      · exact hset.trans (carries_schedule _ id)
      · exact hset
  · exact Carries.refl m

theorem carries_startSubscribe (m : SubscriptionManager) (id : Nat) :
    Carries m (m.startSubscribe id) := by
  unfold startSubscribe
  split
  · exact Carries.refl m
  · have hset : Carries m (m.setEntry id { m.entries id with phase := .subscribing }) :=
      carries_setEntry rfl (Keeps.refl _)
    exact hset.trans (carries_of_entries rfl rfl rfl fun _ _ h => h)

theorem carries_acquireReference (m : SubscriptionManager) (id : Nat) :
    Carries m (m.acquireReference id) := by
  have hset : Carries m (m.setEntry id { m.entries id with
      holders := (m.entries id).holders ++ [m.referenceOwnerIds + 1] }) :=
    carries_setEntry rfl (Keeps.refl _)
  exact hset.trans (carries_of_entries rfl rfl rfl fun _ _ h => h)

theorem carries_addEntry (m : SubscriptionManager) (kind : SubscriptionKind) (resource : Uri) :
    Carries m (m.addEntry kind resource) where
  clientId := rfl
  nextEntry := Nat.le_succ _
  old j hj := by
    show ((m.setEntry m.nextEntry _).entries j).resource = _ ∧
      Keeps _ ((m.setEntry m.nextEntry _).entries j).sub
    rw [setEntry_of_ne (Nat.ne_of_lt hj)]
    exact ⟨rfl, Keeps.refl _⟩
  new j hge hlt := by
    have hj : j = m.nextEntry := by
      have hlt' : j < m.nextEntry + 1 := hlt
      omega
    show ((m.setEntry m.nextEntry _).entries j).sub.pendingActions = [] ∧
      Owned _ ((m.setEntry m.nextEntry _).entries j).resource
        ((m.setEntry m.nextEntry _).entries j).sub
    rw [hj, setEntry_self]
    cases kind with
    | writeAhead k => exact ⟨rfl, rfl, rfl⟩
    | terminal => exact ⟨rfl, trivial⟩
  mapped resource' j hj := by
    rw [addEntry_get] at hj
    split at hj
    · exact .inr (Option.some.inj hj).le
    · exact .inl hj

theorem carries_createEntry (m : SubscriptionManager) (kind : SubscriptionKind) (resource : Uri) :
    Carries m (m.createEntry kind resource) := by
  have hadd := carries_addEntry m kind resource
  unfold createEntry
  simp only
  split
  · exact (hadd.trans (carries_startSubscribe _ _)).trans (carries_acquireReference _ _)
  · exact hadd.trans (carries_acquireReference _ _)

theorem carries_getSubscription {kind : SubscriptionKind}
    (h : m.getSubscription kind resource = some m') : Carries m m' := by
  unfold getSubscription at h
  split at h
  · cases h
  · split at h
    · cases h
      exact carries_createEntry m kind resource
    · rename_i id _
      split at h
      · cases h
        exact (carries_finalize m id true .evicted).trans (carries_createEntry _ kind resource)
      · cases h
        have hcancel := carries_cancelScheduledRelease m id
        have hset : Carries (m.cancelScheduledRelease id) ((m.cancelScheduledRelease id).setEntry id
            { (m.cancelScheduledRelease id).entries id with
              refCount := ((m.cancelScheduledRelease id).entries id).refCount + 1 }) :=
          carries_setEntry rfl (Keeps.refl _)
        exact (hcancel.trans hset).trans (carries_acquireReference _ id)

theorem carries_settleSubscribe (m : SubscriptionManager) (id : Nat)
    (result : Except String (ResourceState × Nat)) : Carries m (m.settleSubscribe id result) := by
  have hdeliver : Carries m (m.deliver id result) := by
    unfold deliver
    split
    · split
      · exact carries_setSub (keeps_handleSnapshot ..)
      · exact carries_setSub (keeps_setError ..)
    · exact Carries.refl m
  have hset : Carries (m.deliver id result) ((m.deliver id result).setEntry id
      { (m.deliver id result).entries id with phase := .settled }) :=
    carries_setEntry rfl (Keeps.refl _)
  have hmark : Carries m ((m.deliver id result).markSettled id) :=
    (hdeliver.trans hset).trans (carries_of_entries rfl rfl rfl fun _ _ h => h)
  unfold settleSubscribe
  simp only
  split
  · exact hmark.trans (carries_disposeSubscriptionEntry _ id true .managerDisposed)
  · split
    · exact hmark.trans (carries_finalize _ id true .released)
    · exact hmark

theorem carries_receiveEnvelope (m : SubscriptionManager) (e : ActionEnvelope StateAction) :
    Carries m (m.receiveEnvelope e) := by
  unfold receiveEnvelope
  generalize m.subscriptions.entries.map Prod.snd = ids
  induction ids generalizing m with
  | nil => exact Carries.refl m
  | cons id ids ih => exact (carries_setSub (keeps_receiveEnvelope ..)).trans (ih _)

theorem carries_dropPendingAction (m : SubscriptionManager) (resource : Uri) (clientSeq : Nat) :
    Carries m (m.dropPendingAction resource clientSeq) := by
  unfold dropPendingAction
  split
  · exact Carries.refl m
  · exact carries_setSub (keeps_dropPendingByClientSeq ..)

theorem carries_markSubscriptionsMissing (m : SubscriptionManager) (missing : List Uri) :
    Carries m (m.markSubscriptionsMissing missing) := by
  induction missing generalizing m with
  | nil => exact Carries.refl m
  | cons resource rest ih =>
    refine Carries.trans ?_ (ih _)
    unfold markMissing
    split
    · exact Carries.refl m
    · split
      · exact carries_setSub ((keeps_clearPending _).trans (keeps_setError ..))
      · exact Carries.refl m

theorem carries_applyReconnectSnapshot (m : SubscriptionManager) (resource : Uri)
    (state : ResourceState) (fromSeq : Nat) (preservePending : Bool) :
    Carries m (m.applyReconnectSnapshot resource state fromSeq preservePending) := by
  unfold applyReconnectSnapshot
  split
  · exact Carries.refl m
  · refine carries_setSub (Keeps.trans ?_ (keeps_handleSnapshot ..))
    split
    · exact Keeps.refl _
    · exact keeps_clearPending _

theorem carries_disposeEntry (m : SubscriptionManager) (id : Nat) :
    Carries m (m.disposeEntry id) := by
  unfold disposeEntry
  split
  · have hset : Carries m (m.setEntry id { m.entries id with
        unsubscribeAfterSubscribe := true }) := carries_setEntry rfl (Keeps.refl _)
    exact hset.trans (carries_disposeSubscriptionEntry _ id false .managerDisposed)
  · exact carries_disposeSubscriptionEntry m id _ .managerDisposed

theorem carries_dispose (m : SubscriptionManager) : Carries m m.dispose := by
  have hfold : ∀ (ids : List Nat) (m : SubscriptionManager),
      Carries m (ids.foldl disposeEntry m) := by
    intro ids
    induction ids with
    | nil => exact Carries.refl
    | cons id ids ih => exact fun m => (carries_disposeEntry m id).trans (ih _)
  exact (hfold (m.subscriptions.entries.map Prod.snd) m).trans
    (carries_of_entries rfl rfl rfl nofun)

/-! ## Numbers of pending actions -/

structure Held (m : SubscriptionManager) (next : Nat) : Prop where
  owned : ∀ j, j < m.nextEntry → Owned m.clientId (m.entries j).resource (m.entries j).sub
  numbered : ∀ j, j < m.nextEntry → ∀ p ∈ (m.entries j).sub.pendingActions,
    0 < p.clientSeq ∧ p.clientSeq < next
  nodup : ∀ j, j < m.nextEntry → ((m.entries j).sub.pendingActions.map (·.clientSeq)).Nodup
  apart : ∀ i j, i < m.nextEntry → j < m.nextEntry →
    ∀ p ∈ (m.entries i).sub.pendingActions, ∀ q ∈ (m.entries j).sub.pendingActions,
    p.clientSeq = q.clientSeq → i = j

theorem Carries.pending (h : Carries m m') (hj : j < m'.nextEntry)
    (hp : p ∈ (m'.entries j).sub.pendingActions) :
    j < m.nextEntry ∧ p ∈ (m.entries j).sub.pendingActions := by
  by_cases hold : j < m.nextEntry
  · exact ⟨hold, (h.old j hold).2.pending.subset hp⟩
  · rw [(h.new j (Nat.not_lt.mp hold) hj).1] at hp
    cases hp

variable {next : Nat}

theorem Held.carries (hm : Held m next) (h : Carries m m') : Held m' next where
  owned j hj := by
    rw [h.clientId]
    by_cases hold : j < m.nextEntry
    · obtain ⟨hres, hkeeps⟩ := h.old j hold
      rw [hres]
      exact Keeps.owned hkeeps (hm.owned j hold)
    · exact (h.new j (Nat.not_lt.mp hold) hj).2
  numbered j hj p hp := by
    obtain ⟨hold, hp'⟩ := h.pending hj hp
    exact hm.numbered j hold p hp'
  nodup j hj := by
    by_cases hold : j < m.nextEntry
    · exact (hm.nodup j hold).sublist ((h.old j hold).2.pending.map _)
    · rw [(h.new j (Nat.not_lt.mp hold) hj).1]
      exact nodup_nil
  apart i j hi hj p hp q hq heq := by
    obtain ⟨hi', hp'⟩ := h.pending hi hp
    obtain ⟨hj', hq'⟩ := h.pending hj hq
    exact hm.apart i j hi' hj' p hp' q hq' heq

theorem Held.channel {next : Nat} (hm : Held m next) (hj : j < m.nextEntry)
    (hp : p ∈ (m.entries j).sub.pendingActions) : p.channel = (m.entries j).resource := by
  have howned := hm.owned j hj
  cases hsub : (m.entries j).sub with
  | writeAhead k sub =>
    rw [hsub] at howned hp
    obtain ⟨q, _, rfl⟩ := mem_map.mp hp
    exact howned.2
  | terminal error =>
    rw [hsub] at hp
    cases hp

variable {k : WriteAheadKind}

theorem wrap_of_guard {a : k.Action} (h : k.cls.guard action = some a) : k.wrap a = action := by
  cases k <;> cases action <;> cases h <;> rfl

theorem applyOptimistic_pendingActions (howned : Owned clientId resource sub)
    (h : sub.applyOptimistic clientSeq action = some sub') :
    Owned clientId resource sub' ∧
      sub'.pendingActions = sub.pendingActions ++ [⟨resource, clientSeq, action⟩] := by
  cases sub with
  | writeAhead k sub =>
    obtain ⟨a, ha, rfl⟩ := Option.map_eq_some_iff.mp h
    refine ⟨howned, ?_⟩
    unfold ManagedSubscription.pendingActions Subscription.applyOptimistic
    simp only [map_append, map_cons, map_nil, howned.2, wrap_of_guard ha]
  | terminal error => cases h

theorem dispatchOptimistic_frame (m : SubscriptionManager) (channel : Uri) (clientSeq : Nat)
    (action : StateAction) :
    (m.dispatchOptimistic channel clientSeq action).clientId = m.clientId ∧
      (m.dispatchOptimistic channel clientSeq action).nextEntry = m.nextEntry ∧
      (m.dispatchOptimistic channel clientSeq action).subscriptions = m.subscriptions ∧
      ∀ j, ((m.dispatchOptimistic channel clientSeq action).entries j).sub.tracksPending =
        (m.entries j).sub.tracksPending := by
  unfold dispatchOptimistic
  split
  · exact ⟨rfl, rfl, rfl, fun _ => rfl⟩
  · rename_i id _
    split
    · exact ⟨rfl, rfl, rfl, fun _ => rfl⟩
    · rename_i sub hsub
      refine ⟨rfl, rfl, rfl, fun j => ?_⟩
      by_cases hj : j = id
      · subst hj
        unfold setSub
        rw [setEntry_self]
        cases hold : (m.entries j).sub with
        | writeAhead k old =>
          rw [hold] at hsub
          obtain ⟨a, _, rfl⟩ := Option.map_eq_some_iff.mp hsub
          rfl
        | terminal error =>
          rw [hold] at hsub
          cases hsub
      · unfold setSub
        rw [setEntry_of_ne hj]

theorem dispatchOptimistic_cases (hm : Held m next)
    (hmapped : ∀ resource j, m.subscriptions.get resource = some j →
      j < m.nextEntry ∧ (m.entries j).resource = resource) (channel : Uri) (clientSeq : Nat)
    (action : StateAction) :
    m.dispatchOptimistic channel clientSeq action = m ∨
      ∃ id sub, id < m.nextEntry ∧ (m.entries id).resource = channel ∧
        m.dispatchOptimistic channel clientSeq action = m.setSub id sub ∧
        Owned m.clientId channel sub ∧
        sub.pendingActions =
          (m.entries id).sub.pendingActions ++ [⟨channel, clientSeq, action⟩] := by
  unfold dispatchOptimistic
  split
  · exact .inl rfl
  · rename_i id hget
    split
    · exact .inl rfl
    · rename_i sub hsub
      obtain ⟨hid, hres⟩ := hmapped channel id hget
      obtain ⟨howned, hpending⟩ := applyOptimistic_pendingActions (hm.owned id hid) hsub
      rw [hres] at howned hpending
      exact .inr ⟨id, sub, hid, hres, rfl, howned, hpending⟩

theorem Held.dispatch (hm : Held m next) (hnext : 0 < next)
    (hmapped : ∀ resource j, m.subscriptions.get resource = some j →
      j < m.nextEntry ∧ (m.entries j).resource = resource) (channel : Uri) (action : StateAction) :
    Held (m.dispatchOptimistic channel next action) (next + 1) ∧
      ∀ j p, p ∈ ((m.dispatchOptimistic channel next action).entries j).sub.pendingActions →
        p ∈ (m.entries j).sub.pendingActions ∨ p = ⟨channel, next, action⟩ := by
  rcases dispatchOptimistic_cases hm hmapped channel next action with
    hsame | ⟨id, sub, hid, hres, hset, howned, hpending⟩
  · rw [hsame]
    refine ⟨⟨hm.owned, fun j hj p hp => ?_, hm.nodup, hm.apart⟩, fun _ _ h => .inl h⟩
    obtain ⟨hpos, hlt⟩ := hm.numbered j hj p hp
    exact ⟨hpos, Nat.lt_succ_of_lt hlt⟩
  · rw [hset]
    have hself : ((m.setSub id sub).entries id) = { m.entries id with sub } := setEntry_self ..
    have hother : ∀ j, j ≠ id → (m.setSub id sub).entries j = m.entries j :=
      fun j hj => setEntry_of_ne hj ..
    have hmem : ∀ j p, p ∈ ((m.setSub id sub).entries j).sub.pendingActions →
        p ∈ (m.entries j).sub.pendingActions ∨ j = id ∧ p = ⟨channel, next, action⟩ := by
      intro j p hp
      by_cases hj : j = id
      · subst hj
        rw [hself] at hp
        have hp' : p ∈ sub.pendingActions := hp
        rw [hpending, mem_append, mem_singleton] at hp'
        exact hp'.imp_right fun h => ⟨rfl, h⟩
      · rw [hother j hj] at hp
        exact .inl hp
    refine ⟨⟨fun j hj => ?_, fun j hj p hp => ?_, fun j hj => ?_, fun i j hi hj p hp q hq heq => ?_⟩,
      fun j p hp => (hmem j p hp).imp_right And.right⟩
    · by_cases hne : j = id
      · subst hne
        rw [hself]
        exact hres.symm ▸ howned
      · rw [hother j hne]
        exact hm.owned j hj
    · rcases hmem j p hp with hp | ⟨_, rfl⟩
      · obtain ⟨hpos, hlt⟩ := hm.numbered j hj p hp
        exact ⟨hpos, Nat.lt_succ_of_lt hlt⟩
      · exact ⟨hnext, Nat.lt_succ_self _⟩
    · by_cases hne : j = id
      · subst hne
        rw [hself]
        rw [hpending, map_append, map_cons, map_nil, nodup_append]
        refine ⟨hm.nodup j hj, nodup_singleton _, fun a ha b hb hab => ?_⟩
        obtain ⟨q, hq, rfl⟩ := mem_map.mp ha
        obtain rfl := mem_singleton.mp hb
        have hlt := (hm.numbered j hj q hq).2
        omega
      · rw [hother j hne]
        exact hm.nodup j hj
    · rcases hmem i p hp with hp' | ⟨rfl, rfl⟩
      · rcases hmem j q hq with hq' | ⟨rfl, rfl⟩
        · exact hm.apart i j hi hj p hp' q hq' heq
        · have hlt := (hm.numbered i hi p hp').2
          simp only at heq
          omega
      · rcases hmem j q hq with hq' | ⟨rfl, rfl⟩
        · have hlt := (hm.numbered j hj q hq').2
          simp only at heq
          omega
        · rfl

/-! ## What an echo removes -/

theorem ne_of_mem_eraseP {A : Type} {pending : List (PendingAction A)}
    (hn : (pending.map (·.clientSeq)).Nodup) {p : PendingAction A}
    (hp : p ∈ pending.eraseP fun p => p.clientSeq = n) : p.clientSeq ≠ n := by
  rw [← filter_eq_eraseP_of_nodup hn] at hp
  simpa using (mem_filter.mp hp).2

theorem pendingActions_seqs (sub : Subscription k.State k.Action) :
    (ManagedSubscription.writeAhead k sub).pendingActions.map (·.clientSeq) =
      sub.pendingActions.map (·.clientSeq) := by
  unfold ManagedSubscription.pendingActions
  rw [map_map]
  rfl

theorem not_pending_of_drop (htracks : sub.tracksPending = true)
    (hnodup : (sub.pendingActions.map (·.clientSeq)).Nodup) :
    ∀ p ∈ (sub.dropPendingByClientSeq clientSeq).pendingActions, p.clientSeq ≠ clientSeq := by
  cases sub with
  | writeAhead k sub =>
    have htracks' : k.cls.tracksPending = true := htracks
    rw [pendingActions_seqs] at hnodup
    unfold ManagedSubscription.dropPendingByClientSeq
    simp only [htracks', if_true]
    intro p hp
    obtain ⟨q, hq, rfl⟩ := mem_map.mp hp
    exact ne_of_mem_eraseP hnodup hq
  | terminal error => cases htracks

theorem ofAction_wrap (a : k.Action) : ofAction (k.wrap a) = some k := by
  cases k <;> rfl

theorem guard_of_ofAction {k : WriteAheadKind} (h : ofAction action = some k) :
    ∃ a, k.cls.guard action = some a := by
  cases action with
  | session action | chat action | changeset action | annotations action =>
    cases h
    exact ⟨action, rfl⟩
  | root _ | terminal _ | resourceWatch _ | automation _ | automationRun _ => cases h

theorem not_pending_of_echo {sub : Subscription k.State k.Action} {e : ActionEnvelope StateAction}
    (hclient : sub.clientId = clientId) (huri : sub.uri = e.channel)
    (hkind : ofAction e.action = some k) (hhydrated : sub.confirmedState.isSome = true)
    (hnamed : e.namedSeq clientId = some n)
    (hnodup : (sub.pendingActions.map (·.clientSeq)).Nodup) :
    ∀ p ∈ ((ManagedSubscription.writeAhead k sub).receiveEnvelope e).pendingActions,
      p.clientSeq ≠ n := by
  obtain ⟨a, ha⟩ := guard_of_ofAction hkind
  obtain ⟨state, hstate⟩ := Option.isSome_iff_exists.mp hhydrated
  have hrelevant : k.cls.relevant sub e = some { e with action := a } := by
    unfold SubscriptionClass.relevant ActionEnvelope.narrow
    rw [if_pos huri.symm, ha]
    rfl
  have hreceive : (ManagedSubscription.writeAhead k sub).receiveEnvelope e =
      .writeAhead k (k.cls.reconcile sub { e with action := a }) := by
    unfold ManagedSubscription.receiveEnvelope SubscriptionClass.receiveEnvelope
    simp only [hrelevant, receive_hydrated k.cls hstate]
  rw [hreceive]
  intro p hp
  obtain ⟨q, hq, rfl⟩ := mem_map.mp hp
  have hnamed' : ({ e with action := a } : ActionEnvelope k.Action).namedSeq sub.clientId =
      some n := hclient ▸ hnamed
  rw [k.reconcileSpec.pending] at hq
  unfold pendingAfter at hq
  rw [hnamed'] at hq
  exact ne_of_mem_eraseP hnodup hq

theorem receiveEnvelope_entry
    (hm : ∀ resource j, m.subscriptions.get resource = some j →
      j < m.nextEntry ∧ (m.entries j).resource = resource) (e : ActionEnvelope StateAction)
    (hget : m.subscriptions.get resource = some id) :
    ((m.receiveEnvelope e).entries id).sub = (m.entries id).sub.receiveEnvelope e := by
  have hfold : ∀ (ids : List Nat) (m : SubscriptionManager), ids.Nodup →
      ((ids.foldl (receiveEnvelopeAt e) m).entries id).sub =
        if id ∈ ids then (m.entries id).sub.receiveEnvelope e else (m.entries id).sub := by
    intro ids
    induction ids with
    | nil => exact fun _ _ => rfl
    | cons i ids ih =>
      intro m hnodup
      rw [nodup_cons] at hnodup
      rw [foldl_cons, ih _ hnodup.2]
      unfold receiveEnvelopeAt setSub
      by_cases hi : id = i
      · subst hi
        rw [if_neg hnodup.1, if_pos mem_cons_self, setEntry_self]
      · rw [setEntry_of_ne hi]
        simp only [mem_cons, hi, false_or]
  have hnodup : (m.subscriptions.entries.map Prod.snd).Nodup := by
    have hkeys := m.subscriptions.nodup
    rw [List.Nodup, pairwise_map] at hkeys ⊢
    refine hkeys.imp_of_mem fun {a b} ha hb hne heq => hne ?_
    obtain ⟨_, hra⟩ := hm a.1 a.2 (get_of_mem ha)
    obtain ⟨_, hrb⟩ := hm b.1 b.2 (get_of_mem hb)
    rw [← hra, ← hrb, heq]
  unfold receiveEnvelope
  rw [hfold _ m hnodup, if_pos (mem_map_of_mem (mem_of_get hget))]

end SubscriptionManager

end Fumie.AgentHost
