import Fumie.AgentHost.Server.Registry

/-!
# Resource watches of the agent service

`Counts ch n` says that the service counts `n` holders of the watch `ch`: by the
calls it took, by the subscribers of the watch, and by whether the watch waits for
its collection. An acquired watch counts one more holder and a released one counts
one less, and the release of a connection's subscriptions releases each watch once.
-/

namespace Fumie.AgentHost

open Fumie.Lib List Record

namespace AgentService

structure Counts (service : AgentService) (ch : Uri) (n : Nat) : Prop where
  calls : service.acquired.count ch = service.released.count ch + n
  absent : service.resourceWatches.get ch = none → n = 0
  watch : ∀ entry, service.resourceWatches.get ch = some entry →
    entry.subscribers = n ∧ (entry.pendingGc = true ↔ n = 0)

structure SameWatches (service service' : AgentService) : Prop where
  acquired : service'.acquired = service.acquired
  released : service'.released = service.released
  resourceWatches : service'.resourceWatches = service.resourceWatches

variable {service service' : AgentService} {ch : Uri} {n : Nat}

namespace SameWatches

theorem refl (service : AgentService) : SameWatches service service := ⟨rfl, rfl, rfl⟩

theorem trans {service₁ service₂ service₃ : AgentService} (h : SameWatches service₁ service₂)
    (h' : SameWatches service₂ service₃) : SameWatches service₁ service₃ :=
  ⟨h'.acquired.trans h.acquired, h'.released.trans h.released,
    h'.resourceWatches.trans h.resourceWatches⟩

theorem counts (h : SameWatches service service') (hcounts : service.Counts ch n) :
    service'.Counts ch n where
  calls := by
    rw [h.acquired, h.released]
    exact hcounts.calls
  absent hget := hcounts.absent (h.resourceWatches ▸ hget)
  watch entry hget := hcounts.watch entry (h.resourceWatches ▸ hget)

end SameWatches

theorem sameWatches_addSubscriber (service : AgentService) (resource : Uri) (c : ClientId) :
    SameWatches service (service.addSubscriber resource c) := ⟨rfl, rfl, rfl⟩

theorem sameWatches_unsubscribe (service : AgentService) (resource : Uri) (c : ClientId) :
    SameWatches service (service.unsubscribe resource c) := by
  unfold unsubscribe
  split
  · exact SameWatches.refl service
  · simp only
    split
    · exact ⟨rfl, rfl, rfl⟩
    · exact ⟨rfl, rfl, rfl⟩

/-! ## Acquiring -/

def canAcquire (service : AgentService) (channel : Uri) (starts : Bool) : Bool :=
  (service.resourceWatches.get channel).isSome || starts

variable {channel : Uri}

theorem acquire_fails {starts : Bool} (h : service.canAcquire channel starts = false) :
    service.onResourceWatchSubscribed channel starts = (service, false) := by
  unfold canAcquire at h
  unfold onResourceWatchSubscribed
  cases hget : service.resourceWatches.get channel with
  | some existing =>
    rw [hget] at h
    cases h
  | none =>
    rw [hget] at h
    have hstarts : starts = false := h
    simp only [hstarts, Bool.false_eq_true, if_false]

theorem acquire_succeeds {starts : Bool} (h : service.canAcquire channel starts = true) :
    ∃ service' subscribers, service.onResourceWatchSubscribed channel starts = (service', true) ∧
      subscribers = service.watchers channel + 1 ∧
      service'.acquired = channel :: service.acquired ∧ service'.released = service.released ∧
      service'.resourceWatches = service.resourceWatches.set channel ⟨subscribers, false⟩ := by
  unfold canAcquire at h
  unfold onResourceWatchSubscribed watchers
  cases hget : service.resourceWatches.get channel with
  | some existing => exact ⟨_, _, rfl, rfl, rfl, rfl, rfl⟩
  | none =>
    rw [hget] at h
    have hstarts : starts = true := h
    simp only [hstarts, if_true]
    exact ⟨_, _, rfl, rfl, rfl, rfl, rfl⟩

theorem Counts.watchers (h : service.Counts ch n) : service.watchers ch = n := by
  unfold AgentService.watchers
  cases hget : service.resourceWatches.get ch with
  | none => exact (h.absent hget).symm
  | some entry => exact (h.watch entry hget).1

theorem Counts.acquire (h : service.Counts ch n) (starts : Bool)
    (hcan : service.canAcquire channel starts = true) :
    (service.onResourceWatchSubscribed channel starts).1.Counts ch
      (n + if ch = channel then 1 else 0) := by
  obtain ⟨service', subscribers, heq, hsubscribers, hacquired, hreleased, hwatches⟩ :=
    acquire_succeeds hcan
  rw [heq]
  by_cases hch : ch = channel
  · subst hch
    rw [if_pos rfl]
    rw [h.watchers] at hsubscribers
    refine ⟨?_, fun hget => ?_, fun entry hget => ?_⟩
    · rw [hacquired, hreleased, count_cons_self, h.calls]
      rfl
    · rw [hwatches, get_set, if_pos rfl] at hget
      cases hget
    · rw [hwatches, get_set, if_pos rfl] at hget
      cases hget
      refine ⟨hsubscribers, fun hgc => ?_, fun hzero => ?_⟩
      · cases hgc
      · cases hzero
  · rw [if_neg hch]
    have hne : channel ≠ ch := fun heq => hch heq.symm
    refine ⟨?_, fun hget => ?_, fun entry hget => ?_⟩
    · rw [hacquired, hreleased, count_cons_of_ne hne]
      exact h.calls
    · rw [hwatches, get_set, if_neg hne] at hget
      exact h.absent hget
    · rw [hwatches, get_set, if_neg hne] at hget
      exact h.watch entry hget

theorem canAcquire_acquire {channel : Uri} (hne : ch ≠ channel) (starts starts' : Bool) :
    (service.onResourceWatchSubscribed channel starts).1.canAcquire ch starts' =
      service.canAcquire ch starts' := by
  cases hcan : service.canAcquire channel starts with
  | false => rw [acquire_fails hcan]
  | true =>
    obtain ⟨service', subscribers, heq, -, -, -, hwatches⟩ := acquire_succeeds hcan
    unfold canAcquire
    rw [heq, hwatches, get_set, if_neg (fun h => hne h.symm)]

/-! ## Releasing -/

theorem Counts.release (h : service.Counts ch (n + if ch = channel then 1 else 0)) :
    (service.onResourceWatchUnsubscribed channel).Counts ch n := by
  unfold onResourceWatchUnsubscribed
  by_cases hch : ch = channel
  · subst hch
    rw [if_pos rfl] at h
    simp only
    cases hget : service.resourceWatches.get ch with
    | none => cases h.absent hget
    | some entry =>
      obtain ⟨hsubscribers, hgc⟩ := h.watch entry hget
      refine ⟨?_, fun hget' => ?_, fun entry' hget' => ?_⟩
      · rw [List.count_cons_self, h.calls]
        omega
      · have hget'' : (service.resourceWatches.set ch _).get ch = none := hget'
        rw [get_set, if_pos rfl] at hget''
        cases hget''
      · have hget'' : (service.resourceWatches.set ch _).get ch = some entry' := hget'
        rw [get_set, if_pos rfl] at hget''
        obtain rfl := Option.some.inj hget''
        refine ⟨?_, ?_⟩
        · show entry.subscribers - 1 = n
          omega
        · rw [hsubscribers, Bool.or_eq_true, hgc, decide_eq_true_iff]
          omega
  · rw [if_neg hch] at h
    have hne : channel ≠ ch := fun heq => hch heq.symm
    have hcalls : service.acquired.count ch = (channel :: service.released).count ch + n := by
      rw [count_cons_of_ne hne]
      exact h.calls
    simp only
    split
    · exact ⟨hcalls, h.absent, h.watch⟩
    · refine ⟨hcalls, fun hget => ?_, fun entry hget => ?_⟩
      · have hget' : (service.resourceWatches.set channel _).get ch = none := hget
        rw [get_set, if_neg hne] at hget'
        exact h.absent hget'
      · have hget' : (service.resourceWatches.set channel _).get ch = some entry := hget
        rw [get_set, if_neg hne] at hget'
        exact h.watch entry hget'

theorem Counts.collect (h : service.Counts ch n) (channel : Uri) :
    (service.collectResourceWatch channel).Counts ch n := by
  unfold collectResourceWatch
  split
  · exact h
  · rename_i entry hget
    split
    · rename_i hcollect
      by_cases hch : channel = ch
      · subst hch
        have hzero : n = 0 := ((h.watch entry hget).2.mp (Bool.and_eq_true_iff.mp hcollect).1)
        refine ⟨h.calls, fun _ => hzero, fun entry' hget' => ?_⟩
        have hget'' : (service.resourceWatches.delete channel).get channel = some entry' := hget'
        rw [get_delete, if_pos rfl] at hget''
        cases hget''
      · refine ⟨h.calls, fun hget' => ?_, fun entry' hget' => ?_⟩
        · have hget'' : (service.resourceWatches.delete channel).get ch = none := hget'
          rw [get_delete, if_neg hch] at hget''
          exact h.absent hget''
        · have hget'' : (service.resourceWatches.delete channel).get ch = some entry' := hget'
          rw [get_delete, if_neg hch] at hget''
          exact h.watch entry' hget''
    · exact h

end AgentService

namespace ProtocolServerHandler

variable {held : Uri → Bool} {c : ClientId} {ch : Uri} {n : Nat}

theorem counts_releaseSubscriptions {uris : List Uri} {service : AgentService} (hnodup : uris.Nodup)
    (hparses : ∀ uri ∈ uris, uri.parses = true) (hch : classifyChannel ch = .resourceWatch)
    (h : service.Counts ch (n + if ch ∈ uris then 1 else 0)) :
    (releaseSubscriptions held c uris service).1.Counts ch n := by
  induction uris generalizing service with
  | nil => exact h
  | cons uri rest ih =>
    obtain ⟨hnot, hnodup'⟩ := nodup_cons.mp hnodup
    have hrest : ∀ service' : AgentService, service'.Counts ch (n + if ch ∈ rest then 1 else 0) →
        (releaseSubscriptions held c rest service').1.Counts ch n :=
      fun service' h' => ih hnodup' (fun u hu => hparses u (mem_cons_of_mem _ hu)) h'
    unfold releaseSubscriptions
    split
    · rename_i hstate
      have hne : ch ≠ uri := by
        rintro rfl
        rw [hch] at hstate
        cases hstate
      have hmem : (ch ∈ uri :: rest) = (ch ∈ rest) := by
        rw [mem_cons, eq_false hne, false_or]
      simp only [hmem] at h
      split
      · exact hrest _ h
      · rw [if_pos (hparses uri mem_cons_self)]
        exact hrest _ ((AgentService.sameWatches_unsubscribe service uri c).counts h)
    · refine hrest _ (AgentService.Counts.release ?_)
      by_cases hne : ch = uri
      · subst hne
        rw [if_pos mem_cons_self] at h
        rw [if_neg hnot, if_pos rfl]
        exact h
      · have hmem : (ch ∈ uri :: rest) = (ch ∈ rest) := by
          rw [mem_cons, eq_false hne, false_or]
        simp only [hmem] at h
        rw [if_neg hne]
        exact h

theorem sameWatches_releaseSubscriptions {uris : List Uri} (service : AgentService)
    (hstate : ∀ uri ∈ uris, classifyChannel uri = .state) :
    AgentService.SameWatches service (releaseSubscriptions held c uris service).1 := by
  induction uris generalizing service with
  | nil => exact AgentService.SameWatches.refl service
  | cons uri rest ih =>
    have hrest := fun service' => ih service' fun u hu => hstate u (mem_cons_of_mem _ hu)
    unfold releaseSubscriptions
    rw [hstate uri List.mem_cons_self]
    simp only
    split
    · exact hrest service
    · split
      · exact (AgentService.sameWatches_unsubscribe service uri c).trans (hrest _)
      · exact AgentService.SameWatches.refl service

end ProtocolServerHandler

end Fumie.AgentHost
