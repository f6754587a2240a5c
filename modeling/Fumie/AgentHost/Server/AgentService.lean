import Fumie.Lib.OrderedSet
import Fumie.AgentHost.State.Common

/-!
# Subscribers and resource watches of the agent service

The part of `AgentService` the protocol server calls to register and release a
subscriber. `acquired` and `released` are the channels of the calls of
`onResourceWatchSubscribed` that returned a descriptor and of the calls of
`onResourceWatchUnsubscribed`. What the service does when a channel gains its first
subscriber or loses its last (refreshes, collection, release of idle sessions)
reaches the state manager later, as operations of their own.
-/

namespace Fumie.AgentHost

open Fumie.Lib OrderedSet

structure ActiveResourceWatch where
  subscribers : Nat
  pendingGc : Bool

structure AgentService where
  resourceSubscribers : Record Uri (OrderedSet ClientId)
  resourceWatches : Record Uri ActiveResourceWatch
  acquired : List Uri
  released : List Uri

namespace AgentService

def create : AgentService where
  resourceSubscribers := .empty
  resourceWatches := .empty
  acquired := []
  released := []

variable (service : AgentService)

/-! ## Subscribers -/

def addSubscriber (resource : Uri) (clientId : ClientId) : AgentService :=
  let set := (service.resourceSubscribers.get resource).getD .empty
  { service with
    resourceSubscribers := service.resourceSubscribers.set resource (set.insert clientId) }

def unsubscribe (resource : Uri) (clientId : ClientId) : AgentService :=
  match service.resourceSubscribers.get resource with
  | none => service
  | some set =>
    let set := set.erase clientId
    if set.isEmpty then
      { service with resourceSubscribers := service.resourceSubscribers.delete resource }
    else { service with resourceSubscribers := service.resourceSubscribers.set resource set }

/-- The service holds the entry `(resource, clientId)`. -/
def Subscribed (resource : Uri) (clientId : ClientId) : Prop :=
  ∃ set, service.resourceSubscribers.get resource = some set ∧ clientId ∈ set

/-! ## Resource watches -/

section

variable (channel : Uri)

def watchers : Nat := ((service.resourceWatches.get channel).map (·.subscribers)).getD 0

def onResourceWatchSubscribed (starts : Bool) : AgentService × Bool :=
  match service.resourceWatches.get channel with
  | some existing =>
    ({ service with
        resourceWatches := service.resourceWatches.set channel
          { subscribers := existing.subscribers + 1, pendingGc := false }
        acquired := channel :: service.acquired }, true)
  | none =>
    if starts then
      ({ service with
          resourceWatches := service.resourceWatches.set channel
            { subscribers := 1, pendingGc := false }
          acquired := channel :: service.acquired }, true)
    else (service, false)

def onResourceWatchUnsubscribed : AgentService :=
  let service := { service with released := channel :: service.released }
  match service.resourceWatches.get channel with
  | none => service
  | some entry =>
    let subscribers := entry.subscribers - 1
    { service with
      resourceWatches := service.resourceWatches.set channel
        { subscribers, pendingGc := entry.pendingGc || subscribers = 0 } }

def collectResourceWatch : AgentService :=
  match service.resourceWatches.get channel with
  | none => service
  | some entry =>
    if entry.pendingGc && entry.subscribers = 0 then
      { service with resourceWatches := service.resourceWatches.delete channel }
    else service

end

/-! ## What the operations do to the subscribers -/

variable (resource resource' : Uri) (clientId clientId' : ClientId)

theorem subscribed_addSubscriber :
    (service.addSubscriber resource clientId).Subscribed resource' clientId' ↔
      (resource = resource' ∧ clientId = clientId') ∨ service.Subscribed resource' clientId' := by
  unfold Subscribed addSubscriber
  simp only [Record.get_set]
  by_cases hr : resource = resource'
  · subst hr
    rw [if_pos rfl]
    constructor
    · rintro ⟨set, hset, hmem⟩
      cases hset
      rcases mem_insert.mp hmem with rfl | hmem
      · exact .inl ⟨rfl, rfl⟩
      · right
        cases hget : service.resourceSubscribers.get resource with
        | none =>
          rw [hget] at hmem
          exact absurd hmem (not_mem_empty _)
        | some old =>
          rw [hget] at hmem
          exact ⟨old, rfl, hmem⟩
    · rintro (⟨-, rfl⟩ | ⟨set, hset, hmem⟩)
      · exact ⟨_, rfl, mem_insert.mpr (.inl rfl)⟩
      · refine ⟨_, rfl, mem_insert.mpr (.inr ?_)⟩
        rw [hset]
        exact hmem
  · rw [if_neg hr]
    constructor
    · exact .inr
    · rintro (⟨h, -⟩ | h)
      · exact absurd h hr
      · exact h

theorem subscribed_unsubscribe :
    (service.unsubscribe resource clientId).Subscribed resource' clientId' ↔
      ¬ (resource = resource' ∧ clientId = clientId') ∧ service.Subscribed resource' clientId' := by
  unfold Subscribed unsubscribe
  cases hget : service.resourceSubscribers.get resource with
  | none =>
    constructor
    · rintro ⟨set, hset, hmem⟩
      refine ⟨?_, set, hset, hmem⟩
      rintro ⟨rfl, -⟩
      rw [hget] at hset
      cases hset
    · exact And.right
  | some set =>
    simp only
    by_cases hr : resource = resource'
    · subst hr
      rw [hget]
      split
      · rename_i hempty
        simp only [Record.get_delete, if_true]
        constructor
        · rintro ⟨set', hset', -⟩
          cases hset'
        · rintro ⟨hne, set', hset', hmem⟩
          cases hset'
          have hne' : clientId' ≠ clientId := fun h => hne ⟨trivial, h.symm⟩
          exact absurd (OrderedSet.mem_erase.mpr ⟨hne', hmem⟩)
            (OrderedSet.not_mem_of_isEmpty hempty _)
      · simp only [Record.get_set, if_true]
        constructor
        · rintro ⟨set', hset', hmem⟩
          cases hset'
          obtain ⟨hne, hmem⟩ := OrderedSet.mem_erase.mp hmem
          exact ⟨fun h => hne h.2.symm, set, rfl, hmem⟩
        · rintro ⟨hne, set', hset', hmem⟩
          cases hset'
          exact ⟨_, rfl, OrderedSet.mem_erase.mpr ⟨fun h => hne ⟨trivial, h.symm⟩, hmem⟩⟩
    · split
      · simp only [Record.get_delete, if_neg hr]
        exact ⟨fun h => ⟨fun h' => hr h'.1, h⟩, And.right⟩
      · simp only [Record.get_set, if_neg hr]
        exact ⟨fun h => ⟨fun h' => hr h'.1, h⟩, And.right⟩

end AgentService

end Fumie.AgentHost
