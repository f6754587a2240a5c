import Fumie.AgentHost.Subscription.Manager
import Fumie.Lib.Runs

/-!
# The wire protocol of the subscription manager

For each resource the calls of the manager run through three states: nothing
subscribed, a subscribe in flight, a subscribe settled. `wireState` replays the
calls through this automaton and fails on any other order. `Wired` says that the
replay succeeds and ends in the state of the one entry of the resource that is
not at rest; `Inv` collects what the manager knows of its entries. The releases
leave one clause open for the entry they work on, so `Inv` carries the entry it
does not yet speak of.
-/

namespace Fumie.AgentHost

open Fumie.Lib List Function Record

/-! ## The automaton of one resource -/

/-- What the calls so far leave on the server for one resource. -/
inductive WireState where
  | closed
  | requested (id : Nat)
  | opened (id : Nat)
  deriving DecidableEq

def WireState.step (resource : Uri) (s : WireState) (e : WireEvent) : Option WireState :=
  if e.resource = resource then
    match s, e with
    | .closed, .subscribe _ id => some (.requested id)
    | .requested id, .settled _ id' => if id' = id then some (.opened id) else none
    | .opened id, .unsubscribe _ id' _ _ => if id' = id then some .closed else none
    | _, _ => none
  else some s

def wireState (resource : Uri) (wire : List WireEvent) : Option WireState :=
  wire.foldlM (WireState.step resource) .closed

theorem wireState_append (resource : Uri) (wire : List WireEvent) (e : WireEvent) :
    wireState resource (wire ++ [e]) = (wireState resource wire).bind (·.step resource e) := by
  unfold wireState
  rw [foldlM_append]
  cases foldlM (WireState.step resource) .closed wire with
  | none => rfl
  | some s =>
    simp

variable {resource : Uri} {wire : List WireEvent} {e : WireEvent}

theorem wireState_append_of_ne (h : e.resource ≠ resource) :
    wireState resource (wire ++ [e]) = wireState resource wire := by
  rw [wireState_append]
  cases wireState resource wire with
  | none => rfl
  | some s =>
    show s.step resource e = some s
    unfold WireState.step
    rw [if_neg h]

def lastCall (resource : Uri) (wire : List WireEvent) : Option WireEvent :=
  (wire.filter fun e => e.resource = resource).getLast?

theorem lastCall_append (resource : Uri) (wire : List WireEvent) (e : WireEvent) :
    lastCall resource (wire ++ [e]) =
      if e.resource = resource then some e else lastCall resource wire := by
  unfold lastCall
  rw [filter_append]
  by_cases h : e.resource = resource
  · rw [if_pos h, filter_cons_of_pos (by simpa using h), filter_nil, getLast?_concat]
  · rw [if_neg h, filter_cons_of_neg (by simpa using h), filter_nil, append_nil]

def WireState.Ends (resource : Uri) (last : Option WireEvent) : WireState → Prop
  | .closed => ∀ e, last = some e → ∃ id cause entry, e = .unsubscribe resource id cause entry
  | .requested id => last = some (.subscribe resource id)
  | .opened id => last = some (.settled resource id)

def WireEvent.Follows (last : Option WireEvent) : WireEvent → Prop
  | .subscribe resource _ =>
    ∀ e, last = some e → ∃ id cause entry, e = .unsubscribe resource id cause entry
  | .settled resource id => last = some (.subscribe resource id)
  | .unsubscribe resource id _ _ => last = some (.settled resource id)

theorem ends_of_wireState {s : WireState} (h : wireState resource wire = some s) :
    s.Ends resource (lastCall resource wire) := by
  induction wire using reverseRecOn generalizing s with
  | nil =>
    cases h
    intro e he
    have hnil : lastCall resource [] = none := rfl
    rw [hnil] at he
    cases he
  | append_singleton wire e ih =>
    rw [wireState_append] at h
    obtain ⟨t, ht, hstep⟩ := Option.bind_eq_some_iff.mp h
    rw [lastCall_append]
    unfold WireState.step at hstep
    split at hstep
    · rename_i hres
      rw [if_pos hres]
      subst hres
      split at hstep
      · cases hstep
        rfl
      · split at hstep
        · rename_i hid
          cases hstep
          rw [← hid]
          rfl
        · cases hstep
      · split at hstep
        · cases hstep
          rintro _ ⟨⟩
          exact ⟨_, _, _, rfl⟩
        · cases hstep
      · cases hstep
    · rename_i hres
      cases hstep
      rw [if_neg hres]
      exact ih ht

theorem follows_of_accepted {before after : List WireEvent}
    (h : (wireState e.resource (before ++ e :: after)).isSome) :
    e.Follows (lastCall e.resource before) := by
  have happend : wireState e.resource (before ++ e :: after) =
      ((wireState e.resource before).bind (·.step e.resource e)).bind
        fun s => after.foldlM (WireState.step e.resource) s := by
    unfold wireState
    rw [foldlM_append]
    cases foldlM (WireState.step e.resource) .closed before with
    | none | some _ => rfl
  rw [happend] at h
  obtain ⟨s', hs'⟩ := Option.isSome_iff_exists.mp h
  obtain ⟨t, ht, _⟩ := Option.bind_eq_some_iff.mp hs'
  obtain ⟨s, hs, hstep⟩ := Option.bind_eq_some_iff.mp ht
  have hlast := ends_of_wireState hs
  unfold WireState.step at hstep
  rw [if_pos rfl] at hstep
  split at hstep
  · exact hlast
  · split at hstep
    · rename_i hid
      subst hid
      exact hlast
    · cases hstep
  · split at hstep
    · rename_i hid
      subst hid
      exact hlast
    · cases hstep
  · cases hstep

def UnsubscribeCause.Justified (entry : ManagedEntry) : UnsubscribeCause → Prop
  | .evicted => entry.sub.failed = true
  | .released => entry.holders = []
  | .managerDisposed => True

def WireEvent.Allowed : WireEvent → Prop
  | .subscribe _ _ | .settled _ _ => True
  | .unsubscribe resource _ cause entry =>
    entry.resource = resource ∧ entry.phase = .settled ∧ cause.Justified entry

namespace SubscriptionManager

variable {m m' : SubscriptionManager} {id : Nat} {x : Option Nat}

/-! ## Entries under the primitive operations -/

@[simp] theorem setEntry_self (m : SubscriptionManager) (id : Nat) (entry : ManagedEntry) :
    (m.setEntry id entry).entries id = entry := update_self ..

variable {j : Nat}

theorem setEntry_of_ne (h : j ≠ id) (m : SubscriptionManager) (entry : ManagedEntry) :
    (m.setEntry id entry).entries j = m.entries j := update_of_ne h ..

/-! ## What the manager knows -/

/-- The automaton of every resource accepts the calls and stands where the entries
of the resource say: at most one of them is requested or opened. -/
def Wired (m : SubscriptionManager) : Prop :=
  ∀ resource, ∃ s, wireState resource m.wire = some s ∧ ∀ id,
    (s = .requested id ↔ (m.entries id).resource = resource ∧ (m.entries id).phase = .subscribing) ∧
    (s = .opened id ↔ (m.entries id).resource = resource ∧
      (m.entries id).phase = .settled ∧ (m.entries id).unsubscribeSent = false)

def AtRest (entry : ManagedEntry) : Prop :=
  entry.phase = .waitingCreate ∨ entry.phase = .settled ∧ entry.unsubscribeSent = true

structure EntryCore (m : SubscriptionManager) (id : Nat) (entry : ManagedEntry) : Prop where
  unborn : m.nextEntry ≤ id →
    entry.phase = .waitingCreate ∧ entry.awaiting = none ∧ entry.holders = []
  waiting : entry.awaiting.isSome → entry.phase = .waitingCreate
  sent : entry.unsubscribeSent → entry.phase = .settled
  current : m.isCurrent id → entry.localDisposed = false ∧ entry.unsubscribeSent = false ∧
    entry.unsubscribeAfterSubscribe = false
  refs : m.isCurrent id → entry.refCount = entry.holders.length
  detached : m.isCurrent id = false → AtRest entry ∨
    m.disposed = true ∧ entry.phase = .subscribing ∧ entry.unsubscribeAfterSubscribe = true

structure EntryOk (m : SubscriptionManager) (id : Nat) (entry : ManagedEntry) : Prop
    extends EntryCore m id entry where
  idle : id ∈ m.idleSubscriptions.map Prod.fst → m.isCurrent id ∧ entry.refCount ≤ 0
  retained : m.isCurrent id → entry.refCount ≤ 0 → id ∈ m.idleSubscriptions.map Prod.fst ∨
      entry.phase = .subscribing ∧ entry.releaseExpired = true

structure Inv (m : SubscriptionManager) (x : Option Nat) : Prop where
  entry : ∀ id, x ≠ some id → EntryOk m id (m.entries id)
  mapped : ∀ resource id, m.subscriptions.get resource = some id →
    id < m.nextEntry ∧ (m.entries id).resource = resource
  closed : m.disposed → ∀ resource, m.subscriptions.get resource = none
  allowed : ∀ e ∈ m.wire, e.Allowed

theorem Wired.congr (hm : Wired m) (hwire : m'.wire = m.wire)
    (h : ∀ j, (m'.entries j).resource = (m.entries j).resource ∧
      (m'.entries j).phase = (m.entries j).phase ∧
      (m'.entries j).unsubscribeSent = (m.entries j).unsubscribeSent) : Wired m' := by
  intro resource
  obtain ⟨s, hs, hiff⟩ := hm resource
  refine ⟨s, by rw [hwire, hs], fun id => ?_⟩
  obtain ⟨h₁, h₂, h₃⟩ := h id
  rw [h₁, h₂, h₃]
  exact hiff id

theorem isCurrent_iff : m.isCurrent id = true ↔
    m.subscriptions.get (m.entries id).resource = some id := decide_eq_true_iff

theorem isCurrent_unique {i : Nat} (hi : m.isCurrent i) (hj : m.isCurrent j)
    (h : (m.entries i).resource = (m.entries j).resource) : i = j := by
  unfold isCurrent at hi hj
  rw [decide_eq_true_iff] at hi hj
  rw [h, hj] at hi
  exact (Option.some.inj hi).symm

theorem Inv.isCurrent_of_get (hm : Inv m x) (h : m.subscriptions.get resource = some id) :
    m.isCurrent id := by
  unfold isCurrent
  rw [(hm.mapped resource id h).2, h]
  exact decide_eq_true rfl

theorem Inv.not_disposed (hm : Inv m x) (h : m.isCurrent id) : m.disposed = false := by
  cases hd : m.disposed with
  | false => rfl
  | true =>
    unfold isCurrent at h
    rw [hm.closed hd] at h
    cases h

theorem Inv.atRest_of_waiting (hm : Inv m (some id)) (h : m.isCurrent id)
    (hphase : (m.entries id).phase = .waitingCreate) (j : Nat)
    (hj : (m.entries j).resource = (m.entries id).resource) : AtRest (m.entries j) := by
  cases hcur : m.isCurrent j with
  | true =>
    obtain rfl := isCurrent_unique hcur h hj
    exact .inl hphase
  | false =>
    have hne : j ≠ id := by
      rintro rfl
      rw [h] at hcur
      cases hcur
    rcases (hm.entry j fun he => hne (Option.some.inj he).symm).detached hcur with
        hrest | ⟨hdisposed, _⟩
    · exact hrest
    · rw [hm.not_disposed h] at hdisposed
      cases hdisposed

/-! ## Work on one entry -/

structure WorkOn (id : Nat) (m m' : SubscriptionManager) : Prop where
  entries : ∀ j, j ≠ id → m'.entries j = m.entries j
  resource : (m'.entries id).resource = (m.entries id).resource
  current : ∀ j, j ≠ id → m'.isCurrent j = m.isCurrent j
  subscriptions : ∀ resource j, m'.subscriptions.get resource = some j →
    m.subscriptions.get resource = some j
  nextEntry : m'.nextEntry = m.nextEntry
  disposed : m'.disposed = m.disposed
  idle : ∀ j, j ≠ id →
    (j ∈ m'.idleSubscriptions.map Prod.fst ↔ j ∈ m.idleSubscriptions.map Prod.fst)
  allowed : ∀ e ∈ m'.wire, e ∈ m.wire ∨ e.Allowed

theorem WorkOn.trans {m₁ m₂ m₃ : SubscriptionManager} (h₁ : WorkOn id m₁ m₂)
    (h₂ : WorkOn id m₂ m₃) : WorkOn id m₁ m₃ where
  entries j hj := (h₂.entries j hj).trans (h₁.entries j hj)
  resource := h₂.resource.trans h₁.resource
  current j hj := (h₂.current j hj).trans (h₁.current j hj)
  subscriptions resource j h := h₁.subscriptions resource j (h₂.subscriptions resource j h)
  nextEntry := h₂.nextEntry.trans h₁.nextEntry
  disposed := h₂.disposed.trans h₁.disposed
  idle j hj := (h₂.idle j hj).trans (h₁.idle j hj)
  allowed e he := (h₂.allowed e he).elim (h₁.allowed e) .inr

variable {entry : ManagedEntry}

theorem isCurrent_setEntry (j : Nat) (h : entry.resource = (m.entries id).resource) :
    (m.setEntry id entry).isCurrent j = m.isCurrent j := by
  unfold isCurrent
  by_cases hj : j = id
  · subst hj
    rw [setEntry_self, h]
    rfl
  · rw [setEntry_of_ne hj]
    rfl

theorem workOn_setEntry (h : entry.resource = (m.entries id).resource) :
    WorkOn id m (m.setEntry id entry) where
  entries _ hj := setEntry_of_ne hj ..
  resource := by rw [setEntry_self, h]
  current j _ := isCurrent_setEntry j h
  subscriptions _ _ h := h
  nextEntry := rfl
  disposed := rfl
  idle _ _ := Iff.rfl
  allowed _ he := .inl he

theorem workOn_disposeTimer (m : SubscriptionManager) (id : Nat) :
    WorkOn id m (m.disposeTimer id) := by
  have h : WorkOn id m (m.setEntry id { m.entries id with releaseTimer := none }) :=
    workOn_setEntry rfl
  exact { h with }

theorem mem_removeIdle : j ∈ (m.removeIdle id).idleSubscriptions.map Prod.fst ↔
    j ∈ m.idleSubscriptions.map Prod.fst ∧ j ≠ id := by
  simp only [removeIdle, mem_map, mem_filter, decide_eq_true_iff]
  constructor
  · rintro ⟨e, ⟨he, hne⟩, rfl⟩
    exact ⟨⟨e, he, rfl⟩, hne⟩
  · rintro ⟨⟨e, he, rfl⟩, hne⟩
    exact ⟨e, ⟨he, hne⟩, rfl⟩

theorem workOn_removeIdle (m : SubscriptionManager) (id : Nat) : WorkOn id m (m.removeIdle id) where
  entries _ _ := rfl
  resource := rfl
  current _ _ := rfl
  subscriptions _ _ h := h
  nextEntry := rfl
  disposed := rfl
  idle _ hj := mem_removeIdle.trans (and_iff_left hj)
  allowed _ he := .inl he

theorem workOn_cancelScheduledRelease (m : SubscriptionManager) (id : Nat) :
    WorkOn id m (m.cancelScheduledRelease id) := by
  have h : WorkOn id (m.disposeTimer id) ((m.disposeTimer id).setEntry id
      { (m.disposeTimer id).entries id with releaseExpired := false }) := workOn_setEntry rfl
  exact ((workOn_disposeTimer m id).trans h).trans (workOn_removeIdle _ id)

variable {cause : UnsubscribeCause}

theorem workOn_sendUnsubscribe
    (h : (WireEvent.unsubscribe (m.entries id).resource id cause (m.entries id)).Allowed) :
    WorkOn id m (m.sendUnsubscribe id cause) := by
  have hset : WorkOn id m (m.setEntry id { m.entries id with unsubscribeSent := true }) :=
    workOn_setEntry rfl
  refine { hset with allowed := fun e he => ?_ }
  rcases mem_append.mp he with he | he
  · exact .inl he
  · rw [mem_singleton] at he
    exact .inr (he ▸ h)

theorem workOn_delete (h : m.isCurrent id) : WorkOn id m
    { m with subscriptions := m.subscriptions.delete (m.entries id).resource } where
  entries _ _ := rfl
  resource := rfl
  current j hj := by
    unfold isCurrent at h ⊢
    rw [decide_eq_true_iff] at h
    rw [get_delete]
    by_cases hres : (m.entries id).resource = (m.entries j).resource
    · rw [if_pos hres, ← hres, h]
      simp [Ne.symm hj]
    · rw [if_neg hres]
  subscriptions resource j hj := by
    rw [get_delete] at hj
    split at hj
    · cases hj
    · exact hj
  nextEntry := rfl
  disposed := rfl
  idle _ _ := Iff.rfl
  allowed _ he := .inl he

theorem Inv.open (hm : Inv m none) (id : Nat) : Inv m (some id) :=
  { hm with entry := fun j _ => hm.entry j nofun }

theorem Inv.close (hm : Inv m (some id)) (h : EntryOk m id (m.entries id)) : Inv m none := by
  refine { hm with entry := fun j _ => ?_ }
  by_cases hj : j = id
  · subst hj
    exact h
  · exact hm.entry j fun he => hj (Option.some.inj he).symm

theorem EntryCore.congr (h : EntryCore m id entry) (hcurrent : m'.isCurrent id = m.isCurrent id)
    (hnext : m.nextEntry ≤ m'.nextEntry) (hdisposed : m'.disposed = m.disposed) :
    EntryCore m' id entry where
  unborn hid := h.unborn (hnext.trans hid)
  waiting := h.waiting
  sent := h.sent
  current hcur := h.current (hcurrent ▸ hcur)
  refs hcur := h.refs (hcurrent ▸ hcur)
  detached hcur := hdisposed ▸ h.detached (hcurrent ▸ hcur)

theorem EntryOk.congr (h : EntryOk m id entry) (hcurrent : m'.isCurrent id = m.isCurrent id)
    (hnext : m.nextEntry ≤ m'.nextEntry) (hdisposed : m'.disposed = m.disposed)
    (hidle : id ∈ m'.idleSubscriptions.map Prod.fst ↔ id ∈ m.idleSubscriptions.map Prod.fst) :
    EntryOk m' id entry where
  toEntryCore := h.toEntryCore.congr hcurrent hnext hdisposed
  idle hmem := hcurrent ▸ h.idle (hidle.mp hmem)
  retained hcur hle := (h.retained (hcurrent ▸ hcur) hle).imp_left hidle.mpr

theorem Inv.workOn (hm : Inv m (some id)) (h : WorkOn id m m') : Inv m' (some id) where
  entry j hj := by
    have hne : j ≠ id := fun he => hj (he ▸ rfl)
    rw [h.entries j hne]
    exact (hm.entry j hj).congr (h.current j hne) h.nextEntry.ge h.disposed (h.idle j hne)
  mapped resource j hj := by
    obtain ⟨hlt, hres⟩ := hm.mapped resource j (h.subscriptions resource j hj)
    refine ⟨h.nextEntry ▸ hlt, ?_⟩
    by_cases hne : j = id
    · subst hne
      rw [h.resource, hres]
    · rw [h.entries j hne, hres]
  closed hd resource := by
    cases hget : m'.subscriptions.get resource with
    | none => rfl
    | some j =>
      have := h.subscriptions resource j hget
      rw [hm.closed (h.disposed ▸ hd)] at this
      cases this
  allowed e he := (h.allowed e he).elim (hm.allowed e) fun h => h

/-! ## The end of an entry -/

theorem disposeTimer_entry (m : SubscriptionManager) (id : Nat) :
    (m.disposeTimer id).entries id = { m.entries id with releaseTimer := none } :=
  setEntry_self ..

theorem cancelScheduledRelease_entry (m : SubscriptionManager) (id : Nat) :
    (m.cancelScheduledRelease id).entries id =
      { m.entries id with releaseTimer := none, releaseExpired := false } := by
  show ((m.disposeTimer id).setEntry id _).entries id = _
  rw [setEntry_self, disposeTimer_entry]

theorem sendUnsubscribeOnce_entry (m : SubscriptionManager) (id : Nat) (unsubscribe : Bool)
    (cause : UnsubscribeCause) : (m.sendUnsubscribeOnce id unsubscribe cause).entries id =
      { m.entries id with unsubscribeSent := (m.entries id).unsubscribeSent || unsubscribe } := by
  unfold sendUnsubscribeOnce
  cases hsend : unsubscribe && !(m.entries id).unsubscribeSent with
  | true =>
    rw [Bool.and_eq_true] at hsend
    rw [if_pos rfl, hsend.1, Bool.or_true]
    exact setEntry_self ..
  | false =>
    have hsent : ((m.entries id).unsubscribeSent || unsubscribe) = (m.entries id).unsubscribeSent := by
      cases hs : (m.entries id).unsubscribeSent with
      | true => rfl
      | false =>
        rw [hs] at hsend
        simpa using hsend
    rw [if_neg Bool.false_ne_true, hsent]

theorem disposeLocally_entry (m : SubscriptionManager) (id : Nat) : ∃ sub localDisposed,
    (m.disposeLocally id).entries id = { m.entries id with sub, localDisposed } := by
  unfold disposeLocally
  split
  · exact ⟨_, _, rfl⟩
  · exact ⟨_, _, setEntry_self ..⟩

theorem disposeSubscriptionEntry_entry (m : SubscriptionManager) (id : Nat) (unsubscribe : Bool)
    (cause : UnsubscribeCause) : ∃ sub localDisposed,
    (m.disposeSubscriptionEntry id unsubscribe cause).entries id =
      { m.entries id with
        sub, localDisposed, releaseTimer := none
        unsubscribeSent := (m.entries id).unsubscribeSent || unsubscribe } := by
  obtain ⟨sub, localDisposed, hentry⟩ := disposeLocally_entry
    (((m.disposeTimer id).removeIdle id).sendUnsubscribeOnce id unsubscribe cause) id
  have htimer : ((m.disposeTimer id).removeIdle id).entries id =
      { m.entries id with releaseTimer := none } := disposeTimer_entry m id
  refine ⟨sub, localDisposed, hentry.trans ?_⟩
  rw [sendUnsubscribeOnce_entry, htimer]

theorem workOn_disposeLocally (m : SubscriptionManager) (id : Nat) :
    WorkOn id m (m.disposeLocally id) := by
  unfold disposeLocally
  split
  · exact ⟨fun _ _ => rfl, rfl, fun _ _ => rfl, fun _ _ h => h, rfl, rfl, fun _ _ => Iff.rfl,
      fun _ h => .inl h⟩
  · exact workOn_setEntry rfl

variable {unsubscribe : Bool}

theorem workOn_sendUnsubscribeOnce
    (h : unsubscribe → (m.entries id).phase = .settled ∧ cause.Justified (m.entries id)) :
    WorkOn id m (m.sendUnsubscribeOnce id unsubscribe cause) := by
  unfold sendUnsubscribeOnce
  split
  · rename_i hsend
    rw [Bool.and_eq_true] at hsend
    exact workOn_sendUnsubscribe ⟨rfl, h hsend.1⟩
  · exact ⟨fun _ _ => rfl, rfl, fun _ _ => rfl, fun _ _ h => h, rfl, rfl, fun _ _ => Iff.rfl,
      fun _ h => .inl h⟩

theorem workOn_disposeSubscriptionEntry
    (h : unsubscribe → (m.entries id).phase = .settled ∧ cause.Justified (m.entries id)) :
    WorkOn id m (m.disposeSubscriptionEntry id unsubscribe cause) := by
  have hentry : ((m.disposeTimer id).removeIdle id).entries id =
      { m.entries id with releaseTimer := none } := disposeTimer_entry m id
  have hidle := (workOn_disposeTimer m id).trans (workOn_removeIdle _ id)
  refine (hidle.trans (workOn_sendUnsubscribeOnce ?_)).trans (workOn_disposeLocally _ id)
  rw [hentry]
  intro hsend
  obtain ⟨hphase, hcause⟩ := h hsend
  refine ⟨hphase, ?_⟩
  cases cause with
  | evicted | released => exact hcause
  | managerDisposed => trivial

theorem not_idle_disposeSubscriptionEntry (m : SubscriptionManager) (id : Nat)
    (unsubscribe : Bool) (cause : UnsubscribeCause) :
    (m.disposeSubscriptionEntry id unsubscribe cause).idleSubscriptions =
      (m.removeIdle id).idleSubscriptions := by
  unfold disposeSubscriptionEntry disposeLocally sendUnsubscribeOnce
  split <;> split <;> rfl

theorem disposeSubscriptionEntry_subscriptions (m : SubscriptionManager) (id : Nat)
    (unsubscribe : Bool) (cause : UnsubscribeCause) :
    (m.disposeSubscriptionEntry id unsubscribe cause).subscriptions = m.subscriptions := by
  unfold disposeSubscriptionEntry disposeLocally sendUnsubscribeOnce
  split <;> split <;> rfl

theorem disposeSubscriptionEntry_disposed (m : SubscriptionManager) (id : Nat)
    (unsubscribe : Bool) (cause : UnsubscribeCause) :
    (m.disposeSubscriptionEntry id unsubscribe cause).disposed = m.disposed := by
  unfold disposeSubscriptionEntry disposeLocally sendUnsubscribeOnce
  split <;> split <;> rfl

/-! ## Calls -/

theorem atRest_iff : AtRest entry ↔ entry.phase ≠ .subscribing ∧
    ¬(entry.phase = .settled ∧ entry.unsubscribeSent = false) := by
  unfold AtRest
  cases entry.phase <;> cases entry.unsubscribeSent <;> simp

theorem Wired.atRest_of_ne (hm : Wired m) (hid : ¬AtRest (m.entries id)) (hj : j ≠ id)
    (hres : (m.entries j).resource = (m.entries id).resource) : AtRest (m.entries j) := by
  obtain ⟨s, _, hiff⟩ := hm (m.entries id).resource
  rw [atRest_iff] at hid ⊢
  refine ⟨fun hphase => hid ⟨fun hphase' => ?_, fun hopen => ?_⟩,
    fun hopen' => hid ⟨fun hphase => ?_, fun hopen => ?_⟩⟩
  · have h := (hiff j).1.mpr ⟨hres, hphase⟩
    rw [(hiff id).1.mpr ⟨rfl, hphase'⟩] at h
    cases h
    exact hj rfl
  · have h := (hiff j).1.mpr ⟨hres, hphase⟩
    rw [(hiff id).2.mpr ⟨rfl, hopen⟩] at h
    cases h
  · have h := (hiff j).2.mpr ⟨hres, hopen'⟩
    rw [(hiff id).1.mpr ⟨rfl, hphase⟩] at h
    cases h
  · have h := (hiff j).2.mpr ⟨hres, hopen'⟩
    rw [(hiff id).2.mpr ⟨rfl, hopen⟩] at h
    cases h
    exact hj rfl

theorem Wired.call {s s' : WireState} (hm : Wired m)
    (hentry : entry.resource = (m.entries id).resource)
    (he : e.resource = (m.entries id).resource)
    (hs : wireState (m.entries id).resource m.wire = some s)
    (hstep : s.step (m.entries id).resource e = some s')
    (hrest : ∀ j, j ≠ id → (m.entries j).resource = (m.entries id).resource → AtRest (m.entries j))
    (hrequested : ∀ j, s' = .requested j ↔ j = id ∧ entry.phase = .subscribing)
    (hopened : ∀ j, s' = .opened j ↔
      j = id ∧ entry.phase = .settled ∧ entry.unsubscribeSent = false) :
    Wired { m.setEntry id entry with wire := m.wire ++ [e] } := by
  intro resource
  by_cases hres : resource = (m.entries id).resource
  · subst hres
    refine ⟨s', by rw [wireState_append, hs]; exact hstep, fun j => ?_⟩
    rw [hrequested, hopened]
    by_cases hj : j = id
    · subst hj
      simp only [setEntry_self, hentry, true_and, and_self]
    · have hrest' := fun h => atRest_iff.mp (hrest j hj h)
      simp only [setEntry_of_ne hj, hj, false_and, false_iff, not_and]
      exact ⟨fun h => (hrest' h).1, fun h h₁ h₂ => (hrest' h).2 ⟨h₁, h₂⟩⟩
  · obtain ⟨t, ht, hiff⟩ := hm resource
    refine ⟨t, ?_, fun j => ?_⟩
    · rw [wireState_append_of_ne (by rw [he]; exact Ne.symm hres)]
      exact ht
    · by_cases hj : j = id
      · subst hj
        have hne : (m.entries j).resource ≠ resource := Ne.symm hres
        have h := hiff j
        simp only [hne, false_and, iff_false, setEntry_self, hentry] at h ⊢
        exact h
      · simp only [setEntry_of_ne hj]
        exact hiff j

theorem Wired.setEntry (hm : Wired m) (hresource : entry.resource = (m.entries id).resource)
    (hphase : entry.phase = (m.entries id).phase)
    (hsent : entry.unsubscribeSent = (m.entries id).unsubscribeSent) :
    Wired (m.setEntry id entry) := by
  refine hm.congr rfl fun j => ?_
  by_cases hj : j = id
  · subst hj
    rw [setEntry_self]
    exact ⟨hresource, hphase, hsent⟩
  · rw [setEntry_of_ne hj]
    exact ⟨rfl, rfl, rfl⟩

theorem Wired.setEntry_atRest (hm : Wired m) (h : AtRest (m.entries id)) (h' : AtRest entry) :
    Wired (m.setEntry id entry) := by
  intro resource
  obtain ⟨s, hs, hiff⟩ := hm resource
  refine ⟨s, hs, fun j => ?_⟩
  by_cases hj : j = id
  · subst hj
    have hold := hiff j
    rw [atRest_iff] at h h'
    simp only [setEntry_self, h.1, h'.1, h.2, h'.2, and_false] at hold ⊢
    exact hold
  · rw [setEntry_of_ne hj]
    exact hiff j

theorem Wired.closed_of_atRest (hm : Wired m)
    (h : ∀ j, (m.entries j).resource = resource → AtRest (m.entries j)) :
    wireState resource m.wire = some .closed := by
  obtain ⟨s, hs, hiff⟩ := hm resource
  cases s with
  | closed => exact hs
  | requested j =>
    obtain ⟨hres, hphase⟩ := (hiff j).1.mp rfl
    exact absurd hphase (atRest_iff.mp (h j hres)).1
  | opened j =>
    obtain ⟨hres, hopen⟩ := (hiff j).2.mp rfl
    exact absurd hopen (atRest_iff.mp (h j hres)).2

theorem Wired.disposeTimer (hm : Wired m) : Wired (m.disposeTimer id) :=
  (hm.setEntry rfl rfl rfl : Wired (m.setEntry id { m.entries id with releaseTimer := none }))

theorem Wired.cancelScheduledRelease (hm : Wired m) : Wired (m.cancelScheduledRelease id) :=
  hm.disposeTimer.setEntry rfl rfl rfl

theorem Wired.sendUnsubscribe (hm : Wired m) (hphase : (m.entries id).phase = .settled)
    (hsent : (m.entries id).unsubscribeSent = false) : Wired (m.sendUnsubscribe id cause) := by
  obtain ⟨s, hs, hiff⟩ := hm (m.entries id).resource
  have hopen : s = .opened id := (hiff id).2.mpr ⟨rfl, hphase, hsent⟩
  have hactive : ¬AtRest (m.entries id) := fun h => (atRest_iff.mp h).2 ⟨hphase, hsent⟩
  have hstep : s.step (m.entries id).resource
      (.unsubscribe (m.entries id).resource id cause (m.entries id)) = some .closed := by
    simp [hopen, WireState.step, WireEvent.resource]
  refine hm.call rfl rfl hs hstep (fun j => hm.atRest_of_ne hactive) ?_ ?_
  · intro j
    simp [hphase]
  · intro j
    simp

theorem Wired.disposeSubscriptionEntry (hm : Wired m)
    (h : unsubscribe → (m.entries id).phase = .settled) :
    Wired (m.disposeSubscriptionEntry id unsubscribe cause) := by
  have hentry : ((m.disposeTimer id).removeIdle id).entries id =
      { m.entries id with releaseTimer := none } := disposeTimer_entry m id
  have hsend : Wired (((m.disposeTimer id).removeIdle id).sendUnsubscribeOnce id unsubscribe
      cause) := by
    unfold sendUnsubscribeOnce
    split
    · rename_i hsend
      rw [Bool.and_eq_true, Bool.not_eq_true'] at hsend
      refine Wired.sendUnsubscribe hm.disposeTimer ?_ hsend.2
      rw [hentry]
      exact h hsend.1
    · exact hm.disposeTimer
  unfold SubscriptionManager.disposeSubscriptionEntry disposeLocally
  split
  · exact hsend
  · exact hsend.setEntry rfl rfl rfl

/-! ## Releases -/

theorem isCurrent_delete (m : SubscriptionManager) (id : Nat) :
    ({ m with subscriptions := m.subscriptions.delete (m.entries id).resource } :
      SubscriptionManager).isCurrent id = false := by
  show decide (Record.get (m.subscriptions.delete _) _ = _) = _
  rw [get_delete, if_pos rfl]
  exact decide_eq_false nofun

theorem entryOk_disposeSubscriptionEntry (hcur : m.isCurrent id = false)
    (hunborn : m.nextEntry ≤ id → (m.entries id).phase = .waitingCreate ∧
      (m.entries id).awaiting = none ∧ (m.entries id).holders = [])
    (hwaiting : (m.entries id).awaiting.isSome → (m.entries id).phase = .waitingCreate)
    (hsent : (m.entries id).unsubscribeSent → (m.entries id).phase = .settled)
    (h : unsubscribe = false ∧ (m.entries id).phase = .waitingCreate ∨
      unsubscribe = true ∧ (m.entries id).phase = .settled)
    (hwork : WorkOn id m (m.disposeSubscriptionEntry id unsubscribe cause)) :
    EntryOk (m.disposeSubscriptionEntry id unsubscribe cause) id
      ((m.disposeSubscriptionEntry id unsubscribe cause).entries id) := by
  have hcur' : (m.disposeSubscriptionEntry id unsubscribe cause).isCurrent id = false := by
    unfold isCurrent at hcur ⊢
    rw [disposeSubscriptionEntry_subscriptions, hwork.resource]
    exact hcur
  have hidle : id ∉ (m.disposeSubscriptionEntry id unsubscribe cause).idleSubscriptions.map
      Prod.fst := by
    rw [not_idle_disposeSubscriptionEntry, mem_removeIdle]
    exact fun hmem => hmem.2 rfl
  obtain ⟨sub, localDisposed, hentry⟩ := disposeSubscriptionEntry_entry m id unsubscribe cause
  rw [hentry]
  refine ⟨⟨fun hid => hunborn (hwork.nextEntry ▸ hid), hwaiting, fun hs => ?_,
    fun hc => ?_, fun hc => ?_, fun _ => .inl ?_⟩, fun hmem => absurd hmem hidle, fun hc => ?_⟩
  · rw [Bool.or_eq_true] at hs
    rcases hs with hs | rfl
    · exact hsent hs
    · rcases h with ⟨hf, _⟩ | ⟨_, hphase⟩
      · cases hf
      · exact hphase
  · rw [hcur'] at hc
    cases hc
  · rw [hcur'] at hc
    cases hc
  · rcases h with ⟨_, hphase⟩ | ⟨rfl, hphase⟩
    · exact .inl hphase
    · exact .inr ⟨hphase, Bool.or_true _⟩
  · rw [hcur'] at hc
    cases hc

theorem Inv.finalize (hm : Inv m (some id)) (hcore : EntryCore m id (m.entries id))
    (hcur : m.isCurrent id) (h : unsubscribe = false ∧ (m.entries id).phase = .waitingCreate ∨
      unsubscribe = true ∧ (m.entries id).phase = .settled)
    (hcause : unsubscribe → cause.Justified (m.entries id)) :
    Inv (m.finalizeSubscriptionEntry id unsubscribe cause) none := by
  unfold finalizeSubscriptionEntry
  rw [if_pos hcur]
  obtain ⟨m₁, hm₁⟩ : ∃ m₁ : SubscriptionManager,
    m₁ = { m with subscriptions := m.subscriptions.delete (m.entries id).resource } := ⟨_, rfl⟩
  have hentry : m₁.entries id = m.entries id := by rw [hm₁]
  have hwork : WorkOn id m₁ (m₁.disposeSubscriptionEntry id unsubscribe cause) := by
    refine workOn_disposeSubscriptionEntry fun hu => ?_
    rw [hentry]
    rcases h with ⟨hf, _⟩ | ⟨_, hphase⟩
    · rw [hf] at hu
      cases hu
    · exact ⟨hphase, hcause hu⟩
  have hdelete : WorkOn id m m₁ := hm₁ ▸ workOn_delete hcur
  rw [← hm₁]
  refine (hm.workOn (hdelete.trans hwork)).close
    (entryOk_disposeSubscriptionEntry ?_ ?_ ?_ ?_ ?_ hwork)
  · rw [hm₁]
    exact isCurrent_delete m id
  · rw [hentry, hdelete.nextEntry]
    exact hcore.unborn
  · rw [hentry]
    exact hcore.waiting
  · rw [hentry]
    exact hcore.sent
  · rw [hentry]
    exact h

theorem Wired.finalize (hm : Wired m) (h : unsubscribe → (m.entries id).phase = .settled) :
    Wired (m.finalizeSubscriptionEntry id unsubscribe cause) := by
  unfold finalizeSubscriptionEntry
  split
  · exact Wired.disposeSubscriptionEntry (m := { m with
      subscriptions := m.subscriptions.delete (m.entries id).resource }) hm h
  · exact hm.disposeSubscriptionEntry h

theorem Inv.removeIdle (hm : Inv m (some id)) : Inv (m.removeIdle id) (some id) :=
  hm.workOn (workOn_removeIdle m id)

theorem not_idle_removeIdle (m : SubscriptionManager) (id : Nat) :
    id ∉ (m.removeIdle id).idleSubscriptions.map Prod.fst :=
  fun h => (mem_removeIdle.mp h).2 rfl

theorem Inv.expire (hm : Inv m (some id)) (hcore : EntryCore m id (m.entries id)) :
    Inv (m.expireSubscriptionRelease id) none := by
  have hidle := hm.removeIdle
  have hcore' : EntryCore (m.removeIdle id) id ((m.removeIdle id).entries id) := { hcore with }
  unfold expireSubscriptionRelease
  simp only
  split
  · rename_i hstay
    refine hidle.close { hcore' with
      idle := fun hmem => absurd hmem (not_idle_removeIdle m id)
      retained := fun hcur hle => ?_ }
    rw [hcur, Bool.not_true, Bool.false_or, decide_eq_true_iff] at hstay
    omega
  · rename_i hgo
    rw [Bool.or_eq_true, not_or, Bool.not_eq_true', Bool.not_eq_false, decide_eq_true_iff,
      Int.not_lt] at hgo
    obtain ⟨hcur, hle⟩ := hgo
    obtain ⟨m₁, hm₁⟩ : ∃ m₁, m₁ = (m.removeIdle id).setEntry id
      { (m.removeIdle id).entries id with releaseExpired := true } := ⟨_, rfl⟩
    have hentry : m₁.entries id = { (m.removeIdle id).entries id with releaseExpired := true } := by
      rw [hm₁, setEntry_self]
    have hwork : WorkOn id (m.removeIdle id) m₁ := hm₁ ▸ workOn_setEntry rfl
    have hcur₁ : m₁.isCurrent id := by
      rw [hm₁, isCurrent_setEntry]
      · exact hcur
      · rfl
    have hcore₁ : EntryCore m₁ id (m₁.entries id) := by
      rw [hentry]
      have h : EntryCore (m.removeIdle id) id
          { (m.removeIdle id).entries id with releaseExpired := true } := { hcore' with }
      exact h.congr (hcur₁.trans hcur.symm) hwork.nextEntry.ge hwork.disposed
    rw [← hm₁]
    split
    · rename_i hphase
      exact (hidle.workOn hwork).finalize hcore₁ hcur₁ (.inl ⟨rfl, hphase⟩) nofun
    · rename_i hphase
      refine (hidle.workOn hwork).close { hcore₁ with
        idle := fun hmem => absurd hmem ?_
        retained := fun _ _ => .inr ⟨hphase, by rw [hentry]⟩ }
      rw [hm₁]
      exact not_idle_removeIdle m id
    · rename_i hphase
      refine (hidle.workOn hwork).finalize hcore₁ hcur₁ (.inr ⟨rfl, hphase⟩) fun _ => ?_
      have hrefs := hcore₁.refs hcur₁
      have hle₁ : (m₁.entries id).refCount ≤ 0 := by
        rw [hentry]
        exact hle
      have hlength : (m₁.entries id).holders.length = 0 := by omega
      exact eq_nil_of_length_eq_zero hlength

theorem Wired.expire (hm : Wired m) : Wired (m.expireSubscriptionRelease id) := by
  have hidle : Wired (m.removeIdle id) := hm
  unfold expireSubscriptionRelease
  simp only
  split
  · exact hidle
  · have hset : Wired ((m.removeIdle id).setEntry id
        { (m.removeIdle id).entries id with releaseExpired := true }) := hidle.setEntry rfl rfl rfl
    split
    · exact hset.finalize nofun
    · exact hset
    · rename_i hphase
      exact hset.finalize fun _ => hphase

theorem EntryCore.disposeTimer (h : EntryCore m id (m.entries id)) :
    EntryCore (m.disposeTimer id) id ((m.disposeTimer id).entries id) := by
  rw [disposeTimer_entry]
  have h' : EntryCore m id { m.entries id with releaseTimer := none } := { h with }
  exact h'.congr (isCurrent_setEntry id rfl) le_rfl rfl

theorem EntryCore.cancelScheduledRelease (h : EntryCore m id (m.entries id)) :
    EntryCore (m.cancelScheduledRelease id) id ((m.cancelScheduledRelease id).entries id) := by
  rw [cancelScheduledRelease_entry]
  have h' : EntryCore m id { m.entries id with releaseTimer := none, releaseExpired := false } :=
    { h with }
  refine h'.congr ?_ le_rfl rfl
  unfold isCurrent
  rw [cancelScheduledRelease_entry]
  rfl

theorem Inv.evictIdle (hm : Inv m none) (fuel : Nat) : Inv (m.evictIdle fuel) none := by
  induction fuel generalizing m with
  | zero => exact hm
  | succ fuel ih =>
    unfold SubscriptionManager.evictIdle
    split
    · exact hm
    · split
      · exact hm
      · rename_i oldest _ _
        have hcore := (hm.entry oldest.1 nofun).toEntryCore.disposeTimer
        exact ih (((hm.open oldest.1).workOn (workOn_disposeTimer m oldest.1)).expire hcore)

theorem Wired.evictIdle (hm : Wired m) (fuel : Nat) : Wired (m.evictIdle fuel) := by
  induction fuel generalizing m with
  | zero => exact hm
  | succ fuel ih =>
    unfold SubscriptionManager.evictIdle
    split
    · exact hm
    · split
      · exact hm
      · exact ih hm.disposeTimer.expire

theorem workOn_armRelease (m : SubscriptionManager) (id : Nat) : WorkOn id m (m.armRelease id) := by
  have hset : WorkOn id m (m.setEntry id { m.entries id with releaseTimer := some m.nextTimer }) :=
    workOn_setEntry rfl
  refine { hset with idle := fun j hj => ?_ }
  simp [armRelease, hj]

theorem armRelease_entry (m : SubscriptionManager) (id : Nat) :
    (m.armRelease id).entries id = { m.entries id with releaseTimer := some m.nextTimer } :=
  setEntry_self ..

theorem mem_idle_armRelease (m : SubscriptionManager) (id : Nat) :
    id ∈ (m.armRelease id).idleSubscriptions.map Prod.fst := by
  simp [armRelease]

theorem Inv.arm (hm : Inv m (some id)) (hcore : EntryCore m id (m.entries id))
    (hcur : m.isCurrent id) (hle : (m.entries id).refCount ≤ 0) : Inv (m.armRelease id) none := by
  have hwork := workOn_armRelease m id
  refine (hm.workOn hwork).close ?_
  have hcur' : (m.armRelease id).isCurrent id = m.isCurrent id := isCurrent_setEntry id rfl
  rw [armRelease_entry]
  have hcore' : EntryCore m id { m.entries id with releaseTimer := some m.nextTimer } :=
    { hcore with }
  exact { hcore'.congr hcur' hwork.nextEntry.ge hwork.disposed with
    idle := fun _ => ⟨hcur'.trans hcur, hle⟩
    retained := fun _ _ => .inl (mem_idle_armRelease m id) }

theorem Wired.arm (hm : Wired m) : Wired (m.armRelease id) :=
  (hm.setEntry rfl rfl rfl :
    Wired (m.setEntry id { m.entries id with releaseTimer := some m.nextTimer }))

theorem Inv.schedule (hm : Inv m (some id)) (hcore : EntryCore m id (m.entries id))
    (hcur : m.isCurrent id) (hle : (m.entries id).refCount ≤ 0) :
    Inv (m.scheduleSubscriptionRelease id) none := by
  have hcancel := hm.workOn (workOn_cancelScheduledRelease m id)
  have hcore' := hcore.cancelScheduledRelease
  have hentry := cancelScheduledRelease_entry m id
  have hcur' : (m.cancelScheduledRelease id).isCurrent id := by
    unfold isCurrent at hcur ⊢
    rw [hentry]
    exact hcur
  unfold scheduleSubscriptionRelease
  simp only
  split
  · exact hcancel.expire hcore'
  · refine (hcancel.arm hcore' hcur' ?_).evictIdle _
    rw [hentry]
    exact hle

theorem Wired.schedule (hm : Wired m) : Wired (m.scheduleSubscriptionRelease id) := by
  have hcancel : Wired (m.cancelScheduledRelease id) := hm.cancelScheduledRelease
  unfold scheduleSubscriptionRelease
  simp only
  split
  · exact hcancel.expire
  · exact hcancel.arm.evictIdle _

/-! ## The idle bound -/

/-- No entry became idle. -/
structure Shrinks (m m' : SubscriptionManager) : Prop where
  maxIdleSubscriptions : m'.maxIdleSubscriptions = m.maxIdleSubscriptions
  length : m'.idleSubscriptions.length ≤ m.idleSubscriptions.length

theorem length_removeIdle_le (m : SubscriptionManager) (id : Nat) :
    (m.removeIdle id).idleSubscriptions.length ≤ m.idleSubscriptions.length :=
  length_filter_le ..

theorem shrinks_disposeSubscriptionEntry (m : SubscriptionManager) (id : Nat) (unsubscribe : Bool)
    (cause : UnsubscribeCause) : Shrinks m (m.disposeSubscriptionEntry id unsubscribe cause) := by
  refine ⟨?_, ?_⟩
  · unfold disposeSubscriptionEntry disposeLocally sendUnsubscribeOnce
    split <;> split <;> rfl
  · rw [not_idle_disposeSubscriptionEntry]
    exact length_removeIdle_le m id

theorem shrinks_finalize (m : SubscriptionManager) (id : Nat) (unsubscribe : Bool)
    (cause : UnsubscribeCause) : Shrinks m (m.finalizeSubscriptionEntry id unsubscribe cause) := by
  unfold finalizeSubscriptionEntry
  split
  · obtain ⟨h₁, h₂⟩ := shrinks_disposeSubscriptionEntry
      { m with subscriptions := m.subscriptions.delete (m.entries id).resource } id unsubscribe cause
    exact ⟨h₁, h₂⟩
  · exact shrinks_disposeSubscriptionEntry m id unsubscribe cause

theorem expire_idle (m : SubscriptionManager) (id : Nat) :
    (m.expireSubscriptionRelease id).maxIdleSubscriptions = m.maxIdleSubscriptions ∧
      (m.expireSubscriptionRelease id).idleSubscriptions.length ≤
        (m.removeIdle id).idleSubscriptions.length := by
  unfold expireSubscriptionRelease
  simp only
  split
  · exact ⟨rfl, le_rfl⟩
  · split
    · obtain ⟨h₁, h₂⟩ := shrinks_finalize ((m.removeIdle id).setEntry id
        { (m.removeIdle id).entries id with releaseExpired := true }) id false .released
      exact ⟨h₁, h₂⟩
    · exact ⟨rfl, le_rfl⟩
    · obtain ⟨h₁, h₂⟩ := shrinks_finalize ((m.removeIdle id).setEntry id
        { (m.removeIdle id).entries id with releaseExpired := true }) id true .released
      exact ⟨h₁, h₂⟩

theorem shrinks_expire (m : SubscriptionManager) (id : Nat) :
    Shrinks m (m.expireSubscriptionRelease id) :=
  ⟨(expire_idle m id).1, (expire_idle m id).2.trans (length_removeIdle_le m id)⟩

theorem evictIdle_bounded (m : SubscriptionManager) (fuel : Nat)
    (hmax : 0 ≤ m.maxIdleSubscriptions) (hfuel : m.idleSubscriptions.length ≤ fuel) :
    (m.evictIdle fuel).maxIdleSubscriptions = m.maxIdleSubscriptions ∧
      ((m.evictIdle fuel).idleSubscriptions.length : Int) ≤ m.maxIdleSubscriptions := by
  induction fuel generalizing m with
  | zero =>
    refine ⟨rfl, ?_⟩
    show (m.idleSubscriptions.length : Int) ≤ _
    omega
  | succ fuel ih =>
    unfold evictIdle
    split
    · rename_i hle
      exact ⟨rfl, hle⟩
    · split
      · rename_i hnil
        refine ⟨rfl, ?_⟩
        rw [hnil]
        exact hmax
      · rename_i oldest rest hidle
        obtain ⟨hsame, hlength⟩ := expire_idle (m.disposeTimer oldest.1) oldest.1
        have hremoved : ((m.disposeTimer oldest.1).removeIdle oldest.1).idleSubscriptions.length ≤
            rest.length := by
          show (m.idleSubscriptions.filter fun e => e.1 ≠ oldest.1).length ≤ _
          rw [hidle, filter_cons_of_neg (by simp)]
          exact length_filter_le ..
        have hlength' : rest.length ≤ fuel := by
          rw [hidle, length_cons] at hfuel
          omega
        have hsame' : ((m.disposeTimer oldest.1).expireSubscriptionRelease
            oldest.1).maxIdleSubscriptions = m.maxIdleSubscriptions := hsame
        obtain ⟨h₁, h₂⟩ := ih ((m.disposeTimer oldest.1).expireSubscriptionRelease oldest.1)
          (by rw [hsame']; exact hmax) ((hlength.trans hremoved).trans hlength')
        rw [hsame'] at h₁ h₂
        exact ⟨h₁, h₂⟩

end SubscriptionManager

end Fumie.AgentHost
