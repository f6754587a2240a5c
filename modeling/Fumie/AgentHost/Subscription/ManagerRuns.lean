import Fumie.AgentHost.Subscription.ManagerWire

/-!
# Runs of the subscription manager

Each event keeps the invariant of the manager, the agreement of its entries with
the calls it made, and the bound on its idle entries. `manager_wire` collects what
follows for every run, and `dispose_with_live_reference` shows the one place where
an `unsubscribe` meets a live reference: the manager itself ends.
-/

namespace Fumie.AgentHost

open Fumie.Lib List Record Option

variable {rest : List Nat}

variable (clientId : ClientId)

namespace SubscriptionManager

variable {m m' : SubscriptionManager} {id : Nat} {max : Int}

/-- The idle entries stay within the configured maximum. -/
def Bounded (max : Int) (m : SubscriptionManager) : Prop :=
  m.maxIdleSubscriptions = max ∧ m.idleSubscriptions.length ≤ max.toNat

theorem Bounded.shrinks (hm : Bounded max m) (h : Shrinks m m') : Bounded max m' :=
  ⟨h.maxIdleSubscriptions.trans hm.1, h.length.trans hm.2⟩

theorem Bounded.schedule (hm : Bounded max m) : Bounded max (m.scheduleSubscriptionRelease id) := by
  have hcancel : Bounded max (m.cancelScheduledRelease id) :=
    ⟨hm.1, (length_removeIdle_le m id).trans hm.2⟩
  unfold scheduleSubscriptionRelease
  simp only
  split
  · exact hcancel.shrinks (shrinks_expire _ id)
  · rename_i hpos
    rw [Bool.or_eq_true, not_or, decide_eq_true_iff, decide_eq_true_iff] at hpos
    have hmax : 0 ≤ ((m.cancelScheduledRelease id).armRelease id).maxIdleSubscriptions := by
      show 0 ≤ (m.cancelScheduledRelease id).maxIdleSubscriptions
      omega
    obtain ⟨h₁, h₂⟩ := evictIdle_bounded ((m.cancelScheduledRelease id).armRelease id) _ hmax le_rfl
    have hsame : ((m.cancelScheduledRelease id).armRelease id).maxIdleSubscriptions = max := hcancel.1
    rw [hsame] at h₁ h₂
    refine ⟨h₁, ?_⟩
    omega

structure Ok (max : Int) (m : SubscriptionManager) : Prop where
  inv : Inv m none
  wired : Wired m
  bounded : Bounded max m

/-! ## References -/

theorem disposeReference_of_stale (hcur : m.isCurrent id = false) (ownerId : Nat) :
    m.disposeReference id ownerId =
      m.setEntry id { m.entries id with holders := (m.entries id).holders.erase ownerId } := by
  unfold disposeReference
  split
  · have hcur' : (m.setEntry id { m.entries id with
        holders := (m.entries id).holders.erase ownerId }).isCurrent id = false := by
      rw [isCurrent_setEntry]
      · exact hcur
      · rfl
    unfold releaseSubscription
    rw [hcur', Bool.not_false, if_pos rfl]
  · rename_i hmem
    rw [erase_of_not_mem hmem]
    unfold setEntry
    rw [Function.update_eq_self]

theorem Ok.disposeReference (hm : Ok max m) (ownerId : Nat) : Ok max (m.disposeReference id ownerId) := by
  have hok := hm.inv.entry id nofun
  cases hcur : m.isCurrent id with
  | false =>
    rw [disposeReference_of_stale hcur]
    have hwork : WorkOn id m (m.setEntry id { m.entries id with
        holders := (m.entries id).holders.erase ownerId }) := workOn_setEntry rfl
    refine ⟨((hm.inv.open id).workOn hwork).close ?_, hm.wired.setEntry rfl rfl rfl, hm.bounded⟩
    rw [setEntry_self]
    have hok' : EntryOk m id { m.entries id with
        holders := (m.entries id).holders.erase ownerId } := { hok with
      unborn := fun hid => by
        obtain ⟨h₁, h₂, h₃⟩ := hok.unborn hid
        exact ⟨h₁, h₂, by rw [h₃]; rfl⟩
      refs := fun hc => by
        rw [hcur] at hc
        cases hc }
    exact hok'.congr (isCurrent_setEntry id rfl) le_rfl rfl Iff.rfl
  | true =>
    unfold SubscriptionManager.disposeReference
    split
    · rename_i hmem
      obtain ⟨m₁, hm₁⟩ : ∃ m₁, m₁ = m.setEntry id { m.entries id with
        holders := (m.entries id).holders.erase ownerId } := ⟨_, rfl⟩
      have hentry₁ : m₁.entries id = { m.entries id with
          holders := (m.entries id).holders.erase ownerId } := by rw [hm₁, setEntry_self]
      have hcur₁ : m₁.isCurrent id := by
        rw [hm₁, isCurrent_setEntry]
        · exact hcur
        · rfl
      rw [← hm₁]
      obtain ⟨m₂, hm₂⟩ : ∃ m₂, m₂ = m₁.setEntry id { m₁.entries id with
        refCount := (m₁.entries id).refCount - 1 } := ⟨_, rfl⟩
      have hentry₂ : m₂.entries id = { m.entries id with
          holders := (m.entries id).holders.erase ownerId
          refCount := (m.entries id).refCount - 1 } := by rw [hm₂, setEntry_self, hentry₁]
      have hcur₂ : m₂.isCurrent id := by
        rw [hm₂, isCurrent_setEntry]
        · exact hcur₁
        · rfl
      have hwork : WorkOn id m m₂ := by
        have h₁ : WorkOn id m m₁ := hm₁ ▸ workOn_setEntry rfl
        exact h₁.trans (hm₂ ▸ workOn_setEntry rfl)
      have hinv := (hm.inv.open id).workOn hwork
      have hcore : EntryCore m₂ id (m₂.entries id) := by
        rw [hentry₂]
        have hcore' : EntryCore m id { m.entries id with
            holders := (m.entries id).holders.erase ownerId
            refCount := (m.entries id).refCount - 1 } := { hok.toEntryCore with
          unborn := fun hid => by
            obtain ⟨h₁, h₂, h₃⟩ := hok.unborn hid
            exact ⟨h₁, h₂, by rw [h₃]; rfl⟩
          refs := fun hc => by
            have hrefs := hok.refs hc
            have hlength := length_erase_of_mem hmem
            have hpos := length_pos_of_mem hmem
            show (m.entries id).refCount - 1 = ((m.entries id).holders.erase ownerId).length
            omega }
        exact hcore'.congr (hcur₂.trans hcur.symm) hwork.nextEntry.ge hwork.disposed
      have hwired₁ : Wired m₁ := hm₁ ▸ hm.wired.setEntry rfl rfl rfl
      have hwired : Wired m₂ := hm₂ ▸ hwired₁.setEntry rfl rfl rfl
      have hbounded : Bounded max m₂ := by
        rw [hm₂, hm₁]
        exact hm.bounded
      unfold releaseSubscription
      rw [hcur₁, Bool.not_true, if_neg Bool.false_ne_true]
      simp only [← hm₂]
      split
      · rename_i hle
        exact ⟨hinv.schedule hcore hcur₂ hle, hwired.schedule, hbounded.schedule⟩
      · rename_i hlt
        refine ⟨hinv.close { hcore with
          idle := fun hmem' => ?_, retained := fun _ hle => absurd hle hlt }, hwired, hbounded⟩
        -- An idle entry has no references to dispose.
        have hidle : id ∈ m.idleSubscriptions.map Prod.fst := by
          rw [hm₂, hm₁] at hmem'
          exact hmem'
        have hle := (hok.idle hidle).2
        rw [hentry₂] at hlt
        exfalso
        apply hlt
        show (m.entries id).refCount - 1 ≤ 0
        omega
    · exact hm

/-! ## Subscribing -/

theorem workOn_startSubscribe (m : SubscriptionManager) (id : Nat) :
    WorkOn id m (m.startSubscribe id) := by
  unfold startSubscribe
  split
  · exact ⟨fun _ _ => rfl, rfl, fun _ _ => rfl, fun _ _ h => h, rfl, rfl, fun _ _ => Iff.rfl,
      fun _ h => .inl h⟩
  · have hset : WorkOn id m (m.setEntry id { m.entries id with phase := .subscribing }) :=
      workOn_setEntry rfl
    refine { hset with allowed := fun e he => ?_ }
    rcases mem_append.mp he with he | he
    · exact .inl he
    · rw [mem_singleton] at he
      exact .inr (he ▸ trivial)

theorem Wired.startSubscribe (hm : Wired m) (hinv : Inv m (some id))
    (hphase : (m.entries id).phase = .waitingCreate) : Wired (m.startSubscribe id) := by
  unfold SubscriptionManager.startSubscribe
  split
  · exact hm
  · rename_i hgo
    rw [Bool.or_eq_true, not_or, Bool.not_eq_true', Bool.not_eq_false] at hgo
    have hrest := hinv.atRest_of_waiting hgo.1 hphase
    have hstep : WireState.closed.step (m.entries id).resource
        (.subscribe (m.entries id).resource id) = some (.requested id) := by
      simp [WireState.step, WireEvent.resource]
    refine hm.call rfl rfl (hm.closed_of_atRest hrest) hstep (fun j _ => hrest j) ?_ ?_
    · intro j
      simp [eq_comm]
    · intro j
      simp

theorem startSubscribe_entry (m : SubscriptionManager) (id : Nat) :
    ((m.startSubscribe id).entries id = m.entries id ∧
        (m.isCurrent id = false ∨ (m.entries id).localDisposed = true)) ∨
      ((m.startSubscribe id).entries id = { m.entries id with phase := .subscribing } ∧
        m.isCurrent id = true) := by
  unfold startSubscribe
  split
  · rename_i hstay
    rw [Bool.or_eq_true, Bool.not_eq_true'] at hstay
    exact .inl ⟨rfl, hstay⟩
  · rename_i hgo
    rw [Bool.or_eq_true, not_or, Bool.not_eq_true', Bool.not_eq_false] at hgo
    exact .inr ⟨setEntry_self .., hgo.1⟩

theorem isCurrent_startSubscribe (m : SubscriptionManager) (id : Nat) :
    (m.startSubscribe id).isCurrent id = m.isCurrent id := by
  unfold startSubscribe
  split
  · rfl
  · exact isCurrent_setEntry id rfl

theorem startSubscribe_idle (m : SubscriptionManager) (id : Nat) :
    (m.startSubscribe id).idleSubscriptions = m.idleSubscriptions ∧
      (m.startSubscribe id).maxIdleSubscriptions = m.maxIdleSubscriptions := by
  unfold startSubscribe
  split <;> exact ⟨rfl, rfl⟩

theorem Ok.resumeCreate (hm : Ok max m) (hwait : (m.entries id).awaiting.isSome) :
    Ok max (m.resumeCreate id) := by
  have hok := hm.inv.entry id nofun
  have hphase := hok.waiting hwait
  obtain ⟨m₁, hm₁⟩ : ∃ m₁, m₁ = m.setEntry id { m.entries id with awaiting := none } := ⟨_, rfl⟩
  have hentry₁ : m₁.entries id = { m.entries id with awaiting := none } := by
    rw [hm₁, setEntry_self]
  have hwork₁ : WorkOn id m m₁ := hm₁ ▸ workOn_setEntry rfl
  have hcur₁ : m₁.isCurrent id = m.isCurrent id := hm₁ ▸ isCurrent_setEntry id rfl
  have hinv₁ := (hm.inv.open id).workOn hwork₁
  have hwired₁ : Wired m₁ := hm₁ ▸ hm.wired.setEntry rfl rfl rfl
  have hok₁ : EntryOk m₁ id (m₁.entries id) := by
    rw [hentry₁]
    have h : EntryOk m id { m.entries id with awaiting := none } := { hok with
      unborn := fun hid => ⟨(hok.unborn hid).1, rfl, (hok.unborn hid).2.2⟩
      waiting := nofun }
    exact h.congr hcur₁ hwork₁.nextEntry.ge hwork₁.disposed (by rw [hm₁]; rfl)
  have hphase₁ : (m₁.entries id).phase = .waitingCreate := by
    rw [hentry₁]
    exact hphase
  have hidle₁ := startSubscribe_idle m₁ id
  have hwork₂ := workOn_startSubscribe m₁ id
  unfold SubscriptionManager.resumeCreate
  rw [← hm₁]
  refine ⟨(hinv₁.workOn hwork₂).close ?_, hwired₁.startSubscribe hinv₁ hphase₁, ?_⟩
  · refine EntryOk.congr (m := m₁) ?_ (isCurrent_startSubscribe m₁ id) hwork₂.nextEntry.ge
      hwork₂.disposed (by rw [hidle₁.1])
    rcases startSubscribe_entry m₁ id with ⟨hsame, _⟩ | ⟨hstart, hcur⟩
    · rw [hsame]
      exact hok₁
    · rw [hstart]
      exact { hok₁ with
        unborn := fun hid => absurd hid (Nat.not_le.mpr (hinv₁.mapped _ id (of_decide_eq_true hcur)).1)
        waiting := fun hsome => by
          rw [hentry₁] at hsome
          cases hsome
        sent := fun hsent => by
          have h := (hok₁.current hcur).2.1
          rw [hsent] at h
          cases h
        detached := fun hc => by
          rw [hcur] at hc
          cases hc
        retained := fun hc hle => by
          rcases hok₁.retained hc hle with h | ⟨h, _⟩
          · exact .inl h
          · rw [hphase₁] at h
            cases h }
  · unfold Bounded
    rw [hidle₁.1, hidle₁.2, hm₁]
    exact hm.bounded

theorem acquireReference_entry (m : SubscriptionManager) (id : Nat) :
    (m.acquireReference id).entries id =
      { m.entries id with holders := (m.entries id).holders ++ [m.referenceOwnerIds + 1] } :=
  setEntry_self ..

theorem workOn_acquireReference (m : SubscriptionManager) (id : Nat) :
    WorkOn id m (m.acquireReference id) := by
  have hset : WorkOn id m (m.setEntry id { m.entries id with
      holders := (m.entries id).holders ++ [m.referenceOwnerIds + 1] }) := workOn_setEntry rfl
  exact { hset with }

theorem Wired.acquireReference (hm : Wired m) : Wired (m.acquireReference id) :=
  (hm.setEntry rfl rfl rfl : Wired (m.setEntry id { m.entries id with
    holders := (m.entries id).holders ++ [m.referenceOwnerIds + 1] }))

theorem Inv.unborn_fresh (hm : Inv m none) (hid : m.nextEntry ≤ id) :
    m.isCurrent id = false ∧ id ∉ m.idleSubscriptions.map Prod.fst := by
  have hcur : m.isCurrent id = false := by
    cases hcur : m.isCurrent id with
    | false => rfl
    | true => exact absurd (hm.mapped _ id (of_decide_eq_true hcur)).1 (Nat.not_lt.mpr hid)
  refine ⟨hcur, fun hmem => ?_⟩
  have h := ((hm.entry id nofun).idle hmem).1
  rw [hcur] at h
  cases h

variable {kind : SubscriptionKind} {resource : Uri}

theorem addEntry_isCurrent : (m.addEntry kind resource).isCurrent m.nextEntry = true := by
  unfold isCurrent addEntry
  simp [newEntry, get_set]

theorem addEntry_get (resource' : Uri) : (m.addEntry kind resource).subscriptions.get resource' =
      if resource = resource' then some m.nextEntry else m.subscriptions.get resource' :=
  get_set ..

theorem Inv.addEntry (hm : Inv m none) (hopen : m.disposed = false)
    (hget : m.subscriptions.get resource = none) :
    Inv (m.addEntry kind resource) (some m.nextEntry) where
  entry j hj := by
    have hne : j ≠ m.nextEntry := fun h => hj (h ▸ rfl)
    have hentry : (m.addEntry kind resource).entries j = m.entries j := setEntry_of_ne hne ..
    rw [hentry]
    refine (hm.entry j nofun).congr ?_ (Nat.le_succ _) rfl Iff.rfl
    rw [Bool.eq_iff_iff, isCurrent_iff, isCurrent_iff, hentry, addEntry_get]
    split
    · rename_i hres
      rw [← hres, hget]
      simp [Ne.symm hne]
    · rfl
  mapped resource' j hj := by
    rw [addEntry_get] at hj
    split at hj
    · rename_i hres
      cases hj
      refine ⟨Nat.lt_succ_self _, ?_⟩
      show ((m.setEntry m.nextEntry _).entries _).resource = _
      rw [setEntry_self]
      exact hres
    · obtain ⟨hlt, hres⟩ := hm.mapped resource' j hj
      refine ⟨Nat.lt_succ_of_lt hlt, ?_⟩
      show ((m.setEntry m.nextEntry _).entries _).resource = _
      rw [setEntry_of_ne (Nat.ne_of_lt hlt)]
      exact hres
  closed hd := by
    have hd' : m.disposed = true := hd
    rw [hopen] at hd'
    cases hd'
  allowed := hm.allowed

theorem Wired.addEntry (hm : Wired m) (hinv : Inv m none) : Wired (m.addEntry kind resource) :=
  hm.setEntry_atRest (.inl ((hinv.entry m.nextEntry nofun).unborn le_rfl).1) (.inl rfl)

theorem Ok.createEntry (hm : Ok max m) (hopen : m.disposed = false)
    (hget : m.subscriptions.get resource = none) : Ok max (m.createEntry kind resource) := by
  obtain ⟨id, hid⟩ : ∃ id, id = m.nextEntry := ⟨_, rfl⟩
  obtain ⟨m₁, hm₁⟩ : ∃ m₁, m₁ = m.addEntry kind resource := ⟨_, rfl⟩
  have hentry₁ : m₁.entries id = m.newEntry kind resource := by
    rw [hm₁, hid]
    exact setEntry_self ..
  have hcur₁ : m₁.isCurrent id := by
    rw [hm₁, hid]
    exact addEntry_isCurrent
  have hinv₁ : Inv m₁ (some id) := by
    rw [hm₁, hid]
    exact hm.inv.addEntry hopen hget
  have hwired₁ : Wired m₁ := hm₁ ▸ hm.wired.addEntry hm.inv
  have hidle₁ : id ∉ m₁.idleSubscriptions.map Prod.fst := by
    rw [hm₁]
    exact (hm.inv.unborn_fresh hid.ge).2
  obtain ⟨m₂, hm₂⟩ : ∃ m₂, m₂ = if (m.inflightCreates.get resource).isNone then
    m₁.startSubscribe id else m₁ := ⟨_, rfl⟩
  have hwork₂ : WorkOn id m₁ m₂ := by
    rw [hm₂]
    split
    · exact workOn_startSubscribe m₁ id
    · exact ⟨fun _ _ => rfl, rfl, fun _ _ => rfl, fun _ _ h => h, rfl, rfl, fun _ _ => Iff.rfl,
        fun _ h => .inl h⟩
  have hwired₂ : Wired m₂ := by
    rw [hm₂]
    split
    · exact hwired₁.startSubscribe hinv₁ (by rw [hentry₁]; rfl)
    · exact hwired₁
  have hsame₂ : m₂.isCurrent id = m₁.isCurrent id ∧ m₂.idleSubscriptions = m₁.idleSubscriptions ∧
      m₂.maxIdleSubscriptions = m₁.maxIdleSubscriptions := by
    rw [hm₂]
    split
    · exact ⟨isCurrent_startSubscribe m₁ id, startSubscribe_idle m₁ id⟩
    · exact ⟨rfl, rfl, rfl⟩
  -- The entry waits for a create, or subscribes already.
  have hentry₂ : ∃ phase, m₂.entries id = { m.newEntry kind resource with phase } ∧
      ((m.newEntry kind resource).awaiting.isSome → phase = .waitingCreate) := by
    rw [hm₂]
    split
    · rename_i hnone
      rcases startSubscribe_entry m₁ id with ⟨hstay, _⟩ | ⟨hstart, _⟩
      · exact ⟨.waitingCreate, by rw [hstay, hentry₁]; rfl, fun _ => rfl⟩
      · refine ⟨.subscribing, by rw [hstart, hentry₁], fun hsome => ?_⟩
        rw [isNone_iff_eq_none] at hnone
        have hnone' : (m.newEntry kind resource).awaiting = none := hnone
        rw [hnone'] at hsome
        cases hsome
    · exact ⟨.waitingCreate, by rw [hentry₁]; rfl, fun _ => rfl⟩
  obtain ⟨phase, hentry₂, hphase⟩ := hentry₂
  have hwork₃ := workOn_acquireReference m₂ id
  have hcur₃ : (m₂.acquireReference id).isCurrent id = m₂.isCurrent id := isCurrent_setEntry id rfl
  have hcreate : m.createEntry kind resource = m₂.acquireReference id := by
    unfold SubscriptionManager.createEntry
    rw [hm₂, hm₁, hid]
  rw [hcreate]
  refine ⟨((hinv₁.workOn hwork₂).workOn hwork₃).close ?_, hwired₂.acquireReference, ?_⟩
  · have hcur : (m₂.acquireReference id).isCurrent id = true := by rw [hcur₃, hsame₂.1, hcur₁]
    have hidle : id ∉ (m₂.acquireReference id).idleSubscriptions.map Prod.fst := by
      show id ∉ m₂.idleSubscriptions.map Prod.fst
      rw [hsame₂.2.1]
      exact hidle₁
    have hborn : ¬(m₂.acquireReference id).nextEntry ≤ id := by
      rw [hwork₃.nextEntry, hwork₂.nextEntry, hm₁, hid]
      exact Nat.not_succ_le_self _
    rw [acquireReference_entry, hentry₂]
    exact {
      unborn := fun hge => absurd hge hborn
      waiting := hphase
      sent := fun hsent => absurd hsent Bool.false_ne_true
      current := fun _ => ⟨rfl, rfl, rfl⟩
      refs := fun _ => rfl
      detached := fun hc => by
        rw [hcur] at hc
        cases hc
      idle := fun hmem => absurd hmem hidle
      retained := fun _ hle => absurd hle (by simp [newEntry]) }
  · show Bounded max m₂
    unfold Bounded
    rw [hsame₂.2.1, hsame₂.2.2, hm₁]
    exact hm.bounded

theorem finalize_get (hcur : m.isCurrent id) (unsubscribe : Bool) (cause : UnsubscribeCause)
    (resource : Uri) : (m.finalizeSubscriptionEntry id unsubscribe cause).subscriptions.get resource =
      if (m.entries id).resource = resource then none else m.subscriptions.get resource := by
  unfold finalizeSubscriptionEntry
  rw [if_pos hcur, disposeSubscriptionEntry_subscriptions]
  exact get_delete ..

theorem finalize_disposed (m : SubscriptionManager) (id : Nat) (unsubscribe : Bool)
    (cause : UnsubscribeCause) :
    (m.finalizeSubscriptionEntry id unsubscribe cause).disposed = m.disposed := by
  unfold finalizeSubscriptionEntry
  rw [disposeSubscriptionEntry_disposed]
  split <;> rfl

theorem Ok.reuse (hm : Ok max m) (hcur : m.isCurrent id) :
    Ok max (((m.cancelScheduledRelease id).setEntry id
      { (m.cancelScheduledRelease id).entries id with
        refCount := ((m.cancelScheduledRelease id).entries id).refCount + 1 }).acquireReference id) := by
  have hok := hm.inv.entry id nofun
  obtain ⟨m₁, hm₁⟩ : ∃ m₁, m₁ = m.cancelScheduledRelease id := ⟨_, rfl⟩
  have hentry₁ : m₁.entries id = { m.entries id with
      releaseTimer := none, releaseExpired := false } := by
    rw [hm₁, cancelScheduledRelease_entry]
  rw [← hm₁]
  obtain ⟨m₂, hm₂⟩ : ∃ m₂, m₂ = m₁.setEntry id { m₁.entries id with
    refCount := (m₁.entries id).refCount + 1 } := ⟨_, rfl⟩
  rw [← hm₂]
  have hentry₂ : m₂.entries id = { m.entries id with
      releaseTimer := none, releaseExpired := false
      refCount := (m.entries id).refCount + 1 } := by
    rw [hm₂, setEntry_self, hentry₁]
  have hwork₁ : WorkOn id m m₁ := hm₁ ▸ workOn_cancelScheduledRelease m id
  have hwork₂ : WorkOn id m₁ m₂ := hm₂ ▸ workOn_setEntry rfl
  have hwork := (hwork₁.trans hwork₂).trans (workOn_acquireReference m₂ id)
  have hwired₁ : Wired m₁ := hm₁ ▸ hm.wired.cancelScheduledRelease
  have hwired₂ : Wired m₂ := hm₂ ▸ hwired₁.setEntry rfl rfl rfl
  have hcur' : (m₂.acquireReference id).isCurrent id := by
    have hget := isCurrent_iff.mp hcur
    rw [isCurrent_iff, hwork.resource]
    rw [hm₂, hm₁]
    exact hget
  have hidle : id ∉ (m₂.acquireReference id).idleSubscriptions.map Prod.fst := by
    rw [hm₂, hm₁]
    exact not_idle_removeIdle _ id
  refine ⟨((hm.inv.open id).workOn hwork).close ?_, hwired₂.acquireReference, ?_⟩
  · have hrefs := hok.refs hcur
    rw [acquireReference_entry, hentry₂]
    exact {
      unborn := fun hid => absurd hid (Nat.not_le.mpr (by
        rw [hwork.nextEntry]
        exact (hm.inv.mapped _ id (isCurrent_iff.mp hcur)).1))
      waiting := hok.waiting
      sent := hok.sent
      current := fun _ => hok.current hcur
      refs := fun _ => by
        rw [length_append, length_singleton, hrefs]
        rfl
      detached := fun hc => by
        rw [hcur'] at hc
        cases hc
      idle := fun hmem => absurd hmem hidle
      retained := fun _ hle => by
        have hle' : (m.entries id).refCount + 1 ≤ 0 := hle
        omega }
  · rw [hm₂, hm₁]
    exact ⟨hm.bounded.1, (length_removeIdle_le m id).trans hm.bounded.2⟩

theorem Ok.getSubscription (hm : Ok max m) (h : m.getSubscription kind resource = some m') :
    Ok max m' := by
  unfold SubscriptionManager.getSubscription at h
  split at h
  · cases h
  · rename_i hopen
    rw [Bool.not_eq_true] at hopen
    split at h
    · rename_i hget
      cases h
      exact hm.createEntry hopen hget
    · rename_i id hget
      have hok := hm.inv.entry id (by simp)
      have hcur := hm.inv.isCurrent_of_get hget
      split at h
      · rename_i hfailed
        rw [Bool.and_eq_true, decide_eq_true_iff] at hfailed
        cases h
        have hfinal : Ok max (m.finalizeSubscriptionEntry id true .evicted) :=
          ⟨(hm.inv.open id).finalize hok.toEntryCore hcur (.inr ⟨rfl, hfailed.2⟩)
              fun _ => hfailed.1,
            hm.wired.finalize fun _ => hfailed.2, hm.bounded.shrinks (shrinks_finalize ..)⟩
        refine hfinal.createEntry ?_ ?_
        · rw [finalize_disposed]
          exact hopen
        · rw [finalize_get hcur, if_pos (hm.inv.mapped resource id hget).2]
      · cases h
        exact hm.reuse hcur

/-! ## Subscription values -/

theorem Ok.setSub (hm : Ok max m) (id : Nat) (sub : ManagedSubscription) :
    Ok max (m.setSub id sub) := by
  have hwork : WorkOn id m (m.setSub id sub) := workOn_setEntry rfl
  refine ⟨((hm.inv.open id).workOn hwork).close ?_, hm.wired.setEntry rfl rfl rfl, hm.bounded⟩
  have hok : EntryOk m id { m.entries id with sub } := { hm.inv.entry id nofun with }
  unfold SubscriptionManager.setSub
  rw [setEntry_self]
  exact hok.congr (isCurrent_setEntry id rfl) le_rfl rfl Iff.rfl

theorem Ok.markSubscriptionsMissing (hm : Ok max m) (missing : List Uri) :
    Ok max (m.markSubscriptionsMissing missing) := by
  unfold SubscriptionManager.markSubscriptionsMissing
  induction missing generalizing m with
  | nil => exact hm
  | cons resource rest ih =>
    rw [foldl_cons]
    apply ih
    unfold markMissing
    split
    · exact hm
    · split
      · exact hm.setSub _ _
      · exact hm

theorem Ok.receiveEnvelope (hm : Ok max m) (envelope : ActionEnvelope StateAction) :
    Ok max (m.receiveEnvelope envelope) := by
  unfold SubscriptionManager.receiveEnvelope
  generalize m.subscriptions.entries.map Prod.snd = ids
  induction ids generalizing m with
  | nil => exact hm
  | cons id ids ih => exact ih (hm.setSub id _)

theorem Ok.dispatchOptimistic (hm : Ok max m) (channel : Uri) (clientSeq : Nat)
    (action : StateAction) : Ok max (m.dispatchOptimistic channel clientSeq action) := by
  unfold SubscriptionManager.dispatchOptimistic
  split
  · exact hm
  · split
    · exact hm
    · exact hm.setSub _ _

theorem Ok.dropPendingAction (hm : Ok max m) (resource : Uri) (clientSeq : Nat) :
    Ok max (m.dropPendingAction resource clientSeq) := by
  unfold SubscriptionManager.dropPendingAction
  split
  · exact hm
  · exact hm.setSub _ _

theorem Ok.applyReconnectSnapshot (hm : Ok max m) (resource : Uri) (state : ResourceState)
    (fromSeq : Nat) (preservePending : Bool) :
    Ok max (m.applyReconnectSnapshot resource state fromSeq preservePending) := by
  unfold SubscriptionManager.applyReconnectSnapshot
  split
  · exact hm
  · exact hm.setSub _ _

theorem Ok.setInflightCreates (hm : Ok max m) (inflightCreates : Record Uri Nat) :
    Ok max { m with inflightCreates } :=
  ⟨{ hm.inv with entry := fun j hj => (hm.inv.entry j hj).congr rfl le_rfl rfl Iff.rfl },
    hm.wired, hm.bounded⟩

theorem Ok.fireTimer (hm : Ok max m) (timer id : Nat) : Ok max (m.fireTimer timer id) := by
  obtain ⟨m₁, hm₁⟩ : ∃ m₁, m₁ = m.setEntry id { m.entries id with
      releaseTimer := if (m.entries id).releaseTimer = some timer then none
        else (m.entries id).releaseTimer } := ⟨_, rfl⟩
  have hclear : m.clearTimer timer id =
      { m₁ with timers := m.timers.filter fun t => t.1 ≠ timer } := by rw [hm₁]; rfl
  have hwork₁ : WorkOn id m m₁ := hm₁ ▸ workOn_setEntry rfl
  have hwork : WorkOn id m (m.clearTimer timer id) := by
    rw [hclear]
    exact { hwork₁ with }
  have hwired₁ : Wired m₁ := hm₁ ▸ hm.wired.setEntry rfl rfl rfl
  have hwired : Wired (m.clearTimer timer id) := hclear ▸ hwired₁
  have hcore : EntryCore (m.clearTimer timer id) id ((m.clearTimer timer id).entries id) := by
    have h : EntryCore m id { m.entries id with
        releaseTimer := if (m.entries id).releaseTimer = some timer then none
          else (m.entries id).releaseTimer } := { hm.inv.entry id nofun with }
    unfold clearTimer
    simp only [setEntry_self]
    exact h.congr (isCurrent_setEntry id rfl) le_rfl rfl
  have hbounded : Bounded max (m.clearTimer timer id) := hm.bounded
  exact ⟨((hm.inv.open id).workOn hwork).expire hcore, hwired.expire,
    hbounded.shrinks (shrinks_expire ..)⟩

/-! ## Settling -/

theorem Ok.deliver (hm : Ok max m) (id : Nat) (result : Except String (ResourceState × Nat)) :
    Ok max (m.deliver id result) := by
  unfold SubscriptionManager.deliver
  split
  · split
    · exact hm.setSub _ _
    · exact hm.setSub _ _
  · exact hm

theorem deliver_phase (m : SubscriptionManager) (id : Nat)
    (result : Except String (ResourceState × Nat)) :
    ((m.deliver id result).entries id).phase = (m.entries id).phase := by
  unfold SubscriptionManager.deliver setSub
  split
  · split <;> rw [setEntry_self]
  · rfl

theorem markSettled_entry (m : SubscriptionManager) (id : Nat) :
    (m.markSettled id).entries id = { m.entries id with phase := .settled } := setEntry_self ..

theorem workOn_markSettled (m : SubscriptionManager) (id : Nat) :
    WorkOn id m (m.markSettled id) := by
  have hset : WorkOn id m (m.setEntry id { m.entries id with phase := .settled }) :=
    workOn_setEntry rfl
  refine { hset with allowed := fun e he => ?_ }
  rcases mem_append.mp he with he | he
  · exact .inl he
  · rw [mem_singleton] at he
    exact .inr (he ▸ trivial)

theorem Wired.markSettled (hm : Wired m) (hphase : (m.entries id).phase = .subscribing)
    (hsent : (m.entries id).unsubscribeSent = false) : Wired (m.markSettled id) := by
  obtain ⟨s, hs, hiff⟩ := hm (m.entries id).resource
  have hrequested : s = .requested id := (hiff id).1.mpr ⟨rfl, hphase⟩
  have hactive : ¬AtRest (m.entries id) := fun h => (atRest_iff.mp h).1 hphase
  have hstep : s.step (m.entries id).resource (.settled (m.entries id).resource id) =
      some (.opened id) := by
    simp [hrequested, WireState.step, WireEvent.resource]
  refine hm.call rfl rfl hs hstep (fun j => hm.atRest_of_ne hactive) ?_ ?_
  · intro j
    simp
  · intro j
    simp [hsent, eq_comm]

theorem Ok.settleSubscribe (hm : Ok max m) (hphase : (m.entries id).phase = .subscribing)
    (result : Except String (ResourceState × Nat)) : Ok max (m.settleSubscribe id result) := by
  obtain ⟨m₁, hm₁⟩ : ∃ m₁, m₁ = m.deliver id result := ⟨_, rfl⟩
  have hok₁ : Ok max m₁ := hm₁ ▸ hm.deliver id result
  have hphase₁ : (m₁.entries id).phase = .subscribing := by rw [hm₁, deliver_phase, hphase]
  have hentry := hok₁.inv.entry id nofun
  have hsent : (m₁.entries id).unsubscribeSent = false := by
    cases hs : (m₁.entries id).unsubscribeSent with
    | false => rfl
    | true =>
      have h := hentry.sent hs
      rw [hphase₁] at h
      cases h
  obtain ⟨m₂, hm₂⟩ : ∃ m₂, m₂ = m₁.markSettled id := ⟨_, rfl⟩
  have hentry₂ : m₂.entries id = { m₁.entries id with phase := .settled } := by
    rw [hm₂, markSettled_entry]
  have hphase₂ : (m₂.entries id).phase = .settled := by rw [hentry₂]
  have hwork₂ : WorkOn id m₁ m₂ := hm₂ ▸ workOn_markSettled m₁ id
  have hinv₂ := (hok₁.inv.open id).workOn hwork₂
  have hwired₂ : Wired m₂ := hm₂ ▸ hok₁.wired.markSettled hphase₁ hsent
  have hbounded₂ : Bounded max m₂ := by
    rw [hm₂]
    exact hok₁.bounded
  have hcur₂ : m₂.isCurrent id = m₁.isCurrent id := hm₂ ▸ isCurrent_setEntry id rfl
  have hunborn : ¬m₁.nextEntry ≤ id := fun hid => by
    have h := (hentry.unborn hid).1
    rw [hphase₁] at h
    cases h
  have hwaiting : ¬((m₁.entries id).awaiting.isSome = true) := fun hsome => by
    have h := hentry.waiting hsome
    rw [hphase₁] at h
    cases h
  unfold SubscriptionManager.settleSubscribe
  simp only [← hm₁, ← hm₂]
  split
  · -- The manager was disposed while the request was in flight.
    rename_i hafter
    rw [hentry₂] at hafter
    have hcur : m₂.isCurrent id = false := by
      cases hc : m₁.isCurrent id with
      | false => rw [hcur₂, hc]
      | true =>
        have h := (hentry.current hc).2.2
        rw [hafter] at h
        cases h
    have hwork : WorkOn id m₂ (m₂.disposeSubscriptionEntry id true .managerDisposed) :=
      workOn_disposeSubscriptionEntry fun _ => ⟨hphase₂, trivial⟩
    refine ⟨(hinv₂.workOn hwork).close (entryOk_disposeSubscriptionEntry hcur ?_ ?_ ?_
      (.inr ⟨rfl, hphase₂⟩) hwork), hwired₂.disposeSubscriptionEntry fun _ => hphase₂,
      hbounded₂.shrinks (shrinks_disposeSubscriptionEntry ..)⟩
    · rw [hwork₂.nextEntry]
      exact fun hid => absurd hid hunborn
    · rw [hentry₂]
      exact fun hsome => absurd hsome hwaiting
    · exact fun _ => hphase₂
  · rename_i hafter
    have hnotAfter : (m₁.entries id).unsubscribeAfterSubscribe = false := by
      rw [hentry₂] at hafter
      exact Bool.not_eq_true _ ▸ hafter
    have hcur₁ : m₁.isCurrent id = true := by
      cases hc : m₁.isCurrent id with
      | true => rfl
      | false =>
        rcases hentry.detached hc with hrest | ⟨_, _, h⟩
        · exact absurd hphase₁ (atRest_iff.mp hrest).1
        · rw [hnotAfter] at h
          cases h
    have hcore₂ : EntryCore m₂ id (m₂.entries id) := by
      rw [hentry₂]
      exact {
        unborn := fun hid => absurd (hwork₂.nextEntry ▸ hid) hunborn
        waiting := fun hsome => absurd hsome hwaiting
        sent := fun _ => rfl
        current := fun _ => hentry.current hcur₁
        refs := fun _ => hentry.refs hcur₁
        detached := fun hc => by
          rw [hcur₂, hcur₁] at hc
          cases hc }
    split
    · -- Its release expired while the request was in flight.
      rename_i hend
      rw [Bool.and_eq_true, Bool.and_eq_true, decide_eq_true_iff] at hend
      obtain ⟨⟨hcur, hle⟩, _⟩ := hend
      refine ⟨hinv₂.finalize hcore₂ hcur (.inr ⟨rfl, hphase₂⟩) fun _ => ?_,
        hwired₂.finalize fun _ => hphase₂, hbounded₂.shrinks (shrinks_finalize ..)⟩
      have hrefs := hcore₂.refs hcur
      have hlength : (m₂.entries id).holders.length = 0 := by omega
      exact eq_nil_of_length_eq_zero hlength
    · rename_i hstay
      rw [Bool.and_eq_true, Bool.and_eq_true, decide_eq_true_iff, hcur₂] at hstay
      refine ⟨hinv₂.close { hcore₂ with
        idle := fun hmem => ?_, retained := fun _ hle => ?_ }, hwired₂, hbounded₂⟩
      · rw [hcur₂, hentry₂]
        rw [hm₂] at hmem
        exact hentry.idle hmem
      · rw [hentry₂] at hle hstay ⊢
        rcases hentry.retained hcur₁ hle with h | ⟨_, hexpired⟩
        · rw [hm₂]
          exact .inl h
        · exact absurd ⟨⟨hcur₁, hle⟩, hexpired⟩ hstay

/-! ## Disposal -/

structure Ending (rest : List Nat) (m : SubscriptionManager) : Prop where
  unborn : ∀ id, m.nextEntry ≤ id → (m.entries id).phase = .waitingCreate ∧
    (m.entries id).awaiting = none ∧ (m.entries id).holders = []
  waiting : ∀ id, (m.entries id).awaiting.isSome → (m.entries id).phase = .waitingCreate
  sent : ∀ id, (m.entries id).unsubscribeSent → (m.entries id).phase = .settled
  ended : ∀ id, id ∉ rest → AtRest (m.entries id) ∨
    (m.entries id).phase = .subscribing ∧ (m.entries id).unsubscribeAfterSubscribe = true
  allowed : ∀ e ∈ m.wire, e.Allowed
  wired : Wired m

theorem disposeEntry_entry (m : SubscriptionManager) (id : Nat) : ∃ sub localDisposed,
    (m.disposeEntry id).entries id =
      { m.entries id with
        sub, localDisposed, releaseTimer := none
        unsubscribeSent := (m.entries id).unsubscribeSent || (m.entries id).phase = .settled
        unsubscribeAfterSubscribe :=
          (m.entries id).unsubscribeAfterSubscribe || (m.entries id).phase = .subscribing } := by
  unfold disposeEntry
  split
  · rename_i hphase
    obtain ⟨sub, localDisposed, h⟩ := disposeSubscriptionEntry_entry
      (m.setEntry id { m.entries id with unsubscribeAfterSubscribe := true }) id false
      .managerDisposed
    refine ⟨sub, localDisposed, ?_⟩
    rw [h, setEntry_self]
    simp [hphase]
  · rename_i hphase
    obtain ⟨sub, localDisposed, h⟩ := disposeSubscriptionEntry_entry m id
      ((m.entries id).phase = .settled) .managerDisposed
    refine ⟨sub, localDisposed, ?_⟩
    rw [h]
    simp [hphase]

theorem workOn_disposeEntry (m : SubscriptionManager) (id : Nat) :
    WorkOn id m (m.disposeEntry id) := by
  unfold disposeEntry
  split
  · have hset : WorkOn id m (m.setEntry id { m.entries id with
        unsubscribeAfterSubscribe := true }) := workOn_setEntry rfl
    exact hset.trans (workOn_disposeSubscriptionEntry nofun)
  · exact workOn_disposeSubscriptionEntry fun h => ⟨of_decide_eq_true h, trivial⟩

theorem Wired.disposeEntry (hm : Wired m) : Wired (m.disposeEntry id) := by
  unfold SubscriptionManager.disposeEntry
  split
  · have hset : Wired (m.setEntry id { m.entries id with unsubscribeAfterSubscribe := true }) :=
      hm.setEntry rfl rfl rfl
    exact hset.disposeSubscriptionEntry nofun
  · exact hm.disposeSubscriptionEntry fun h => of_decide_eq_true h

theorem Ending.disposeEntry (hm : Ending (id :: rest) m) : Ending rest (m.disposeEntry id) := by
  have hwork := workOn_disposeEntry m id
  obtain ⟨sub, localDisposed, hentry⟩ := disposeEntry_entry m id
  refine ⟨fun j hj => ?_, fun j => ?_, fun j => ?_, fun j hj => ?_,
    fun e he => (hwork.allowed e he).elim (hm.allowed e) fun h => h, hm.wired.disposeEntry⟩
  · rw [hwork.nextEntry] at hj
    by_cases hne : j = id
    · subst hne
      rw [hentry]
      exact hm.unborn j hj
    · rw [hwork.entries j hne]
      exact hm.unborn j hj
  · by_cases hne : j = id
    · subst hne
      rw [hentry]
      exact hm.waiting j
    · rw [hwork.entries j hne]
      exact hm.waiting j
  · by_cases hne : j = id
    · subst hne
      rw [hentry]
      intro hsent
      rw [Bool.or_eq_true, decide_eq_true_iff] at hsent
      exact hsent.elim (hm.sent j) fun h => h
    · rw [hwork.entries j hne]
      exact hm.sent j
  · by_cases hne : j = id
    · subst hne
      rw [hentry]
      cases hphase : (m.entries j).phase with
      | waitingCreate => exact .inl (.inl hphase)
      | subscribing =>
        refine .inr ⟨rfl, ?_⟩
        simp
      | settled =>
        refine .inl (.inr ⟨hphase, ?_⟩)
        simp
    · rw [hwork.entries j hne]
      exact hm.ended j fun hmem => (mem_cons.mp hmem).elim hne hj

theorem Ending.foldl (hm : Ending rest m) :
    Ending [] (rest.foldl SubscriptionManager.disposeEntry m) := by
  induction rest generalizing m with
  | nil => exact hm
  | cons id rest ih => exact ih hm.disposeEntry

theorem foldl_disposeEntry_maxIdle (rest : List Nat) (m : SubscriptionManager) :
    (rest.foldl SubscriptionManager.disposeEntry m).maxIdleSubscriptions =
      m.maxIdleSubscriptions := by
  induction rest generalizing m with
  | nil => rfl
  | cons id rest ih =>
    rw [foldl_cons, ih]
    unfold SubscriptionManager.disposeEntry
    split <;> exact (shrinks_disposeSubscriptionEntry ..).maxIdleSubscriptions

theorem Ok.dispose (hm : Ok max m) : Ok max m.dispose := by
  have hstart : Ending (m.subscriptions.entries.map Prod.snd) m := by
    refine ⟨fun id => (hm.inv.entry id nofun).unborn, fun id => (hm.inv.entry id nofun).waiting,
      fun id => (hm.inv.entry id nofun).sent, fun id hid => ?_, hm.inv.allowed, hm.wired⟩
    have hcur : m.isCurrent id = false := by
      cases hc : m.isCurrent id with
      | false => rfl
      | true =>
        have hmem := mem_of_get (isCurrent_iff.mp hc)
        exact absurd (mem_map_of_mem hmem) hid
    rcases (hm.inv.entry id nofun).detached hcur with hrest | ⟨_, h⟩
    · exact .inl hrest
    · exact .inr h
  have hend := hstart.foldl
  refine ⟨⟨fun id _ => ?_, fun _ _ h => (by cases h), fun _ _ => rfl, hend.allowed⟩,
    hend.wired, ⟨(foldl_disposeEntry_maxIdle _ m).trans hm.bounded.1, Nat.zero_le _⟩⟩
  have hcur : m.dispose.isCurrent id = false := decide_eq_false nofun
  exact {
    unborn := hend.unborn id
    waiting := hend.waiting id
    sent := hend.sent id
    current := fun hc => by
      rw [hcur] at hc
      cases hc
    refs := fun hc => by
      rw [hcur] at hc
      cases hc
    detached := fun _ => (hend.ended id not_mem_nil).imp_right fun h => ⟨rfl, h⟩
    idle := nofun
    retained := fun hc => by
      rw [hcur] at hc
      cases hc }

/-! ## Runs -/

def system (releaseGraceMs maxIdleSubscriptions : Int) : System SubscriptionManager ManagerEvent :=
  .ofStep (fun m => m = create clientId releaseGraceMs maxIdleSubscriptions) step

theorem ok_create (releaseGraceMs max : Int) : Ok max (create clientId releaseGraceMs max) := by
  refine ⟨⟨fun id _ => ?_, fun _ _ h => (by cases h), fun h => (by cases h),
    fun _ he => absurd he not_mem_nil⟩, fun resource => ⟨.closed, rfl, fun id => ?_⟩,
    ⟨rfl, Nat.zero_le _⟩⟩
  · exact {
      unborn := fun _ => ⟨rfl, rfl, rfl⟩
      waiting := nofun
      sent := nofun
      current := nofun
      refs := nofun
      detached := fun _ => .inl (.inl rfl)
      idle := nofun
      retained := nofun }
  · simp [create, unbornEntry]

theorem Ok.step (hm : Ok max m) {e : ManagerEvent} (h : m.step e = some m') : Ok max m' := by
  cases e with
  | getSubscription kind resource => exact hm.getSubscription h
  | disposeReference id ownerId =>
    cases h
    exact hm.disposeReference ownerId
  | fireTimer timer id =>
    obtain ⟨_, h⟩ := ite_none_right_eq_some.mp h
    cases h
    exact hm.fireTimer timer id
  | trackSessionCreate resource promise =>
    cases h
    unfold trackSessionCreate
    split
    · exact hm
    · exact hm.setInflightCreates _
  | settleCreate resource promise =>
    cases h
    unfold settleCreate
    split
    · exact hm.setInflightCreates _
    · exact hm
  | resumeCreate id =>
    obtain ⟨hwait, h⟩ := ite_none_right_eq_some.mp h
    cases h
    exact hm.resumeCreate hwait
  | settleSubscribe id result =>
    obtain ⟨hphase, h⟩ := ite_none_right_eq_some.mp h
    cases h
    exact hm.settleSubscribe hphase result
  | receiveEnvelope envelope =>
    cases h
    exact hm.receiveEnvelope envelope
  | dispatchOptimistic channel clientSeq action =>
    cases h
    exact hm.dispatchOptimistic channel clientSeq action
  | dropPendingAction resource clientSeq =>
    cases h
    exact hm.dropPendingAction resource clientSeq
  | markMissing missing =>
    cases h
    exact hm.markSubscriptionsMissing missing
  | applyReconnectSnapshot resource state fromSeq preservePending =>
    cases h
    exact hm.applyReconnectSnapshot ..
  | dispose =>
    cases h
    exact hm.dispose

theorem ok_of_reachable {clientId : ClientId} {releaseGraceMs : Int}
    (h : (system clientId releaseGraceMs max).Reachable m) : Ok max m := by
  refine System.ReachableVia.invariant ?_ ?_ h
  · rintro _ rfl
    exact ok_create clientId releaseGraceMs max
  · intro m e m' hm _ hstep
    exact hm.step hstep

theorem Ok.unsubscribe_justified (hm : Ok max m) {cause : UnsubscribeCause} {entry : ManagedEntry}
    (h : WireEvent.unsubscribe resource id cause entry ∈ m.wire) :
    entry.phase = .settled ∧ (entry.holders = [] ∨
      cause = .evicted ∧ entry.sub.failed = true ∨ cause = .managerDisposed) := by
  obtain ⟨_, hphase, hcause⟩ := hm.inv.allowed _ h
  refine ⟨hphase, ?_⟩
  cases cause with
  | evicted => exact .inr (.inl ⟨rfl, hcause⟩)
  | released => exact .inl hcause
  | managerDisposed => exact .inr (.inr rfl)

/-- In every run each call follows the call it answers to, an `unsubscribe` meets a
settled entry without live references, apart from failed entries that are replaced
and the end of the manager, stale references change nothing but their own entry,
and the unreferenced entries kept are idle ones, at most the configured maximum,
or wait for their subscribe. -/
theorem manager_wire {clientId : ClientId} {releaseGraceMs : Int}
    (h : (system clientId releaseGraceMs max).Reachable m) :
    (∀ before e after, m.wire = before ++ e :: after → e.Follows (lastCall e.resource before)) ∧
    (∀ resource id cause entry, WireEvent.unsubscribe resource id cause entry ∈ m.wire →
      entry.phase = .settled ∧ (entry.holders = [] ∨
        cause = .evicted ∧ entry.sub.failed = true ∨ cause = .managerDisposed)) ∧
    (∀ id ownerId, m.isCurrent id = false →
      (∀ j, j ≠ id → (m.disposeReference id ownerId).entries j = m.entries j) ∧
      (m.disposeReference id ownerId).subscriptions = m.subscriptions ∧
      (m.disposeReference id ownerId).idleSubscriptions = m.idleSubscriptions ∧
      (m.disposeReference id ownerId).timers = m.timers ∧
      (m.disposeReference id ownerId).wire = m.wire) ∧
    m.idleSubscriptions.length ≤ max.toNat ∧
    (∀ id, m.isCurrent id = true → (m.entries id).refCount ≤ 0 →
      id ∈ m.idleSubscriptions.map Prod.fst ∨
        (m.entries id).phase = .subscribing ∧ (m.entries id).releaseExpired = true) := by
  have hm := ok_of_reachable h
  refine ⟨fun before e after hwire => ?_, fun resource id cause entry he =>
    hm.unsubscribe_justified he, fun id ownerId hcur => ?_, hm.bounded.2,
    fun id => (hm.inv.entry id nofun).retained⟩
  · obtain ⟨s, hs, _⟩ := hm.wired e.resource
    have haccepted : (wireState e.resource (before ++ e :: after)).isSome := by
      rw [← hwire, hs]
      rfl
    exact follows_of_accepted haccepted
  · rw [disposeReference_of_stale hcur]
    exact ⟨fun j hj => setEntry_of_ne hj .., rfl, rfl, rfl, rfl⟩

/-! ### A run that ends early -/

def sessionAnnotations : Uri := .annotations (.session "copilot" "s")

def disposedEarly : List ManagerEvent :=
  [.getSubscription (.writeAhead .annotations) sessionAnnotations,
    .settleSubscribe 0 (.error "not found"),
    .getSubscription (.writeAhead .annotations) sessionAnnotations,
    .disposeReference 0 1,
    .settleSubscribe 1 (.ok (.writeAhead .annotations ⟨[]⟩, 0)),
    .dispose]

theorem manager_wire_disposedEarly : ∃ m, disposedEarly.foldlM step (create "c" 30000 10) = some m ∧
      m.wire.length = 6 ∧ m.idleSubscriptions.length ≤ (10 : Int).toNat := by
  refine ⟨_, rfl, rfl, ?_⟩
  have hrun : (system "c" 30000 10).Reachable
      ((disposedEarly.foldlM step (create "c" 30000 10)).get rfl) :=
    System.Reachable.run (.init rfl) disposedEarly rfl
  exact (manager_wire hrun).2.2.2.1

/-- The end of the manager does not wait for its references. -/
theorem not_always_unreferenced : ¬ ∀ m, (system "c" 30000 10).Reachable m →
    ∀ resource id cause entry, WireEvent.unsubscribe resource id cause entry ∈ m.wire →
      entry.holders = [] ∨ cause = .evicted ∧ entry.sub.failed = true := by
  intro h
  have hrun : (system "c" 30000 10).Reachable
      ((disposedEarly.foldlM step (create "c" 30000 10)).get rfl) :=
    System.Reachable.run (.init rfl) disposedEarly rfl
  rcases h _ hrun sessionAnnotations 1 .managerDisposed _ (mem_append_right _
    mem_cons_self) with hholders | ⟨hcause, _⟩
  · cases hholders
  · cases hcause

end SubscriptionManager

end Fumie.AgentHost
