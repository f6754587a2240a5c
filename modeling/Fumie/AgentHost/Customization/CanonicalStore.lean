import Fumie.AgentHost.Customization.ScopedWrites

/-!
# The store of durable decisions is canonical

From an empty store on, the list of last writes is exactly the list of the stored
decisions, and a workspace decision beside a stored global one overrides it. Where the
global decision was cleared or evicted, a workspace decision may say what is inherited.
-/

namespace Fumie.AgentHost

open Fumie.Lib List

variable {lru : List LruEntry}

namespace CustomizationEnablementService

/-- A step of the service, or a new service over what it stored. -/
def storeStep (s : CustomizationEnablementService) :
    EnablementEvent ⊕ (Uri → SessionInfo) → Option CustomizationEnablementService
  | .inl event => s.step event
  | .inr sessions => some (create s.persistent s.lru sessions)

/-- The service over a store that was empty once. -/
def storeSystem : System CustomizationEnablementService (EnablementEvent ⊕ (Uri → SessionInfo)) :=
  .ofStep (fun s => ∃ sessions, s = create ⟨.empty, .empty⟩ [] sessions) storeStep

structure Canonical (s : CustomizationEnablementService) : Prop where
  nodup : s.lru.Nodup
  decided : ∀ e ∈ s.lru, (s.persistent.decision e).isSome
  overrides : ∀ key directory v, s.persistent.decision (.global key) = some v →
    s.persistent.decision (.workspace key directory) ≠ some v

/-- A workspace decision that says what is inherited without a client base. -/
def Redundant (s : CustomizationEnablementService) (key : String) (directory : Uri) : Prop :=
  s.persistent.decision (.workspace key directory) =
    some ((s.persistent.decision (.global key)).getD defaultCustomizationEnabled)

variable {s s' : CustomizationEnablementService}

/-! ## Writes -/

theorem nodup_removeLru (h : lru.Nodup) (e : LruEntry) : (removeLru lru e).Nodup :=
  h.filter _

theorem nodup_foldl_removeLru (h : lru.Nodup) (es : List LruEntry) :
    (es.foldl removeLru lru).Nodup := by
  induction es generalizing lru with
  | nil => exact h
  | cons e rest ih => exact ih (nodup_removeLru h e)

theorem nodup_setPersistentDecision (h : lru.Nodup) (entry : LruEntry)
    (decisions : Record String Bool) (key : String) (enabled : Option Bool) (inherited : Bool) :
    (setPersistentDecision entry decisions lru key enabled inherited).2.Nodup := by
  rw [setPersistentDecision_eq]
  cases storedValue enabled inherited with
  | none => exact nodup_removeLru h entry
  | some v =>
    refine nodup_append.mpr ⟨nodup_removeLru h entry, nodup_singleton _, ?_⟩
    rintro e he e' he' rfl
    exact (mem_removeLru.mp he).2 (mem_singleton.mp he')

theorem Canonical.persist (h : s.Canonical) : s.persist.Canonical := by
  have hsplit := take_append_drop (s.lru.length - MAX_PERSISTED_DECISIONS) s.lru
  refine ⟨?_, fun e he => ?_, fun key directory v hglobal hworkspace => ?_⟩
  · rw [lru_persist]
    exact h.nodup.sublist (drop_sublist _ _)
  · rw [lru_persist] at he
    have hkept : e ∉ s.toEvict := fun hmem =>
      disjoint_of_nodup_append (hsplit.symm ▸ h.nodup) hmem he
    rw [decision_persist, if_neg hkept]
    exact h.decided e (mem_of_mem_drop he)
  · rw [decision_persist] at hglobal hworkspace
    split_ifs at hglobal hworkspace
    exact h.overrides key directory v hglobal hworkspace

theorem Canonical.writeGlobal (h : s.Canonical) (session : Uri) (key : String)
    (enabled : Option Bool) : (s.writeGlobal session key enabled).Canonical := by
  refine ⟨nodup_foldl_removeLru (nodup_setPersistentDecision h.nodup ..) _, fun e he => ?_,
    fun key' directory v hglobal hworkspace => ?_⟩
  · obtain ⟨hmem, hkept⟩ := (mem_lru_writeGlobal ..).mp he
    rw [decision_writeGlobal]
    split_ifs at hmem ⊢ with hkey
    · exact hmem
    · exact h.decided e hmem
  · rw [decision_writeGlobal] at hglobal hworkspace
    simp only [reduceCtorEq, if_false] at hworkspace
    split_ifs at hworkspace with hprunes
    split_ifs at hglobal with hkey
    · cases hkey
      exact hprunes ⟨directory, v, rfl, hglobal, hworkspace⟩
    · exact h.overrides key' directory v hglobal hworkspace

theorem Canonical.writeWorkspace (h : s.Canonical) (session : Uri) (key : String)
    (directory : Uri) (enabled : Option Bool) :
    (s.writeWorkspace session key directory enabled).Canonical := by
  refine ⟨nodup_setPersistentDecision h.nodup .., fun e he => ?_,
    fun key' directory' v hglobal hworkspace => ?_⟩
  · rw [mem_lru_writeWorkspace] at he
    rw [decision_writeWorkspace]
    split_ifs at he ⊢ with hkey
    · exact he
    · exact h.decided e he
  · rw [decision_writeWorkspace] at hglobal hworkspace
    simp only [reduceCtorEq, if_false] at hglobal
    split_ifs at hworkspace with hkey
    · cases hkey
      have hinherited : s.globalEnablement session key = v := by
        rw [globalEnablement, globalDecision, show s.persistent.global.get key = some v from hglobal]
        rfl
      rw [storedWorkspace, hinherited] at hworkspace
      simp [storedValue, Option.filter_eq_some_iff] at hworkspace
    · exact h.overrides key' directory' v hglobal hworkspace

theorem Canonical.write (h : s.Canonical) (hw : StoreWrite s s') : s'.Canonical := by
  cases hw with
  | global session key enabled => exact (h.writeGlobal session key enabled).persist
  | workspace session key directory enabled =>
    exact (h.writeWorkspace session key directory enabled).persist
  | elsewhere _ hpersistent hlru =>
    obtain ⟨hnodup, hdecided, hoverrides⟩ := h
    rw [← hlru] at hnodup hdecided
    rw [← hpersistent] at hdecided hoverrides
    exact ⟨hnodup, hdecided, hoverrides⟩

theorem Canonical.writes (h : s.Canonical) (hw : StoreWrites s s') : s'.Canonical := by
  induction hw with
  | refl => exact h
  | tail _ hwrite ih => exact ih.write hwrite

/-! ## Reading the store back -/

theorem reconcile_eq {p : PersistedEnablement} (h : ∀ e, e ∈ lru ↔ (p.decision e).isSome) :
    reconcile p lru = lru := by
  have hvalid : lru.filter (fun entry => entry ∈ p.entries) = lru :=
    filter_eq_self.mpr fun e he => decide_eq_true ((p.mem_entries e).mpr ((h e).mp he))
  have hrest : (p.entries.filter fun entry => entry ∉ lru) = [] :=
    filter_eq_nil_iff.mpr fun e he => by simpa using (h e).mpr ((p.mem_entries e).mp he)
  rw [reconcile, hvalid, hrest, append_nil]

theorem Canonical.reload (h : s.Canonical) (hb : s.Bounded) (sessions : Uri → SessionInfo) :
    (create s.persistent s.lru sessions).Canonical := by
  have hlisted : ∀ e, e ∈ s.lru ↔ (s.persistent.dropEmpty.decision e).isSome := fun e => by
    rw [PersistedEnablement.decision_dropEmpty]
    exact ⟨h.decided e, hb.listed e⟩
  have hshort : s.lru.length - MAX_PERSISTED_DECISIONS = 0 := Nat.sub_eq_zero_of_le hb.bounded
  have hlru : (create s.persistent s.lru sessions).lru = s.lru := by
    rw [create, reconcile_eq hlisted, evictLru_eq, hshort]
    rfl
  have hdecision (e : LruEntry) :
      (create s.persistent s.lru sessions).persistent.decision e = s.persistent.decision e := by
    rw [create, reconcile_eq hlisted, evictLru_eq, hshort]
    exact PersistedEnablement.decision_dropEmpty _ e
  refine ⟨by rw [hlru]; exact h.nodup, fun e he => ?_, fun key directory v hglobal => ?_⟩
  · rw [hlru] at he
    rw [hdecision]
    exact h.decided e he
  · rw [hdecision] at hglobal ⊢
    exact h.overrides key directory v hglobal

theorem canonical_of_reachable (h : storeSystem.Reachable s) : s.Bounded ∧ s.Canonical := by
  refine @System.ReachableVia.invariant _ _ _ _ (fun s => s.Bounded ∧ s.Canonical) ?_ ?_ _ h
  · rintro s ⟨sessions, rfl⟩
    exact ⟨bounded_create .., nodup_nil, nofun, nofun⟩
  · rintro s (event | sessions) s' ⟨hb, hc⟩ _ hs
    · exact ⟨hb.writes (.step hs), hc.writes (.step hs)⟩
    · cases hs
      exact ⟨bounded_create .., hc.reload hb sessions⟩

/-! ## One write -/

theorem mem_persist {e : LruEntry} {v : Bool} (h : s.persist.persistent.decision e = some v) :
    s.persistent.decision e = some v := by
  rw [decision_persist] at h
  split_ifs at h
  exact h

/-- What stays keeps its order, and the entry written is the last. -/
def WrittenLast (lru lru' : List LruEntry) : Prop :=
  ∃ kept written, kept <+ lru ∧ written.length ≤ 1 ∧ lru' = kept ++ written

theorem writtenLast_setPersistentDecision (entry : LruEntry) (decisions : Record String Bool)
    (lru : List LruEntry) (key : String) (enabled : Option Bool) (inherited : Bool) :
    WrittenLast lru (setPersistentDecision entry decisions lru key enabled inherited).2 := by
  rw [setPersistentDecision_eq]
  cases storedValue enabled inherited with
  | none => exact ⟨_, [], filter_sublist, Nat.zero_le _, (append_nil _).symm⟩
  | some v => exact ⟨_, [entry], filter_sublist, Nat.le_refl _, rfl⟩

theorem WrittenLast.foldl_removeLru {lru' : List LruEntry} (h : WrittenLast lru lru')
    (es : List LruEntry) : WrittenLast lru (es.foldl removeLru lru') := by
  induction es generalizing lru' with
  | nil => exact h
  | cons e rest ih =>
    obtain ⟨kept, written, hkept, hwritten, rfl⟩ := h
    exact ih ⟨_, _, filter_sublist.trans hkept, (length_filter_le _ _).trans hwritten,
      filter_append ..⟩

/-- A write evicts from the front of the list it has changed. -/
theorem lru_write (hw : StoreWrite s s') : ∃ lru n, WrittenLast s.lru lru ∧ s'.lru = lru.drop n ∧
    (n = 0 ∨ n = lru.length - MAX_PERSISTED_DECISIONS) := by
  cases hw with
  | global session key enabled =>
    exact ⟨_, _, (writtenLast_setPersistentDecision ..).foldl_removeLru _, lru_persist _, .inr rfl⟩
  | workspace session key directory enabled =>
    exact ⟨_, _, writtenLast_setPersistentDecision .., lru_persist _, .inr rfl⟩
  | elsewhere _ _ hlru =>
    exact ⟨_, 0, ⟨s.lru, [], Sublist.refl _, Nat.zero_le _, (append_nil _).symm⟩, hlru, .inl rfl⟩

theorem redundant_write {key : String} {directory : Uri} (hw : StoreWrite s s')
    (hclient : ∀ session, s.clientGlobal session key = none)
    (hkept : (s.persistent.decision (.global key)).isSome →
      (s'.persistent.decision (.global key)).isSome)
    (h : s'.Redundant key directory) : s.Redundant key directory := by
  rw [Redundant] at h ⊢
  cases hw with
  | global session key' enabled =>
    have hworkspace := mem_persist h
    rw [decision_writeGlobal, if_neg (by simp)] at hworkspace
    split_ifs at hworkspace with hprunes
    cases hglobal : (s.setGlobal session key' enabled).persistent.decision (.global key) with
    | none =>
      rw [hglobal, Option.isSome_none, Bool.false_eq_true, imp_false, Option.not_isSome_iff_eq_none]
        at hkept
      rw [hkept, hworkspace, hglobal]
    | some v =>
      rw [hglobal] at hworkspace
      have hwritten := mem_persist hglobal
      rw [decision_writeGlobal] at hwritten
      split_ifs at hwritten with hkey
      · cases hkey
        exact absurd ⟨directory, v, rfl, hwritten, hworkspace⟩ hprunes
      · rw [hworkspace, hwritten]
  | workspace session key' directory' enabled =>
    have hglobal : (s.setWorkspace session key' directory' enabled).persistent.decision
        (.global key) = s.persistent.decision (.global key) := by
      cases hafter : (s.setWorkspace session key' directory' enabled).persistent.decision
          (.global key) with
      | none =>
        rw [hafter, Option.isSome_none, Bool.false_eq_true, imp_false,
          Option.not_isSome_iff_eq_none] at hkept
        rw [hkept]
      | some v =>
        have hwritten := mem_persist hafter
        rw [decision_writeWorkspace, if_neg (by simp)] at hwritten
        rw [hwritten]
    rw [hglobal] at h
    have hworkspace := mem_persist h
    rw [decision_writeWorkspace] at hworkspace
    split_ifs at hworkspace with hkey
    · cases hkey
      have hinherited : s.globalEnablement session key =
          (s.persistent.decision (.global key)).getD defaultCustomizationEnabled := by
        rw [globalEnablement, globalDecision, hclient, PersistedEnablement.decision]
        cases s.persistent.global.get key with
        | none | some _ => rfl
      rw [storedWorkspace, hinherited] at hworkspace
      simp [storedValue, Option.filter_eq_some_iff] at hworkspace
    · exact hworkspace
  | elsewhere _ hpersistent _ => rwa [hpersistent] at h

/-- The first session overrides its own global decision in its directory, the second one
clears the global decision. -/
def clearedEvents : List EnablementEvent :=
  loadEvents ++
    [.setEnablement firstSession samplePlugin .global false,
      .setEnablement firstSession samplePlugin .workspace true,
      .setEnablement secondSession samplePlugin .global true]

def clearedService : CustomizationEnablementService :=
  (clearedEvents.foldlM step emptyService).getD emptyService

end CustomizationEnablementService

end Fumie.AgentHost
