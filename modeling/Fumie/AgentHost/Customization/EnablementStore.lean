import Fumie.AgentHost.Customization.EnablementService

/-!
# The store of durable decisions over whole runs

Every stored decision has its entry in the list of last writes, and the list is within
its bound. So a write that stores no decision that was not stored before evicts nothing,
and one that does evicts the oldest other decision.
-/

namespace Fumie.AgentHost

open Fumie.Lib List Record

/-! ## Decisions after a change of the store -/

namespace PersistedEnablement

variable (p : PersistedEnablement)

variable (e : LruEntry)

theorem decision_drop (e' : LruEntry) :
    (p.drop e).decision e' = if e = e' then none else p.decision e' := by
  cases e with
  | global key =>
    cases e' with
    | global key' =>
      simp only [drop, decision, get_delete, LruEntry.global.injEq]
    | workspace key' directory' => rfl
  | workspace key directory =>
    cases e' with
    | global key' =>
      rw [if_neg (by simp)]
      simp only [drop]
      split
      · rfl
      · rfl
    | workspace key' directory' =>
      cases hget : p.workingDirectories.get directory with
      | none =>
        simp only [drop, hget, LruEntry.workspace.injEq]
        split
        · rename_i heq
          rw [← heq.1, ← heq.2]
          simp only [decision, hget, Option.bind_none]
        · rfl
      | some values =>
        simp only [drop, hget, decision, get_set, LruEntry.workspace.injEq]
        by_cases hd : directory = directory'
        · subst hd
          simp only [if_pos, hget, Option.bind_some, get_delete, and_true]
        · simp only [hd, if_false, and_false]

theorem decision_foldl_drop (es : List LruEntry) (e : LruEntry) :
    (es.foldl drop p).decision e = if e ∈ es then none else p.decision e := by
  induction es generalizing p with
  | nil => simp
  | cons e' rest ih =>
    rw [foldl_cons, ih, decision_drop]
    by_cases hrest : e ∈ rest
    · simp [hrest]
    · by_cases he : e = e'
      · simp [he]
      · simp [hrest, he, Ne.symm he]

@[simp] theorem decision_dropEmpty : p.dropEmpty.decision e = p.decision e := by
  cases e with
  | global key => rfl
  | workspace key directory =>
    simp only [dropEmpty, decision, get_filter_eq]
    cases hget : p.workingDirectories.get directory with
    | none => rfl
    | some values =>
      by_cases hempty : values.isEmpty = true
      · have hnone : values.get key = none := by
          have hnil : values.entries = [] := isEmpty_iff.mp hempty
          unfold Record.get
          rw [hnil]
          rfl
        simp [hempty, hnone]
      · rw [Option.filter_some, if_pos (by simpa using hempty)]

theorem mem_redundantWorkspaceDecisions (key : String) (e : LruEntry) :
    e ∈ p.redundantWorkspaceDecisions key ↔ ∃ directory inherited, e = .workspace key directory ∧
        p.decision (.global key) = some inherited ∧
        p.decision (.workspace key directory) = some inherited := by
  unfold redundantWorkspaceDecisions decision
  cases hglobal : p.global.get key with
  | none => simp [hglobal]
  | some inherited =>
    simp only [hglobal, mem_map, mem_filter, decide_eq_true_eq, Prod.exists]
    constructor
    · rintro ⟨directory, values, ⟨hmem, hvalue⟩, rfl⟩
      refine ⟨directory, inherited, rfl, rfl, ?_⟩
      rw [Record.get_of_mem hmem]
      exact hvalue
    · rintro ⟨directory, other, rfl, heq, hvalue⟩
      cases heq
      obtain ⟨values, hget, hvalue⟩ := Option.bind_eq_some_iff.mp hvalue
      exact ⟨directory, values, ⟨mem_of_get hget, hvalue⟩, rfl⟩

theorem mem_entries : e ∈ p.entries ↔ (p.decision e).isSome := by
  unfold entries
  rw [mem_append]
  cases e with
  | global key =>
    simp [decision, mem_keys_iff, Option.isSome_iff_exists]
  | workspace key directory =>
    simp only [mem_map, reduceCtorEq, and_false, exists_false, mem_flatMap, Prod.exists,
      LruEntry.workspace.injEq, false_or, mem_insertionSort, decision]
    constructor
    · rintro ⟨directory, values, hmem, key, hkey, rfl, rfl⟩
      rw [Record.get_of_mem hmem]
      exact Option.isSome_iff_exists.mpr (mem_keys_iff.mp hkey)
    · intro h
      obtain ⟨v, hv⟩ := Option.isSome_iff_exists.mp h
      obtain ⟨values, hget, hvalue⟩ := Option.bind_eq_some_iff.mp hv
      exact ⟨directory, values, mem_of_get hget, key, mem_keys_iff.mpr ⟨v, hvalue⟩, rfl, rfl⟩

end PersistedEnablement

/-! ## The list of last writes -/

theorem mem_removeLru {lru : List LruEntry} {e e' : LruEntry} :
    e ∈ removeLru lru e' ↔ e ∈ lru ∧ e ≠ e' := by
  unfold removeLru
  rw [mem_filter, decide_eq_true_eq]

theorem mem_foldl_removeLru {lru es : List LruEntry} {e : LruEntry} :
    e ∈ es.foldl removeLru lru ↔ e ∈ lru ∧ e ∉ es := by
  induction es generalizing lru with
  | nil => simp
  | cons e' rest ih =>
    rw [foldl_cons, ih, mem_removeLru, mem_cons, not_or, and_assoc]

theorem length_removeLru (lru : List LruEntry) (e : LruEntry) :
    (removeLru lru e).length ≤ lru.length :=
  length_filter_le _ _

theorem length_removeLru_lt {lru : List LruEntry} {e : LruEntry} (h : e ∈ lru) :
    (removeLru lru e).length < lru.length :=
  length_filter_lt_length_iff_exists.mpr ⟨e, h, by simp⟩

theorem length_foldl_removeLru (lru es : List LruEntry) :
    (es.foldl removeLru lru).length ≤ lru.length := by
  induction es generalizing lru with
  | nil => exact le_refl _
  | cons e rest ih => exact le_trans (ih _) (length_removeLru lru e)

def storedValue (enabled : Option Bool) (inherited : Bool) : Option Bool :=
  enabled.filter (· ≠ inherited)

theorem setPersistentDecision_eq (entry : LruEntry) (decisions : Record String Bool)
    (lru : List LruEntry) (key : String) (enabled : Option Bool) (inherited : Bool) :
    setPersistentDecision entry decisions lru key enabled inherited =
      match storedValue enabled inherited with
      | none => (decisions.delete key, removeLru lru entry)
      | some v => (decisions.set key v, touchLru lru entry) := by
  cases enabled with
  | none => rfl
  | some v =>
    unfold setPersistentDecision storedValue
    by_cases h : v = inherited
    · simp [h, Option.filter_some]
    · simp [h, Option.filter_some]

section

variable (entry : LruEntry) (decisions : Record String Bool) (lru : List LruEntry) (key : String)
  (enabled : Option Bool) (inherited : Bool)

theorem get_setPersistentDecision (key' : String) :
    (setPersistentDecision entry decisions lru key enabled inherited).1.get key' =
      if key = key' then storedValue enabled inherited else decisions.get key' := by
  rw [setPersistentDecision_eq]
  cases storedValue enabled inherited with
  | none => exact get_delete decisions key key'
  | some v => exact get_set decisions key key' v

theorem mem_setPersistentDecision (e : LruEntry) :
    e ∈ (setPersistentDecision entry decisions lru key enabled inherited).2 ↔
      if e = entry then (storedValue enabled inherited).isSome = true else e ∈ lru := by
  rw [setPersistentDecision_eq]
  by_cases he : e = entry
  · subst he
    cases storedValue enabled inherited with
    | none => simp [mem_removeLru]
    | some v => simp [touchLru]
  · cases storedValue enabled inherited with
    | none => simp [mem_removeLru, he]
    | some v => simp [touchLru, mem_removeLru, he]

variable {entry decisions lru key enabled inherited} in
theorem length_setPersistentDecision
    (h : (storedValue enabled inherited).isSome = true → entry ∈ lru) :
    (setPersistentDecision entry decisions lru key enabled inherited).2.length ≤ lru.length := by
  rw [setPersistentDecision_eq]
  cases hstored : storedValue enabled inherited with
  | none => exact length_removeLru lru entry
  | some v =>
    have hlt := length_removeLru_lt (h (by rw [hstored]; rfl))
    show (removeLru lru entry ++ [entry]).length ≤ lru.length
    rw [length_append]
    exact hlt

end

theorem evictLru_eq (p : PersistedEnablement) (lru : List LruEntry) : evictLru p lru =
      ((lru.take (lru.length - MAX_PERSISTED_DECISIONS)).foldl PersistedEnablement.drop p,
        lru.drop (lru.length - MAX_PERSISTED_DECISIONS),
        lru.take (lru.length - MAX_PERSISTED_DECISIONS)) := by
  induction lru generalizing p with
  | nil => rfl
  | cons entry rest ih =>
    unfold evictLru
    split
    · rename_i hlong
      rw [length_cons] at hlong ⊢
      have hsucc : rest.length + 1 - MAX_PERSISTED_DECISIONS =
          (rest.length - MAX_PERSISTED_DECISIONS) + 1 := by omega
      rw [ih, hsucc, take_succ_cons, drop_succ_cons, foldl_cons]
    · rename_i hshort
      rw [Nat.sub_eq_zero_of_le (Nat.le_of_not_lt hshort)]
      rfl

variable {p : PersistedEnablement}

theorem evictLru_listed {lru : List LruEntry} (h : ∀ e, (p.decision e).isSome = true → e ∈ lru) :
    (∀ e, ((evictLru p lru).1.decision e).isSome = true → e ∈ (evictLru p lru).2.1) ∧
      (evictLru p lru).2.1.length ≤ MAX_PERSISTED_DECISIONS := by
  rw [evictLru_eq]
  have hbound : lru.length - (lru.length - MAX_PERSISTED_DECISIONS) ≤ MAX_PERSISTED_DECISIONS := by
    omega
  generalize lru.length - MAX_PERSISTED_DECISIONS = n at hbound
  refine ⟨fun e he => ?_, by rwa [length_drop]⟩
  simp only [PersistedEnablement.decision_foldl_drop] at he
  split at he
  · cases he
  · rename_i hkept
    have hmem := h e he
    rw [← take_append_drop n lru, mem_append] at hmem
    exact hmem.resolve_left hkept

namespace CustomizationEnablementService

/-! ## Persisting -/

def toEvict (s : CustomizationEnablementService) : List LruEntry :=
  s.lru.take (s.lru.length - MAX_PERSISTED_DECISIONS)

theorem decision_persist (s : CustomizationEnablementService) (e : LruEntry) :
    s.persist.persistent.decision e =
      if e ∈ s.toEvict then none else s.persistent.decision e := by
  unfold persist
  rw [evictLru_eq]
  rw [PersistedEnablement.decision_dropEmpty, PersistedEnablement.decision_foldl_drop]
  rfl

theorem lru_persist (s : CustomizationEnablementService) :
    s.persist.lru = s.lru.drop (s.lru.length - MAX_PERSISTED_DECISIONS) := by
  unfold persist
  rw [evictLru_eq]

theorem evicted_persist (s : CustomizationEnablementService) :
    s.persist.evicted = s.evicted ++ s.toEvict := by
  unfold persist
  rw [evictLru_eq]
  rfl

theorem toEvict_eq_nil {s : CustomizationEnablementService}
    (h : s.lru.length ≤ MAX_PERSISTED_DECISIONS) : s.toEvict = [] := by
  unfold toEvict
  rw [Nat.sub_eq_zero_of_le h]
  rfl

/-- Nothing but the store of durable decisions differs. -/
structure SameElsewhere (s s' : CustomizationEnablementService) : Prop where
  clientGlobalEnablement : s'.clientGlobalEnablement = s.clientGlobalEnablement
  sessionEnablement : s'.sessionEnablement = s.sessionEnablement
  sessionLoads : s'.sessionLoads = s.sessionLoads
  pendingReplacements : s'.pendingReplacements = s.pendingReplacements
  sessions : s'.sessions = s.sessions

theorem SameElsewhere.trans {s t u : CustomizationEnablementService} (h : SameElsewhere s t)
    (h' : SameElsewhere t u) : SameElsewhere s u where
  clientGlobalEnablement := h'.clientGlobalEnablement.trans h.clientGlobalEnablement
  sessionEnablement := h'.sessionEnablement.trans h.sessionEnablement
  sessionLoads := h'.sessionLoads.trans h.sessionLoads
  pendingReplacements := h'.pendingReplacements.trans h.pendingReplacements
  sessions := h'.sessions.trans h.sessions

variable {s' : CustomizationEnablementService}

theorem SameElsewhere.clientGlobal {s : CustomizationEnablementService} (h : SameElsewhere s s') :
    s'.clientGlobal = s.clientGlobal := by
  funext session key
  unfold CustomizationEnablementService.clientGlobal
  rw [h.clientGlobalEnablement]

theorem SameElsewhere.getWorkingDirectoryState {s : CustomizationEnablementService}
    (h : SameElsewhere s s') : s'.getWorkingDirectoryState = s.getWorkingDirectoryState := by
  funext session
  unfold CustomizationEnablementService.getWorkingDirectoryState
  rw [h.sessions]

/-! ## Writing a global decision -/

section

variable (s : CustomizationEnablementService) (session : Uri) (key : String)
  (enabled : Option Bool)

def storedGlobal : Option Bool := storedValue enabled (s.clientBase session key)

theorem sameElsewhere_setGlobal : SameElsewhere s (s.setGlobal session key enabled) :=
  ⟨rfl, rfl, rfl, rfl, rfl⟩

def prunes (e : LruEntry) : Prop :=
  ∃ directory v, e = .workspace key directory ∧ s.storedGlobal session key enabled = some v ∧
    s.persistent.decision e = some v

variable (e : LruEntry)

theorem decision_putGlobal :
    (s.putGlobal session key enabled).persistent.decision e =
      if e = .global key then s.storedGlobal session key enabled
      else s.persistent.decision e := by
  cases e with
  | global key' =>
    show (setPersistentDecision _ _ _ _ _ _).1.get key' = _
    rw [get_setPersistentDecision]
    simp only [LruEntry.global.injEq, eq_comm (a := key)]
    rfl
  | workspace key' directory => rfl

theorem mem_redundant_putGlobal :
    e ∈ (s.putGlobal session key enabled).persistent.redundantWorkspaceDecisions key ↔
      s.prunes session key enabled e := by
  rw [PersistedEnablement.mem_redundantWorkspaceDecisions]
  simp only [decision_putGlobal, if_pos, reduceCtorEq, if_false]
  constructor
  · rintro ⟨directory, v, rfl, hglobal, hws⟩
    exact ⟨directory, v, rfl, hglobal, hws⟩
  · rintro ⟨directory, v, rfl, hglobal, hws⟩
    exact ⟨directory, v, rfl, hglobal, hws⟩

open Classical in
theorem decision_writeGlobal :
    (s.writeGlobal session key enabled).persistent.decision e =
      if e = .global key then s.storedGlobal session key enabled
      else if s.prunes session key enabled e then none
      else s.persistent.decision e := by
  show PersistedEnablement.decision (foldl _ _ _) e = _
  rw [PersistedEnablement.decision_foldl_drop, decision_putGlobal]
  simp only [mem_redundant_putGlobal]
  by_cases he : e = .global key
  · have hprune : ¬ s.prunes session key enabled e := by
      rintro ⟨directory, v, heq, -⟩
      exact LruEntry.noConfusion (he.symm.trans heq)
    rw [if_neg hprune, if_pos he, if_pos he]
  · rw [if_neg he, if_neg he]

theorem mem_lru_writeGlobal : e ∈ (s.writeGlobal session key enabled).lru ↔
      (if e = .global key then (s.storedGlobal session key enabled).isSome = true
        else e ∈ s.lru) ∧ ¬ s.prunes session key enabled e := by
  show e ∈ foldl removeLru _ _ ↔ _
  rw [mem_foldl_removeLru, mem_redundant_putGlobal]
  show e ∈ (setPersistentDecision _ _ _ _ _ _).2 ∧ _ ↔ _
  rw [mem_setPersistentDecision]
  rfl

theorem length_lru_writeGlobal
    (h : (s.storedGlobal session key enabled).isSome = true → .global key ∈ s.lru) :
    (s.writeGlobal session key enabled).lru.length ≤ s.lru.length :=
  le_trans (length_foldl_removeLru _ _) (length_setPersistentDecision h)

end

/-! ## Writing a workspace decision -/

section

variable (s : CustomizationEnablementService) (session : Uri) (key : String) (directory : Uri)
  (enabled : Option Bool)

def storedWorkspace : Option Bool := storedValue enabled (s.globalEnablement session key)

theorem decision_writeWorkspace (e : LruEntry) :
    (s.writeWorkspace session key directory enabled).persistent.decision e =
      if e = .workspace key directory then s.storedWorkspace session key enabled
      else s.persistent.decision e := by
  cases e with
  | global key' => rfl
  | workspace key' directory' =>
    show Option.bind (Record.get (Record.set _ _ _) directory') _ = _
    rw [get_set]
    by_cases hd : directory = directory'
    · subst hd
      rw [if_pos rfl, Option.bind_some]
      show (setPersistentDecision _ _ _ _ _ _).1.get key' = _
      rw [get_setPersistentDecision]
      simp only [LruEntry.workspace.injEq, and_true, eq_comm (a := key)]
      split
      · rfl
      · simp only [PersistedEnablement.decision]
        cases hget : s.persistent.workingDirectories.get directory with
        | none | some _ => rfl
    · rw [if_neg hd, if_neg fun heq => hd (LruEntry.workspace.inj heq).2.symm]
      rfl

theorem mem_lru_writeWorkspace (e : LruEntry) :
    e ∈ (s.writeWorkspace session key directory enabled).lru ↔
      if e = .workspace key directory then
        (s.storedWorkspace session key enabled).isSome = true
      else e ∈ s.lru := by
  show e ∈ (setPersistentDecision _ _ _ _ _ _).2 ↔ _
  rw [mem_setPersistentDecision]
  rfl

theorem length_lru_writeWorkspace
    (h : (s.storedWorkspace session key enabled).isSome = true → .workspace key directory ∈ s.lru) :
    (s.writeWorkspace session key directory enabled).lru.length ≤ s.lru.length :=
  length_setPersistentDecision h

end

/-! ## Every stored decision is listed -/

def Listed (s : CustomizationEnablementService) : Prop :=
  ∀ e, (s.persistent.decision e).isSome = true → e ∈ s.lru

/-- The store between two calls. -/
structure Bounded (s : CustomizationEnablementService) : Prop where
  listed : s.Listed
  bounded : s.lru.length ≤ MAX_PERSISTED_DECISIONS

variable {s : CustomizationEnablementService}

theorem Listed.persist (h : s.Listed) : s.persist.Bounded := by
  have hkept := evictLru_listed h
  refine ⟨fun e he => ?_, hkept.2⟩
  have hempty := PersistedEnablement.decision_dropEmpty (evictLru s.persistent s.lru).1 e
  exact hkept.1 e (by rw [← hempty]; exact he)

theorem Listed.writeGlobal (h : s.Listed) (session : Uri) (key : String) (enabled : Option Bool) :
    (s.writeGlobal session key enabled).Listed := by
  intro e he
  rw [decision_writeGlobal] at he
  rw [mem_lru_writeGlobal]
  split at he
  · rename_i hkey
    refine ⟨by rwa [if_pos hkey], ?_⟩
    rintro ⟨directory, v, heq, -⟩
    exact LruEntry.noConfusion (hkey.symm.trans heq)
  · rename_i hkey
    split at he
    · cases he
    · rename_i hprune
      exact ⟨by rw [if_neg hkey]; exact h e he, hprune⟩

theorem Listed.writeWorkspace (h : s.Listed) (session : Uri) (key : String) (directory : Uri)
    (enabled : Option Bool) : (s.writeWorkspace session key directory enabled).Listed := by
  intro e he
  rw [decision_writeWorkspace] at he
  rw [mem_lru_writeWorkspace]
  split at he
  · rename_i hkey
    rwa [if_pos hkey]
  · rename_i hkey
    rw [if_neg hkey]
    exact h e he

theorem Bounded.setGlobal (h : s.Bounded) (session : Uri) (key : String) (enabled : Option Bool) :
    (s.setGlobal session key enabled).Bounded :=
  (h.listed.writeGlobal session key enabled).persist

theorem Bounded.setWorkspace (h : s.Bounded) (session : Uri) (key : String) (directory : Uri)
    (enabled : Option Bool) : (s.setWorkspace session key directory enabled).Bounded :=
  (h.listed.writeWorkspace session key directory enabled).persist

theorem Bounded.of_eq (h : s.Bounded) (hpersistent : s'.persistent = s.persistent)
    (hlru : s'.lru = s.lru) : s'.Bounded := by
  refine ⟨fun e he => ?_, hlru ▸ h.bounded⟩
  rw [hlru]
  exact h.listed e (hpersistent ▸ he)

/-! ## Every operation is a sequence of writes -/

inductive StoreWrite (s : CustomizationEnablementService) : CustomizationEnablementService → Prop
  | global (session : Uri) (key : String) (enabled : Option Bool) :
      StoreWrite s (s.setGlobal session key enabled)
  | workspace (session : Uri) (key : String) (directory : Uri) (enabled : Option Bool) :
      StoreWrite s (s.setWorkspace session key directory enabled)
  | elsewhere (s' : CustomizationEnablementService) (hpersistent : s'.persistent = s.persistent)
      (hlru : s'.lru = s.lru) : StoreWrite s s'

abbrev StoreWrites := Relation.ReflTransGen StoreWrite

theorem persistent_setSession (s : CustomizationEnablementService) (session : Uri)
    (target : CustomizationEnablementTarget) (key : String) (workingDirectory : WorkingDirectory)
    (enabled : Option Bool) :
    (s.setSession session target key workingDirectory enabled).persistent = s.persistent ∧
      (s.setSession session target key workingDirectory enabled).lru = s.lru ∧
      (s.setSession session target key workingDirectory enabled).evicted = s.evicted := by
  unfold setSession
  split
  · exact ⟨rfl, rfl, rfl⟩
  · exact ⟨rfl, rfl, rfl⟩

namespace StoreWrites

variable (s s') (session : Uri) (target : CustomizationEnablementTarget)

theorem elsewhere (hpersistent : s'.persistent = s.persistent) (hlru : s'.lru = s.lru) :
    StoreWrites s s' :=
  .single (.elsewhere s' hpersistent hlru)

theorem applyReplacement (key : String) (enablement : List CustomizationEnablement)
    (workingDirectory : WorkingDirectory) :
    StoreWrites s (s.applyReplacement session target key enablement workingDirectory) := by
  have hsession (t : CustomizationEnablementService) := persistent_setSession t session target key
    workingDirectory (byKind enablement .session)
  refine .head (.global session key (getGlobalReplacement enablement)) ?_
  cases workingDirectory with
  | directory uri =>
    refine .head (.workspace session key uri (byKind enablement .workspace)) ?_
    exact elsewhere _ _ (hsession _).1 (hsession _).2.1
  | workspaceless => exact elsewhere _ _ (hsession _).1 (hsession _).2.1

theorem deferReplacement (key : String) (replacement : EnablementReplacement) :
    StoreWrites s (s.deferReplacement session target key replacement) := by
  cases replacement with
  | full enablement => exact .head (.global session key _) (elsewhere _ _ rfl rfl)
  | scopedTo scope enabled =>
    unfold CustomizationEnablementService.deferReplacement
    simp only
    split
    · refine .head (.global session key (some enabled)) ?_
      split
      · exact elsewhere _ _ rfl rfl
      · exact .refl
    · exact elsewhere _ _ rfl rfl

theorem replace (replacement : EnablementReplacement) :
    StoreWrites s (s.replace session target replacement).1 := by
  unfold CustomizationEnablementService.replace
  split
  · exact .refl
  · split
    · exact .refl
    · exact deferReplacement ..
    · split
      · exact .refl
      · exact applyReplacement ..

variable {s s' session}

theorem applyPending {key : String} {replacement : PendingReplacement}
    (hs : s.applyPending session key replacement = .ok (some s')) : StoreWrites s s' := by
  unfold CustomizationEnablementService.applyPending at hs
  cases hresolve : s.resolve session replacement.target with
  | error e =>
    rw [hresolve] at hs
    cases hs
  | ok resolution =>
    rw [hresolve] at hs
    cases resolution with
    | pending reason => cases hs
    | resolved enablement enabled workingDirectory =>
      cases hscoped : replayScoped workingDirectory (replacement.enablement.getD enablement)
          replacement.scopedReplacements with
      | error e =>
        simp only [hscoped, bind, Except.bind] at hs
        cases hs
      | ok enablement' =>
        simp only [hscoped, bind, Except.bind] at hs
        cases hs
        exact (applyReplacement s session replacement.target key enablement'
          workingDirectory).trans (elsewhere _ _ rfl rfl)

theorem applyPendings (queued : List ((Uri × String) × PendingReplacement)) :
    StoreWrites s (s.applyPendings session queued) := by
  induction queued generalizing s with
  | nil => exact .refl
  | cons entry rest ih =>
    obtain ⟨⟨owner, key⟩, replacement⟩ := entry
    unfold CustomizationEnablementService.applyPendings
    split
    · cases hpending : s.applyPending session key replacement with
      | error e => exact .refl
      | ok result =>
        cases result with
        | none => exact ih
        | some s' => exact (applyPending hpending).trans ih
    · exact ih

theorem initializeSession : StoreWrites s (s.initializeSession session) := by
  unfold CustomizationEnablementService.initializeSession
  split
  · exact .refl
  · exact elsewhere _ _ rfl rfl

theorem step {event : EnablementEvent} (hs : s.step event = some s') : StoreWrites s s' := by
  cases event with
  | initializeSession session =>
    cases hs
    exact initializeSession
  | finishLoad session read =>
    unfold CustomizationEnablementService.step finishLoad at hs
    simp only at hs
    split at hs
    · cases hs
      have hread : StoreWrites s { s with
          sessionEnablement := s.sessionEnablement.set session read } := elsewhere _ _ rfl rfl
      exact hread.trans (applyPendings _)
    · cases hs
  | sessionChanged session info =>
    cases hs
    exact elsewhere _ _ rfl rfl
  | workingDirectoryEnvelope session =>
    cases hs
    exact initializeSession.trans (applyPendings _)
  | applyClientGlobalEnablement session target enablement =>
    cases hs
    unfold applyClientGlobalEnablement
    split
    · exact .refl
    · split
      · split
        · exact .refl
        · exact elsewhere _ _ rfl rfl
      · exact .refl
  | setEnablement session target _ _ | replaceEnablement session target _ =>
    cases hs
    exact replace ..

end StoreWrites

theorem Bounded.write (h : s.Bounded) (hw : StoreWrite s s') : s'.Bounded := by
  cases hw with
  | global session key enabled => exact h.setGlobal session key enabled
  | workspace session key directory enabled => exact h.setWorkspace session key directory enabled
  | elsewhere _ hpersistent hlru => exact h.of_eq hpersistent hlru

theorem Bounded.writes (h : s.Bounded) (hw : StoreWrites s s') : s'.Bounded := by
  induction hw with
  | refl => exact h
  | tail _ hwrite ih => exact ih.write hwrite

theorem mem_reconcile (lru : List LruEntry) (h : (p.decision e).isSome = true) :
    e ∈ reconcile p lru := by
  have hentry := (p.mem_entries e).mpr h
  unfold reconcile
  simp only [mem_append, mem_filter, decide_eq_true_eq]
  by_cases hvalid : e ∈ lru
  · exact .inl ⟨hvalid, hentry⟩
  · exact .inr ⟨hentry, fun hboth => hvalid hboth.1⟩

theorem bounded_create (stored : PersistedEnablement) (storedLru : List LruEntry)
    (sessions : Uri → SessionInfo) : (create stored storedLru sessions).Bounded :=
  have h := evictLru_listed (p := stored.dropEmpty) fun _ he => mem_reconcile storedLru he
  ⟨h.1, h.2⟩

theorem bounded_of_reachable (h : system.Reachable s) : s.Bounded := by
  refine System.ReachableVia.invariant ?_ ?_ h
  · rintro s ⟨stored, storedLru, sessions, rfl⟩
    exact bounded_create stored storedLru sessions
  · intro s event s' hs _ hstep
    exact hs.writes (.step hstep)

end CustomizationEnablementService

end Fumie.AgentHost
