import Fumie.AgentHost.Customization.EnablementStore

/-!
# Writes of one scope

A session or workspace write applies the whole resolved list of the acting session
again, its global decision included. A stored global decision that equals the base of
the acting session's client is deleted by that, although another session may have
another base; and a workspace decision that equals the global value the acting session
sees is deleted for every session of the directory. `ScopeKept` says when neither
touches another session.
-/

namespace Fumie.AgentHost

open Fumie.Lib List Option PersistedEnablement Record

namespace CustomizationEnablementService

/-! ## The write, step by step -/

section

variable {s : CustomizationEnablementService} {session : Uri} {key : String}

theorem storedGlobal_globalDecision (s : CustomizationEnablementService) (session : Uri)
    (key : String) :
    s.storedGlobal session key (s.globalDecision session key) =
      (s.persistent.decision (.global key)).filter (· ≠ s.clientBase session key) := by
  show Option.filter _ _ = (s.persistent.global.get key).filter _
  unfold globalDecision
  cases s.persistent.global.get key with
  | some v => rfl
  | none =>
    cases hclient : s.clientGlobal session key with
    | none => rfl
    | some v => simp [clientBase, hclient]

theorem isSome_of_storedGlobal
    (h : (s.storedGlobal session key (s.globalDecision session key)).isSome = true) :
    (s.persistent.decision (.global key)).isSome = true := by
  rw [storedGlobal_globalDecision] at h
  exact isSome_of_isSome_filter _ _ h

theorem Bounded.toEvict_writeGlobal (h : s.Bounded) (session : Uri) (key : String) :
    (s.writeGlobal session key (s.globalDecision session key)).toEvict = [] :=
  toEvict_eq_nil (le_trans (length_lru_writeGlobal s session key _ fun hstored =>
    h.listed _ (isSome_of_storedGlobal hstored)) h.bounded)

def reapplyGlobal (s : CustomizationEnablementService) (session : Uri) (key : String) :
    CustomizationEnablementService :=
  s.setGlobal session key (s.globalDecision session key)

def Pruned (s : CustomizationEnablementService) (session : Uri) (key : String) (e : LruEntry) :
    Prop :=
  ∃ directory v, e = .workspace key directory ∧ s.persistent.decision (.global key) = some v ∧
    v ≠ s.clientBase session key ∧ s.persistent.decision e = some v

theorem prunes_globalDecision (e : LruEntry) :
    s.prunes session key (s.globalDecision session key) e ↔ s.Pruned session key e := by
  unfold prunes Pruned
  simp only [storedGlobal_globalDecision, filter_eq_some_iff, decide_eq_true_eq, and_assoc]

open Classical in
theorem Bounded.decision_reapplyGlobal (h : s.Bounded) (session : Uri) (key : String) (e : LruEntry) :
    (s.reapplyGlobal session key).persistent.decision e =
      if e = .global key then
        (s.persistent.decision (.global key)).filter (· ≠ s.clientBase session key)
      else if s.Pruned session key e then none
      else s.persistent.decision e := by
  unfold CustomizationEnablementService.reapplyGlobal CustomizationEnablementService.setGlobal
  rw [decision_persist, h.toEvict_writeGlobal, if_neg not_mem_nil, decision_writeGlobal,
    storedGlobal_globalDecision]
  simp only [prunes_globalDecision]

theorem Bounded.lru_reapplyGlobal (h : s.Bounded) (session : Uri) (key : String) :
    (s.reapplyGlobal session key).lru =
      (s.writeGlobal session key (s.globalDecision session key)).lru := by
  have hnil := h.toEvict_writeGlobal session key
  unfold toEvict at hnil
  unfold CustomizationEnablementService.reapplyGlobal CustomizationEnablementService.setGlobal
  rw [lru_persist]
  have happend := take_append_drop
    ((s.writeGlobal session key (s.globalDecision session key)).lru.length -
      MAX_PERSISTED_DECISIONS) (s.writeGlobal session key (s.globalDecision session key)).lru
  rwa [hnil, nil_append] at happend

theorem Bounded.evicted_reapplyGlobal (h : s.Bounded) (session : Uri) (key : String) :
    (s.reapplyGlobal session key).evicted = s.evicted := by
  unfold CustomizationEnablementService.reapplyGlobal CustomizationEnablementService.setGlobal
  rw [evicted_persist, h.toEvict_writeGlobal, append_nil]
  rfl

theorem sameElsewhere_reapplyGlobal (s : CustomizationEnablementService) (session : Uri)
    (key : String) : SameElsewhere s (s.reapplyGlobal session key) :=
  sameElsewhere_setGlobal s session key _

theorem Bounded.globalEnablement_reapplyGlobal (h : s.Bounded) (session : Uri) (key : String) :
    (s.reapplyGlobal session key).globalEnablement session key =
      s.globalEnablement session key := by
  have hdecision := h.decision_reapplyGlobal session key (.global key)
  rw [if_pos rfl] at hdecision
  unfold globalEnablement globalDecision
  rw [(sameElsewhere_reapplyGlobal s session key).clientGlobal]
  change (s.reapplyGlobal session key).persistent.global.get key = _ at hdecision
  rw [hdecision]
  cases hget : s.persistent.global.get key with
  | none =>
    simp only [decision, hget, filter_none]
  | some v =>
    simp only [decision, hget, filter_some]
    split
    · rename_i hkept
      split at hkept
      · cases hkept
        rfl
      · cases hkept
    · rename_i hdropped
      split at hdropped
      · cases hdropped
      · rename_i hbase
        have heq : v = s.clientBase session key := by simpa using hbase
        exact heq.symm

end

/-! ## The second step -/

section

variable {s : CustomizationEnablementService} (session : Uri) (key : String) (directory : Uri)
  (enabled : Option Bool)

theorem Bounded.notMem_toEvict_writeWorkspace (h : s.Bounded) :
    .workspace key directory ∉ (s.writeWorkspace session key directory enabled).toEvict := by
  intro hmem
  by_cases hstored : (s.storedWorkspace session key enabled).isSome = true
  · obtain ⟨v, hv⟩ := isSome_iff_exists.mp hstored
    have hlru : (s.writeWorkspace session key directory enabled).lru =
        removeLru s.lru (.workspace key directory) ++ [.workspace key directory] := by
      show (setPersistentDecision _ _ _ _ _ _).2 = _
      rw [setPersistentDecision_eq]
      change storedValue enabled (s.globalEnablement session key) = some v at hv
      rw [hv]
      rfl
    have hlength := le_trans (length_removeLru s.lru (.workspace key directory)) h.bounded
    unfold toEvict at hmem
    rw [hlru, take_append_of_le_length (by
      rw [length_append, length_singleton]
      have hpos : 0 < MAX_PERSISTED_DECISIONS := by decide
      omega)] at hmem
    exact (mem_removeLru.mp (mem_of_mem_take hmem)).2 rfl
  · have hlru := mem_of_mem_take hmem
    rw [mem_lru_writeWorkspace, if_pos rfl] at hlru
    exact hstored hlru

theorem Bounded.toEvict_writeWorkspace (h : s.Bounded)
    (hlisted : (s.storedWorkspace session key enabled).isSome = true →
      (s.persistent.decision (.workspace key directory)).isSome = true) :
    (s.writeWorkspace session key directory enabled).toEvict = [] :=
  toEvict_eq_nil (le_trans (length_lru_writeWorkspace s session key directory enabled
    fun hstored => h.listed _ (hlisted hstored)) h.bounded)

end

/-! ## The whole write -/

section

variable (s : CustomizationEnablementService)

def rewriteWorkspace (session : Uri) (key : String)
    (enabled : Option Bool) : WorkingDirectory → CustomizationEnablementService
  | .directory uri => s.setWorkspace session key uri enabled
  | .workspaceless => s

def rewrite (session : Uri)
    (target : CustomizationEnablementTarget) (key : String) (workingDirectory : WorkingDirectory)
    (own workspace : Option Bool) : CustomizationEnablementService :=
  ((s.reapplyGlobal session key).rewriteWorkspace session key workspace
    workingDirectory).setSession session target key workingDirectory own

def evictedBy (session : Uri) (key : String)
    (workspace : Option Bool) : WorkingDirectory → List LruEntry
  | .directory uri =>
    ((s.reapplyGlobal session key).writeWorkspace session key uri workspace).toEvict
  | .workspaceless => []

end

theorem applyReplacement_decisionsOf (s : CustomizationEnablementService) (session : Uri)
    (target : CustomizationEnablementTarget) (key : String) (workingDirectory : WorkingDirectory)
    (own : Option Bool) (workspace : Option (Uri × Bool)) :
    s.applyReplacement session target key
        (decisionsOf own workspace (s.globalDecision session key)) workingDirectory =
      s.rewrite session target key workingDirectory own (workspace.map Prod.snd) := by
  have hglobal : getGlobalReplacement (decisionsOf own workspace (s.globalDecision session key)) =
      s.globalDecision session key := by
    unfold getGlobalReplacement
    rw [find_decisionsOf]
    cases s.globalDecision session key <;> rfl
  have hworkspace : byKind (decisionsOf own workspace (s.globalDecision session key)) .workspace =
      workspace.map Prod.snd := by
    cases own <;> cases workspace <;> cases s.globalDecision session key <;> rfl
  have hown : byKind (decisionsOf own workspace (s.globalDecision session key)) .session = own := by
    cases own <;> cases workspace <;> cases s.globalDecision session key <;> rfl
  unfold applyReplacement replaceNonGlobalEnablement
  rw [hglobal, hworkspace, hown]
  cases workingDirectory <;> rfl

section

variable {s : CustomizationEnablementService} {session : Uri}
  {target : CustomizationEnablementTarget} {key : String} {decisions : Record String Bool}
  {workingDirectory : WorkingDirectory}

theorem resolve_resolved (hkey : getCustomizationEnablementKey target .global = .ok key)
    (hdecisions : s.sessionEnablement.get session = some decisions)
    (hdirectory : s.getWorkingDirectoryState session = some workingDirectory) :
    s.resolve session target =
      .ok (.resolved
        (decisionsOf (decisions.get target.id) (s.workspaceDecision key workingDirectory)
          (s.globalDecision session key))
        (isCustomizationEnabled (decisionsOf (decisions.get target.id)
          (s.workspaceDecision key workingDirectory) (s.globalDecision session key)))
        workingDirectory) := by
  unfold resolve
  simp only [hdecisions, hdirectory, hkey, sort_decisionsOf, bind, Except.bind, pure, Except.pure]

theorem setEnablement_session (enabled : Bool)
    (hkey : getCustomizationEnablementKey target .global = .ok key)
    (hdecisions : s.sessionEnablement.get session = some decisions)
    (hdirectory : s.getWorkingDirectoryState session = some workingDirectory) :
    let s' := s.rewrite session target key workingDirectory (some enabled)
      ((s.workspaceDecision key workingDirectory).map Prod.snd)
    s.setEnablement session target .session enabled = (s', s'.resolve session target) := by
  unfold setEnablement replace
  simp only [hkey, resolve_resolved hkey hdecisions hdirectory, replacementEnablement,
    enablementEntry, with_session, bind, Except.bind, pure, Except.pure,
    applyReplacement_decisionsOf]

theorem setEnablement_workspace {uri : Uri} (enabled : Bool)
    (hkey : getCustomizationEnablementKey target .global = .ok key)
    (hdecisions : s.sessionEnablement.get session = some decisions)
    (hdirectory : s.getWorkingDirectoryState session = some (.directory uri)) :
    let s' := s.rewrite session target key (.directory uri) (decisions.get target.id) (some enabled)
    s.setEnablement session target .workspace enabled = (s', s'.resolve session target) := by
  unfold setEnablement replace
  simp only [hkey, resolve_resolved hkey hdecisions hdirectory, replacementEnablement,
    enablementEntry, with_workspace, bind, Except.bind, pure, Except.pure,
    applyReplacement_decisionsOf, map_some]

end

/-! ## The store after the write -/

section

variable {s : CustomizationEnablementService} (session : Uri)
  (target : CustomizationEnablementTarget) (key : String) (workingDirectory : WorkingDirectory)
  (own workspace : Option Bool)

def WorkingDirectory.entry? (key : String) : WorkingDirectory → Option LruEntry
  | .directory uri => some (.workspace key uri)
  | .workspaceless => none

theorem Bounded.reapplyGlobal (h : s.Bounded) : (s.reapplyGlobal session key).Bounded :=
  h.setGlobal session key _

theorem Bounded.decision_rewrite (h : s.Bounded) (e : LruEntry) :
    (s.rewrite session target key workingDirectory own workspace).persistent.decision e =
      if e ∈ s.evictedBy session key workspace workingDirectory then none
      else if WorkingDirectory.entry? key workingDirectory = some e then
        workspace.filter (· ≠ s.globalEnablement session key)
      else (s.reapplyGlobal session key).persistent.decision e := by
  unfold CustomizationEnablementService.rewrite
  rw [(persistent_setSession _ _ _ _ _ _).1]
  cases workingDirectory with
  | workspaceless => rfl
  | directory uri =>
    unfold rewriteWorkspace CustomizationEnablementService.setWorkspace
    rw [decision_persist, decision_writeWorkspace]
    unfold evictedBy WorkingDirectory.entry? storedWorkspace storedValue
    rw [h.globalEnablement_reapplyGlobal]
    simp only [Option.some.injEq, eq_comm (a := e)]

theorem Bounded.evicted_rewrite (h : s.Bounded) :
    (s.rewrite session target key workingDirectory own workspace).evicted =
      s.evicted ++ s.evictedBy session key workspace workingDirectory := by
  unfold CustomizationEnablementService.rewrite
  rw [(persistent_setSession _ _ _ _ _ _).2.2]
  cases workingDirectory with
  | workspaceless =>
    rw [rewriteWorkspace, h.evicted_reapplyGlobal]
    exact (append_nil _).symm
  | directory uri =>
    unfold rewriteWorkspace CustomizationEnablementService.setWorkspace
    rw [evicted_persist]
    show (s.reapplyGlobal session key).evicted ++ _ = _
    rw [h.evicted_reapplyGlobal]
    rfl

theorem Bounded.own_notMem_evictedBy (h : s.Bounded) {e : LruEntry}
    (he : WorkingDirectory.entry? key workingDirectory = some e) :
    e ∉ s.evictedBy session key workspace workingDirectory := by
  cases workingDirectory with
  | workspaceless => cases he
  | directory uri =>
    cases he
    exact (h.reapplyGlobal session key).notMem_toEvict_writeWorkspace session key uri workspace

theorem mem_lru_of_mem_evictedBy {e : LruEntry}
    (he : e ∈ s.evictedBy session key workspace workingDirectory)
    (hother : WorkingDirectory.entry? key workingDirectory ≠ some e) :
    e ∈ (s.reapplyGlobal session key).lru := by
  cases workingDirectory with
  | workspaceless => cases he
  | directory uri =>
    have hlru := mem_of_mem_take he
    rw [mem_lru_writeWorkspace, if_neg fun heq => hother (by rw [heq]; rfl)] at hlru
    exact hlru

theorem Bounded.evictedBy_eq_nil (h : s.Bounded)
    (hlisted : ∀ uri, workingDirectory = .directory uri →
      (workspace.filter (· ≠ s.globalEnablement session key)).isSome = true →
      ((s.reapplyGlobal session key).persistent.decision (.workspace key uri)).isSome = true) :
    s.evictedBy session key workspace workingDirectory = [] := by
  cases workingDirectory with
  | workspaceless => rfl
  | directory uri =>
    refine (h.reapplyGlobal session key).toEvict_writeWorkspace session key uri workspace
      fun hstored => hlisted uri rfl ?_
    unfold storedWorkspace storedValue at hstored
    rwa [h.globalEnablement_reapplyGlobal] at hstored

theorem sameElsewhere_rewriteWorkspace (t : CustomizationEnablementService) :
    SameElsewhere t (t.rewriteWorkspace session key workspace workingDirectory) := by
  cases workingDirectory <;> exact ⟨rfl, rfl, rfl, rfl, rfl⟩

theorem rewrite_eq (s : CustomizationEnablementService) : ∃ t, SameElsewhere s t ∧
      t.persistent = (s.rewrite session target key workingDirectory own workspace).persistent ∧
      s.rewrite session target key workingDirectory own workspace =
        t.setSession session target key workingDirectory own :=
  ⟨_, (sameElsewhere_reapplyGlobal s session key).trans
    (sameElsewhere_rewriteWorkspace session key workingDirectory workspace _),
    (persistent_setSession _ _ _ _ _ _).1.symm, rfl⟩

theorem clientGlobal_rewrite (s : CustomizationEnablementService) :
    (s.rewrite session target key workingDirectory own workspace).clientGlobal =
      s.clientGlobal := by
  obtain ⟨t, hsame, -, heq⟩ := rewrite_eq session target key workingDirectory own workspace s
  rw [heq, ← hsame.clientGlobal]
  unfold setSession
  split
  · rfl
  · rfl

theorem getWorkingDirectoryState_rewrite (s : CustomizationEnablementService) :
    (s.rewrite session target key workingDirectory own workspace).getWorkingDirectoryState =
      s.getWorkingDirectoryState := by
  obtain ⟨t, hsame, -, heq⟩ := rewrite_eq session target key workingDirectory own workspace s
  rw [heq, ← hsame.getWorkingDirectoryState]
  unfold setSession
  split
  · rfl
  · rfl

def ownStored (s : CustomizationEnablementService) (session : Uri) (key : String)
    (workingDirectory : WorkingDirectory) (own : Option Bool) : Option Bool :=
  own.filter (· ≠ s.sessionInherited session key workingDirectory)

theorem sessionInherited_congr {t : CustomizationEnablementService}
    (hpersistent : t.persistent = s.persistent) (hclient : t.clientGlobal = s.clientGlobal) :
    t.sessionInherited session key workingDirectory =
      s.sessionInherited session key workingDirectory := by
  unfold sessionInherited workspaceInheritedEnablement globalEnablement globalDecision
  rw [hpersistent, hclient]

theorem sessionEnablement_rewrite {decisions : Record String Bool}
    (hdecisions : s.sessionEnablement.get session = some decisions) :
    ∃ written, (∀ id, written.get id =
        if id = target.id then
          (s.rewrite session target key workingDirectory own workspace).ownStored session key
            workingDirectory own
        else decisions.get id) ∧
      (s.rewrite session target key workingDirectory own workspace).sessionEnablement =
        s.sessionEnablement.set session written := by
  obtain ⟨t, hsame, hpersistent, heq⟩ :=
    rewrite_eq session target key workingDirectory own workspace s
  have hinherited := sessionInherited_congr session key workingDirectory hpersistent
    (hsame.clientGlobal.trans
      (clientGlobal_rewrite session target key workingDirectory own workspace s).symm)
  unfold ownStored
  rw [← hinherited, heq]
  unfold setSession
  rw [hsame.sessionEnablement, hdecisions]
  refine ⟨_, fun id => ?_, rfl⟩
  cases own with
  | none =>
    simp only [get_delete, filter_none, eq_comm (a := target.id)]
  | some v =>
    by_cases hv : v = t.sessionInherited session key workingDirectory
    · simp only [hv, if_pos, get_delete, eq_comm (a := target.id), filter_some,
        ne_eq, not_true_eq_false, decide_false, Bool.false_eq_true, if_false]
    · simp only [hv, if_false, get_set, eq_comm (a := target.id), filter_some,
        ne_eq, not_false_eq_true, decide_true, if_true]

end

end CustomizationEnablementService

end Fumie.AgentHost
