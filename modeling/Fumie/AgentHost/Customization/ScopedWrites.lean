import Fumie.AgentHost.Customization.EnablementScope

/-!
# Scoped writes and the other sessions

A session write should be seen by no other session, a workspace write only by sessions
of the same directory and for targets of the same persistent key. Both hold exactly when
`ScopeKept` does. Decisions that the write evicts are taken out of the comparison.
-/

namespace Fumie.AgentHost

open Fumie.Lib List Option Record

namespace CustomizationEnablementService

/-! ## What a scoped write may change -/

def withoutEvicted (s s' : CustomizationEnablementService) : CustomizationEnablementService :=
  { s with persistent :=
      (s'.evicted.drop s.evicted.length).foldl PersistedEnablement.drop s.persistent }

def OutOfScope (s : CustomizationEnablementService) (session : Uri)
    (target : CustomizationEnablementTarget) (other : Uri)
    (otherTarget : CustomizationEnablementTarget) : CustomizationEnablementKind → Prop
  | .session => other ≠ session
  | .workspace => ¬ (s.getWorkingDirectoryState other = s.getWorkingDirectoryState session ∧
      getCustomizationEnablementKey otherTarget .global =
        getCustomizationEnablementKey target .global)
  | .global => False

def StaysInScope (targets : Set CustomizationEnablementTarget)
    (s : CustomizationEnablementService) (session : Uri) (target : CustomizationEnablementTarget)
    (kind : CustomizationEnablementKind) (enabled : Bool) : Prop :=
  (∀ other, ∀ otherTarget ∈ targets, s.OutOfScope session target other otherTarget kind →
    (s.setEnablement session target kind enabled).1.resolve other otherTarget =
      (s.withoutEvicted (s.setEnablement session target kind enabled).1).resolve other
        otherTarget) ∧
  ∀ enablement on workingDirectory, (s.setEnablement session target kind enabled).2 =
      .ok (.resolved enablement on workingDirectory) →
    (getCustomizationScopeEnablement enablement).at kind = enabled

structure Undisturbed (s : CustomizationEnablementService) (session : Uri) (key : String)
    (workingDirectory : WorkingDirectory) (other : Uri) (otherDirectory : WorkingDirectory) :
    Prop where
  global : s.persistent.decision (.global key) = some (s.clientBase session key) →
    s.clientGlobal other key = some (s.clientBase session key)
  workspace : ∀ uri, otherDirectory = .directory uri →
    s.persistent.decision (.workspace key uri) = some (s.globalEnablement session key) →
    workingDirectory ≠ .directory uri ∧
      ∀ v, s.persistent.decision (.global key) = some v → v = s.clientBase session key

/-- The condition on a session or workspace write of a session that is resolved. -/
structure ScopeKeptOf (targets : Set CustomizationEnablementTarget)
    (s : CustomizationEnablementService) (session : Uri) (target : CustomizationEnablementTarget)
    (kind : CustomizationEnablementKind) (enabled : Bool) (key : String)
    (decisions : Record String Bool) (workingDirectory : WorkingDirectory) : Prop where
  others : ∀ other otherDirectory, (s.sessionEnablement.get other).isSome = true →
    s.getWorkingDirectoryState other = some otherDirectory →
    s.OutOfScope session target other target kind →
    s.Undisturbed session key workingDirectory other otherDirectory
  /-- A workspace write that clears the session decision it makes redundant. -/
  ids : kind = .workspace → decisions.get target.id = some enabled →
    ∀ otherTarget ∈ targets, otherTarget.id = target.id →
      ∀ otherKey, getCustomizationEnablementKey otherTarget .global = .ok otherKey → otherKey = key

/-- A write that is queued or rejected changes nothing. -/
def ScopeKept (targets : Set CustomizationEnablementTarget)
    (s : CustomizationEnablementService) (session : Uri) (target : CustomizationEnablementTarget)
    (kind : CustomizationEnablementKind) (enabled : Bool) : Prop :=
  ∀ key decisions workingDirectory, getCustomizationEnablementKey target .global = .ok key →
    s.sessionEnablement.get session = some decisions →
    s.getWorkingDirectoryState session = some workingDirectory →
    (kind = .workspace → workingDirectory ≠ .workspaceless) →
    s.ScopeKeptOf targets session target kind enabled key decisions workingDirectory

/-! ## Resolutions that agree -/

theorem resolve_congr {s t : CustomizationEnablementService} {session : Uri}
    {target : CustomizationEnablementTarget}
    (hloaded : (t.sessionEnablement.get session).isSome = (s.sessionEnablement.get session).isSome)
    (hdirectory : t.getWorkingDirectoryState session = s.getWorkingDirectoryState session)
    (hsame : ∀ key decisions workingDirectory,
      getCustomizationEnablementKey target .global = .ok key →
      s.sessionEnablement.get session = some decisions →
      s.getWorkingDirectoryState session = some workingDirectory →
      (t.sessionEnablement.get session).map (·.get target.id) = some (decisions.get target.id) ∧
        t.workspaceDecision key workingDirectory = s.workspaceDecision key workingDirectory ∧
        t.globalDecision session key = s.globalDecision session key) :
    t.resolve session target = s.resolve session target := by
  unfold resolve
  rw [hdirectory]
  cases hs : s.sessionEnablement.get session with
  | none =>
    rw [hs, isSome_none, isSome_eq_false_iff, isNone_iff_eq_none] at hloaded
    rw [hloaded]
  | some decisions =>
    rw [hs, isSome_some, isSome_iff_exists] at hloaded
    obtain ⟨decisions', ht⟩ := hloaded
    rw [ht]
    cases hdir : s.getWorkingDirectoryState session with
    | none => rfl
    | some workingDirectory =>
      cases hkey : getCustomizationEnablementKey target .global with
      | error e => rfl
      | ok key =>
        obtain ⟨hown, hworkspace, hglobal⟩ := hsame key decisions workingDirectory hkey hs hdir
        rw [ht, map_some, Option.some.injEq] at hown
        simp only [hown, hworkspace, hglobal, bind, Except.bind]

theorem decisions_of_resolve_eq {s t : CustomizationEnablementService} {session : Uri}
    {target : CustomizationEnablementTarget} {key : String} {decisions decisions' : Record String Bool}
    {workingDirectory : WorkingDirectory}
    (hkey : getCustomizationEnablementKey target .global = .ok key)
    (hs : s.sessionEnablement.get session = some decisions)
    (ht : t.sessionEnablement.get session = some decisions')
    (hdirectory : s.getWorkingDirectoryState session = some workingDirectory)
    (hdirectory' : t.getWorkingDirectoryState session = some workingDirectory)
    (h : t.resolve session target = s.resolve session target) :
    decisions'.get target.id = decisions.get target.id ∧
      t.workspaceDecision key workingDirectory = s.workspaceDecision key workingDirectory ∧
      t.globalDecision session key = s.globalDecision session key := by
  rw [resolve_resolved hkey hs hdirectory, resolve_resolved hkey ht hdirectory'] at h
  exact decisionsOf_inj.mp (CustomizationEnablementResolution.resolved.inj (Except.ok.inj h)).1

theorem decision_withoutEvicted (s s' : CustomizationEnablementService) (e : LruEntry) :
    (s.withoutEvicted s').persistent.decision e =
      if e ∈ s'.evicted.drop s.evicted.length then none else s.persistent.decision e :=
  PersistedEnablement.decision_foldl_drop s.persistent _ e

theorem globalDecision_eq (s : CustomizationEnablementService) (session : Uri) (key : String) :
    s.globalDecision session key =
      (s.persistent.decision (.global key)).or (s.clientGlobal session key) := by
  show _ = (s.persistent.global.get key).or _
  unfold globalDecision
  cases s.persistent.global.get key <;> rfl

/-! ## The decisions a resolved write leaves to others -/

section

variable {s : CustomizationEnablementService} {session : Uri}
  {target : CustomizationEnablementTarget} {key : String} {workingDirectory : WorkingDirectory}
  {own workspace : Option Bool}

theorem Bounded.decision_before (h : s.Bounded) (e : LruEntry) :
    (s.withoutEvicted (s.rewrite session target key workingDirectory own
        workspace)).persistent.decision e =
      if e ∈ s.evictedBy session key workspace workingDirectory then none
      else s.persistent.decision e := by
  rw [decision_withoutEvicted, h.evicted_rewrite, drop_left]

theorem Bounded.decision_rewrite_other (h : s.Bounded) {e : LruEntry}
    (hglobal : e ≠ .global key) (hworkspace : ∀ uri, e ≠ .workspace key uri) :
    (s.rewrite session target key workingDirectory own workspace).persistent.decision e =
      (s.withoutEvicted (s.rewrite session target key workingDirectory own
        workspace)).persistent.decision e := by
  have hown : WorkingDirectory.entry? key workingDirectory ≠ some e := by
    cases workingDirectory with
    | directory uri => exact fun heq => hworkspace uri (Option.some.inj heq).symm
    | workspaceless => exact fun heq => nomatch heq
  have hpruned : ¬ s.Pruned session key e := by
    rintro ⟨uri, v, heq, -⟩
    exact hworkspace uri heq
  rw [h.decision_rewrite, h.decision_before, if_neg hown, h.decision_reapplyGlobal,
    if_neg hglobal, if_neg hpruned]

theorem Bounded.notMem_evictedBy_of_pruned (h : s.Bounded) {e : LruEntry}
    (hpruned : s.Pruned session key e) :
    e ∉ s.evictedBy session key workspace workingDirectory := by
  intro hmem
  by_cases hown : WorkingDirectory.entry? key workingDirectory = some e
  · exact h.own_notMem_evictedBy session key workingDirectory workspace hown hmem
  · have hlru := mem_lru_of_mem_evictedBy session key workingDirectory workspace hmem hown
    rw [h.lru_reapplyGlobal, mem_lru_writeGlobal] at hlru
    exact hlru.2 ((prunes_globalDecision e).mpr hpruned)

theorem Bounded.globalDecision_rewrite (h : s.Bounded) (other : Uri) :
    (s.rewrite session target key workingDirectory own workspace).globalDecision other key =
        (s.withoutEvicted (s.rewrite session target key workingDirectory own
          workspace)).globalDecision other key ↔
      (s.persistent.decision (.global key) = some (s.clientBase session key) →
        s.clientGlobal other key = some (s.clientBase session key)) := by
  have hown : WorkingDirectory.entry? key workingDirectory ≠ some (.global key) := by
    cases workingDirectory <;> exact fun heq => nomatch heq
  rw [globalDecision_eq, globalDecision_eq, h.decision_rewrite, h.decision_before, if_neg hown,
    h.decision_reapplyGlobal, if_pos rfl, clientGlobal_rewrite]
  show _ = Option.or _ (s.clientGlobal other key) ↔ _
  by_cases hmem : .global key ∈ s.evictedBy session key workspace workingDirectory
  · simp only [hmem, if_true, true_iff]
    intro hbase
    have hlru := mem_lru_of_mem_evictedBy session key workingDirectory workspace hmem hown
    rw [h.lru_reapplyGlobal, mem_lru_writeGlobal, if_pos rfl, storedGlobal_globalDecision,
      hbase] at hlru
    simp at hlru
  · simp only [hmem, if_false]
    cases hdecision : s.persistent.decision (.global key) with
    | none => simp
    | some v =>
      by_cases hv : v = s.clientBase session key
      · simp [hv]
      · simp [hv]

theorem Bounded.workspace_rewrite (h : s.Bounded) (uri : Uri)
    (hworkspace : workingDirectory = .directory uri →
      workspace = s.persistent.decision (.workspace key uri)) :
    (s.rewrite session target key workingDirectory own workspace).persistent.decision
          (.workspace key uri) =
        (s.withoutEvicted (s.rewrite session target key workingDirectory own
          workspace)).persistent.decision (.workspace key uri) ↔
      (s.persistent.decision (.workspace key uri) = some (s.globalEnablement session key) →
        workingDirectory ≠ .directory uri ∧
          ∀ v, s.persistent.decision (.global key) = some v → v = s.clientBase session key) := by
  rw [h.decision_rewrite, h.decision_before]
  by_cases hdirectory : workingDirectory = .directory uri
  · have hown : WorkingDirectory.entry? key workingDirectory = some (.workspace key uri) := by
      rw [hdirectory]
      rfl
    have hkept := h.own_notMem_evictedBy session key workingDirectory workspace hown
    rw [if_neg hkept, if_neg hkept, if_pos hown, hworkspace hdirectory]
    cases s.persistent.decision (.workspace key uri) with
    | none => simp
    | some v => simp [filter_some, hdirectory]
  · have hown : WorkingDirectory.entry? key workingDirectory ≠ some (.workspace key uri) := by
      cases workingDirectory with
      | directory other =>
        intro heq
        cases heq
        exact hdirectory rfl
      | workspaceless => exact fun heq => nomatch heq
    have hpruned : s.Pruned session key (.workspace key uri) ↔
        ¬ (s.persistent.decision (.workspace key uri) = some (s.globalEnablement session key) →
          workingDirectory ≠ .directory uri ∧
            ∀ v, s.persistent.decision (.global key) = some v → v = s.clientBase session key) := by
      have hglobal : ∀ v, s.persistent.decision (.global key) = some v →
          s.globalEnablement session key = v := by
        intro v hv
        unfold globalEnablement
        rw [globalDecision_eq, hv]
        rfl
      constructor
      · rintro ⟨directory, v, heq, hv, hbase, hdecision⟩ hkept
        cases heq
        exact hbase ((hkept (by rw [hdecision, hglobal v hv])).2 v hv)
      · intro hnot
        simp only [Classical.not_imp, not_and, not_forall] at hnot
        obtain ⟨hdecision, hrest⟩ := hnot
        obtain ⟨v, hv, hbase⟩ := hrest hdirectory
        exact ⟨uri, v, rfl, hv, hbase, by rw [hdecision, hglobal v hv]⟩
    have hglobal : LruEntry.workspace key uri ≠ .global key := fun heq => nomatch heq
    rw [if_neg hown, h.decision_reapplyGlobal, if_neg hglobal]
    by_cases hp : s.Pruned session key (.workspace key uri)
    · have hmem : .workspace key uri ∉ s.evictedBy session key workspace workingDirectory :=
        h.notMem_evictedBy_of_pruned hp
      rw [if_neg hmem, if_neg hmem, if_pos hp]
      refine iff_of_false ?_ (hpruned.mp hp)
      obtain ⟨-, v, -, -, -, hdecision⟩ := hp
      rw [hdecision]
      exact fun heq => nomatch heq
    · rw [if_neg hp]
      refine iff_of_true rfl ?_
      by_contra hnot
      exact hp (hpruned.mpr hnot)

theorem workspaceDecision_eq_iff {s t : CustomizationEnablementService} {key : String}
    {workingDirectory : WorkingDirectory} :
    t.workspaceDecision key workingDirectory = s.workspaceDecision key workingDirectory ↔
      ∀ uri, workingDirectory = .directory uri → t.persistent.decision (.workspace key uri) =
          s.persistent.decision (.workspace key uri) := by
  cases workingDirectory with
  | workspaceless => exact iff_of_true rfl fun uri heq => nomatch heq
  | directory uri =>
    simp only [workspaceDecision]
    constructor
    · intro heq other hother
      cases hother
      exact map_injective (fun _ _ hv => (Prod.mk.inj hv).2) heq
    · intro heq
      rw [heq uri rfl]

end

/-! ## The value in the acting session -/

section

variable {s : CustomizationEnablementService} {session : Uri}
  {target : CustomizationEnablementTarget} {key : String}

theorem Bounded.globalEnablement_rewrite (h : s.Bounded) {workingDirectory : WorkingDirectory}
    {own workspace : Option Bool} (hkept : s.evictedBy session key workspace workingDirectory = []) :
    (s.rewrite session target key workingDirectory own workspace).globalEnablement session key =
      s.globalEnablement session key := by
  have hown : WorkingDirectory.entry? key workingDirectory ≠ some (.global key) := by
    cases workingDirectory <;> exact fun heq => nomatch heq
  rw [← h.globalEnablement_reapplyGlobal]
  unfold globalEnablement
  rw [globalDecision_eq, globalDecision_eq, h.decision_rewrite, hkept, if_neg not_mem_nil,
    if_neg hown, clientGlobal_rewrite, (sameElsewhere_reapplyGlobal s session key).clientGlobal]

theorem Bounded.workspaceInherited_rewrite (h : s.Bounded) {uri : Uri} {own : Option Bool}
    (enabled : Bool) :
    (s.rewrite session target key (.directory uri) own (some enabled)).workspaceInheritedEnablement
      session key uri = enabled := by
  have hown : WorkingDirectory.entry? key (.directory uri) = some (.workspace key uri) := rfl
  unfold workspaceInheritedEnablement
  rw [h.decision_rewrite, if_neg (h.own_notMem_evictedBy session key _ _ hown), if_pos hown]
  by_cases hv : enabled = s.globalEnablement session key
  · have hdropped : (some enabled).filter (· ≠ s.globalEnablement session key) = none := by
      simp [filter_some, hv]
    have hkept : s.evictedBy session key (some enabled) (.directory uri) = [] := by
      refine h.evictedBy_eq_nil session key _ _ fun uri _ hstored => ?_
      rw [hdropped] at hstored
      cases hstored
    rw [hdropped, h.globalEnablement_rewrite hkept, getD_none]
    exact hv.symm
  · simp [filter_some, hv]

theorem sessionInherited_eq (s : CustomizationEnablementService) (session : Uri) (key : String)
    (workingDirectory : WorkingDirectory) :
    s.sessionInherited session key workingDirectory =
      ((s.workspaceDecision key workingDirectory).map Prod.snd).getD
        ((s.globalDecision session key).getD defaultCustomizationEnabled) := by
  cases workingDirectory with
  | workspaceless => rfl
  | directory uri =>
    simp only [sessionInherited, workspaceInheritedEnablement, workspaceDecision, globalEnablement]
    cases s.persistent.decision (.workspace key uri) <;> rfl

theorem getD_filter_ne (v i : Bool) : ((some v).filter (· ≠ i)).getD i = v := by
  by_cases h : v = i
  · simp [filter_some, h]
  · simp [filter_some, h]

end

/-! ## Writes that are queued or rejected -/

def Writes (s : CustomizationEnablementService) (session : Uri)
    (target : CustomizationEnablementTarget) (kind : CustomizationEnablementKind) : Prop :=
  ∃ key decisions workingDirectory, getCustomizationEnablementKey target .global = .ok key ∧
    s.sessionEnablement.get session = some decisions ∧
    s.getWorkingDirectoryState session = some workingDirectory ∧
    (kind = .workspace → workingDirectory ≠ .workspaceless)

variable {target : CustomizationEnablementTarget} {s : CustomizationEnablementService}

variable {kind : CustomizationEnablementKind}

theorem setEnablement_of_not_writes {session : Uri} (hkind : kind ≠ .global) (enabled : Bool)
    (h : ¬ s.Writes session target kind) :
    ((s.setEnablement session target kind enabled).1 = s ∨
      ∃ key, (s.setEnablement session target kind enabled).1 =
        s.queueReplacement session target key (.scopedTo kind enabled)) ∧
      ∀ enablement on workingDirectory, (s.setEnablement session target kind enabled).2 ≠
        .ok (.resolved enablement on workingDirectory) := by
  unfold setEnablement replace
  cases hkey : getCustomizationEnablementKey target .global with
  | error e => exact ⟨.inl rfl, fun _ _ _ heq => by cases heq⟩
  | ok key =>
    have hqueued : ∀ reason, s.resolve session target = .ok (.pending reason) →
        s.deferReplacement session target key (.scopedTo kind enabled) =
          s.queueReplacement session target key (.scopedTo kind enabled) :=
      fun reason _ => if_neg hkind
    cases hdecisions : s.sessionEnablement.get session with
    | none =>
      have hpending : s.resolve session target = .ok (.pending .session) := by
        unfold resolve
        rw [hdecisions]
      simp only [hpending, hqueued _ hpending]
      exact ⟨.inr ⟨key, rfl⟩, fun _ _ _ heq => by cases heq⟩
    | some decisions =>
      cases hdirectory : s.getWorkingDirectoryState session with
      | none =>
        have hpending : s.resolve session target = .ok (.pending .workingDirectory) := by
          unfold resolve
          rw [hdecisions, hdirectory]
        simp only [hpending, hqueued _ hpending]
        exact ⟨.inr ⟨key, rfl⟩, fun _ _ _ heq => by cases heq⟩
      | some workingDirectory =>
        have hless : kind = .workspace ∧ workingDirectory = .workspaceless := by
          by_contra hnot
          exact h ⟨key, decisions, workingDirectory, hkey, hdecisions, hdirectory,
            fun hk hd => hnot ⟨hk, hd⟩⟩
        obtain ⟨rfl, rfl⟩ := hless
        simp only [resolve_resolved hkey hdecisions hdirectory, replacementEnablement,
          enablementEntry, bind, Except.bind]
        exact ⟨.inl trivial, fun _ _ _ heq => by cases heq⟩

theorem staysInScope_of_not_writes {targets : Set CustomizationEnablementTarget} {session : Uri}
    (hkind : kind ≠ .global) (enabled : Bool) (h : ¬ s.Writes session target kind) :
    StaysInScope targets s session target kind enabled := by
  obtain ⟨hstate, hanswer⟩ := setEnablement_of_not_writes hkind enabled h
  refine ⟨fun other otherTarget _ _ => ?_, fun e on d heq => absurd heq (hanswer e on d)⟩
  rcases hstate with heq | ⟨key, heq⟩
  · rw [heq]
    unfold withoutEvicted
    rw [drop_length]
    rfl
  · rw [heq]
    unfold withoutEvicted queueReplacement
    rw [drop_length]
    rfl

/-! ## Resolved writes -/

section

variable {targets : Set CustomizationEnablementTarget} {s : CustomizationEnablementService}
  {session : Uri} {target : CustomizationEnablementTarget} {key : String}
  {decisions : Record String Bool} {workingDirectory : WorkingDirectory}
  {own workspace : Option Bool}

theorem Bounded.undisturbed_iff (h : s.Bounded) (other : Uri) (otherDirectory : WorkingDirectory)
    (hworkspace : ∀ uri, otherDirectory = .directory uri → workingDirectory = .directory uri →
      workspace = s.persistent.decision (.workspace key uri)) :
    s.Undisturbed session key workingDirectory other otherDirectory ↔
      (s.rewrite session target key workingDirectory own workspace).workspaceDecision key
          otherDirectory =
        (s.withoutEvicted (s.rewrite session target key workingDirectory own
          workspace)).workspaceDecision key otherDirectory ∧
      (s.rewrite session target key workingDirectory own workspace).globalDecision other key =
        (s.withoutEvicted (s.rewrite session target key workingDirectory own
          workspace)).globalDecision other key := by
  rw [workspaceDecision_eq_iff, h.globalDecision_rewrite]
  constructor
  · intro hkept
    exact ⟨fun uri huri => (h.workspace_rewrite uri (hworkspace uri huri)).mpr
      (hkept.workspace uri huri), hkept.global⟩
  · rintro ⟨hsame, hglobal⟩
    exact ⟨hglobal, fun uri huri => (h.workspace_rewrite uri (hworkspace uri huri)).mp
      (hsame uri huri)⟩

theorem Bounded.otherKey_rewrite (h : s.Bounded) {otherKey : String} (hkey : otherKey ≠ key)
    (other : Uri) (otherDirectory : WorkingDirectory) :
    (s.rewrite session target key workingDirectory own workspace).workspaceDecision otherKey
          otherDirectory =
        (s.withoutEvicted (s.rewrite session target key workingDirectory own
          workspace)).workspaceDecision otherKey otherDirectory ∧
      (s.rewrite session target key workingDirectory own workspace).globalDecision other otherKey =
        (s.withoutEvicted (s.rewrite session target key workingDirectory own
          workspace)).globalDecision other otherKey := by
  constructor
  · refine workspaceDecision_eq_iff.mpr fun uri _ => h.decision_rewrite_other ?_ ?_
    · exact fun heq => nomatch heq
    · intro other heq
      exact hkey (LruEntry.workspace.inj heq).1
  · rw [globalDecision_eq, globalDecision_eq, clientGlobal_rewrite,
      h.decision_rewrite_other (fun heq => hkey (LruEntry.global.inj heq)) fun _ heq => nomatch heq]
    rfl

theorem isSome_sessionEnablement_rewrite
    (hdecisions : s.sessionEnablement.get session = some decisions) (other : Uri) :
    ((s.rewrite session target key workingDirectory own workspace).sessionEnablement.get
        other).isSome = (s.sessionEnablement.get other).isSome := by
  obtain ⟨written, -, heq⟩ := sessionEnablement_rewrite session target key workingDirectory own
    workspace hdecisions
  rw [heq, get_set]
  by_cases hother : session = other
  · rw [if_pos hother, ← hother, hdecisions]
    rfl
  · rw [if_neg hother]

theorem sessionEnablement_rewrite_other
    (hdecisions : s.sessionEnablement.get session = some decisions) {other : Uri}
    (hother : other ≠ session) :
    (s.rewrite session target key workingDirectory own workspace).sessionEnablement.get other =
      s.sessionEnablement.get other := by
  obtain ⟨written, -, heq⟩ := sessionEnablement_rewrite session target key workingDirectory own
    workspace hdecisions
  rw [heq, get_set, if_neg (Ne.symm hother)]

theorem sessionEnablement_rewrite_own
    (hdecisions : s.sessionEnablement.get session = some decisions) (id : String) :
    ((s.rewrite session target key workingDirectory own workspace).sessionEnablement.get
        session).map (·.get id) =
      some (if id = target.id then
        (s.rewrite session target key workingDirectory own workspace).ownStored session key
          workingDirectory own
      else decisions.get id) := by
  obtain ⟨written, hget, heq⟩ := sessionEnablement_rewrite session target key workingDirectory own
    workspace hdecisions
  rw [heq, get_set, if_pos rfl, map_some, hget]

/-! ### Session writes -/

theorem Bounded.staysInScope_session_iff (h : s.Bounded) (enabled : Bool) (htarget : target ∈ targets)
    (hkey : getCustomizationEnablementKey target .global = .ok key)
    (hdecisions : s.sessionEnablement.get session = some decisions)
    (hdirectory : s.getWorkingDirectoryState session = some workingDirectory) :
    StaysInScope targets s session target .session enabled ↔
      s.ScopeKeptOf targets session target .session enabled key decisions workingDirectory := by
  unfold StaysInScope
  rw [setEnablement_session enabled hkey hdecisions hdirectory]
  have hworkspace : ∀ uri, workingDirectory = .directory uri →
      (s.workspaceDecision key workingDirectory).map Prod.snd =
        s.persistent.decision (.workspace key uri) := by
    rintro uri rfl
    simp [workspaceDecision, Function.comp_def]
  generalize (s.workspaceDecision key workingDirectory).map Prod.snd = workspace at hworkspace
  have hdirs := getWorkingDirectoryState_rewrite session target key workingDirectory
    (some enabled) workspace s
  constructor
  · rintro ⟨hsame, -⟩
    refine ⟨fun other otherDirectory hloaded hdir hout => ?_, fun hk => nomatch hk⟩
    obtain ⟨decisions', hs⟩ := isSome_iff_exists.mp hloaded
    have hresolve := hsame other target htarget hout
    have hs' : (s.rewrite session target key workingDirectory (some enabled)
        workspace).sessionEnablement.get other = some decisions' :=
      (sessionEnablement_rewrite_other hdecisions hout).trans hs
    exact (h.undisturbed_iff other otherDirectory fun uri _ => hworkspace uri).mpr
      (decisions_of_resolve_eq (s := s.withoutEvicted _) hkey hs hs' hdir
        ((congrFun hdirs other).trans hdir) hresolve).2
  · intro hkept
    refine ⟨fun other otherTarget hmem hout => ?_, fun e on d heq => ?_⟩
    · refine resolve_congr (isSome_sessionEnablement_rewrite hdecisions other)
        (congrFun hdirs other) fun k d dir hk hd hdir => ⟨?_, ?_⟩
      · rw [sessionEnablement_rewrite_other hdecisions hout]
        exact congrArg (Option.map _) hd
      · by_cases hother : k = key
        · subst hother
          exact (h.undisturbed_iff other dir fun uri _ => hworkspace uri).mp
            (hkept.others other dir (isSome_iff_exists.mpr ⟨d, hd⟩) hdir hout)
        · exact h.otherKey_rewrite hother other dir
    · obtain ⟨written, hget, hset⟩ := sessionEnablement_rewrite session target key
        workingDirectory (some enabled) workspace hdecisions
      have hwritten := congrArg (fun r => Record.get r session) hset
      simp only [get_set, if_true] at hwritten
      rw [resolve_resolved hkey hwritten (by rw [hdirs, hdirectory])] at heq
      obtain ⟨rfl, -, -⟩ := CustomizationEnablementResolution.resolved.inj (Except.ok.inj heq)
      rw [scopeEnablement_decisionsOf, hget, if_pos rfl]
      rw [← sessionInherited_eq]
      exact getD_filter_ne _ _

/-! ### Workspace writes -/

theorem Bounded.staysInScope_workspace_iff {uri : Uri} (h : s.Bounded) (enabled : Bool)
    (htarget : target ∈ targets) (hkey : getCustomizationEnablementKey target .global = .ok key)
    (hdecisions : s.sessionEnablement.get session = some decisions)
    (hdirectory : s.getWorkingDirectoryState session = some (.directory uri)) :
    StaysInScope targets s session target .workspace enabled ↔
      s.ScopeKeptOf targets session target .workspace enabled key decisions (.directory uri) := by
  unfold StaysInScope
  rw [setEnablement_workspace enabled hkey hdecisions hdirectory]
  have hdirs := getWorkingDirectoryState_rewrite session target key (.directory uri)
    (decisions.get target.id) (some enabled) s
  have hown : (s.rewrite session target key (.directory uri) (decisions.get target.id)
      (some enabled)).ownStored session key (.directory uri) (decisions.get target.id) =
        (decisions.get target.id).filter (· ≠ enabled) := by
    unfold ownStored
    rw [show (s.rewrite session target key (.directory uri) (decisions.get target.id)
      (some enabled)).sessionInherited session key (.directory uri) = enabled from
        h.workspaceInherited_rewrite enabled]
  -- A session out of the scope of this key is in another directory.
  have hapart : ∀ other dir, s.getWorkingDirectoryState other = some dir →
      s.OutOfScope session target other target .workspace → dir ≠ .directory uri := by
    rintro other dir hdir hout rfl
    exact hout ⟨hdir.trans hdirectory.symm, rfl⟩
  have hnone : ∀ dir : WorkingDirectory, dir ≠ .directory uri → ∀ other, dir = .directory other →
      WorkingDirectory.directory uri = .directory other →
      some enabled = s.persistent.decision (.workspace key other) :=
    fun dir hne other hdir huri => absurd (hdir.trans huri.symm) hne
  constructor
  · rintro ⟨hsame, -⟩
    refine ⟨fun other otherDirectory hloaded hdir hout => ?_, fun _ hstored otherTarget hmem hid
      otherKey hotherKey => ?_⟩
    · have hother : other ≠ session := by
        rintro rfl
        exact hout ⟨rfl, rfl⟩
      obtain ⟨decisions', hs⟩ := isSome_iff_exists.mp hloaded
      have hs' : (s.rewrite session target key (.directory uri) (decisions.get target.id)
          (some enabled)).sessionEnablement.get other = some decisions' :=
        (sessionEnablement_rewrite_other hdecisions hother).trans hs
      exact (h.undisturbed_iff other otherDirectory
        (hnone otherDirectory (hapart other otherDirectory hdir hout))).mpr
        (decisions_of_resolve_eq (s := s.withoutEvicted _) hkey hs hs' hdir
          ((congrFun hdirs other).trans hdir) (hsame other target htarget hout)).2
    · by_contra hne
      have hout : s.OutOfScope session target session otherTarget .workspace := by
        rintro ⟨-, hsameKey⟩
        rw [hkey, hotherKey] at hsameKey
        exact hne (Except.ok.inj hsameKey)
      have howned : ((s.rewrite session target key (.directory uri) (decisions.get target.id)
          (some enabled)).sessionEnablement.get session).map (·.get otherTarget.id) = some _ :=
        sessionEnablement_rewrite_own hdecisions otherTarget.id
      obtain ⟨written, hwritten, hget⟩ := map_eq_some_iff.mp howned
      have hcleared := (decisions_of_resolve_eq (s := s.withoutEvicted _) hotherKey hdecisions
        hwritten hdirectory (by rw [hdirs, hdirectory]) (hsame session otherTarget hmem hout)).1
      rw [hget, hid, if_pos rfl, hown, hstored] at hcleared
      simp at hcleared
  · intro hkept
    refine ⟨fun other otherTarget hmem hout => ?_, fun e on d heq => ?_⟩
    · refine resolve_congr (isSome_sessionEnablement_rewrite hdecisions other)
        (congrFun hdirs other) fun k d dir hk hd hdir => ⟨?_, ?_⟩
      · by_cases hother : other = session
        · subst hother
          change s.sessionEnablement.get other = some d at hd
          obtain rfl := Option.some.inj (hdecisions.symm.trans hd)
          rw [sessionEnablement_rewrite_own hdecisions]
          split
          · rename_i hid
            rw [hown, hid, Option.some.injEq]
            cases hstored : decisions.get target.id with
            | none => rfl
            | some v =>
              refine (filter_some ..).trans (if_pos ?_)
              rw [decide_eq_true_eq]
              rintro rfl
              refine hout ⟨rfl, ?_⟩
              rw [hk, hkey, hkept.ids rfl hstored otherTarget hmem hid k hk]
          · rfl
        · rw [sessionEnablement_rewrite_other hdecisions hother]
          exact congrArg (Option.map _) hd
      · by_cases hother : k = key
        · subst hother
          have hout' : s.OutOfScope session target other target .workspace := by
            rintro ⟨hdirs', -⟩
            exact hout ⟨hdirs', hk.trans hkey.symm⟩
          exact (h.undisturbed_iff other dir (hnone dir (hapart other dir hdir hout'))).mp
            (hkept.others other dir (isSome_iff_exists.mpr ⟨d, hd⟩) hdir hout')
        · exact h.otherKey_rewrite hother other dir
    · obtain ⟨written, -, hset⟩ := sessionEnablement_rewrite session target key
        (.directory uri) (decisions.get target.id) (some enabled) hdecisions
      have hwritten := congrArg (fun r => Record.get r session) hset
      simp only [get_set, if_true] at hwritten
      rw [resolve_resolved hkey hwritten (by rw [hdirs, hdirectory])] at heq
      obtain ⟨rfl, -, -⟩ := CustomizationEnablementResolution.resolved.inj (Except.ok.inj heq)
      rw [scopeEnablement_decisionsOf]
      rw [← sessionInherited_eq]
      exact h.workspaceInherited_rewrite enabled

end

/-- In every reachable state a session or workspace write stays in its scope exactly when
the decisions it clears are not those of another session. -/
theorem scoped_write_iff {s : CustomizationEnablementService} (hs : system.Reachable s)
    (targets : Set CustomizationEnablementTarget) (session : Uri)
    (target : CustomizationEnablementTarget) (htarget : target ∈ targets)
    (kind : CustomizationEnablementKind) (hkind : kind ≠ .global) (enabled : Bool) :
    StaysInScope targets s session target kind enabled ↔
      ScopeKept targets s session target kind enabled := by
  have h := bounded_of_reachable hs
  by_cases hwrites : s.Writes session target kind
  · obtain ⟨key, decisions, workingDirectory, hkey, hdecisions, hdirectory, hplace⟩ := hwrites
    have hiff : StaysInScope targets s session target kind enabled ↔
        s.ScopeKeptOf targets session target kind enabled key decisions workingDirectory := by
      cases kind with
      | global => exact absurd rfl hkind
      | session => exact h.staysInScope_session_iff enabled htarget hkey hdecisions hdirectory
      | workspace =>
        cases workingDirectory with
        | workspaceless => exact absurd rfl (hplace rfl)
        | directory uri =>
          exact h.staysInScope_workspace_iff enabled htarget hkey hdecisions hdirectory
    rw [hiff]
    constructor
    · intro hkept key' decisions' workingDirectory' hkey' hdecisions' hdirectory' _
      obtain rfl := Except.ok.inj (hkey.symm.trans hkey')
      obtain rfl := Option.some.inj (hdecisions.symm.trans hdecisions')
      obtain rfl := Option.some.inj (hdirectory.symm.trans hdirectory')
      exact hkept
    · intro hkept
      exact hkept key decisions workingDirectory hkey hdecisions hdirectory hplace
  · refine iff_of_true (staysInScope_of_not_writes hkind enabled hwrites) ?_
    intro key decisions workingDirectory hkey hdecisions hdirectory hplace
    exact absurd ⟨key, decisions, workingDirectory, hkey, hdecisions, hdirectory, hplace⟩ hwrites

/-! ## Two sessions in two directories -/

def samplePlugin : CustomizationEnablementTarget :=
  { id := "example", type := .plugin, name := "Example", source := "file:///plugins/example"
    owningPluginSource := none, isClientBundled := true }

def firstSession : Uri := .session "copilot" "first"

def secondSession : Uri := .session "copilot" "second"

def sampleSessions (session : Uri) : SessionInfo :=
  { workspaceless := false, worktreePending := false
    effectiveWorkingDirectories :=
      some [.other (if session = firstSession then "file:///first" else "file:///second")] }

def loadEvents : List EnablementEvent :=
  [.initializeSession firstSession, .finishLoad firstSession .empty,
    .initializeSession secondSession, .finishLoad secondSession .empty]

/-- The second client disables the plugin globally, its user enables it again. -/
def baseEvents : List EnablementEvent :=
  loadEvents ++
    [.applyClientGlobalEnablement secondSession samplePlugin [.global false],
      .setEnablement secondSession samplePlugin .global true]

def emptyService : CustomizationEnablementService := create ⟨.empty, .empty⟩ [] sampleSessions

def loadedService : CustomizationEnablementService :=
  (loadEvents.foldlM step emptyService).getD emptyService

def overriddenService : CustomizationEnablementService :=
  (baseEvents.foldlM step emptyService).getD emptyService

theorem scoped_write_sample :
    StaysInScope {samplePlugin} loadedService firstSession samplePlugin .session false := by
  have hreached : system.Reachable loadedService :=
    System.Reachable.run (.init ⟨_, _, _, rfl⟩) loadEvents rfl
  refine (scoped_write_iff hreached {samplePlugin} firstSession samplePlugin rfl .session
    (by decide) false).mpr ?_
  have hnone : ∀ e, loadedService.persistent.decision e = none := by
    intro e
    cases e <;> rfl
  intro key decisions workingDirectory _ _ _ _
  refine ⟨fun other otherDirectory _ _ _ => ⟨fun hstored => ?_, fun uri _ hstored => ?_⟩,
    fun hkind => nomatch hkind⟩
  · rw [hnone] at hstored
    cases hstored
  · rw [hnone] at hstored
    cases hstored

/-- A session write of the first session deletes the stored global decision, and the
plugin is disabled in the second session. -/
theorem scoped_write_leaks :
    ¬ ∀ s, system.Reachable s → ∀ session target kind enabled, kind ≠ .global →
      StaysInScope Set.univ s session target kind enabled := by
  intro h
  have hreached : system.Reachable overriddenService :=
    System.Reachable.run (.init ⟨_, _, _, rfl⟩) baseEvents rfl
  have hsame := (h overriddenService hreached firstSession samplePlugin .session false
    (by decide)).1 secondSession samplePlugin (Set.mem_univ _)
    (show secondSession ≠ firstSession by decide)
  have hbefore : (overriddenService.withoutEvicted (overriddenService.setEnablement firstSession
      samplePlugin .session false).1).resolve secondSession samplePlugin =
        .ok (.resolved [.global true] true (.directory (.other "file:///second"))) := by
    rfl
  have hafter : (overriddenService.setEnablement firstSession samplePlugin .session
      false).1.resolve secondSession samplePlugin =
        .ok (.resolved [.global false] false (.directory (.other "file:///second"))) := by
    rfl
  rw [hbefore, hafter] at hsame
  simp at hsame

end CustomizationEnablementService

end Fumie.AgentHost
