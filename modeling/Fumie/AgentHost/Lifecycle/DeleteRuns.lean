import Fumie.AgentHost.Lifecycle.DeleteRecords

/-!
# Runs of deletions

What a deletion knows at each of its awaits, and that every event keeps the records and
the order of the mutations. A deletion that runs is the only one that writes its session,
so the intent in its hands is the row of the table.
-/

namespace Fumie.AgentHost

open Fumie.Lib List Function PromiseChain Option

namespace Lifecycle

/-! ## The awaits -/

def AfterUpdate.Ok (targets : List SessionDeleteTarget) : AfterUpdate → Prop
  | .nextBacking index firstDeleteError => firstDeleteError = none →
    ∀ i ≤ index, ∀ target, targets[i]? = some target → target.status = .deleted
  | .clean => AllDeleted targets
  | .stop | .deleteBackings | .rethrow => True

def DeleteAwait.Ok (row : Option SessionDeleteIntent) (records : List LifecycleRecord)
    (session : SessionKey) : DeleteAwait → Prop
  | .load | .get | .capture _ => True
  | .prepare intent inserted =>
    intent.session = session ∧ (intent.targets.map (·.chat)).Nodup ∧
      (∀ target ∈ intent.targets, target.status = .pending) ∧
      .drawn intent.operationId session ∈ records ∧
      (inserted = false → ∀ key targets, .prepared intent.operationId key targets ∉ records)
  | .read operationId patch after => ∀ current, row = some current →
    current.operationId = operationId →
      Advances current.targets (patch.targets.getD current.targets) ∧
        after.Ok (patch.targets.getD current.targets)
  | .write next changed after =>
    (changed = none → ∃ current, row = some current ∧ current.operationId = next.operationId ∧
      current.session = next.session ∧ current.provider = next.provider ∧
      current.createdAt = next.createdAt ∧ Advances current.targets next.targets) ∧
    (changed = some true → row = some next) ∧ after.Ok next.targets
  | .stop intent => row = some intent
  | .deleteBacking intent index firstDeleteError => row = some intent ∧
    (firstDeleteError = none → ∀ i < index, ∀ target, intent.targets[i]? = some target →
      target.status = .deleted)
  | .cleanup intent => row = some intent ∧ AllDeleted intent.targets
  | .finalize intent removed => (removed ≠ some true → row = some intent) ∧
    (removed = some true → row = none) ∧ AllDeleted intent.targets ∧
    .cleaned intent.operationId ∈ records
  | .finalized _ => row = none

theorem DeleteAwait.Ok.mono {row : Option SessionDeleteIntent} {records records' : List LifecycleRecord}
    {session : SessionKey} {await : DeleteAwait} (h : await.Ok row records session)
    (hsub : ∀ r ∈ records, r ∈ records')
    (hprepared : ∀ operationId targets, .drawn operationId session ∈ records → ∀ key,
      .prepared operationId key targets ∈ records' → .prepared operationId key targets ∈ records) :
    await.Ok row records' session := by
  cases await with
  | prepare intent inserted =>
    obtain ⟨hsession, hnodup, hpending, hdrawn, hnew⟩ := h
    refine ⟨hsession, hnodup, hpending, hsub _ hdrawn, fun hinserted key targets hmem => ?_⟩
    exact hnew hinserted key targets (hprepared _ _ hdrawn key hmem)
  | finalize intent removed =>
    obtain ⟨hrow, hnone, hdeleted, hcleaned⟩ := h
    exact ⟨hrow, hnone, hdeleted, hsub _ hcleaned⟩
  | load | get | capture | read | write | stop | deleteBacking | cleanup | finalized => exact h

/-! ## Answers -/

/-- The records stay in order and the next await knows what it must. -/
structure Progress.Ok (s : AgentSessionLifecycleService) (session : SessionKey) (p : Progress) :
    Prop where
  durable : Durable s.intents (s.records ++ p.records) (s.operations + p.drawn)
  next : ∀ await, p.next = some await →
    await.Ok (s.intents session) (s.records ++ p.records) session
  unprepared : ∀ operationId key targets, .prepared operationId key targets ∉ p.records

section

variable {s : AgentSessionLifecycleService} {session : SessionKey}

variable {await : DeleteAwait} {index : Nat} {intent : SessionDeleteIntent}

theorem Progress.ok_of_awaits (hdurable : Durable s.intents s.records s.operations)
    (h : await.Ok (s.intents session) s.records session) :
    (Progress.awaits await).Ok s session where
  durable := by
    rw [Progress.awaits, append_nil]
    exact hdurable
  next next hnext := by
    cases hnext
    rw [Progress.awaits, append_nil]
    exact h
  unprepared _ _ _ hmem := by cases hmem

theorem Progress.ok_settles (hdurable : Durable s.intents s.records s.operations) :
    Progress.settles.Ok s session where
  durable := by
    rw [Progress.settles, append_nil]
    exact hdurable
  next _ hnext := by cases hnext
  unprepared _ _ _ hmem := by cases hmem

theorem ok_catchError (hdurable : Durable s.intents s.records s.operations)
    (operationId : OperationId) (error : String) (now : Int) :
    (catchError operationId error now).Ok s session := by
  apply Progress.ok_of_awaits hdurable
  intro current _ _
  exact ⟨Advances.refl _, trivial⟩

theorem ok_updateFailed (hdurable : Durable s.intents s.records s.operations)
    (operationId : OperationId) (error : String) (now : Int) (after : AfterUpdate) :
    (updateFailed operationId error now after).Ok s session := by
  cases after with
  | rethrow => exact Progress.ok_settles hdurable
  | stop | deleteBackings | nextBacking | clean =>
    exact ok_catchError hdurable operationId error now

theorem ok_beginAttempt (hdurable : Durable s.intents s.records s.operations)
    (intent : SessionDeleteIntent) (now : Int) : (beginAttempt intent now).Ok s session where
  durable := by
    rw [beginAttempt, Progress.awaits, append_nil]
    exact hdurable
  next next hnext := by
    cases hnext
    intro current _ _
    exact ⟨Advances.refl _, trivial⟩
  unprepared _ _ _ hmem := by cases hmem

variable {targets : List SessionDeleteTarget}

theorem nextPending_some {i : Nat} (h : nextPending targets index = some i) : index ≤ i ∧
      (∃ target, targets[i]? = some target ∧ target.status = .pending) ∧
      ∀ j, index ≤ j → j < i → ∀ target, targets[j]? = some target → target.status = .deleted := by
  unfold nextPending at h
  rw [find?_range_eq_some] at h
  obtain ⟨hi, -, hbefore⟩ := h
  rw [Bool.and_eq_true, decide_eq_true_eq] at hi
  refine ⟨hi.1, ?_, ?_⟩
  · cases htarget : targets[i]? with
    | none => simp [htarget] at hi
    | some target => exact ⟨target, rfl, by simpa [htarget] using hi.2⟩
  · intro j hij hj target htarget
    have hnot := hbefore j hj
    rw [htarget] at hnot
    cases hstatus : target.status with
    | deleted => rfl
    | pending => simp [hij, hstatus] at hnot

theorem nextPending_none (h : nextPending targets index = none) :
    ∀ j, index ≤ j → ∀ target, targets[j]? = some target → target.status = .deleted := by
  intro j hij target htarget
  have hj : j < targets.length := (List.getElem?_eq_some_iff.mp htarget).1
  have hnot := find?_eq_none.mp h j (mem_range.mpr hj)
  rw [htarget] at hnot
  cases hstatus : target.status with
  | deleted => rfl
  | pending => simp [hij, hstatus] at hnot

theorem ok_deleteFrom (hdurable : Durable s.intents s.records s.operations)
    (hrow : s.intents session = some intent) {firstDeleteError : Option String}
    (hbefore : firstDeleteError = none → ∀ i < index, ∀ target,
      intent.targets[i]? = some target → target.status = .deleted) (now : Int) :
    (deleteFrom intent index firstDeleteError now).Ok s session := by
  have hrowOk := hdurable.rows session intent hrow
  unfold deleteFrom
  cases hnext : nextPending intent.targets index with
  | some i =>
    obtain ⟨hindex, ⟨target, htarget, hpending⟩, hbetween⟩ := nextPending_some hnext
    dsimp only
    rw [htarget]
    have hmem : target ∈ intent.targets := mem_of_getElem? htarget
    refine ⟨?_, ?_, ?_⟩
    · apply hdurable.record (by simp) (by simp) (by simp) (by simp)
      intro operationId backing hdeleting
      obtain ⟨rfl, rfl⟩ := LifecycleRecord.deleting.inj (mem_singleton.mp hdeleting)
      refine ⟨?_, session, backings intent.targets, hrowOk.prepared, mem_map_of_mem hmem⟩
      intro hrecorded
      have hdeleted := (hrowOk.recorded target hmem).mpr hrecorded
      rw [hpending] at hdeleted
      cases hdeleted
    · intro await hawait
      cases hawait
      refine ⟨hrow, fun hnone j hj found hfound => ?_⟩
      rcases Nat.lt_or_ge j index with hlt | hge
      · exact hbefore hnone j hlt found hfound
      · exact hbetween j hge hj found hfound
    · simp
  | none =>
    have hrest := nextPending_none hnext
    cases firstDeleteError with
    | some error => exact ok_catchError hdurable intent.operationId error now
    | none =>
      apply Progress.ok_of_awaits hdurable
      intro current hcurrent _
      obtain rfl := Option.some.inj (hrow.symm.trans hcurrent)
      refine ⟨Advances.refl _, fun target htarget => ?_⟩
      obtain ⟨j, hj⟩ := getElem?_of_mem htarget
      rcases Nat.lt_or_ge j index with hlt | hge
      · exact hbefore rfl j hlt target hj
      · exact hrest j hge target hj

theorem ok_afterUpdate (hdurable : Durable s.intents s.records s.operations)
    (hrow : s.intents session = some intent) (now : Int) {after : AfterUpdate}
    (hafter : after.Ok intent.targets) : (afterUpdate intent now after).Ok s session := by
  cases after with
  | stop => exact Progress.ok_of_awaits hdurable hrow
  | deleteBackings =>
    exact ok_deleteFrom hdurable hrow (fun _ i hi => absurd hi (Nat.not_lt_zero i)) now
  | nextBacking index firstDeleteError =>
    apply ok_deleteFrom hdurable hrow
    intro hnone i hi
    exact hafter hnone i (Nat.lt_succ_iff.mp hi)
  | clean => exact Progress.ok_of_awaits hdurable ⟨hrow, hafter⟩
  | rethrow => exact Progress.ok_settles hdurable

theorem ok_capture (hdurable : Durable s.intents s.records s.operations) (provider : String)
    (createdAt : Int) (targets : List SessionBacking) {next : Option DeleteAwait}
    (hnext : next = none ∨ ∃ u, validateDeleteIntent
        (newIntent s.operations session provider createdAt targets) = .ok u ∧
      next = some (.prepare (newIntent s.operations session provider createdAt targets) false)) :
    Progress.Ok s session { next
                            drawn := 1
                            records := [.drawn s.operations session] } where
  durable := hdurable.draw session
  next await hawait := by
    obtain rfl | ⟨u, hvalid, rfl⟩ := hnext
    · cases hawait
    cases hawait
    refine ⟨rfl, nodup_of_validate hvalid, ?_, ?_, ?_⟩
    · intro target htarget
      obtain ⟨backing, -, rfl⟩ := mem_map.mp htarget
      rfl
    · exact mem_append_right _ (mem_singleton_self _)
    · intro _ key targets hprepared
      obtain hprepared | hprepared := mem_append.mp hprepared
      · exact Nat.lt_irrefl _ (hdurable.drawnBelow _ _ (hdurable.preparedDrawn _ _ _ hprepared))
      · cases mem_singleton.mp hprepared
  unprepared _ _ _ hmem := by cases mem_singleton.mp hmem

theorem ok_answered (hdurable : Durable s.intents s.records s.operations) {provider : String}
    {now : Int} (hawait : await.Ok (s.intents session) s.records session) {answer : Answer}
    {p : Progress} (h : await.answered s session provider now answer = some p) :
    p.Ok s session := by
  revert hawait h
  fun_cases DeleteAwait.answered s session provider now await answer
  all_goals
    intro hawait h
    first
    | contradiction
    | obtain rfl := Option.some.inj h
  -- The deletion gives up before its first attempt.
  case case3 | case4 | case6 | case8 | case11 | case13 | case15 =>
    exact Progress.ok_settles hdurable
  case case2 | case5 => exact Progress.ok_of_awaits hdurable trivial
  case case7 | case12 => exact ok_beginAttempt hdurable _ now
  case case9 createdAt targets _ _ _ _ =>
    exact ok_capture hdurable provider createdAt targets (.inl rfl)
  case case10 createdAt targets _ _ u hvalid =>
    exact ok_capture hdurable provider createdAt targets (.inr ⟨u, hvalid, rfl⟩)
  -- An update: read, then written.
  case case16 | case18 | case21 | case22 => exact ok_updateFailed hdurable _ _ now _
  case case17 next hnext =>
    obtain ⟨current, hcurrent, hop, rfl⟩ := nextIntent_ok hnext
    obtain ⟨hadvances, hafter⟩ := hawait current hcurrent hop
    apply Progress.ok_of_awaits hdurable
    refine ⟨fun _ => ⟨current, hcurrent, rfl, rfl, rfl, rfl, hadvances⟩, ?_, hafter⟩
    exact nofun
  case case20 =>
    obtain ⟨-, hrow, hafter⟩ := hawait
    exact ok_afterUpdate hdurable (hrow rfl) now hafter
  case case23 =>
    apply Progress.ok_of_awaits hdurable
    intro current _ _
    exact ⟨Advances.refl _, trivial⟩
  case case24 | case28 | case31 | case33 | case35 => exact ok_catchError hdurable _ _ now
  -- A backing has been deleted or has not.
  case case25 intent index firstDeleteError =>
    obtain ⟨hrow, hbefore⟩ := hawait
    apply Progress.ok_of_awaits hdurable
    intro current hcurrent _
    obtain rfl := Option.some.inj (hrow.symm.trans hcurrent)
    refine ⟨advances_markDeleted _ _, ?_⟩
    intro hnone i hi target htarget
    rw [getD_some, getElem?_markDeleted] at htarget
    obtain ⟨old, hold, rfl⟩ := map_eq_some_iff.mp htarget
    split
    · rfl
    · next hne => exact hbefore hnone i (by omega) old hold
  case case26 intent index firstDeleteError error =>
    apply ok_deleteFrom hdurable hawait.1
    intro hnone
    cases firstDeleteError with
    | none | some _ => cases hnone
  -- The row is finalized once everything has been cleaned.
  case case27 =>
    obtain ⟨hrow, hdeleted⟩ := hawait
    refine ⟨hdurable.record (by simp) (by simp) (by simp) (by simp) (by simp), ?_, by simp⟩
    intro await hnext
    cases hnext
    refine ⟨fun _ => hrow, ?_, hdeleted, mem_append_right _ (mem_singleton_self _)⟩
    exact nofun
  case case30 => exact Progress.ok_of_awaits hdurable (hawait.2.1 rfl)
  case case34 =>
    refine ⟨?_, fun _ hnext => (by cases hnext), fun _ _ _ hmem => (by cases hmem)⟩
    rw [append_nil]
    exact hdurable

end

/-! ## Writes -/

theorem ok_takeEffect {intents intents' : DeleteIntents} {records added : List LifecycleRecord}
    {operations : Nat} {session : SessionKey} {await await' : DeleteAwait}
    (hdurable : Durable intents records operations)
    (hawait : await.Ok (intents session) records session)
    (h : await.takeEffect intents session = some (intents', added, await')) :
    Durable intents' (records ++ added) operations ∧
      await'.Ok (intents' session) (records ++ added) session ∧
      (∀ key, key ≠ session → intents' key = intents key) ∧
      ∀ operationId key targets, .prepared operationId key targets ∈ added → key = session := by
  cases await with
  | prepare intent inserted =>
    obtain ⟨rfl, hnodup, hpending, hdrawn, hnew⟩ := hawait
    cases inserted with
    | true => cases h
    | false =>
      obtain ⟨rfl, rfl, rfl⟩ := Prod.mk.inj (Option.some.inj h) |>.imp id Prod.mk.inj
      have hinserted : true = false → ∀ key targets,
          LifecycleRecord.prepared intent.operationId key targets ∉
            records ++ if (intents intent.session).isSome = true then []
              else [.prepared intent.operationId intent.session (backings intent.targets)] := by
        exact nofun
      have hprepare : DeleteAwait.Ok (insertDeleteIntent intents intent intent.session)
          (records ++ if (intents intent.session).isSome = true then []
            else [.prepared intent.operationId intent.session (backings intent.targets)])
          intent.session (.prepare intent true) :=
        ⟨rfl, hnodup, hpending, mem_append_left _ hdrawn, hinserted⟩
      by_cases hsome : (intents intent.session).isSome = true
      · refine ⟨?_, hprepare, ?_, ?_⟩
        · rw [insertDeleteIntent, if_pos hsome, if_pos hsome, append_nil]
          exact hdurable
        · intro key _
          rw [insertDeleteIntent, if_pos hsome]
        · intro operationId key targets hmem
          rw [if_pos hsome] at hmem
          cases hmem
      · have hnone : intents intent.session = none := not_isSome_iff_eq_none.mp hsome
        refine ⟨?_, hprepare, ?_, ?_⟩
        · rw [insertDeleteIntent, if_neg hsome, if_neg hsome]
          exact hdurable.insert hnodup hpending hdrawn (hnew rfl) hnone
        · intro key hkey
          rw [insertDeleteIntent, if_neg hsome, update_of_ne hkey]
        · intro operationId key targets hmem
          rw [if_neg hsome] at hmem
          exact (LifecycleRecord.prepared.inj (mem_singleton.mp hmem)).2.1
  | write next changed after =>
    obtain ⟨hfirst, -, hafter⟩ := hawait
    cases changed with
    | some changed => cases h
    | none =>
      obtain ⟨rfl, rfl, rfl⟩ := Prod.mk.inj (Option.some.inj h) |>.imp id Prod.mk.inj
      obtain ⟨current, hcurrent, hop, hsession, hprovider, hcreated, hadvances⟩ := hfirst rfl
      have hupdate : updateDeleteIntent intents session next =
          (Function.update intents session (some next), true) := by
        unfold updateDeleteIntent
        rw [hcurrent]
        dsimp only
        rw [if_pos hop, hop, hsession, hprovider, hcreated]
      rw [hupdate, hcurrent]
      refine ⟨?_, ⟨?_, ?_, hafter⟩, ?_, ?_⟩
      · exact hdurable.update hcurrent hop hsession hadvances
      · exact nofun
      · intro _
        exact update_self _ _ _
      · intro key hkey
        exact update_of_ne hkey _ _
      · intro operationId key targets hmem
        obtain ⟨target, -, -, -, heq⟩ := mem_newlyDeleted.mp hmem
        cases heq
  | finalize intent removed =>
    obtain ⟨hrow, -, hdeleted, hcleaned⟩ := hawait
    cases removed with
    | some removed => cases h
    | none =>
      obtain ⟨rfl, rfl, rfl⟩ := Prod.mk.inj (Option.some.inj h) |>.imp id Prod.mk.inj
      have hintent : intents session = some intent := hrow (by simp)
      have hfinalize : finalizeDeleteIntent intents session intent.operationId =
          (Function.update intents session none, true) := by
        unfold finalizeDeleteIntent
        rw [hintent]
        dsimp only
        rw [if_pos rfl]
      rw [hfinalize]
      refine ⟨?_, ⟨?_, ?_, hdeleted, mem_append_left _ hcleaned⟩, ?_, ?_⟩
      · exact hdurable.finalize hintent hdeleted hcleaned
      · intro hremoved
        exact (hremoved rfl).elim
      · intro _
        exact update_self _ _ _
      · intro key hkey
        exact update_of_ne hkey _ _
      · intro operationId key targets hmem
        cases mem_singleton.mp hmem
  | load | get | capture | read | stop | deleteBacking | cleanup | finalized => cases h

/-! ## The invariant -/

structure Consistent (s : AgentSessionLifecycleService) : Prop where
  ordered : s.chain.Ordered
  durable : Durable s.intents s.records s.operations
  flight : ∀ (i : Nat) (link : Link SessionKey Task) (provider : String) (await : DeleteAwait),
    s.chain.links[i]? = some link → link.phase ≠ .settled →
    link.task = .delete provider await →
      await.Ok (s.intents link.key) s.records link.key ∧ (link.phase = .waiting → await = .load)

theorem consistent_initial : Consistent .initial where
  ordered := ordered_empty
  durable := durable_initial
  flight i link provider await hlink := by simp [AgentSessionLifecycleService.initial] at hlink

section

variable {s s' : AgentSessionLifecycleService} {i : Nat} {link link' : Link SessionKey Task}

theorem Consistent.goOn (h : Consistent s) (hlink : s.chain.links[i]? = some link)
    (hrunning : link.phase = .running) (hchain : s'.chain = s.chain.setLink i link')
    (hkey : link'.key = link.key) (hprevious : link'.previous = link.previous)
    (hbegun : link'.phase ≠ .waiting) (hdurable : Durable s'.intents s'.records s'.operations)
    (hrows : ∀ key, key ≠ link.key → s'.intents key = s.intents key)
    (hsub : ∀ r ∈ s.records, r ∈ s'.records)
    (hprepared : ∀ operationId key targets, .prepared operationId key targets ∈ s'.records →
      .prepared operationId key targets ∈ s.records ∨ key = link.key)
    (hown : ∀ provider await, link'.phase ≠ .settled → link'.task = .delete provider await →
      await.Ok (s'.intents link.key) s'.records link.key) : Consistent s' where
  ordered := by
    rw [hchain]
    exact h.ordered.setLink_of_begun hlink hkey hprevious hrunning
  durable := hdurable
  flight j found provider await hfound hphase htask := by
    rw [hchain, getElem?_setLink hlink] at hfound
    split at hfound
    · cases hfound
      rw [hkey]
      exact ⟨hown provider await hphase htask, fun hwaiting => (hbegun hwaiting).elim⟩
    · next hne =>
      obtain ⟨hok, hload⟩ := h.flight j found provider await hfound hphase htask
      refine ⟨?_, hload⟩
      cases hfoundPhase : found.phase with
      | waiting =>
        rw [hload hfoundPhase]
        exact trivial
      | settled => exact (hphase hfoundPhase).elim
      | running =>
        have hkeyNe : found.key ≠ link.key := fun hsame =>
          hne (h.ordered.running_unique hlink hfound hsame hrunning hfoundPhase)
        rw [hrows found.key hkeyNe]
        apply hok.mono hsub
        intro operationId targets hdrawn key hmem
        obtain hold | hown := hprepared operationId key targets hmem
        · exact hold
        · have hdrawnOwn := hdurable.preparedDrawn operationId key targets hmem
          rw [hown] at hdrawnOwn
          exact (hkeyNe (hdurable.drawnOnce _ _ _ hdrawnOwn (hsub _ hdrawn))).elim

theorem Consistent.congr (h : Consistent s) (hlinks : s'.chain.links = s.chain.links)
    (hordered : s'.chain.Ordered) (hintents : s'.intents = s.intents)
    (hrecords : s'.records = s.records) (hoperations : s'.operations = s.operations) : Consistent s' where
  ordered := hordered
  durable := by
    rw [hintents, hrecords, hoperations]
    exact h.durable
  flight := by
    rw [hlinks, hintents, hrecords]
    exact h.flight

theorem Consistent.request (h : Consistent s) {session : SessionKey} {task : Task}
    (htask : ∀ provider await, task = .delete provider await → await = .load)
    (hchain : s'.chain = s.chain.request session task) (hintents : s'.intents = s.intents)
    (hrecords : s'.records = s.records) (hoperations : s'.operations = s.operations) : Consistent s' where
  ordered := by
    rw [hchain]
    exact h.ordered.request session task
  durable := by
    rw [hintents, hrecords, hoperations]
    exact h.durable
  flight j found provider await hfound hphase hfoundTask := by
    rw [hintents, hrecords]
    rw [hchain, getElem?_request] at hfound
    split at hfound
    · cases hfound
      rw [htask provider await hfoundTask]
      exact ⟨trivial, fun _ => rfl⟩
    · exact h.flight j found provider await hfound hphase hfoundTask

theorem Consistent.deleteSession (h : Consistent s) (session : SessionKey) (provider : String) :
    Consistent (s.deleteSession session provider) := by
  unfold AgentSessionLifecycleService.deleteSession
  split
  · exact h
  · have htask : ∀ provider' await, Task.delete provider .load = .delete provider' await →
        await = .load := by
      intro provider' await heq
      exact (Task.delete.inj heq).2.symm
    exact h.request htask rfl rfl rfl rfl

theorem Consistent.resumePendingDeletes (h : Consistent s) (provider : String)
    (listed : List SessionDeleteIntent) : Consistent (s.resumePendingDeletes provider listed) := by
  unfold AgentSessionLifecycleService.resumePendingDeletes
  induction listed.filter (·.provider = provider) generalizing s with
  | nil => exact h
  | cons intent rest ih => exact ih (h.deleteSession intent.session provider)

theorem running_eq (h : s.running i = some link) :
    s.chain.links[i]? = some link ∧ link.phase = .running := by
  obtain ⟨hlink, hphase⟩ := filter_eq_some_iff.mp h
  exact ⟨hlink, by simpa using hphase⟩

theorem Consistent.start (h : Consistent s) {chain : PromiseChain SessionKey Task}
    (hstart : s.chain.start i = some chain) : Consistent { s with chain } where
  ordered := h.ordered.start hstart
  durable := h.durable
  flight j found provider await hfound hphase htask := by
    obtain ⟨begun, hbegun, hwaiting, -, rfl⟩ := start_eq hstart
    rw [getElem?_setLink hbegun] at hfound
    split at hfound
    · cases hfound
      obtain ⟨hok, -⟩ := h.flight i begun provider await hbegun (by rw [hwaiting]; decide) htask
      refine ⟨hok, ?_⟩
      exact nofun
    · exact h.flight j found provider await hfound hphase htask

theorem Consistent.answer (h : Consistent s) {now : Int} {answer : Answer}
    (hstep : s.step (.answer i now answer) = some s') : Consistent s' := by
  obtain ⟨link, hrunning, hstep⟩ := bind_eq_some_iff.mp hstep
  obtain ⟨hlink, hphase⟩ := running_eq hrunning
  cases htask : link.task with
  | mutation =>
    rw [htask] at hstep
    cases hstep
  | delete provider await =>
    rw [htask] at hstep
    obtain ⟨p, hp, hstep⟩ := bind_eq_some_iff.mp hstep
    cases hstep
    obtain ⟨hok, -⟩ := h.flight i link provider await hlink (by rw [hphase]; decide) htask
    have hprogress := ok_answered h.durable hok hp
    refine h.goOn hlink hphase rfl (stage_key link provider p.next)
      (stage_previous link provider p.next) ?_ hprogress.durable (fun _ _ => rfl)
      (fun r hr => mem_append_left _ hr) ?_ ?_
    · cases p.next with
      | none =>
        show LinkPhase.settled ≠ .waiting
        decide
      | some next =>
        show link.phase ≠ .waiting
        rw [hphase]
        decide
    · intro operationId key targets hmem
      exact .inl ((mem_append.mp hmem).resolve_right (hprogress.unprepared _ _ _))
    · intro provider' await' hsettled hnext
      cases hpnext : p.next with
      | none =>
        rw [hpnext] at hsettled
        exact (hsettled rfl).elim
      | some next =>
        rw [hpnext] at hnext
        obtain ⟨-, rfl⟩ := Task.delete.inj hnext
        exact hprogress.next next hpnext

theorem Consistent.takeEffect (h : Consistent s) (hstep : s.step (.takeEffect i) = some s') : Consistent s' := by
  obtain ⟨link, hrunning, hstep⟩ := bind_eq_some_iff.mp hstep
  obtain ⟨hlink, hphase⟩ := running_eq hrunning
  cases htask : link.task with
  | mutation =>
    rw [htask] at hstep
    cases hstep
  | delete provider await =>
    rw [htask] at hstep
    obtain ⟨⟨intents, added, next⟩, heffect, hstep⟩ := bind_eq_some_iff.mp hstep
    cases hstep
    obtain ⟨hok, -⟩ := h.flight i link provider await hlink (by rw [hphase]; decide) htask
    obtain ⟨hdurable, hnext, hrows, hprepared⟩ := ok_takeEffect h.durable hok heffect
    refine h.goOn hlink hphase rfl rfl rfl ?_ hdurable hrows
      (fun r hr => mem_append_left _ hr) ?_ ?_
    · show link.phase ≠ .waiting
      rw [hphase]
      decide
    · intro operationId key targets hmem
      exact (mem_append.mp hmem).imp id (hprepared operationId key targets)
    · intro provider' await' _ htask'
      obtain ⟨-, rfl⟩ := Task.delete.inj htask'
      exact hnext

theorem Consistent.settle (h : Consistent s) (hstep : s.step (.settle i) = some s') : Consistent s' := by
  obtain ⟨link, hrunning, hstep⟩ := bind_eq_some_iff.mp hstep
  obtain ⟨hlink, hphase⟩ := running_eq hrunning
  cases htask : link.task with
  | delete provider await =>
    rw [htask] at hstep
    cases hstep
  | mutation =>
    rw [htask] at hstep
    cases hstep
    refine h.goOn hlink hphase rfl rfl rfl ?_ h.durable (fun _ _ => rfl) (fun _ hr => hr)
      (fun _ _ _ hmem => .inl hmem) ?_
    · show LinkPhase.settled ≠ .waiting
      decide
    · intro provider await hsettled
      exact (hsettled rfl).elim

theorem Consistent.step (h : Consistent s) {event : LifecycleEvent} (hstep : s.step event = some s') :
    Consistent s' := by
  cases event with
  | deleteSession session provider =>
    cases hstep
    exact h.deleteSession session provider
  | runSessionMutation session =>
    cases hstep
    have htask : ∀ provider await, Task.mutation = .delete provider await → await = .load := by
      exact nofun
    exact h.request htask rfl rfl rfl rfl
  | resumePendingDeletes provider listed =>
    unfold AgentSessionLifecycleService.step at hstep
    dsimp only at hstep
    split at hstep
    · cases hstep
      exact h.resumePendingDeletes provider listed
    · cases hstep
  | load succeeds =>
    unfold AgentSessionLifecycleService.step at hstep
    dsimp only at hstep
    split at hstep
    · cases hstep
      cases succeeds with
      | true | false => exact h.congr rfl h.ordered rfl rfl rfl
    · cases hstep
  | start i =>
    obtain ⟨chain, hstart, rfl⟩ := map_eq_some_iff.mp hstep
    exact h.start hstart
  | settle i => exact h.settle hstep
  | takeEffect i => exact h.takeEffect hstep
  | answer i now answer => exact h.answer hstep
  | cleanupTail i =>
    obtain ⟨chain, hcleanup, rfl⟩ := map_eq_some_iff.mp hstep
    obtain ⟨-, -, -, hlinks, -⟩ := cleanup_eq hcleanup
    exact h.congr hlinks (h.ordered.cleanup hcleanup) rfl rfl rfl
  | cleanupOperation i =>
    obtain ⟨link, -, hstep⟩ := bind_eq_some_iff.mp hstep
    split at hstep
    · cases hstep
      split
      · exact h.congr rfl h.ordered rfl rfl rfl
      · exact h
    · cases hstep
  | crash =>
    cases hstep
    refine ⟨ordered_empty, h.durable, ?_⟩
    intro j found provider await hfound
    simp [AgentSessionLifecycleService.restart] at hfound

end

theorem consistent_reachable {s : AgentSessionLifecycleService}
    (hs : AgentSessionLifecycleService.system.Reachable s) : Consistent s := by
  refine System.ReachableVia.invariant ?_ (fun _ _ _ h _ hstep => h.step hstep) hs
  rintro _ rfl
  exact consistent_initial

/-! ## Durable deletion -/

/-- What is promised of deletions in a state, whatever failed or crashed before. -/
structure DurableDeletion (s : AgentSessionLifecycleService) : Prop where
  /-- A target recorded as deleted is not deleted again. -/
  neverAgain : ∀ before after operationId target,
    s.records = before ++ .recorded operationId target.chat :: after →
      .deleting operationId target ∉ after
  /-- What the table says of a target is what has been recorded. -/
  recorded : ∀ session row, s.intents session = some row → ∀ target ∈ row.targets,
    target.status = .deleted ↔ .recorded row.operationId target.chat ∈ s.records
  /-- Only targets first persisted are deleted. -/
  deleting : ∀ operationId target, .deleting operationId target ∈ s.records →
    ∃ session targets, .prepared operationId session targets ∈ s.records ∧ target ∈ targets
  /-- The targets of an intent are those first persisted, and it is persisted once. -/
  targets : ∀ session row, s.intents session = some row → ∀ session' targets,
    .prepared row.operationId session' targets ∈ s.records ↔
      session' = session ∧ targets = backings row.targets
  /-- An intent is there until it is finalised. -/
  kept : ∀ operationId session targets, .prepared operationId session targets ∈ s.records →
    .finalized operationId ∉ s.records →
      ∃ row, s.intents session = some row ∧ row.operationId = operationId
  /-- It is finalised after every target has been recorded and the session cleaned up. -/
  finalized : ∀ before after operationId, s.records = before ++ .finalized operationId :: after →
    .cleaned operationId ∈ before ∧ ∃ session targets,
      .prepared operationId session targets ∈ before ∧
        ∀ target ∈ targets, .recorded operationId target.chat ∈ before
  /-- A mutation has begun only where every earlier one of its session has settled. -/
  serial : ∀ (i j : Nat) (earlier later : Link SessionKey Task), i < j →
    s.chain.links[i]? = some earlier → s.chain.links[j]? = some later →
      earlier.key = later.key → later.phase ≠ .waiting → earlier.phase = .settled

theorem durableDeletion {s : AgentSessionLifecycleService}
    (hs : AgentSessionLifecycleService.system.Reachable s) : DurableDeletion s := by
  have h := consistent_reachable hs
  constructor
  · intro before after operationId target hrecords hmem
    have hpairwise := h.durable.neverAgain
    rw [hrecords] at hpairwise
    have hlater := (pairwise_cons.mp (pairwise_append.mp hpairwise).2.1).1
    exact hlater _ hmem operationId target rfl rfl
  · intro session row hrow
    exact (h.durable.rows session row hrow).recorded
  · exact h.durable.deletingPrepared
  · intro session row hrow session' targets
    have hprepared := (h.durable.rows session row hrow).prepared
    constructor
    · intro hmem
      have hdrawn := h.durable.preparedDrawn _ _ _ hprepared
      have hdrawn' := h.durable.preparedDrawn _ _ _ hmem
      exact ⟨h.durable.drawnOnce _ _ _ hdrawn hdrawn',
        h.durable.preparedOnce _ _ _ _ _ hprepared hmem⟩
    · rintro ⟨rfl, rfl⟩
      exact hprepared
  · intro operationId session targets hprepared hfinalized
    exact (h.durable.kept _ _ _ hprepared).resolve_left hfinalized
  · intro before after operationId hrecords
    have hlast := h.durable.finalizedLast before.length operationId
      (by rw [hrecords, getElem?_append_right (Nat.le_refl _), Nat.sub_self]; rfl)
    rw [hrecords, take_left] at hlast
    exact hlast
  · intro i j earlier later hij hearlier hlater hkey hbegun
    exact h.ordered.begun j later hlater hbegun i earlier hij hearlier hkey

def crashedDelete : List LifecycleEvent :=
  [.deleteSession "session" "codex", .load true, .start 0, .answer 0 1 .ok, .answer 0 2 .ok,
    .answer 0 3 (.captured [⟨"chat", none⟩]), .takeEffect 0, .answer 0 4 .ok, .answer 0 5 .ok,
    .takeEffect 0, .answer 0 6 .ok, .answer 0 7 .ok, .answer 0 8 .ok, .takeEffect 0,
    .answer 0 9 .ok, .answer 0 10 .ok, .answer 0 11 .ok, .takeEffect 0, .crash, .load true,
    .deleteSession "session" "codex", .start 0, .answer 0 12 .ok]

theorem durableDeletion_crashedDelete :
    ∃ s, crashedDelete.foldlM AgentSessionLifecycleService.step .initial = some s ∧
      .recorded 0 "chat" ∈ s.records ∧ DurableDeletion s := by
  refine ⟨_, rfl, ?_, durableDeletion (System.Reachable.run (.init rfl) crashedDelete rfl)⟩
  decide

end Lifecycle

end Fumie.AgentHost
