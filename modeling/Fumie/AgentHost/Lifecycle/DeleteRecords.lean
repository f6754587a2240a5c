import Fumie.AgentHost.Lifecycle.AgentSessionLifecycleService

/-!
# What the table and the records agree on

An intent is prepared once for an operation, keeps its targets and is removed only when
each of them is recorded as deleted and the session has been cleaned up. A target is not
deleted once it is recorded. Each write of a deletion keeps this.
-/

namespace Fumie.AgentHost

open Fumie.Lib List Function

variable {operationId : OperationId} {row : SessionDeleteIntent}
  {targets targets' : List SessionDeleteTarget}

namespace Lifecycle

def AllDeleted (targets : List SessionDeleteTarget) : Prop :=
  ∀ target ∈ targets, target.status = .deleted

def NeverAgain (records : List LifecycleRecord) : Prop :=
  records.Pairwise fun earlier later => ∀ operationId target,
    earlier = .recorded operationId target.chat → later ≠ .deleting operationId target

def FinalizedLast (records : List LifecycleRecord) : Prop :=
  ∀ i operationId, records[i]? = some (.finalized operationId) →
    .cleaned operationId ∈ records.take i ∧
      ∃ session targets, .prepared operationId session targets ∈ records.take i ∧
        ∀ target ∈ targets, .recorded operationId target.chat ∈ records.take i

structure RowOk (records : List LifecycleRecord) (session : SessionKey)
    (row : SessionDeleteIntent) : Prop where
  key : row.session = session
  prepared : .prepared row.operationId session (backings row.targets) ∈ records
  nodup : (row.targets.map (·.chat)).Nodup
  unfinished : .finalized row.operationId ∉ records
  recorded : ∀ target ∈ row.targets,
    target.status = .deleted ↔ .recorded row.operationId target.chat ∈ records

/-- The table and what has been done. -/
structure Durable (intents : DeleteIntents) (records : List LifecycleRecord) (operations : Nat) :
    Prop where
  drawnBelow : ∀ operationId session, .drawn operationId session ∈ records →
    operationId < operations
  drawnOnce : ∀ operationId session session', .drawn operationId session ∈ records →
    .drawn operationId session' ∈ records → session' = session
  preparedDrawn : ∀ operationId session targets, .prepared operationId session targets ∈ records →
    .drawn operationId session ∈ records
  preparedOnce : ∀ operationId session session' targets targets',
    .prepared operationId session targets ∈ records →
    .prepared operationId session' targets' ∈ records → targets' = targets
  finalizedPrepared : ∀ operationId, .finalized operationId ∈ records →
    ∃ session targets, .prepared operationId session targets ∈ records
  recordedPrepared : ∀ operationId chat, .recorded operationId chat ∈ records →
    ∃ session targets, .prepared operationId session targets ∈ records
  deletingPrepared : ∀ operationId target, .deleting operationId target ∈ records →
    ∃ session targets, .prepared operationId session targets ∈ records ∧ target ∈ targets
  rows : ∀ session row, intents session = some row → RowOk records session row
  kept : ∀ operationId session targets, .prepared operationId session targets ∈ records →
    .finalized operationId ∈ records ∨
      ∃ row, intents session = some row ∧ row.operationId = operationId
  neverAgain : NeverAgain records
  finalizedLast : FinalizedLast records

theorem durable_initial : Durable (fun _ => none) [] 0 where
  drawnBelow _ _ h := by cases h
  drawnOnce _ _ _ h := by cases h
  preparedDrawn _ _ _ h := by cases h
  preparedOnce _ _ _ _ _ h := by cases h
  finalizedPrepared _ h := by cases h
  recordedPrepared _ _ h := by cases h
  deletingPrepared _ _ h := by cases h
  rows _ _ h := by cases h
  kept _ _ _ h := by cases h
  neverAgain := List.Pairwise.nil
  finalizedLast i _ h := by simp at h

/-! ## Longer records -/

section

variable {records added : List LifecycleRecord}

theorem NeverAgain.append (h : NeverAgain records) (hadded : NeverAgain added)
    (hdeleting : ∀ operationId target, .deleting operationId target ∈ added →
      .recorded operationId target.chat ∉ records) : NeverAgain (records ++ added) := by
  refine pairwise_append.mpr ⟨h, hadded, ?_⟩
  rintro earlier hearlier later hlater operationId target rfl rfl
  exact hdeleting operationId target hlater hearlier

theorem neverAgain_of_notDeleting (h : ∀ operationId target, .deleting operationId target ∉ added) :
    NeverAgain added := by
  refine List.Pairwise.imp_of_mem ?_ (pairwise_of_forall (R := fun _ _ => True) fun _ _ => trivial)
  rintro earlier later - hlater - operationId target - rfl
  exact h operationId target hlater

theorem FinalizedLast.append (h : FinalizedLast records)
    (hadded : ∀ operationId, .finalized operationId ∉ added) :
    FinalizedLast (records ++ added) := by
  intro i operationId hi
  by_cases hlt : i < records.length
  · rw [getElem?_append_left hlt] at hi
    rw [take_append_of_le_length hlt.le]
    exact h i operationId hi
  · rw [getElem?_append_right (by omega)] at hi
    exact (hadded operationId (mem_of_getElem? hi)).elim

variable {session : SessionKey}

theorem FinalizedLast.finalize (h : FinalizedLast records)
    (hcleaned : .cleaned operationId ∈ records) {targets : List SessionBacking}
    (hprepared : .prepared operationId session targets ∈ records)
    (hrecorded : ∀ target ∈ targets, .recorded operationId target.chat ∈ records) :
    FinalizedLast (records ++ [.finalized operationId]) := by
  intro i op hi
  by_cases hlt : i < records.length
  · rw [getElem?_append_left hlt] at hi
    rw [take_append_of_le_length hlt.le]
    exact h i op hi
  · rw [getElem?_append_right (by omega)] at hi
    have hmem := mem_singleton.mp (mem_of_getElem? hi)
    obtain rfl := LifecycleRecord.finalized.inj hmem
    have hsub : ∀ r ∈ records, r ∈ (records ++ [LifecycleRecord.finalized op]).take i := by
      intro r hr
      rw [take_append]
      rw [take_of_length_le (by omega)]
      exact mem_append_left _ hr
    exact ⟨hsub _ hcleaned, session, targets, hsub _ hprepared,
      fun target ht => hsub _ (hrecorded target ht)⟩

theorem RowOk.append (h : RowOk records session row)
    (hfinalized : .finalized row.operationId ∉ added)
    (hrecorded : ∀ chat, .recorded row.operationId chat ∉ added) :
    RowOk (records ++ added) session row where
  key := h.key
  prepared := mem_append_left _ h.prepared
  nodup := h.nodup
  unfinished := by
    rw [mem_append, not_or]
    exact ⟨h.unfinished, hfinalized⟩
  recorded target htarget := by
    rw [mem_append, h.recorded target htarget, or_iff_left (hrecorded _)]

end

variable {intents : DeleteIntents} {records : List LifecycleRecord} {operations : Nat}

theorem Durable.operation_ne (h : Durable intents records operations)
    {session session' : SessionKey} {row' : SessionDeleteIntent}
    (hrow : intents session = some row) (hrow' : intents session' = some row')
    (hne : session' ≠ session) : row'.operationId ≠ row.operationId := by
  intro heq
  have hdrawn := h.preparedDrawn _ _ _ (h.rows session row hrow).prepared
  have hdrawn' := h.preparedDrawn _ _ _ (h.rows session' row' hrow').prepared
  rw [heq] at hdrawn'
  exact hne (h.drawnOnce _ _ _ hdrawn hdrawn')

/-! ## Records that leave the table as it is -/

theorem Durable.draw (h : Durable intents records operations) (session : SessionKey) :
    Durable intents (records ++ [.drawn operations session]) (operations + 1) := by
  have hold : ∀ {r : LifecycleRecord}, (∀ k, r ≠ .drawn operations k) →
      r ∈ records ++ [.drawn operations session] → r ∈ records := by
    intro r hne hr
    obtain hr | hr := mem_append.mp hr
    · exact hr
    · exact (hne session (mem_singleton.mp hr)).elim
  constructor
  · intro operationId k hdrawn
    obtain hdrawn | hdrawn := mem_append.mp hdrawn
    · exact Nat.lt_succ_of_lt (h.drawnBelow operationId k hdrawn)
    · obtain ⟨rfl, -⟩ := LifecycleRecord.drawn.inj (mem_singleton.mp hdrawn)
      exact Nat.lt_succ_self _
  · intro operationId k k' hk hk'
    obtain hmem | hnew := mem_append.mp hk
    · obtain hmem' | hnew' := mem_append.mp hk'
      · exact h.drawnOnce operationId k k' hmem hmem'
      · have hop := (LifecycleRecord.drawn.inj (mem_singleton.mp hnew')).1
        have hbelow := h.drawnBelow operationId k hmem
        rw [hop] at hbelow
        exact (Nat.lt_irrefl _ hbelow).elim
    · obtain ⟨hop, hsession⟩ := LifecycleRecord.drawn.inj (mem_singleton.mp hnew)
      obtain hmem' | hnew' := mem_append.mp hk'
      · have hbelow := h.drawnBelow operationId k' hmem'
        rw [hop] at hbelow
        exact (Nat.lt_irrefl _ hbelow).elim
      · rw [hsession]
        exact (LifecycleRecord.drawn.inj (mem_singleton.mp hnew')).2
  · intro operationId k targets hprepared
    exact mem_append_left _ (h.preparedDrawn _ _ _ (hold (by simp) hprepared))
  · intro operationId k k' targets targets' hk hk'
    exact h.preparedOnce operationId k k' targets targets' (hold (by simp) hk) (hold (by simp) hk')
  · intro operationId hfinalized
    obtain ⟨k, targets, hprepared⟩ := h.finalizedPrepared _ (hold (by simp) hfinalized)
    exact ⟨k, targets, mem_append_left _ hprepared⟩
  · intro operationId chat hrecorded
    obtain ⟨k, targets, hprepared⟩ := h.recordedPrepared _ _ (hold (by simp) hrecorded)
    exact ⟨k, targets, mem_append_left _ hprepared⟩
  · intro operationId target hdeleting
    obtain ⟨k, targets, hprepared, hmem⟩ := h.deletingPrepared _ _ (hold (by simp) hdeleting)
    exact ⟨k, targets, mem_append_left _ hprepared, hmem⟩
  · intro k row hrow
    exact (h.rows k row hrow).append (by simp) (by simp)
  · intro operationId k targets hprepared
    exact (h.kept _ _ _ (hold (by simp) hprepared)).imp (mem_append_left _) id
  · exact h.neverAgain.append (neverAgain_of_notDeleting (by simp)) (by simp)
  · exact h.finalizedLast.append (by simp)

theorem Durable.append (h : Durable intents records operations) {added : List LifecycleRecord}
    {intents' : DeleteIntents} (hdrawn : ∀ operationId session, .drawn operationId session ∉ added)
    (hprepared : ∀ operationId session targets, .prepared operationId session targets ∉ added)
    (hfinalized : ∀ operationId, .finalized operationId ∈ added →
      ∃ session targets, .prepared operationId session targets ∈ records)
    (hrecorded : ∀ operationId chat, .recorded operationId chat ∈ added →
      ∃ session targets, .prepared operationId session targets ∈ records)
    (hdeleting : ∀ operationId target, .deleting operationId target ∈ added →
      ∃ session targets, .prepared operationId session targets ∈ records ∧ target ∈ targets)
    (hrows : ∀ session row, intents' session = some row → RowOk (records ++ added) session row)
    (hkept : ∀ operationId session targets, .prepared operationId session targets ∈ records →
      .finalized operationId ∈ records ++ added ∨
        ∃ row, intents' session = some row ∧ row.operationId = operationId)
    (hagain : NeverAgain (records ++ added)) (hlast : FinalizedLast (records ++ added)) :
    Durable intents' (records ++ added) operations := by
  have hold : ∀ r ∈ records ++ added, r ∉ added → r ∈ records := fun r hr hnew =>
    (mem_append.mp hr).resolve_right hnew
  have hdrawn' := fun op k hk => hold _ hk (hdrawn op k)
  have hprepared' := fun op k ts hk => hold _ hk (hprepared op k ts)
  refine ⟨fun op k hk => h.drawnBelow op k (hdrawn' op k hk),
    fun op k k' hk hk' => h.drawnOnce op k k' (hdrawn' op k hk) (hdrawn' op k' hk'),
    fun op k ts hk => mem_append_left _ (h.preparedDrawn op k ts (hprepared' op k ts hk)),
    fun op k k' ts ts' hk hk' =>
      h.preparedOnce op k k' ts ts' (hprepared' op k ts hk) (hprepared' op k' ts' hk'),
    fun op hk => ?_, fun op chat hk => ?_, fun op target hk => ?_, hrows,
    fun op k ts hk => hkept op k ts (hprepared' op k ts hk), hagain, hlast⟩
  · obtain ⟨k, targets, hmem⟩ := (mem_append.mp hk).elim (h.finalizedPrepared op) (hfinalized op)
    exact ⟨k, targets, mem_append_left _ hmem⟩
  · obtain ⟨k, targets, hmem⟩ :=
      (mem_append.mp hk).elim (h.recordedPrepared op chat) (hrecorded op chat)
    exact ⟨k, targets, mem_append_left _ hmem⟩
  · obtain ⟨k, targets, hmem, htarget⟩ :=
      (mem_append.mp hk).elim (h.deletingPrepared op target) (hdeleting op target)
    exact ⟨k, targets, mem_append_left _ hmem, htarget⟩

theorem Durable.record (h : Durable intents records operations) {added : List LifecycleRecord}
    (hdrawn : ∀ operationId session, .drawn operationId session ∉ added)
    (hprepared : ∀ operationId session targets, .prepared operationId session targets ∉ added)
    (hrecorded : ∀ operationId chat, .recorded operationId chat ∉ added)
    (hfinalized : ∀ operationId, .finalized operationId ∉ added)
    (hdeleting : ∀ operationId target, .deleting operationId target ∈ added →
      .recorded operationId target.chat ∉ records ∧
        ∃ session targets, .prepared operationId session targets ∈ records ∧ target ∈ targets) :
    Durable intents (records ++ added) operations := by
  refine h.append hdrawn hprepared (fun op hk => absurd hk (hfinalized op))
    (fun op chat hk => absurd hk (hrecorded op chat))
    (fun op target hk => (hdeleting op target hk).2)
    (fun k row hrow => (h.rows k row hrow).append (hfinalized _) (hrecorded _))
    (fun op k ts hk => (h.kept op k ts hk).imp (mem_append_left _) id) ?_
    (h.finalizedLast.append hfinalized)
  refine h.neverAgain.append ?_ fun operationId target hk => (hdeleting operationId target hk).1
  refine List.Pairwise.imp_of_mem ?_ (pairwise_of_forall (R := fun _ _ => True) fun _ _ => trivial)
  rintro earlier later hearlier - - operationId target rfl
  exact (hrecorded _ _ hearlier).elim

/-! ## Writes -/

theorem Durable.insert (h : Durable intents records operations) {intent : SessionDeleteIntent}
    (hnodup : (intent.targets.map (·.chat)).Nodup)
    (hpending : ∀ target ∈ intent.targets, target.status = .pending)
    (hdrawn : .drawn intent.operationId intent.session ∈ records)
    (hnew : ∀ session targets, .prepared intent.operationId session targets ∉ records)
    (hfree : intents intent.session = none) :
    Durable (Function.update intents intent.session (some intent))
      (records ++ [.prepared intent.operationId intent.session (backings intent.targets)])
      operations := by
  have hold : ∀ {r : LifecycleRecord}, (∀ op k ts, r ≠ .prepared op k ts) →
      r ∈ records ++ [.prepared intent.operationId intent.session (backings intent.targets)] →
      r ∈ records := by
    intro r hne hr
    obtain hr | hr := mem_append.mp hr
    · exact hr
    · exact (hne _ _ _ (mem_singleton.mp hr)).elim
  constructor
  · intro operationId k hk
    exact h.drawnBelow operationId k (hold (by simp) hk)
  · intro operationId k k' hk hk'
    exact h.drawnOnce operationId k k' (hold (by simp) hk) (hold (by simp) hk')
  · intro operationId k targets hk
    apply mem_append_left
    obtain hk | hk := mem_append.mp hk
    · exact h.preparedDrawn operationId k targets hk
    · obtain ⟨rfl, rfl, -⟩ := LifecycleRecord.prepared.inj (mem_singleton.mp hk)
      exact hdrawn
  · intro operationId k k' targets targets' hk hk'
    obtain hk | hk := mem_append.mp hk
    · obtain hk' | hk' := mem_append.mp hk'
      · exact h.preparedOnce operationId k k' targets targets' hk hk'
      · obtain ⟨rfl, -, -⟩ := LifecycleRecord.prepared.inj (mem_singleton.mp hk')
        exact (hnew _ _ hk).elim
    · obtain ⟨rfl, -, rfl⟩ := LifecycleRecord.prepared.inj (mem_singleton.mp hk)
      obtain hk' | hk' := mem_append.mp hk'
      · exact (hnew _ _ hk').elim
      · exact (LifecycleRecord.prepared.inj (mem_singleton.mp hk')).2.2
  · intro operationId hk
    obtain ⟨k, targets, hmem⟩ := h.finalizedPrepared operationId (hold (by simp) hk)
    exact ⟨k, targets, mem_append_left _ hmem⟩
  · intro operationId chat hk
    obtain ⟨k, targets, hmem⟩ := h.recordedPrepared operationId chat (hold (by simp) hk)
    exact ⟨k, targets, mem_append_left _ hmem⟩
  · intro operationId target hk
    obtain ⟨k, targets, hmem, htarget⟩ := h.deletingPrepared operationId target (hold (by simp) hk)
    exact ⟨k, targets, mem_append_left _ hmem, htarget⟩
  · intro k row hrow
    rw [update_apply] at hrow
    split at hrow
    · next hk =>
      cases hrow
      subst hk
      refine ⟨rfl, mem_append_right _ (mem_singleton_self _), hnodup, ?_, ?_⟩
      · intro hfinalized
        obtain ⟨k, targets, hmem⟩ := h.finalizedPrepared _ (hold (by simp) hfinalized)
        exact hnew k targets hmem
      · intro target htarget
        rw [hpending target htarget]
        refine iff_of_false (by decide) ?_
        intro hrecorded
        obtain ⟨k, targets, hmem⟩ := h.recordedPrepared _ _ (hold (by simp) hrecorded)
        exact hnew k targets hmem
    · exact (h.rows k row hrow).append (by simp) (by simp)
  · intro operationId k targets hk
    obtain hk | hk := mem_append.mp hk
    · refine (h.kept operationId k targets hk).imp (mem_append_left _) ?_
      rintro ⟨row, hrow, hop⟩
      have hne : k ≠ intent.session := by
        rintro rfl
        rw [hfree] at hrow
        cases hrow
      exact ⟨row, by rw [update_of_ne hne, hrow], hop⟩
    · obtain ⟨rfl, rfl, -⟩ := LifecycleRecord.prepared.inj (mem_singleton.mp hk)
      exact .inr ⟨intent, update_self _ _ _, rfl⟩
  · exact h.neverAgain.append (neverAgain_of_notDeleting (by simp)) (by simp)
  · exact h.finalizedLast.append (by simp)

theorem mem_newlyDeleted {r : LifecycleRecord} : r ∈ newlyDeleted operationId targets targets' ↔
      ∃ target ∈ targets', target.status = .deleted ∧
        (∀ old ∈ targets, old.chat = target.chat → old.status ≠ .deleted) ∧
        r = .recorded operationId target.chat := by
  unfold newlyDeleted
  simp only [mem_map, mem_filter, Bool.and_eq_true, decide_eq_true_eq,
    Bool.not_eq_true', any_eq_false, not_and]
  constructor
  · rintro ⟨target, ⟨htarget, hdeleted, hnew⟩, rfl⟩
    exact ⟨target, htarget, hdeleted, hnew, rfl⟩
  · rintro ⟨target, htarget, hdeleted, hnew, rfl⟩
    exact ⟨target, ⟨htarget, hdeleted, hnew⟩, rfl⟩

theorem Advances.exists_old (h : Advances targets targets') {target : SessionDeleteTarget}
    (htarget : target ∈ targets') :
    ∃ old ∈ targets, old.chat = target.chat ∧
      (old.status = .deleted → target.status = .deleted) := by
  induction h with
  | nil => cases htarget
  | cons hhead _ ih =>
    obtain rfl | htarget := mem_cons.mp htarget
    · exact ⟨_, mem_cons_self, congrArg (·.chat) hhead.1, hhead.2⟩
    · obtain ⟨old, hold, hchat, hstatus⟩ := ih htarget
      exact ⟨old, mem_cons_of_mem _ hold, hchat, hstatus⟩

theorem eq_of_chat (h : (targets.map (·.chat)).Nodup) {a b : SessionDeleteTarget}
    (ha : a ∈ targets) (hb : b ∈ targets) (hchat : a.chat = b.chat) :
    a = b := inj_on_of_nodup_map h ha hb hchat

theorem Durable.update (h : Durable intents records operations) {session : SessionKey}
    {next : SessionDeleteIntent} (hrow : intents session = some row)
    (hoperation : row.operationId = next.operationId) (hsession : row.session = next.session)
    (hadvances : Advances row.targets next.targets) :
    Durable (Function.update intents session (some next))
      (records ++ newlyDeleted next.operationId row.targets next.targets) operations := by
  have hrowOk := h.rows session row hrow
  have hadded : ∀ r ∈ newlyDeleted next.operationId row.targets next.targets,
      ∃ chat, r = .recorded next.operationId chat := by
    intro r hr
    obtain ⟨target, -, -, -, rfl⟩ := mem_newlyDeleted.mp hr
    exact ⟨_, rfl⟩
  have hnextNodup : (next.targets.map (·.chat)).Nodup := by
    rw [chats_eq_backings, hadvances.backings, ← chats_eq_backings]
    exact hrowOk.nodup
  have hnone : ∀ {r}, (∀ op chat, r ≠ .recorded op chat) →
      r ∉ newlyDeleted next.operationId row.targets next.targets := by
    intro r hne hr
    obtain ⟨chat, rfl⟩ := hadded r hr
    exact hne _ _ rfl
  refine h.append (fun _ _ => hnone (by simp)) (fun _ _ _ => hnone (by simp))
    (fun _ hk => absurd hk (hnone (by simp))) ?_ (fun _ _ hk => absurd hk (hnone (by simp)))
    ?_ ?_ ?_ ?_
  · intro operationId chat hk
    obtain ⟨chat', heq⟩ := hadded _ hk
    obtain ⟨rfl, -⟩ := LifecycleRecord.recorded.inj heq
    exact ⟨session, backings row.targets, hoperation ▸ hrowOk.prepared⟩
  · intro k found hfound
    rw [update_apply] at hfound
    split at hfound
    · next hk =>
      cases hfound
      subst hk
      refine ⟨hsession.symm.trans hrowOk.key, ?_, hnextNodup, ?_, ?_⟩
      · rw [hadvances.backings, ← hoperation]
        exact mem_append_left _ hrowOk.prepared
      · intro hfinalized
        apply hrowOk.unfinished
        rw [hoperation]
        exact (mem_append.mp hfinalized).resolve_right (hnone (by simp))
      · intro target htarget
        rw [mem_append, mem_newlyDeleted]
        obtain ⟨old, hold', hchat, hstatus⟩ := hadvances.exists_old htarget
        have hrecorded := hrowOk.recorded old hold'
        rw [hchat, hoperation] at hrecorded
        constructor
        · intro hdeleted
          by_cases holdDeleted : old.status = .deleted
          · exact .inl (hrecorded.mp holdDeleted)
          · refine .inr ⟨target, htarget, hdeleted, ?_, rfl⟩
            intro other hother hotherChat
            rw [eq_of_chat hrowOk.nodup hother hold' (hotherChat.trans hchat.symm)]
            exact holdDeleted
        · rintro (hmem | ⟨target', htarget', hdeleted, -, heq⟩)
          · exact hstatus (hrecorded.mpr hmem)
          · have hchat' := (LifecycleRecord.recorded.inj heq).2
            rw [eq_of_chat hnextNodup htarget htarget' hchat']
            exact hdeleted
    · next hk =>
      have hne := h.operation_ne hrow hfound hk
      rw [hoperation] at hne
      refine (h.rows k found hfound).append (hnone (by simp)) fun chat hmem => ?_
      obtain ⟨chat', heq⟩ := hadded _ hmem
      exact hne (LifecycleRecord.recorded.inj heq).1
  · intro operationId k targets hk
    refine (h.kept operationId k targets hk).imp (mem_append_left _) ?_
    rintro ⟨found, hfound, hop⟩
    by_cases hne : k = session
    · subst hne
      obtain rfl := Option.some.inj (hrow.symm.trans hfound)
      exact ⟨next, update_self _ _ _, hoperation.symm.trans hop⟩
    · exact ⟨found, by rw [update_of_ne hne, hfound], hop⟩
  · exact h.neverAgain.append (neverAgain_of_notDeleting fun _ _ => hnone (by simp))
      fun _ _ hmem => absurd hmem (hnone (by simp))
  · exact h.finalizedLast.append fun _ => hnone (by simp)

theorem Durable.finalize (h : Durable intents records operations) {session : SessionKey}
    (hrow : intents session = some row) (hdeleted : AllDeleted row.targets)
    (hcleaned : .cleaned row.operationId ∈ records) :
    Durable (Function.update intents session none) (records ++ [.finalized row.operationId])
      operations := by
  have hrowOk := h.rows session row hrow
  refine h.append (by simp) (by simp) ?_ (by simp) (by simp) ?_ ?_ ?_ ?_
  · intro operationId hk
    obtain rfl := LifecycleRecord.finalized.inj (mem_singleton.mp hk)
    exact ⟨session, backings row.targets, hrowOk.prepared⟩
  · intro k found hfound
    have hk : k ≠ session := by
      rintro rfl
      rw [update_self] at hfound
      cases hfound
    rw [update_of_ne hk] at hfound
    have hne := h.operation_ne hrow hfound hk
    exact (h.rows k found hfound).append (by simpa using hne) (by simp)
  · intro operationId k targets hk
    obtain hfinalized | ⟨found, hfound, hop⟩ := h.kept operationId k targets hk
    · exact .inl (mem_append_left _ hfinalized)
    · by_cases hne : k = session
      · subst hne
        obtain rfl := Option.some.inj (hrow.symm.trans hfound)
        exact .inl (mem_append_right _ (by rw [hop]; exact mem_singleton_self _))
      · exact .inr ⟨found, by rw [update_of_ne hne, hfound], hop⟩
  · exact h.neverAgain.append (neverAgain_of_notDeleting (by simp)) (by simp)
  · apply h.finalizedLast.finalize hcleaned hrowOk.prepared
    intro target htarget
    obtain ⟨deleted, hmem, rfl⟩ := mem_map.mp htarget
    exact (hrowOk.recorded deleted hmem).mp (hdeleted deleted hmem)

end Lifecycle

end Fumie.AgentHost
