import Fumie.Lib.KeyedFold
import Fumie.Lib.OrderedSet
import Fumie.AgentHost.State.ReviewReducers

/-!
# The changeset state cache

Expanded changeset states are kept in a map beside a recency list of its keys. The soft
limit bounds what may be evicted silently: a pinned state stays and may keep the cache
above the limit. Eviction is described by the keys it lets go, a beginning of the
evictable ones in the order they were last touched.
-/

namespace Fumie.AgentHost

open Fumie.Lib List

/-- The limit is a number without `NaN`; `⊤` is `Infinity`. -/
structure ChangesetStateCache where
  states : Record String ChangesetState
  lru : OrderedSet String
  softLimit : WithTop ℚ

inductive ChangesetCacheCall where
  | register (changeset : String) (initialStatus : Option ChangesetStatus)
  | set (changeset : String) (state : ChangesetState)
  | get (changeset : String)
  | delete (changeset : String)
  | trimEvictableEntries

variable {u v : String} {state : ChangesetState} {call : ChangesetCacheCall}

variable (softLimit : Option (WithTop ℚ))

namespace ChangesetStateCache

def new (softLimit : Option (WithTop ℚ)) : ChangesetStateCache :=
  ⟨.empty, .empty, max 0 (softLimit.getD 500)⟩

variable (c : ChangesetStateCache) (canEvict : String → Bool)

variable (changeset : String) (gone : List String) (initialStatus : Option ChangesetStatus)

def has : Bool := (c.states.get changeset).isSome

def size : Nat := c.states.entries.length

def touch : ChangesetStateCache :=
  if c.has changeset then { c with lru := (c.lru.erase changeset).insert changeset } else c

def delete : ChangesetStateCache :=
  { c with states := c.states.delete changeset, lru := c.lru.erase changeset }

/-- The loop over the snapshot of the recency list. -/
def evictWhileOver : ChangesetStateCache → List String → ChangesetStateCache
  | c, [] => c
  | c, changeset :: rest =>
    if (c.size : WithTop ℚ) ≤ c.softLimit then c
    else if ¬c.has changeset then evictWhileOver { c with lru := c.lru.erase changeset } rest
    else if canEvict changeset then evictWhileOver (c.delete changeset) rest
    else evictWhileOver c rest

def evictIfOverLimit : ChangesetStateCache :=
  if c.softLimit = 0 then
    c.lru.elems.foldl (fun c changeset => if canEvict changeset then c.delete changeset else c) c
  else c.evictWhileOver canEvict c.lru.elems

/-- `set` before it evicts. -/
def store (state : ChangesetState) : ChangesetStateCache :=
  { c with states := c.states.set changeset state }.touch changeset

def set (state : ChangesetState) : ChangesetStateCache :=
  (c.store changeset state).evictIfOverLimit canEvict

def registered : ChangesetState :=
  ⟨initialStatus.getD .computing, none, [], none⟩

def register : ChangesetStateCache :=
  if c.has changeset then c.touch changeset else c.set canEvict changeset (registered initialStatus)

def get : ChangesetStateCache × Option ChangesetState :=
  (c.touch changeset, c.states.get changeset)

/-- A call, with the answers `canEvict` gives while it runs. -/
def step : ChangesetCacheCall → ChangesetStateCache
  | .register changeset initialStatus => c.register canEvict changeset initialStatus
  | .set changeset state => c.set canEvict changeset state
  | .get changeset => (c.get changeset).1
  | .delete changeset => c.delete changeset
  | .trimEvictableEntries => c.evictIfOverLimit canEvict

/-- The cache on which a call evicts, where it does. -/
def evictedFrom : ChangesetCacheCall → Option ChangesetStateCache
  | .register changeset initialStatus =>
    if c.has changeset then none else some (c.store changeset (registered initialStatus))
  | .set changeset state => some (c.store changeset state)
  | .get _ | .delete _ => none
  | .trimEvictableEntries => some c

/-- The entry a call touches. -/
def touched : ChangesetCacheCall → Option String
  | .register changeset _ | .set changeset _ => some changeset
  | .get changeset => if c.has changeset then some changeset else none
  | .delete _ | .trimEvictableEntries => none

/-- The cache after some calls, and the entries they touched, latest first. -/
def run (softLimit : Option (WithTop ℚ)) (calls : List ((String → Bool) × ChangesetCacheCall)) :
    ChangesetStateCache × List String :=
  calls.foldl (fun (c, history) (canEvict, call) =>
    (c.step canEvict call, (c.touched call).toList ++ history)) (new softLimit, [])

/-! ## The invariant -/

/-- The recency list holds the keys of the map, each once. -/
def InStep : Prop := c.lru.elems.Perm c.states.keys

/-- Earlier in the recency list is touched longer ago. -/
def Recent (history : List String) : Prop :=
  c.lru.elems.Pairwise fun a b => history.idxOf b < history.idxOf a

/-- The cache without some keys. -/
def without : ChangesetStateCache := gone.foldl delete c

/-- What eviction does: the evicted keys begin the evictable ones in recency order, they are
enough where enough can be evicted, and under a positive limit the last of them was needed. -/
def Evicts (c' : ChangesetStateCache) : Prop :=
  ∃ gone, gone <+: c.lru.elems.filter canEvict ∧ c' = c.without gone ∧
    ((c'.size : WithTop ℚ) ≤ c.softLimit ∨ ∀ u ∈ c'.states.keys, canEvict u = false) ∧
    (0 < c.softLimit → gone ≠ [] → c.softLimit < (c'.size + 1 : Nat))

variable {c canEvict}

theorem has_iff {changeset : String} : c.has changeset ↔ changeset ∈ c.states.keys := by
  rw [has, Record.mem_keys_iff, Option.isSome_iff_exists]

theorem inStep_iff : c.InStep ↔ ∀ u, u ∈ c.lru ↔ c.has u := by
  refine (perm_ext_iff_of_nodup c.lru.nodup c.states.nodup).trans (forall_congr' fun u => ?_)
  rw [has_iff]
  rfl

theorem has_delete : (c.delete u).has v ↔ v ≠ u ∧ c.has v := by
  rw [has_iff, has_iff, delete, Record.keys_delete, mem_filter, decide_eq_true_eq, and_comm]

theorem InStep.delete (h : c.InStep) (u : String) : (c.delete u).InStep :=
  inStep_iff.mpr fun v => by
    rw [has_delete, ← inStep_iff.mp h v]
    exact OrderedSet.mem_erase

theorem size_delete (h : c.has u) : (c.delete u).size + 1 = c.size := by
  have hkeys : (c.delete u).states.keys = c.states.keys.erase u := by
    rw [delete, Record.keys_delete]
    refine (filter_congr fun v _ => ?_).trans (Nodup.erase_eq_filter c.states.nodup u).symm
    rw [Bool.eq_iff_iff, decide_eq_true_eq, bne_iff_ne]
  have hlength := congrArg length hkeys
  rw [length_erase_of_mem (has_iff.mp h)] at hlength
  have hpos := length_pos_of_mem (has_iff.mp h)
  simp only [Record.keys, length_map] at hlength hpos
  rw [size, size, hlength]
  omega

theorem InStep.without (h : c.InStep) (gone : List String) : (c.without gone).InStep := by
  induction gone generalizing c with
  | nil => exact h
  | cons u rest ih => exact ih (h.delete u)

theorem has_without {gone : List String} : (c.without gone).has v ↔ v ∉ gone ∧ c.has v := by
  induction gone generalizing c with
  | nil => simp [ChangesetStateCache.without]
  | cons u rest ih =>
    rw [mem_cons, not_or, and_assoc, and_left_comm, ← has_delete, ← ih]
    rfl

theorem without_lru : (c.without gone).lru.elems <+ c.lru.elems := by
  induction gone generalizing c with
  | nil => exact Sublist.refl _
  | cons u rest ih => exact ih.trans (erase_sublist)

/-! ## Eviction -/

theorem evictWhileOver_spec {snapshot : List String} (hhas : ∀ u ∈ snapshot, c.has u)
    (hnodup : snapshot.Nodup) :
    ∃ gone, gone <+: snapshot.filter canEvict ∧
      c.evictWhileOver canEvict snapshot = c.without gone ∧
      (((c.without gone).size : WithTop ℚ) ≤ c.softLimit ∨ gone = snapshot.filter canEvict) ∧
      (gone ≠ [] → c.softLimit < ((c.without gone).size + 1 : Nat)) := by
  induction snapshot generalizing c with
  | nil => exact ⟨[], prefix_rfl, rfl, .inr rfl, fun h => absurd rfl h⟩
  | cons u rest ih =>
    obtain ⟨hu, hrest⟩ := nodup_cons.mp hnodup
    rw [evictWhileOver]
    split_ifs with hsize hkey hevict
    · exact ⟨[], nil_prefix, rfl, .inl hsize, fun h => absurd rfl h⟩
    · have hleft : ∀ v ∈ rest, (c.delete u).has v := fun v hv =>
        has_delete.mpr ⟨fun heq => hu (heq ▸ hv), hhas v (mem_cons_of_mem _ hv)⟩
      obtain ⟨gone, hstart, hrun, hfits, hneeded⟩ := ih hleft hrest
      rw [filter_cons_of_pos hevict]
      refine ⟨u :: gone, cons_prefix_cons.mpr ⟨rfl, hstart⟩, hrun, hfits.imp_right (congrArg _),
        fun _ => ?_⟩
      cases gone with
      | nil =>
        show c.softLimit < ((c.delete u).size + 1 : Nat)
        rw [size_delete (hhas u mem_cons_self)]
        exact lt_of_not_ge hsize
      | cons v gone => exact hneeded (cons_ne_nil _ _)
    · rw [filter_cons_of_neg hevict]
      exact ih (fun v hv => hhas v (mem_cons_of_mem _ hv)) hrest
    · exact absurd (hhas u mem_cons_self) hkey

theorem evictIfOverLimit_spec (h : c.InStep) : c.Evicts canEvict (c.evictIfOverLimit canEvict) := by
  have hpinned : ∀ u ∈ (c.without (c.lru.elems.filter canEvict)).states.keys,
      canEvict u = false := by
    intro u hu
    obtain ⟨hgone, hhas⟩ := has_without.mp (has_iff.mpr hu)
    have hlru : u ∈ c.lru.elems := (inStep_iff.mp h u).mpr hhas
    exact Bool.eq_false_iff.mpr fun hevict => hgone (mem_filter.mpr ⟨hlru, hevict⟩)
  rw [evictIfOverLimit]
  split_ifs with hzero
  · exact ⟨_, prefix_rfl, foldl_filter.symm, .inr (foldl_filter (f := delete) ▸ hpinned),
      fun h => absurd hzero h.ne'⟩
  · have hhas : ∀ u ∈ c.lru.elems, c.has u := fun u hu => (inStep_iff.mp h u).mp hu
    obtain ⟨gone, hstart, hrun, hfits, hneeded⟩ := evictWhileOver_spec hhas c.lru.nodup
    rw [hrun]
    refine ⟨gone, hstart, rfl, hfits.imp_right fun hall => ?_, fun _ => hneeded⟩
    rw [hall]
    exact hpinned

/-! ## Calls -/

/-- In step, and in recency order. -/
def Ordered (c : ChangesetStateCache) (history : List String) : Prop :=
  c.InStep ∧ c.Recent history

section Calls

variable {history : List String}

theorem Ordered.without (h : c.Ordered history) (gone : List String) :
    (c.without gone).Ordered history :=
  ⟨h.1.without gone, h.2.sublist (without_lru gone)⟩

theorem Ordered.evict (h : c.Ordered history) : (c.evictIfOverLimit canEvict).Ordered history := by
  obtain ⟨gone, -, hgone, -⟩ := evictIfOverLimit_spec h.1
  rw [hgone]
  exact h.without gone

/-- Touching an entry that is the only one the recency list may not know. -/
theorem ordered_touch (hhas : c.has u) (hlru : ∀ v ≠ u, v ∈ c.lru ↔ c.has v)
    (hrecent : c.Recent history) : (c.touch u).Ordered (u :: history) := by
  have helems : ((c.lru.erase u).insert u).elems = c.lru.elems.erase u ++ [u] := by
    have hu : u ∉ (c.lru.erase u).elems := fun h => (OrderedSet.mem_erase.mp h).1 rfl
    rw [OrderedSet.insert, dif_neg hu]
    rfl
  rw [touch, if_pos hhas]
  refine ⟨inStep_iff.mpr fun v => ?_, ?_⟩
  · rw [OrderedSet.mem_insert, OrderedSet.mem_erase]
    by_cases hv : v = u
    · subst hv
      exact iff_of_true (.inl rfl) hhas
    · rw [or_iff_right hv, and_iff_right hv]
      exact hlru v hv
  · rw [Recent, helems]
    refine pairwise_append.mpr ⟨?_, pairwise_singleton _ _, ?_⟩
    · refine (hrecent.sublist erase_sublist).imp_of_mem fun ha hb hab => ?_
      rw [idxOf_cons_ne _ (c.lru.nodup.mem_erase_iff.mp ha).1.symm,
        idxOf_cons_ne _ (c.lru.nodup.mem_erase_iff.mp hb).1.symm]
      exact Nat.succ_lt_succ hab
    · intro a ha b hb
      rw [mem_singleton.mp hb, idxOf_cons_self,
        idxOf_cons_ne _ (c.lru.nodup.mem_erase_iff.mp ha).1.symm]
      exact Nat.succ_pos _

theorem Ordered.touch (h : c.Ordered history) (hhas : c.has u) :
    (c.touch u).Ordered (u :: history) :=
  ordered_touch hhas (fun v _ => inStep_iff.mp h.1 v) h.2

theorem has_set : (c.states.set u state |>.get v).isSome ↔ v = u ∨ c.has v := by
  rw [Record.get_set, has]
  split_ifs with huv
  · exact iff_of_true rfl (.inl huv.symm)
  · rw [or_iff_right (Ne.symm huv)]

theorem Ordered.store (h : c.Ordered history) (u : String) (state : ChangesetState) :
    (c.store u state).Ordered (u :: history) :=
  ordered_touch (has_set.mpr (.inl rfl))
    (fun v hv => (inStep_iff.mp h.1 v).trans (has_set.trans (or_iff_right hv)).symm) h.2

theorem Ordered.step (h : c.Ordered history) (call : ChangesetCacheCall) :
    (c.step canEvict call).Ordered ((c.touched call).toList ++ history) := by
  cases call with
  | register u initialStatus =>
    rw [ChangesetStateCache.step, register]
    split_ifs with hhas
    · exact h.touch hhas
    · exact (h.store u _).evict
  | set u state => exact (h.store u state).evict
  | get u =>
    rw [ChangesetStateCache.step, get, touched]
    split_ifs with hhas
    · exact h.touch hhas
    · rwa [ChangesetStateCache.touch, if_neg hhas]
  | delete u => exact h.without [u]
  | trimEvictableEntries => exact h.evict

theorem has_touch : (c.touch u).has v ↔ c.has v := by
  rw [ChangesetStateCache.touch]
  split_ifs <;> rfl

theorem has_store (h : c.has v) : (c.store u state).has v :=
  has_touch.mpr (has_set.mpr (.inr h))

theorem step_evicted {d : ChangesetStateCache} (h : c.evictedFrom call = some d)
    (hordered : c.Ordered history) :
    c.step canEvict call = d.evictIfOverLimit canEvict ∧
      d.Ordered ((c.touched call).toList ++ history) ∧ ∀ u, c.has u → d.has u := by
  cases call with
  | register u initialStatus =>
    rw [evictedFrom] at h
    split_ifs at h with hhas
    cases h
    refine ⟨?_, hordered.store u _, fun _ => has_store⟩
    rw [ChangesetStateCache.step, register, if_neg hhas, ChangesetStateCache.set]
  | set u state =>
    cases h
    exact ⟨rfl, hordered.store u state, fun _ => has_store⟩
  | get u => cases h
  | delete u => cases h
  | trimEvictableEntries =>
    cases h
    exact ⟨rfl, hordered, fun _ h => h⟩

theorem gone_of_step (h : c.Ordered history) (hhas : c.has u)
    (hgone : ¬(c.step canEvict call).has u) :
    call = .delete u ∨ (c.evictedFrom call).isSome ∧ canEvict u := by
  cases hfrom : c.evictedFrom call with
  | some d =>
    obtain ⟨hstep, hd, hall⟩ := step_evicted hfrom h
    obtain ⟨gone, hstart, hwithout, -⟩ := evictIfOverLimit_spec hd.1
    rw [hstep, hwithout, has_without] at hgone
    have hmem : u ∈ gone := by_contra fun hnot => hgone ⟨hnot, hall u hhas⟩
    exact .inr ⟨rfl, (mem_filter.mp (hstart.subset hmem)).2⟩
  | none =>
    cases call with
    | register v initialStatus =>
      rw [evictedFrom] at hfrom
      split_ifs at hfrom with hv
      rw [ChangesetStateCache.step, register, if_pos hv] at hgone
      exact absurd (has_touch.mpr hhas) hgone
    | set v state => cases hfrom
    | get v => exact absurd (has_touch.mpr hhas) hgone
    | delete v =>
      have hv : u = v := by_contra fun hne => hgone (has_delete.mpr ⟨hne, hhas⟩)
      exact .inl (hv ▸ rfl)
    | trimEvictableEntries => cases hfrom

end Calls

theorem run_ordered (calls : List ((String → Bool) × ChangesetCacheCall)) :
    (run softLimit calls).1.Ordered (run softLimit calls).2 :=
  foldlRecOn (motive := fun s : ChangesetStateCache × List String => s.1.Ordered s.2) calls _
    ⟨Perm.refl _, Pairwise.nil⟩ fun _ h call _ => h.step call.2

/-- In every state the recency list and the map agree, only a deletion or an eviction of a
key that may go takes it away, and every call that stores a new key or trims evicts. -/
theorem changeset_cache_run (calls : List ((String → Bool) × ChangesetCacheCall))
    (canEvict : String → Bool) (call : ChangesetCacheCall) : let (c, history) := run softLimit calls
    c.InStep ∧ c.Recent history ∧
    (∀ u, c.has u → ¬(c.step canEvict call).has u →
      call = .delete u ∨ (c.evictedFrom call).isSome ∧ canEvict u) ∧
    ∀ d, c.evictedFrom call = some d →
      d.Recent ((c.touched call).toList ++ history) ∧ d.Evicts canEvict (c.step canEvict call) := by
  have h := run_ordered softLimit calls
  refine ⟨h.1, h.2, fun u hhas hgone => gone_of_step h hhas hgone, fun d hfrom => ?_⟩
  obtain ⟨hstep, hd, -⟩ := step_evicted hfrom h
  rw [hstep]
  exact ⟨hd.2, evictIfOverLimit_spec hd.1⟩

end ChangesetStateCache

end Fumie.AgentHost
