import Fumie.AgentHost.Attribution.SlotOrder

/-!
# Every resource is in one place

A tracked resource is live, held by a task, prepared under a token, or emitted. The moves
of a section carry it from one of these places to another, unless a locked prepare
replaces a prepared flush that holds resources, or a cancel puts back resources of a file
whose slot it does not hold.
-/

namespace Fumie.AgentHost.EditAttribution

open Fumie.Lib List Record

variable {live : Record ResourceKey TrackedResource} {token : Token} {r : TrackedResource}

namespace Store

def liveCount (s : Store) (r : TrackedResource) : Nat :=
  s.resources.sumOf fun a => if a = r then 1 else 0

def preparedCount (s : Store) (r : TrackedResource) : Nat :=
  s.preparedFlushes.sumOf fun p => p.resources.count r

def emittedCount (s : Store) (r : TrackedResource) : Nat :=
  (s.emitted.map fun e => e.1.resources.count r).sum

structure Placed (other : TrackedResource → Nat) (s : Store) (held : List TrackedResource) :
    Prop where
  placed : ∀ r, s.liveCount r + held.count r + other r + s.preparedCount r + s.emittedCount r =
    s.created.count r
  unique : ∀ r, s.created.count r ≤ 1
  numbered : ∀ r ∈ s.created, r.id < s.fields.length
  claimed : ∀ r, r ∈ s.claimedResources ↔ 0 < held.count r + other r + s.preparedCount r
  heldKeys : (held.map (·.key)).Nodup
  heldFree : ∀ r ∈ held, s.resources.get r.key = none
  preparedKeys : ∀ token p, s.preparedFlushes.get token = some p → (p.resources.map (·.key)).Nodup
  named : ∀ n, s.preparedFlushes.get (.uuid n) = none
  unsettled : ∀ token e, s.settledFlushes.get token = some e → s.preparedFlushes.get token = none

variable {other : TrackedResource → Nat} {s t : Store} {held held' : List TrackedResource}

/-! ## The places one by one -/

theorem liveCount_set {key : ResourceKey} {a : TrackedResource} (h : live.get key = none)
    (r : TrackedResource) :
    ((live.set key a).sumOf fun b => if b = r then 1 else 0) =
      (live.sumOf fun b => if b = r then 1 else 0) + if a = r then 1 else 0 :=
  sumOf_set_of_none _ a h

theorem count_cons_eq (a r : TrackedResource) (rs : List TrackedResource) :
    (a :: rs).count r = rs.count r + if a = r then 1 else 0 := by
  rw [count_cons]
  simp only [beq_iff_eq]

theorem putBack_count {rs : List TrackedResource} (hkeys : (rs.map (·.key)).Nodup)
    (hfree : ∀ r ∈ rs, live.get r.key = none) (r : TrackedResource) :
    ((rs.foldl putBack live).sumOf fun b => if b = r then 1 else 0) =
      (live.sumOf fun b => if b = r then 1 else 0) + rs.count r := by
  induction rs generalizing live with
  | nil => rfl
  | cons a rest ih =>
    rw [map_cons, nodup_cons] at hkeys
    have hnone := hfree a mem_cons_self
    have hput : putBack live a = live.set a.key a := by
      unfold putBack
      rw [hnone]
      rfl
    have hrest : ∀ b ∈ rest, (putBack live a).get b.key = none := by
      intro b hb
      have hne : a.key ≠ b.key := fun heq => hkeys.1 (heq ▸ mem_map_of_mem hb)
      rw [hput, get_set, if_neg hne]
      exact hfree b (mem_cons_of_mem _ hb)
    rw [foldl_cons, ih hkeys.2 hrest, hput, liveCount_set hnone, count_cons_eq]
    omega

theorem preparedCount_delete {p : PreparedFlush} (h : s.preparedFlushes.get token = some p)
    (r : TrackedResource) :
    ((s.preparedFlushes.delete token).sumOf fun p => p.resources.count r) + p.resources.count r =
      s.preparedCount r :=
  sumOf_delete _ h

variable (p : PreparedFlush)

theorem preparedCount_set (hkept : ∀ q, s.preparedFlushes.get p.token = some q → q.resources = [])
    (r : TrackedResource) :
    (s.setPrepared p).preparedCount r = s.preparedCount r + p.resources.count r := by
  cases hget : s.preparedFlushes.get p.token with
  | none => exact sumOf_set_of_none _ p hget
  | some q =>
    have hset := sumOf_set (fun p => p.resources.count r) p hget
    rw [hkept q hget] at hset
    exact hset

theorem emittedCount_append (result : FlushResult) (r : TrackedResource) :
    ((s.emitted ++ [(p, result)]).map fun e => e.1.resources.count r).sum =
      s.emittedCount r + p.resources.count r := by
  rw [map_append, sum_append]
  rfl

theorem mem_filter_notMem {rs claimed : List TrackedResource} :
    r ∈ claimed.filter (· ∉ rs) ↔ r ∈ claimed ∧ rs.count r = 0 := by
  rw [mem_filter, decide_eq_true_eq, count_eq_zero]

/-! ## The moves -/

structure SamePlaces (s t : Store) : Prop where
  created : t.created = s.created
  fields : t.fields.length = s.fields.length
  resources : t.resources = s.resources
  claimedResources : t.claimedResources = s.claimedResources
  preparedFlushes : t.preparedFlushes = s.preparedFlushes
  emitted : t.emitted = s.emitted
  settled : ∀ token e, t.settledFlushes.get token = some e → s.settledFlushes.get token = some e

theorem Placed.of_same (h : Placed other s held) (hsame : SamePlaces s t) :
    Placed other t held where
  placed := by
    intro r
    unfold liveCount preparedCount emittedCount
    rw [hsame.resources, hsame.preparedFlushes, hsame.emitted, hsame.created]
    exact h.placed r
  unique := by
    rw [hsame.created]
    exact h.unique
  numbered := by
    rw [hsame.created, hsame.fields]
    exact h.numbered
  claimed := by
    intro r
    unfold preparedCount
    rw [hsame.claimedResources, hsame.preparedFlushes]
    exact h.claimed r
  heldKeys := h.heldKeys
  heldFree := by
    rw [hsame.resources]
    exact h.heldFree
  preparedKeys := by
    rw [hsame.preparedFlushes]
    exact h.preparedKeys
  named := by
    rw [hsame.preparedFlushes]
    exact h.named
  unsettled := by
    intro token e he
    rw [hsame.preparedFlushes]
    exact h.unsettled token e (hsame.settled token e he)

theorem Placed.create (h : Placed other s []) (key : ResourceKey) (hasContent : Bool)
    (hnone : s.resources.get key = none) : Placed other (s.createResource key hasContent) [] where
  placed := by
    intro r
    have hold := h.placed r
    have hlive : (s.createResource key hasContent).liveCount r =
        s.liveCount r + if (⟨s.fields.length, key⟩ : TrackedResource) = r then 1 else 0 :=
      liveCount_set hnone r
    have hcreated : (s.createResource key hasContent).created.count r =
        s.created.count r + if (⟨s.fields.length, key⟩ : TrackedResource) = r then 1 else 0 := by
      show (s.created ++ [(⟨s.fields.length, key⟩ : TrackedResource)]).count r = _
      rw [count_append, count_cons_eq, count_nil, Nat.zero_add]
    have hprepared : (s.createResource key hasContent).preparedCount r = s.preparedCount r := rfl
    have hemitted : (s.createResource key hasContent).emittedCount r = s.emittedCount r := rfl
    omega
  unique := by
    intro r
    show (s.created ++ [(⟨s.fields.length, key⟩ : TrackedResource)]).count r ≤ 1
    rw [count_append, count_cons_eq, count_nil, Nat.zero_add]
    split
    · next heq =>
      have hnew : s.created.count r = 0 := by
        rw [count_eq_zero]
        intro hmem
        have hlt := h.numbered r hmem
        rw [← heq] at hlt
        exact absurd hlt (Nat.lt_irrefl _)
      omega
    · exact h.unique r
  numbered := by
    intro r hr
    show r.id < (s.fields ++ [_]).length
    rw [length_append, length_singleton]
    rcases mem_append.mp hr with hr | hr
    · exact Nat.lt_succ_of_lt (h.numbered r hr)
    · rw [mem_singleton.mp hr]
      exact Nat.lt_succ_self _
  claimed := h.claimed
  heldKeys := nodup_nil
  heldFree := nofun
  preparedKeys := h.preparedKeys
  named := h.named
  unsettled := h.unsettled

theorem Placed.touch (h : Placed other s held) (r : TrackedResource)
    (hget : s.resources.get r.key = some r) : Placed other (s.touchResource r.key r) held where
  placed := by
    intro a
    have hdelete : (s.resources.delete r.key).sumOf (fun b => if b = a then 1 else 0) +
        (if r = a then 1 else 0) = s.liveCount a := sumOf_delete _ hget
    have hset : (s.touchResource r.key r).liveCount a =
        (s.resources.delete r.key).sumOf (fun b => if b = a then 1 else 0) +
          if r = a then 1 else 0 := by
      refine liveCount_set ?_ a
      rw [get_delete, if_pos rfl]
    have hold := h.placed a
    have hprepared : (s.touchResource r.key r).preparedCount a = s.preparedCount a := rfl
    have hemitted : (s.touchResource r.key r).emittedCount a = s.emittedCount a := rfl
    have hcreated : (s.touchResource r.key r).created.count a = s.created.count a := rfl
    omega
  unique := h.unique
  numbered := h.numbered
  claimed := h.claimed
  heldKeys := h.heldKeys
  heldFree := by
    intro a ha
    have hnone := h.heldFree a ha
    have hne : r.key ≠ a.key := by
      intro heq
      rw [← heq, hget] at hnone
      cases hnone
    show ((s.resources.delete r.key).set r.key r).get a.key = none
    rw [get_set, if_neg hne, get_delete, if_neg hne]
    exact hnone
  preparedKeys := h.preparedKeys
  named := h.named
  unsettled := h.unsettled

theorem Placed.claim (h : Placed other s held) (r : TrackedResource)
    (hclaim : s.prepareResourceNow r = some t) : Placed other t (held ++ [r]) := by
  obtain ⟨hget, rfl⟩ := prepareResourceNow_eq hclaim
  have hcount : ∀ a, (held ++ [r]).count a = held.count a + if r = a then 1 else 0 := by
    intro a
    rw [count_append, count_cons_eq, count_nil, Nat.zero_add]
  have hlive : ∀ a, (s.resources.delete r.key).sumOf (fun b => if b = a then 1 else 0) +
      (if r = a then 1 else 0) = s.liveCount a := fun a => sumOf_delete _ hget
  refine ⟨fun a => ?_, h.unique, h.numbered, fun a => ?_, ?_, fun a ha => ?_, h.preparedKeys,
    h.named, h.unsettled⟩
  · have hold := h.placed a
    rw [hcount]
    show (s.resources.delete r.key).sumOf (fun b => if b = a then 1 else 0) + _ + _ +
      s.preparedCount a + s.emittedCount a = s.created.count a
    have := hlive a
    omega
  · have hold := h.claimed a
    rw [hcount]
    by_cases hra : r = a
    · subst hra
      rw [if_pos rfl]
      split
      · next hmem => exact ⟨fun _ => by omega, fun _ => hmem⟩
      · exact ⟨fun _ => by omega, fun _ => mem_append_right _ mem_cons_self⟩
    · rw [if_neg hra, Nat.add_zero]
      split
      · exact hold
      · rw [mem_append, mem_singleton]
        constructor
        · rintro (hmem | heq)
          · exact hold.mp hmem
          · exact absurd heq.symm hra
        · exact fun hpos => .inl (hold.mpr hpos)
  · rw [map_append, nodup_append]
    refine ⟨h.heldKeys, nodup_singleton _, fun k hk k' hk' heq => ?_⟩
    obtain ⟨a, ha, rfl⟩ := mem_map.mp hk
    rw [mem_singleton.mp hk'] at heq
    have hnone := h.heldFree a ha
    rw [heq, hget] at hnone
    cases hnone
  · rw [get_delete]
    split
    · rfl
    · next hne =>
      rcases mem_append.mp ha with ha | ha
      · exact h.heldFree a ha
      · exact absurd (congrArg TrackedResource.key (mem_singleton.mp ha)).symm hne

theorem Placed.perm (h : Placed other s held) (hperm : held.Perm held') : Placed other s held' where
  placed := fun r => by rw [← hperm.count_eq]; exact h.placed r
  unique := h.unique
  numbered := h.numbered
  claimed := fun r => by rw [← hperm.count_eq]; exact h.claimed r
  heldKeys := (hperm.map _).nodup_iff.mp h.heldKeys
  heldFree := fun r hr => h.heldFree r (hperm.mem_iff.mpr hr)
  preparedKeys := h.preparedKeys
  named := h.named
  unsettled := h.unsettled

theorem Placed.restore {r : TrackedResource} (h : Placed other s (r :: held)) :
    Placed other (s.restoreResource r) held := by
  have hnone := h.heldFree r mem_cons_self
  have hkeys := h.heldKeys
  rw [map_cons, nodup_cons] at hkeys
  have hlive : ∀ a, (s.restoreResource r).liveCount a =
      s.liveCount a + if r = a then 1 else 0 := by
    intro a
    show (if (s.resources.get r.key).isSome then _ else s.resources.set r.key r).sumOf _ = _
    rw [hnone]
    exact liveCount_set hnone a
  refine ⟨fun a => ?_, h.unique, h.numbered, fun a => ?_, hkeys.2, fun a ha => ?_, h.preparedKeys,
    h.named, h.unsettled⟩
  · have hold := h.placed a
    rw [count_cons_eq] at hold
    rw [hlive]
    show _ + _ + _ + s.preparedCount a + s.emittedCount a = s.created.count a
    omega
  · have hold := h.claimed a
    have hplaced := h.placed a
    have hunique := h.unique a
    rw [count_cons_eq] at hold hplaced
    show a ∈ s.claimedResources.filter (· ≠ r) ↔ 0 < _ + _ + s.preparedCount a
    rw [mem_filter, decide_eq_true_eq, hold]
    by_cases hra : r = a
    · subst hra
      rw [if_pos rfl] at hplaced ⊢
      constructor
      · exact fun hne => absurd rfl hne.2
      · exact fun hpos => by omega
    · rw [if_neg hra, Nat.add_zero]
      exact ⟨fun hpos => hpos.1, fun hpos => ⟨hpos, Ne.symm hra⟩⟩
  · show (if (s.resources.get r.key).isSome then _ else s.resources.set r.key r).get a.key = none
    have hne : r.key ≠ a.key := fun heq => hkeys.1 (heq ▸ mem_map_of_mem ha)
    rw [hnone]
    show (s.resources.set r.key r).get a.key = none
    rw [get_set, if_neg hne]
    exact h.heldFree a (mem_cons_of_mem _ ha)

theorem Placed.pass (h : Placed other s p.resources) (hclient : ∃ token, p.token = .client token)
    (hunsettled : s.settledFlushes.get p.token = none)
    (hkept : ∀ q, s.preparedFlushes.get p.token = some q → q.resources = []) :
    Placed other (s.setPrepared p) [] := by
  have hget : ∀ token q, (s.setPrepared p).preparedFlushes.get token = some q →
      q = p ∨ s.preparedFlushes.get token = some q := by
    intro token q hq
    have hq' : (s.preparedFlushes.set p.token p).get token = some q := hq
    rw [get_set] at hq'
    split at hq'
    · cases hq'
      exact .inl rfl
    · exact .inr hq'
  refine ⟨fun r => ?_, h.unique, h.numbered, fun r => ?_, nodup_nil,
    fun r hr => absurd hr not_mem_nil, fun token q hq => ?_, fun n => ?_,
    fun token e he => ?_⟩
  · have hold := h.placed r
    rw [preparedCount_set p hkept, count_nil]
    show s.liveCount r + _ + _ + _ + s.emittedCount r = s.created.count r
    omega
  · rw [preparedCount_set p hkept, count_nil]
    show r ∈ s.claimedResources ↔ _
    rw [h.claimed r]
    constructor
    · exact fun hpos => by omega
    · exact fun hpos => by omega
  · rcases hget token q hq with rfl | hq
    · exact h.heldKeys
    · exact h.preparedKeys token q hq
  · obtain ⟨token, hclient⟩ := hclient
    show (s.preparedFlushes.set p.token p).get (.uuid n) = none
    rw [get_set, if_neg]
    · exact h.named n
    · rw [hclient]
      exact fun heq => by cases heq
  · show (s.preparedFlushes.set p.token p).get token = none
    have he' : s.settledFlushes.get token = some e := he
    rw [get_set, if_neg]
    · exact h.unsettled token e he
    · rintro rfl
      rw [hunsettled] at he'
      cases he'

theorem Placed.standalone (h : Placed other s [r]) : Placed other (s.finishStandalone r) [] := by
  obtain ⟨settled, result, hsettled, heq⟩ := finishStandalone_eq s r
  rw [heq]
  have hcount : ∀ a, ([r] : List TrackedResource).count a = if r = a then 1 else 0 := by
    intro a
    rw [count_cons_eq, count_nil, Nat.zero_add]
  have hprepared : ∀ a, ((s.preparedFlushes.set (.uuid s.uuid) (s.standaloneFlush r)).delete
      (.uuid s.uuid)).sumOf (fun p => p.resources.count a) = s.preparedCount a := by
    intro a
    have hset := sumOf_set_of_none (fun p : PreparedFlush => p.resources.count a)
      (s.standaloneFlush r) (h.named s.uuid)
    have hget : (s.preparedFlushes.set (.uuid s.uuid) (s.standaloneFlush r)).get (.uuid s.uuid) =
        some (s.standaloneFlush r) := by
      rw [get_set, if_pos rfl]
    have hdelete := sumOf_delete (fun p : PreparedFlush => p.resources.count a) hget
    have hold : s.preparedFlushes.sumOf (fun p => p.resources.count a) = s.preparedCount a := rfl
    omega
  have hget : ∀ token q, ((s.preparedFlushes.set (.uuid s.uuid) (s.standaloneFlush r)).delete
      (.uuid s.uuid)).get token = some q → s.preparedFlushes.get token = some q := by
    intro token q hq
    rw [get_delete] at hq
    split at hq
    · cases hq
    · next hne =>
      rw [get_set, if_neg hne] at hq
      exact hq
  refine ⟨fun a => ?_, h.unique, h.numbered, fun a => ?_, nodup_nil,
    fun a ha => absurd ha not_mem_nil, fun token q hq => h.preparedKeys token q (hget token q hq),
    fun n => ?_, fun token e he => ?_⟩
  · have hold := h.placed a
    have hemitted := emittedCount_append (s := s) (s.standaloneFlush r) result a
    have hresources : (s.standaloneFlush r).resources.count a = ([r] : List TrackedResource).count a :=
      rfl
    show s.liveCount a + _ + _ + sumOf _ _ + (map _ _).sum = s.created.count a
    rw [hprepared, hemitted, hresources, count_nil]
    omega
  · have hold := h.claimed a
    have hplaced := h.placed a
    have hunique := h.unique a
    show a ∈ s.claimedResources.filter (· ∉ [r]) ↔ 0 < _ + _ + sumOf _ _
    rw [mem_filter_notMem, hold, hprepared, count_nil]
    constructor
    · exact fun hpos => by omega
    · exact fun hpos => by omega
  · rw [Option.eq_none_iff_forall_ne_some]
    intro q hq
    have hold := hget _ q hq
    rw [h.named n] at hold
    cases hold
  · rw [get_delete]
    split
    · rfl
    · next hne =>
      rw [get_set, if_neg hne]
      rcases hsettled token e he with heq | he
      · exact absurd heq.symm hne
      · exact h.unsettled token e he

theorem prepared_delete {token' : Token}
    (h : token ≠ token' → s.preparedFlushes.get token' = none) :
    (s.preparedFlushes.delete token).get token' = none := by
  rw [get_delete]
  split
  · rfl
  · next hne => exact h hne

theorem Placed.claimed_delete (h : Placed other s held) {p : PreparedFlush}
    (hget : s.preparedFlushes.get token = some p) (a : TrackedResource) :
    a ∈ s.claimedResources.filter (· ∉ p.resources) ↔ 0 < held.count a + other a +
      (s.preparedFlushes.delete token).sumOf (fun p => p.resources.count a) := by
  have hold := h.claimed a
  have hplaced := h.placed a
  have hunique := h.unique a
  have hprepared := preparedCount_delete hget a
  rw [mem_filter_notMem, hold]
  constructor
  · exact fun hpos => by omega
  · exact fun hpos => by omega

theorem Placed.commit (h : Placed other s held) (token : Token) (p : PreparedFlush)
    (hget : s.preparedFlushes.get token = some p) :
    Placed other (s.settleCommitted token p) held := by
  obtain ⟨settled, hsettled, heq⟩ := settleCommitted_eq s token p
  rw [heq]
  refine ⟨fun a => ?_, h.unique, h.numbered, fun a => ?_, h.heldKeys, h.heldFree,
    fun token' q hq => h.preparedKeys token' q (get_of_delete hq), fun n => ?_,
    fun token' e he => ?_⟩
  · have hold := h.placed a
    have hprepared := preparedCount_delete hget a
    have hemitted := emittedCount_append (s := s) p (s.committedResult p) a
    show s.liveCount a + held.count a + other a +
      (s.preparedFlushes.delete token).sumOf (fun p => p.resources.count a) +
      ((s.emitted ++ [(p, s.committedResult p)]).map fun e => e.1.resources.count a).sum =
        s.created.count a
    omega
  · exact h.claimed_delete hget a
  · exact prepared_delete fun _ => h.named n
  · refine prepared_delete fun hne => ?_
    exact h.unsettled token' e ((hsettled token' e he).resolve_left fun heq => hne heq.symm)

theorem Placed.cancel (h : Placed other s []) (token : Token) (p : PreparedFlush)
    (hget : s.preparedFlushes.get token = some p) (hfree : s.anyLive p = false) :
    Placed other (s.settleCancelled token p) [] := by
  obtain ⟨settled, hsettled, heq⟩ := settleCancelled_eq s token p
  rw [heq]
  have hfree' : ∀ r ∈ p.resources, s.resources.get r.key = none := by
    intro r hr
    have hnot := any_eq_false.mp hfree r hr
    exact Option.not_isSome_iff_eq_none.mp hnot
  refine ⟨fun a => ?_, h.unique, h.numbered, fun a => ?_, nodup_nil, nofun,
    fun token' q hq => h.preparedKeys token' q (get_of_delete hq), fun n => ?_,
    fun token' e he => ?_⟩
  · have hold := h.placed a
    have hprepared := preparedCount_delete hget a
    have hlive := putBack_count (h.preparedKeys token p hget) hfree' a
    have hlive' : s.resources.sumOf (fun b => if b = a then 1 else 0) = s.liveCount a := rfl
    show (p.resources.foldl putBack s.resources).sumOf (fun b => if b = a then 1 else 0) +
      count a [] + other a +
      (s.preparedFlushes.delete token).sumOf (fun p => p.resources.count a) + s.emittedCount a =
        s.created.count a
    omega
  · exact h.claimed_delete hget a
  · exact prepared_delete fun _ => h.named n
  · refine prepared_delete fun hne => ?_
    exact h.unsettled token' e ((hsettled token' e he).resolve_left fun heq => hne heq.symm)

theorem Placed.settle (h : Placed other s held) (token : Token) (result : FlushResult)
    (hnone : s.preparedFlushes.get token = none) :
    Placed other (s.recordSettledFlush token result) held := by
  obtain ⟨settled, hsettled, heq⟩ := recordSettledFlush_eq s token result
  rw [heq]
  refine ⟨h.placed, h.unique, h.numbered, h.claimed, h.heldKeys, h.heldFree, h.preparedKeys,
    h.named, fun token' e he => ?_⟩
  rcases hsettled token' e he with rfl | he
  · exact hnone
  · exact h.unsettled token' e he

def NoneReplaced (s : Store) (p : PreparedFlush) : Prop :=
  ∀ q, s.preparedFlushes.get p.token = some q → q.resources = []

variable {ok : Store → PreparedFlush → Prop} {f : FileKey} {a b : Holding}

theorem Move.keepsPlaced (hok : ∀ s p, ok s p → NoneReplaced s p) (h : Move ok f (s, a) (t, b))
    (hs : Placed other s a.resources) : Placed other t b.resources := by
  have hlength : ∀ (r : TrackedResource) (g : ResourceFields → ResourceFields),
      (s.fields.modify r.id g).length = s.fields.length := fun r g => length_modify ..
  cases h with
  | quiet h =>
    refine hs.of_same ⟨h.created, congrArg _ h.fields, h.resources, h.claimedResources,
      h.preparedFlushes, h.emitted, fun token e he => ?_⟩
    rw [h.settled] at he
    exact he
  | create key hasContent _ hnone => exact hs.create key hasContent hnone
  | touch r _ hget => exact hs.touch r hget
  | track _ _ | skip _ _ _ =>
    exact hs.of_same ⟨rfl, hlength _ _, rfl, rfl, rfl, rfl, fun _ _ h => h⟩
  | claim r _ hclaim => exact hs.claim r hclaim
  | restore r hperm => exact (hs.perm hperm).restore
  | take limit => exact hs.of_same ⟨rfl, rfl, rfl, rfl, rfl, rfl, fun _ _ h => h⟩
  | restoreAcks acks =>
    rw [restoreStandaloneAcknowledgements_eq]
    exact hs.of_same ⟨rfl, rfl, rfl, rfl, rfl, rfl, fun _ _ h => h⟩
  | pass p _ _ hclient hunsettled _ hallowed =>
    exact hs.pass p hclient hunsettled (hok s p hallowed)
  | standalone r => exact hs.standalone
  | commit token p hget => exact hs.commit token p hget
  | cancel token p hget hfree _ => exact hs.cancel token p hget hfree
  | settle token result hnone => exact hs.settle token result hnone
  | forget now =>
    exact hs.of_same ⟨rfl, rfl, rfl, rfl, rfl, rfl, fun _ _ h => (get_filter h).1⟩

theorem Moves.keepsPlaced (hok : ∀ s p, ok s p → NoneReplaced s p) (h : Moves ok f (s, a) (t, b))
    (hs : Placed other s a.resources) : Placed other t b.resources := by
  have hmove : ∀ u a v b, Move ok f (u, a) (v, b) → Placed other u a.resources →
      Placed other v b.resources := fun _ _ _ _ hmove hplaced => hmove.keepsPlaced hok hplaced
  exact Moves.invariant hmove h hs

end Store

end Fumie.AgentHost.EditAttribution
