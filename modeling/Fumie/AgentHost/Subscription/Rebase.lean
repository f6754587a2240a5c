import Fumie.Lib.Runs
import Fumie.AgentHost.Subscription.Reconcile

/-!
# The optimistic rebase invariant

`Intent` is what a write-ahead subscription is for, told without its fields: the
actions the client dispatched and the `clientSeq`s that are settled. An action is
settled when the server answers it, when it is dropped or cleared and, on a chat,
when a foreign terminal action ends the turn it starts. Envelopes that arrive
before the first snapshot wait and count when the snapshot arrives.

`rebaseSystem` runs a subscription and an `Intent` side by side over any sequence
of calls. `rebased_of_reachable` is the result: the pending list is the list of
outstanding actions, and the value is their fold over the confirmed state.
-/

namespace Fumie.AgentHost

open Fumie.Lib Subscription List

variable {S A : Type}

/-! ## Intent -/

structure Intent (A : Type) where
  dispatched : List (PendingAction A)
  settled : List Nat
  waiting : Option (List (ActionEnvelope A))

namespace Intent

def initial : Intent A := { dispatched := [], settled := [], waiting := some [] }

variable (i : Intent A)

def outstanding : List (PendingAction A) := i.dispatched.filter fun p => p.clientSeq ∉ i.settled

def dispatch (p : PendingAction A) : Intent A :=
  { i with dispatched := i.dispatched ++ [p] }

def settle (n : Nat) : Intent A :=
  if i.dispatched.any fun p => p.clientSeq = n then { i with settled := n :: i.settled } else i

def settleAll : Intent A :=
  { i with settled := i.dispatched.map (·.clientSeq) ++ i.settled }

def settleEcho (clientId : ClientId) (e : ActionEnvelope A) : Intent A :=
  match e.namedSeq clientId with
  | some n => i.settle n
  | none => i

variable (promotes : A → A → Bool)

def settlePromoted (action : A) : Intent A :=
  match i.outstanding.find? fun p => promotes action p.action with
  | some p => i.settle p.clientSeq
  | none => i

variable (clientId : ClientId)

def settleBy (e : ActionEnvelope A) : Intent A :=
  match e.namedSeq clientId with
  | some n => i.settle n
  | none => if e.isRejected then i else i.settlePromoted promotes e.action

def receive (e : ActionEnvelope A) : Intent A :=
  match i.waiting with
  | some waiting => { i with waiting := some (waiting ++ [e]) }
  | none => i.settleBy promotes clientId e

def snapshot (fromSeq : Nat) : Intent A :=
  (i.waiting.getD []).foldl
    (fun i e =>
      if fromSeq < e.serverSeq then i.settleBy promotes clientId e else i.settleEcho clientId e)
    { i with waiting := none }

end Intent

/-! ## The system -/

inductive SubscriptionEvent (S A : Type) where
  | dispatch (action : A)
  | allocate
  | snapshot (state : S) (fromSeq : Nat)
  | envelope (envelope : ActionEnvelope StateAction)
  | failure (error : String)
  | drop (clientSeq : Nat)
  | clear

structure RebaseWorld (S A : Type) where
  sub : Subscription S A
  nextClientSeq : Nat
  intent : Intent A
  stale : Bool

namespace RebaseWorld

def step (cls : SubscriptionClass S A) (promotes : A → A → Bool) (w : RebaseWorld S A) :
    SubscriptionEvent S A → Option (RebaseWorld S A)
  | .dispatch action =>
    some { w with
      sub := w.sub.applyOptimistic cls.applyReducer w.nextClientSeq action
      nextClientSeq := w.nextClientSeq + 1
      intent := w.intent.dispatch { clientSeq := w.nextClientSeq, action } }
  | .allocate => some { w with nextClientSeq := w.nextClientSeq + 1 }
  | .snapshot state fromSeq =>
    some { w with
      sub := cls.handleSnapshot w.sub state fromSeq
      intent := w.intent.snapshot promotes w.sub.clientId fromSeq
      stale := false }
  | .envelope envelope =>
    match cls.relevant w.sub envelope with
    | none => some w
    | some e =>
      some { w with
        sub := cls.receiveEnvelope w.sub envelope
        intent := w.intent.receive promotes w.sub.clientId e
        stale := w.stale && w.sub.confirmedState.isNone }
  | .failure error => some { w with sub := w.sub.setError error }
  | .drop n =>
    if cls.tracksPending then
      some { w with
        sub := w.sub.dropPendingByClientSeq n
        intent := w.intent.settle n
        stale := w.stale || w.sub.hasPending n }
    else none
  | .clear =>
    if cls.tracksPending then
      some { w with sub := w.sub.clearPending, intent := w.intent.settleAll, stale := false }
    else none

def initial (clientId : ClientId) (uri : Uri) (nextClientSeq : Nat) : RebaseWorld S A where
  sub := .create clientId uri
  nextClientSeq := nextClientSeq
  intent := .initial
  stale := false

def system (cls : SubscriptionClass S A) (promotes : A → A → Bool) :
    System (RebaseWorld S A) (SubscriptionEvent S A) :=
  .ofStep (fun w => ∃ clientId uri nextClientSeq, w = initial clientId uri nextClientSeq)
    (step cls promotes)

def NoAnswerCovered (w : RebaseWorld S A) : SubscriptionEvent S A → Prop
  | .snapshot _ fromSeq => ∀ e ∈ w.sub.bufferedEnvelopes, e.serverSeq ≤ fromSeq →
      answersPending w.sub e = false
  | _ => True

end RebaseWorld

/-! ## Settling an action -/

theorem filter_eq_eraseP_of_find {pending : List (PendingAction A)} {q : PendingAction A → Bool}
    {p : PendingAction A} (hn : (pending.map (·.clientSeq)).Nodup) (hf : pending.find? q = some p) :
    (pending.filter fun p' => p'.clientSeq ≠ p.clientSeq) = pending.eraseP q := by
  induction pending with
  | nil => cases hf
  | cons r rest ih =>
    rw [map_cons, nodup_cons] at hn
    by_cases hr : q r = true
    · rw [find?_cons_of_pos hr] at hf
      obtain rfl := Option.some.inj hf
      rw [List.filter_cons_of_neg (by simp), eraseP_cons_of_pos hr]
      apply filter_eq_self.mpr
      intro q' hq'
      have : q'.clientSeq ≠ r.clientSeq := fun h => hn.1 (h ▸ List.mem_map_of_mem hq')
      simpa using this
    · rw [find?_cons_of_neg hr] at hf
      have hp : p ∈ rest := mem_of_find?_eq_some hf
      have : r.clientSeq ≠ p.clientSeq := fun h => hn.1 (h ▸ mem_map_of_mem hp)
      rw [filter_cons_of_pos (by simpa using this), eraseP_cons_of_neg hr, ih hn.2 hf]

variable {e : ActionEnvelope A} {w w' : RebaseWorld S A}

namespace Intent

structure Sound (i : Intent A) (next : Nat) : Prop where
  fresh : ∀ p ∈ i.dispatched, p.clientSeq < next
  settledFresh : ∀ n ∈ i.settled, n < next
  distinct : (i.dispatched.map (·.clientSeq)).Nodup

variable {i : Intent A}

theorem Sound.outstanding_nodup {next : Nat} (h : i.Sound next) :
    (i.outstanding.map (·.clientSeq)).Nodup :=
  h.distinct.sublist (filter_sublist.map _)

variable {next : Nat}

theorem Sound.mono {next' : Nat} (h : i.Sound next) (hle : next ≤ next') : i.Sound next' :=
  ⟨fun p hp => Nat.lt_of_lt_of_le (h.fresh p hp) hle,
    fun n hn => Nat.lt_of_lt_of_le (h.settledFresh n hn) hle, h.distinct⟩

theorem initial_sound (next : Nat) : (initial : Intent A).Sound next := ⟨nofun, nofun, nodup_nil⟩

theorem Sound.dispatch (h : i.Sound next) (action : A) :
    (i.dispatch { clientSeq := next, action }).Sound (next + 1) where
  fresh := by
    intro p hp
    rcases mem_append.mp hp with hp | hp
    · exact Nat.lt_succ_of_lt (h.fresh p hp)
    · rw [mem_singleton.mp hp]
      exact Nat.lt_succ_self next
  settledFresh := fun n hn => Nat.lt_succ_of_lt (h.settledFresh n hn)
  distinct := by
    unfold Intent.dispatch
    rw [map_append, nodup_append]
    refine ⟨h.distinct, by simp, ?_⟩
    intro a ha b hb
    obtain ⟨p, hp, rfl⟩ := mem_map.mp ha
    have hb' : b = next := by simpa using hb
    have := h.fresh p hp
    omega

theorem outstanding_dispatch (h : i.Sound next) (action : A) :
    (i.dispatch { clientSeq := next, action }).outstanding =
      i.outstanding ++ [{ clientSeq := next, action }] := by
  have hnot : next ∉ i.settled := fun hmem => Nat.lt_irrefl _ (h.settledFresh next hmem)
  unfold outstanding dispatch
  rw [filter_append, filter_cons_of_pos (by simpa using hnot), filter_nil]

@[simp] theorem settle_dispatched (i : Intent A) (n : Nat) :
    (i.settle n).dispatched = i.dispatched := by
  unfold settle
  split <;> rfl

@[simp] theorem settle_waiting (i : Intent A) (n : Nat) : (i.settle n).waiting = i.waiting := by
  unfold settle
  split <;> rfl

theorem Sound.settle (h : i.Sound next) (n : Nat) : (i.settle n).Sound next := by
  refine ⟨?_, ?_, ?_⟩
  · rw [settle_dispatched]
    exact h.fresh
  · unfold Intent.settle
    split
    · rename_i hn
      obtain ⟨p, hp, hpn⟩ := any_eq_true.mp hn
      intro m hm
      rcases mem_cons.mp hm with rfl | hm
      · rw [← of_decide_eq_true hpn]
        exact h.fresh p hp
      · exact h.settledFresh m hm
    · exact h.settledFresh
  · rw [settle_dispatched]
    exact h.distinct

theorem outstanding_settle (h : i.Sound next) (n : Nat) :
    (i.settle n).outstanding = i.outstanding.eraseP fun p => p.clientSeq = n := by
  rw [← filter_eq_eraseP_of_nodup h.outstanding_nodup]
  unfold outstanding
  rw [settle_dispatched, filter_filter]
  apply filter_congr
  intro p hp
  unfold settle
  split
  · simp [mem_cons, not_or]
  · rename_i hn
    have : p.clientSeq ≠ n := by
      intro hpn
      exact hn (any_eq_true.mpr ⟨p, hp, by simpa using hpn⟩)
    simp [this]

theorem outstanding_settleAll (i : Intent A) : i.settleAll.outstanding = [] := by
  apply filter_eq_nil_iff.mpr
  intro p hp
  have : p.clientSeq ∈ i.settleAll.settled := mem_append_left _ (mem_map_of_mem hp)
  simpa using this

theorem Sound.settleAll (h : i.Sound next) : i.settleAll.Sound next := by
  refine ⟨h.fresh, ?_, h.distinct⟩
  intro n hn
  rcases mem_append.mp hn with hn | hn
  · obtain ⟨p, hp, rfl⟩ := mem_map.mp hn
    exact h.fresh p hp
  · exact h.settledFresh n hn

@[simp] theorem settlePromoted_waiting (i : Intent A) (promotes : A → A → Bool) (action : A) :
    (i.settlePromoted promotes action).waiting = i.waiting := by
  unfold settlePromoted
  split
  · exact settle_waiting i _
  · rfl

theorem Sound.settlePromoted (h : i.Sound next) (promotes : A → A → Bool) (action : A) :
    (i.settlePromoted promotes action).Sound next := by
  unfold Intent.settlePromoted
  split
  · exact h.settle _
  · exact h

theorem outstanding_settlePromoted (h : i.Sound next) (promotes : A → A → Bool) (action : A) :
    (i.settlePromoted promotes action).outstanding =
      i.outstanding.eraseP fun p => promotes action p.action := by
  unfold settlePromoted
  cases hf : i.outstanding.find? fun p => promotes action p.action with
  | none =>
    symm
    apply eraseP_of_forall_not
    intro p hp
    simpa using find?_eq_none.mp hf p hp
  | some p =>
    rw [outstanding_settle h, ← filter_eq_eraseP_of_nodup h.outstanding_nodup,
      filter_eq_eraseP_of_find h.outstanding_nodup hf]

@[simp] theorem settleBy_waiting (i : Intent A) (promotes : A → A → Bool) (clientId : ClientId)
    (e : ActionEnvelope A) : (i.settleBy promotes clientId e).waiting = i.waiting := by
  unfold settleBy
  split
  · exact settle_waiting i _
  · split
    · rfl
    · exact settlePromoted_waiting i promotes _

theorem Sound.settleBy (h : i.Sound next) (promotes : A → A → Bool) (clientId : ClientId)
    (e : ActionEnvelope A) : (i.settleBy promotes clientId e).Sound next := by
  unfold Intent.settleBy
  split
  · exact h.settle _
  · split
    · exact h
    · exact h.settlePromoted _ _

variable {sub : Subscription S A}

theorem outstanding_settleBy (h : i.Sound next) (hp : sub.pendingActions = i.outstanding)
    (promotes : A → A → Bool) (e : ActionEnvelope A) :
    (i.settleBy promotes sub.clientId e).outstanding = pendingAfter promotes sub e := by
  unfold settleBy pendingAfter
  rw [hp]
  cases e.namedSeq sub.clientId with
  | some n => exact outstanding_settle h n
  | none =>
    by_cases hr : e.isRejected = true
    · simp only [hr, if_true]
    · simp only [hr, if_false, Bool.false_eq_true]
      exact outstanding_settlePromoted h promotes e.action

theorem settleEcho_waiting (i : Intent A) (clientId : ClientId) (e : ActionEnvelope A) :
    (i.settleEcho clientId e).waiting = i.waiting := by
  unfold settleEcho
  split
  · exact settle_waiting i _
  · rfl

theorem Sound.settleEcho (h : i.Sound next) (clientId : ClientId) (e : ActionEnvelope A) :
    (i.settleEcho clientId e).Sound next := by
  unfold Intent.settleEcho
  split
  · exact h.settle _
  · exact h

theorem outstanding_settleEcho (h : i.Sound next) (hp : sub.pendingActions = i.outstanding)
    (ha : answersPending sub e = false) :
    (i.settleEcho sub.clientId e).outstanding = i.outstanding := by
  unfold settleEcho
  unfold answersPending at ha
  cases hn : e.namedSeq sub.clientId with
  | none => rfl
  | some n =>
    rw [hn] at ha
    rw [outstanding_settle h, ← hp]
    exact eraseP_eq_self_of_not_hasPending ha

end Intent

/-! ## Steps of the invariant -/

theorem answersPending_of_sublist {sub sub' : Subscription S A}
    (hid : sub'.clientId = sub.clientId) (hs : sub'.pendingActions.Sublist sub.pendingActions)
    (h : answersPending sub e = false) : answersPending sub' e = false := by
  unfold answersPending at h ⊢
  rw [hid]
  cases hn : e.namedSeq sub.clientId with
  | none => rfl
  | some n =>
    rw [hn] at h
    apply any_eq_false.mpr
    intro p hp
    exact any_eq_false.mp h p (hs.subset hp)

theorem rebased_applyOptimistic {reduce : S → A → S} {sub : Subscription S A}
    (h : sub.Rebased reduce) (n : Nat) (action : A) :
    (sub.applyOptimistic reduce n action).Rebased reduce := by
  unfold Rebased applyOptimistic at *
  cases hc : sub.confirmedState with
  | none =>
    simp only [hc] at h
    simp only [h, Option.or_none]
  | some confirmed =>
    simp only [hc] at h
    simp only [replayPending, foldl_append, foldl_cons, foldl_nil]
    rw [replayPending] at h
    rw [← h]
    cases sub.optimisticState <;> rfl

theorem rebased_clearPending (reduce : S → A → S) (sub : Subscription S A) :
    sub.clearPending.Rebased reduce := by
  unfold Rebased clearPending
  cases sub.confirmedState <;> simp [replayPending]

section Invariant

variable {cls : SubscriptionClass S A} {guarded : Bool} {promotes : A → A → Bool}
  {start : Subscription S A → ActionEnvelope A → S → S}

theorem reconcile_hydrated (spec : ReconcileSpec cls guarded promotes start)
    {sub : Subscription S A} (e : ActionEnvelope A) (h : sub.confirmedState.isSome = true) :
    (cls.reconcile sub e).confirmedState.isSome = true := by
  rw [spec.confirmed]
  split
  · rw [Option.isSome_map]
    exact h
  · exact h

theorem foldl_reconcile_hydrated (spec : ReconcileSpec cls guarded promotes start)
    (envelopes : List (ActionEnvelope A)) {sub : Subscription S A}
    (h : sub.confirmedState.isSome = true) :
    (envelopes.foldl cls.reconcile sub).confirmedState.isSome = true := by
  induction envelopes generalizing sub with
  | nil => exact h
  | cons e rest ih => exact ih (reconcile_hydrated spec e h)

theorem handleSnapshot_hydrated (spec : ReconcileSpec cls guarded promotes start)
    (sub : Subscription S A) (state : S) (fromSeq : Nat) :
    (cls.handleSnapshot sub state fromSeq).confirmedState.isSome = true := by
  unfold SubscriptionClass.handleSnapshot SubscriptionClass.replayBuffered
  rw [recomputeOptimistic_confirmedState]
  exact foldl_reconcile_hydrated spec _ rfl

theorem replay_waiting (spec : ReconcileSpec cls guarded promotes start) {next : Nat}
    (fromSeq : Nat) (waiting : List (ActionEnvelope A)) (sub : Subscription S A) (i : Intent A)
    (hi : i.Sound next) (hp : sub.pendingActions = i.outstanding)
    (hskip : ∀ e ∈ waiting, e.serverSeq ≤ fromSeq → answersPending sub e = false) :
    let sub' := (waiting.filter fun e => fromSeq < e.serverSeq).foldl cls.reconcile sub
    let i' := waiting.foldl (fun i e => if fromSeq < e.serverSeq then
      i.settleBy promotes sub.clientId e else i.settleEcho sub.clientId e) i
    i'.Sound next ∧ sub'.pendingActions = i'.outstanding ∧ i'.waiting = i.waiting ∧
      SameFrame sub sub' := by
  induction waiting generalizing sub i with
  | nil => exact ⟨hi, hp, rfl, rfl, rfl, rfl, rfl⟩
  | cons e rest ih =>
    by_cases hseq : fromSeq < e.serverSeq
    · rw [filter_cons_of_pos (by simpa using hseq)]
      simp only [foldl_cons, hseq, if_true]
      have hframe := spec.frame sub e
      have hp' : (cls.reconcile sub e).pendingActions =
          (i.settleBy promotes sub.clientId e).outstanding := by
        rw [spec.pending, Intent.outstanding_settleBy hi hp]
      have hsub : (cls.reconcile sub e).pendingActions.Sublist sub.pendingActions := by
        rw [spec.pending]
        exact pendingAfter_sublist promotes sub e
      have := ih (cls.reconcile sub e) (i.settleBy promotes sub.clientId e)
        (hi.settleBy _ _ _) hp' (fun e' he' hle => answersPending_of_sublist hframe.1 hsub
          (hskip e' (mem_cons_of_mem _ he') hle))
      rw [hframe.1] at this
      obtain ⟨hs, hpend, hwait, hf⟩ := this
      refine ⟨hs, hpend, hwait.trans (Intent.settleBy_waiting i _ _ _), ?_⟩
      exact ⟨hf.1.trans hframe.1, hf.2.1.trans hframe.2.1, hf.2.2.1.trans hframe.2.2.1,
        hf.2.2.2.trans hframe.2.2.2⟩
    · rw [filter_cons_of_neg (by simpa using hseq)]
      simp only [foldl_cons, hseq, if_false]
      have ha := hskip e mem_cons_self (Nat.le_of_not_lt hseq)
      have := ih sub (i.settleEcho sub.clientId e) (hi.settleEcho _ _)
        (hp.trans (Intent.outstanding_settleEcho hi hp ha).symm)
        (fun e' he' hle => hskip e' (mem_cons_of_mem _ he') hle)
      obtain ⟨hs, hpend, hwait, hf⟩ := this
      exact ⟨hs, hpend, hwait.trans (Intent.settleEcho_waiting i _ _), hf⟩

structure RebaseInvariant (cls : SubscriptionClass S A) (w : RebaseWorld S A) : Prop where
  sound : w.intent.Sound w.nextClientSeq
  pending : w.sub.pendingActions = w.intent.outstanding
  waiting : w.intent.waiting =
    if w.sub.confirmedState.isNone then some w.sub.bufferedEnvelopes else none
  emptied : w.sub.confirmedState.isSome → w.sub.bufferedEnvelopes = []
  rebased : w.stale = false → w.sub.Rebased cls.applyReducer

theorem rebaseInvariant_initial (clientId : ClientId) (uri : Uri) (next : Nat) :
    RebaseInvariant cls (.initial clientId uri next) where
  sound := Intent.initial_sound next
  pending := rfl
  waiting := rfl
  emptied := by
    intro h
    cases h
  rebased := fun _ => rebased_of_none rfl rfl

theorem rebaseInvariant_dispatch {action : A} (h : RebaseInvariant cls w)
    (hstep : w.step cls promotes (.dispatch action) = some w') : RebaseInvariant cls w' := by
  cases hstep
  refine ⟨h.sound.dispatch action, ?_, h.waiting, h.emptied, ?_⟩
  · rw [Intent.outstanding_dispatch h.sound, ← h.pending]
    rfl
  · intro hs
    exact rebased_applyOptimistic (h.rebased hs) _ _

theorem rebaseInvariant_snapshot (spec : ReconcileSpec cls guarded promotes start) {state : S}
    {fromSeq : Nat} (h : RebaseInvariant cls w)
    (hok : w.NoAnswerCovered (.snapshot state fromSeq))
    (hstep : w.step cls promotes (.snapshot state fromSeq) = some w') : RebaseInvariant cls w' := by
  cases hstep
  have hwaiting : w.intent.waiting.getD [] = w.sub.bufferedEnvelopes := by
    rw [h.waiting]
    cases hc : w.sub.confirmedState with
    | none => rfl
    | some state' => exact (h.emptied (by rw [hc]; rfl)).symm
  have hreplay := replay_waiting spec fromSeq w.sub.bufferedEnvelopes
    { w.sub with confirmedState := some state, error := none, bufferedEnvelopes := [] }
    { w.intent with waiting := none } ⟨h.sound.fresh, h.sound.settledFresh, h.sound.distinct⟩
    h.pending hok
  obtain ⟨hsound, hpending, hwait, hframe⟩ := hreplay
  have hsome : (cls.handleSnapshot w.sub state fromSeq).confirmedState.isSome = true :=
    handleSnapshot_hydrated spec w.sub state fromSeq
  have hwaiting' : (w.intent.snapshot promotes w.sub.clientId fromSeq).waiting = none := by
    unfold Intent.snapshot
    rw [hwaiting]
    exact hwait
  refine ⟨?_, ?_, ?_, ?_, ?_⟩
  · unfold Intent.snapshot
    rw [hwaiting]
    exact hsound
  · unfold Intent.snapshot SubscriptionClass.handleSnapshot
    rw [hwaiting, recomputeOptimistic_pendingActions]
    exact hpending
  · rw [hwaiting']
    cases hc : (cls.handleSnapshot w.sub state fromSeq).confirmedState with
    | none => simp [hc] at hsome
    | some _ => rfl
  · intro _
    unfold SubscriptionClass.handleSnapshot
    rw [recomputeOptimistic_bufferedEnvelopes]
    exact hframe.2.2.2
  · intro _
    exact rebased_recomputeOptimistic _ _

theorem rebaseInvariant_envelope (spec : ReconcileSpec cls guarded promotes start)
    {envelope : ActionEnvelope StateAction} (h : RebaseInvariant cls w)
    (hstep : w.step cls promotes (.envelope envelope) = some w') : RebaseInvariant cls w' := by
  cases hrel : cls.relevant w.sub envelope with
  | none =>
    simp only [RebaseWorld.step, hrel, Option.some.injEq] at hstep
    subst hstep
    exact h
  | some e =>
    simp only [RebaseWorld.step, hrel, Option.some.injEq] at hstep
    subst hstep
    have hrecv : cls.receiveEnvelope w.sub envelope = cls.receive w.sub e := by
      unfold SubscriptionClass.receiveEnvelope
      rw [hrel]
    simp only [hrecv]
    unfold SubscriptionClass.receive Intent.receive
    rw [h.waiting]
    cases hc : w.sub.confirmedState with
    | none =>
      refine ⟨⟨h.sound.fresh, h.sound.settledFresh, h.sound.distinct⟩, h.pending, ?_, ?_, ?_⟩
      · simp
      · intro hsome
        simp at hsome
      · intro hs
        have hr := h.rebased (by simpa using hs)
        unfold Rebased at hr ⊢
        rw [hc] at hr
        simpa [hc] using hr
    | some state =>
      have hsome : (cls.reconcile w.sub e).confirmedState.isSome = true :=
        reconcile_hydrated spec e (by rw [hc]; rfl)
      refine ⟨h.sound.settleBy _ _ _, ?_, ?_, ?_, fun _ => spec.rebased _ _⟩
      · exact (spec.pending _ _).trans (Intent.outstanding_settleBy h.sound h.pending _ _).symm
      · show (w.intent.settleBy promotes w.sub.clientId e).waiting = _
        rw [Intent.settleBy_waiting, h.waiting, hc]
        cases hc' : (cls.reconcile w.sub e).confirmedState with
        | none => simp [hc'] at hsome
        | some _ => simp
      · intro _
        exact (spec.frame w.sub e).2.2.2.trans (h.emptied (by rw [hc]; rfl))

theorem rebaseInvariant_drop {n : Nat} (h : RebaseInvariant cls w)
    (hstep : w.step cls promotes (.drop n) = some w') : RebaseInvariant cls w' := by
  simp only [RebaseWorld.step, Option.ite_none_right_eq_some, Option.some.injEq] at hstep
  obtain ⟨-, rfl⟩ := hstep
  refine ⟨h.sound.settle n, ?_, ?_, h.emptied, ?_⟩
  · rw [Intent.outstanding_settle h.sound, ← h.pending]
    rfl
  · rw [Intent.settle_waiting]
    exact h.waiting
  · intro hs
    simp only [Bool.or_eq_false_iff] at hs
    have hsame : w.sub.dropPendingByClientSeq n = w.sub := by
      unfold dropPendingByClientSeq
      rw [eraseP_eq_self_of_not_hasPending hs.2]
    rw [hsame]
    exact h.rebased hs.1

theorem rebaseInvariant_clear (h : RebaseInvariant cls w)
    (hstep : w.step cls promotes .clear = some w') : RebaseInvariant cls w' := by
  simp only [RebaseWorld.step, Option.ite_none_right_eq_some, Option.some.injEq] at hstep
  obtain ⟨-, rfl⟩ := hstep
  refine ⟨h.sound.settleAll, ?_, h.waiting, h.emptied, fun _ => rebased_clearPending _ _⟩
  rw [Intent.outstanding_settleAll]
  rfl

theorem rebaseInvariant_step (spec : ReconcileSpec cls guarded promotes start)
    {event : SubscriptionEvent S A} (h : RebaseInvariant cls w) (hok : w.NoAnswerCovered event)
    (hstep : w.step cls promotes event = some w') : RebaseInvariant cls w' := by
  cases event with
  | dispatch action => exact rebaseInvariant_dispatch h hstep
  | allocate =>
    cases hstep
    exact ⟨h.sound.mono (Nat.le_succ _), h.pending, h.waiting, h.emptied, h.rebased⟩
  | snapshot state fromSeq => exact rebaseInvariant_snapshot spec h hok hstep
  | envelope envelope => exact rebaseInvariant_envelope spec h hstep
  | failure error =>
    cases hstep
    exact ⟨h.sound, h.pending, h.waiting, h.emptied, h.rebased⟩
  | drop n => exact rebaseInvariant_drop h hstep
  | clear => exact rebaseInvariant_clear h hstep

theorem rebaseInvariant_of_reachable (spec : ReconcileSpec cls guarded promotes start)
    (hw : (RebaseWorld.system cls promotes).ReachableVia RebaseWorld.NoAnswerCovered w) :
    RebaseInvariant cls w := by
  refine hw.invariant ?_ ?_
  · rintro _ ⟨clientId, uri, next, rfl⟩
    exact rebaseInvariant_initial clientId uri next
  · intro w event w' h hok hstep
    exact rebaseInvariant_step spec h hok hstep

end Invariant

/-- In every run of one of the four subscriptions in which no snapshot covers a
waiting answer to a pending action: the pending list is the outstanding actions
in dispatch order, and the value, when there is a confirmed state, no error and
no entry dropped since the last recomputation, is their fold over that state. -/
theorem rebased_of_reachable (k : WriteAheadKind) (w : RebaseWorld k.State k.Action)
    (hw : (RebaseWorld.system k.cls k.promotes).ReachableVia RebaseWorld.NoAnswerCovered w) :
    w.sub.pendingActions = w.intent.outstanding ∧
      ∀ confirmed, w.sub.verifiedValue = some confirmed → w.sub.error = none → w.stale = false →
        w.sub.value =
          some (.ok (replayPending k.cls.applyReducer w.sub.pendingActions confirmed)) := by
  have hinv := rebaseInvariant_of_reachable k.reconcileSpec hw
  refine ⟨hinv.pending, ?_⟩
  intro confirmed hconfirmed herror hstale
  exact value_of_rebased (hinv.rebased hstale) hconfirmed herror

/-- A session with its snapshot and one dispatched title. -/
theorem rebased_of_reachable_title : ∃ w : RebaseWorld SessionState SessionAction,
      w.sub.pendingActions = [{ clientSeq := 1, action := .titleChanged "t" }] ∧
      w.sub.value = some (.ok { (default : SessionState) with title := "t" }) := by
  have hinit : (RebaseWorld.system WriteAheadKind.session.cls
      WriteAheadKind.session.promotes).ReachableVia RebaseWorld.NoAnswerCovered
      (.initial "c" (.session "p" "s") 1) := .init ⟨"c", .session "p" "s", 1, rfl⟩
  have hcovered : RebaseWorld.NoAnswerCovered
      (.initial "c" (.session "p" "s") 1 : RebaseWorld SessionState SessionAction)
      (.snapshot default 0) := fun _ he => absurd he not_mem_nil
  have hsnap := hinit.step hcovered rfl
  have hdispatch := hsnap.step
    (i := SubscriptionEvent.dispatch (SessionAction.titleChanged "t")) trivial rfl
  obtain ⟨hpending, hvalue⟩ := rebased_of_reachable .session _ hdispatch
  exact ⟨_, hpending, hvalue default rfl rfl rfl⟩

/-! ## Pending actions no answer accounts for

A pending action can leave the list without an answer, and stay in it after one.
-/

def SubscriptionEvent.answers (cls : SubscriptionClass S A) (sub : Subscription S A) :
    SubscriptionEvent S A → List Nat
  | .envelope received =>
    match cls.relevant sub received with
    | none => []
    | some e => (e.namedSeq sub.clientId).toList
  | .drop n => [n]
  | .clear => sub.pendingActions.map (·.clientSeq)
  | _ => []

def answeredSystem (cls : SubscriptionClass S A) (promotes : A → A → Bool) :
    System (RebaseWorld S A × List Nat) (SubscriptionEvent S A) :=
  .ofStep (fun h => (∃ clientId uri next, h.1 = .initial clientId uri next) ∧ h.2 = [])
    fun h event => (h.1.step cls promotes event).map fun w => (w, event.answers cls h.1.sub ++ h.2)

def PendingIsUnanswered (h : RebaseWorld S A × List Nat) : Prop :=
  h.1.sub.pendingActions = h.1.intent.dispatched.filter fun p => p.clientSeq ∉ h.2

/-- On a chat, a foreign terminal action settles the start of its turn; in any
subscription, an answer that waits for the snapshot settles nothing yet. -/
theorem pending_not_unanswered :
    (¬ ∀ h, (answeredSystem WriteAheadKind.chat.cls WriteAheadKind.chat.promotes).Reachable h →
      PendingIsUnanswered h) ∧
    ¬ ∀ h, (answeredSystem WriteAheadKind.session.cls
      WriteAheadKind.session.promotes).Reachable h → PendingIsUnanswered h := by
  constructor
  · intro hall
    have hinit : (answeredSystem WriteAheadKind.chat.cls WriteAheadKind.chat.promotes).Reachable
        (.initial "c" (.chat (.session "p" "s") "default") 1, []) :=
      .init ⟨⟨_, _, _, rfl⟩, rfl⟩
    have hend := hinit.run
      [.snapshot default 0, .dispatch (.turnStarted "t" 0 default none),
        .envelope { channel := .chat (.session "p" "s") "default",
                    action := .chat (.turnComplete "t" 5), serverSeq := 1, origin := none,
                    rejectionReason := none }] rfl
    have h := hall _ hend
    revert h
    simp only [PendingIsUnanswered]
    decide
  · intro hall
    have hinit : (answeredSystem WriteAheadKind.session.cls
        WriteAheadKind.session.promotes).Reachable (.initial "c" (.session "p" "s") 1, []) :=
      .init ⟨⟨_, _, _, rfl⟩, rfl⟩
    have hecho := hinit.run
      [.dispatch (.titleChanged "t"),
        .envelope { channel := .session "p" "s", action := .session (.titleChanged "t"),
                    serverSeq := 1, origin := some ⟨"c", 1⟩, rejectionReason := none }] rfl
    have h := hall _ hecho
    revert h
    simp only [PendingIsUnanswered]
    decide

end Fumie.AgentHost
