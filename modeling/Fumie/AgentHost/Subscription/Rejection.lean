import Fumie.AgentHost.Subscription.Rebase

/-!
# Rejected envelopes

A rejected envelope should only take back the optimistic action it answers. The
session and chat subscriptions guard every branch that applies an action; the
changeset and annotations subscriptions guard only the branch of a pending
action, so a rejection of another client's action, or one that answers nothing,
still reaches the confirmed state. `rejected_inert_iff` says exactly when a
rejected envelope is inert, for each class.
-/

namespace Fumie.AgentHost

open Fumie.Lib Subscription List ChatStateSubscription

variable {S A : Type}

structure Inert (sub sub' : Subscription S A) (e : ActionEnvelope A) : Prop where
  verified : sub'.verifiedValue = sub.verifiedValue
  pending : sub'.pendingActions = sub.pendingActions ∨ ∃ n, e.namedSeq sub.clientId = some n ∧
      sub'.pendingActions = sub.pendingActions.eraseP fun p => p.clientSeq = n

def Withheld (k : WriteAheadKind) (sub : Subscription k.State k.Action)
    (e : ActionEnvelope k.Action) (reason : String) : Prop :=
  reason ≠ "" ∧ (k.guarded = true ∨ answersPending sub e = true)

structure NoEffect (k : WriteAheadKind) (sub : Subscription k.State k.Action)
    (e : ActionEnvelope k.Action) (reason : String) : Prop where
  state : ∀ state, sub.verifiedValue = some state → k.cls.applyReducer state e.action = state
  promoted : e.namedSeq sub.clientId = none → reason = "" →
    ∀ p ∈ sub.pendingActions, k.promotes e.action p.action = false

/-! ## One branch at a time -/

variable {reason : String}

theorem isRejected_eq {e : ActionEnvelope A} (h : e.rejectionReason = some reason) :
    e.isRejected = decide (reason ≠ "") := by
  simp only [ActionEnvelope.isRejected, h]

variable {k : WriteAheadKind} {sub : Subscription k.State k.Action} {e : ActionEnvelope k.Action}

theorem withheld_iff (h : e.rejectionReason = some reason) :
    Withheld k sub e reason ↔ applies k.guarded sub e = false := by
  unfold Withheld applies
  rw [isRejected_eq h]
  simp only [Bool.or_eq_false_iff, Bool.not_eq_false', decide_eq_true_eq, Bool.or_eq_true]

theorem start_eq_self {k : WriteAheadKind} {sub : Subscription k.State k.Action}
    {e : ActionEnvelope k.Action}
    (h : e.namedSeq sub.clientId = none →
      ∀ p ∈ sub.pendingActions, k.promotes e.action p.action = false) (s : k.State) :
    k.start sub e s = s := by
  cases k with
  | session | changeset | annotations => rfl
  | chat =>
    show promotedState sub e s = s
    unfold promotedState
    cases hn : e.namedSeq sub.clientId with
    | some n => rfl
    | none =>
      cases ht : terminalTurn? e.action with
      | none => rfl
      | some turnId =>
        have hf : sub.pendingActions.find? (fun p => startsTurn turnId p.action) = none := by
          apply find?_eq_none.mpr
          intro p hp
          have := h hn p hp
          simp only [WriteAheadKind.promotes, ChatStateSubscription.promotes, ht] at this
          simp only [this, Bool.false_eq_true, not_false_eq_true]
        simp only [hf]

theorem start_of_applies {k : WriteAheadKind} {sub : Subscription k.State k.Action}
    {e : ActionEnvelope k.Action} (happlies : applies k.guarded sub e = true)
    (h : e.namedSeq sub.clientId = none → e.isRejected = false →
      ∀ p ∈ sub.pendingActions, k.promotes e.action p.action = false) (s : k.State) :
    k.start sub e s = s := by
  apply start_eq_self
  intro hn p hp
  cases k with
  | session | changeset | annotations => rfl
  | chat => exact h hn (by simpa [applies, WriteAheadKind.guarded] using happlies) p hp

theorem eraseP_ne_self {pending : List (PendingAction A)} {q : PendingAction A → Bool}
    {p : PendingAction A} (hp : p ∈ pending) (hq : q p = true) : pending.eraseP q ≠ pending := by
  intro h
  have hlen := length_eraseP_of_mem hp hq
  rw [h] at hlen
  have : 0 < pending.length := length_pos_of_mem hp
  omega

theorem pendingAfter_named {promotes : A → A → Bool} {sub : Subscription S A}
    {e : ActionEnvelope A}
    (h : e.namedSeq sub.clientId = none → e.isRejected = false →
      ∀ p ∈ sub.pendingActions, promotes e.action p.action = false) :
    pendingAfter promotes sub e = sub.pendingActions ∨ ∃ n, e.namedSeq sub.clientId = some n ∧
        pendingAfter promotes sub e = sub.pendingActions.eraseP fun p => p.clientSeq = n := by
  unfold pendingAfter
  cases hn : e.namedSeq sub.clientId with
  | some n => exact .inr ⟨n, rfl, rfl⟩
  | none =>
    left
    by_cases hr : e.isRejected = true
    · simp only [hr, if_true]
    · simp only [hr, if_false, Bool.false_eq_true]
      apply eraseP_of_forall_not
      intro p hp
      simp [h hn (by simpa using hr) p hp]

/-! ## The reconciliation of a rejected envelope -/

theorem inert_of_withheld (hreason : e.rejectionReason = some reason) (h : Withheld k sub e reason) :
    Inert sub (k.cls.reconcile sub e) e := by
  have hrejected : e.isRejected = true := by
    rw [isRejected_eq hreason]
    exact decide_eq_true h.1
  constructor
  · show (k.cls.reconcile sub e).confirmedState = sub.confirmedState
    rw [k.reconcileSpec.confirmed, (withheld_iff hreason).mp h]
    rfl
  · rw [k.reconcileSpec.pending]
    exact pendingAfter_named fun _ hr => absurd hrejected (by simp [hr])

theorem inert_of_noEffect (hreason : e.rejectionReason = some reason)
    (hnot : ¬ Withheld k sub e reason) (h : NoEffect k sub e reason) :
    Inert sub (k.cls.reconcile sub e) e := by
  have happlies : applies k.guarded sub e = true := by
    simpa using mt (withheld_iff hreason).mpr hnot
  have hpromoted : e.namedSeq sub.clientId = none → e.isRejected = false →
      ∀ p ∈ sub.pendingActions, k.promotes e.action p.action = false := by
    intro hn hr
    rw [isRejected_eq hreason] at hr
    exact h.promoted hn (by simpa using hr)
  constructor
  · show (k.cls.reconcile sub e).confirmedState = sub.confirmedState
    rw [k.reconcileSpec.confirmed, happlies, if_pos rfl]
    cases hc : sub.confirmedState with
    | none => rfl
    | some state =>
      rw [Option.map_some, start_of_applies happlies hpromoted, h.state state hc]
  · rw [k.reconcileSpec.pending]
    exact pendingAfter_named hpromoted

theorem noEffect_of_inert (hreason : e.rejectionReason = some reason)
    (hnot : ¬ Withheld k sub e reason) (h : Inert sub (k.cls.reconcile sub e) e) :
    NoEffect k sub e reason := by
  have happlies : applies k.guarded sub e = true := by
    simpa using mt (withheld_iff hreason).mpr hnot
  have hpromoted : e.namedSeq sub.clientId = none → e.isRejected = false →
      ∀ p ∈ sub.pendingActions, k.promotes e.action p.action = false := by
    intro hn hr p hp
    have hpending := h.pending
    rw [k.reconcileSpec.pending, pendingAfter, hn] at hpending
    simp only [hr, if_false, Bool.false_eq_true] at hpending
    rcases hpending with hsame | ⟨n, hn', -⟩
    · cases hk : k.promotes e.action p.action with
      | false => rfl
      | true => exact absurd hsame (eraseP_ne_self hp hk)
    · cases hn'
  refine ⟨?_, ?_⟩
  · intro state hstate
    have hverified : (k.cls.reconcile sub e).confirmedState = sub.confirmedState := h.verified
    have hc : sub.confirmedState = some state := hstate
    rw [k.reconcileSpec.confirmed, happlies, if_pos rfl, hc, Option.map_some] at hverified
    rw [start_of_applies happlies hpromoted] at hverified
    exact Option.some.inj hverified
  · intro hn hempty
    apply hpromoted hn
    rw [isRejected_eq hreason, hempty]
    rfl

theorem reconcile_inert_iff (hreason : e.rejectionReason = some reason) :
    Inert sub (k.cls.reconcile sub e) e ↔ Withheld k sub e reason ∨ NoEffect k sub e reason := by
  constructor
  · intro h
    by_cases hw : Withheld k sub e reason
    · exact .inl hw
    · exact .inr (noEffect_of_inert hreason hw h)
  · intro h
    by_cases hw : Withheld k sub e reason
    · exact inert_of_withheld hreason hw
    · rcases h with h | h
      · exact absurd h hw
      · exact inert_of_noEffect hreason hw h

/-- For each class, every subscription and every relevant envelope with a
rejection reason. Received before the first snapshot the envelope only waits.
Received later, or replayed from the buffer, it is inert exactly when it is
withheld or its action has no effect. -/
theorem rejected_inert_iff (k : WriteAheadKind) (sub : Subscription k.State k.Action)
    (envelope : ActionEnvelope StateAction) (e : ActionEnvelope k.Action) (reason : String)
    (hrelevant : k.cls.relevant sub envelope = some e) (hreason : e.rejectionReason = some reason) :
    (Inert sub (k.cls.receiveEnvelope sub envelope) e ↔
      sub.verifiedValue = none ∨ Withheld k sub e reason ∨ NoEffect k sub e reason) ∧
    (Inert sub (k.cls.reconcile sub e) e ↔ Withheld k sub e reason ∨ NoEffect k sub e reason) := by
  refine ⟨?_, reconcile_inert_iff hreason⟩
  have hreceive : k.cls.receiveEnvelope sub envelope = k.cls.receive sub e := by
    unfold SubscriptionClass.receiveEnvelope
    rw [hrelevant]
  rw [hreceive]
  unfold SubscriptionClass.receive verifiedValue
  cases hc : sub.confirmedState with
  | none =>
    exact ⟨fun _ => .inl rfl, fun _ => ⟨hc.symm, .inl rfl⟩⟩
  | some state =>
    simp only [reduceCtorEq, false_or]
    exact reconcile_inert_iff hreason

/-- A guarded class: another client's rejected title reaches the subscription. -/
theorem rejected_inert_iff_title : Inert (S := SessionState)
      (WriteAheadKind.session.cls.handleSnapshot (.create "c" (.session "p" "s")) default 0)
      (WriteAheadKind.session.cls.receiveEnvelope
        (WriteAheadKind.session.cls.handleSnapshot (.create "c" (.session "p" "s")) default 0)
        { channel := .session "p" "s", action := .session (.titleChanged "t"), serverSeq := 1,
          origin := some ⟨"other", 1⟩, rejectionReason := some "denied" })
      { channel := .session "p" "s", action := .titleChanged "t", serverSeq := 1,
        origin := some ⟨"other", 1⟩, rejectionReason := some "denied" } :=
  (rejected_inert_iff .session _ _ _ "denied" rfl rfl).1.mpr (.inr (.inl ⟨by decide, .inl rfl⟩))

/-- The annotations subscription applies another client's rejected annotation. -/
theorem rejected_not_always_inert : ¬ ∀ (k : WriteAheadKind) (w : RebaseWorld k.State k.Action),
      (RebaseWorld.system k.cls k.promotes).Reachable w →
      ∀ (envelope : ActionEnvelope StateAction) (e : ActionEnvelope k.Action) (reason : String),
        k.cls.relevant w.sub envelope = some e → e.rejectionReason = some reason →
        Inert w.sub (k.cls.receiveEnvelope w.sub envelope) e := by
  intro hall
  have hinit : (RebaseWorld.system WriteAheadKind.annotations.cls
      WriteAheadKind.annotations.promotes).Reachable
      (.initial "c" (.annotations (.session "p" "s")) 1) := .init ⟨_, _, _, rfl⟩
  have hsnap := hinit.run [.snapshot ⟨[]⟩ 0] rfl
  have h := hall .annotations _ hsnap
    { channel := .annotations (.session "p" "s"), action := .annotations (.set default),
      serverSeq := 1, origin := some ⟨"other", 1⟩, rejectionReason := some "denied" }
    _ "denied" rfl rfl
  have hverified := h.verified
  revert hverified
  decide

end Fumie.AgentHost
