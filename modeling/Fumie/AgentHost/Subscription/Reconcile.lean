import Fumie.AgentHost.Subscription.WriteAhead

/-!
# What one envelope does to a subscription

Each `_reconcile` ends by recomputing the optimistic state, so its effect is told
by two fields: the confirmed state and the pending list. `ReconcileSpec` states
both effects once for the four classes, with two parameters where they differ:
`guarded` (whether a rejected envelope that answers no pending action is left
unapplied) and `promotes` (which pending actions an accepted foreign action
settles, none but for chats). The later modules read a class only through its
instance of `ReconcileSpec`.
-/

namespace Fumie.AgentHost

open List Bool ActionEnvelope

variable {S A : Type}

def ActionEnvelope.namedSeq {α : Type} (e : ActionEnvelope α) (clientId : ClientId) : Option Nat :=
  match e.origin with
  | none => none
  | some origin => if origin.clientId = clientId then some origin.clientSeq else none

namespace Subscription

/-! ## Recomputing the optimistic state -/

section Recompute

variable (reduce : S → A → S) (sub : Subscription S A)

@[simp] theorem recomputeOptimistic_confirmedState :
    (sub.recomputeOptimistic reduce).confirmedState = sub.confirmedState := by
  unfold recomputeOptimistic
  split
  · rfl
  · split <;> rfl

@[simp] theorem recomputeOptimistic_pendingActions :
    (sub.recomputeOptimistic reduce).pendingActions = sub.pendingActions := by
  unfold recomputeOptimistic
  split
  · rfl
  · split <;> rfl

@[simp] theorem recomputeOptimistic_clientId :
    (sub.recomputeOptimistic reduce).clientId = sub.clientId := by
  unfold recomputeOptimistic
  split
  · rfl
  · split <;> rfl

@[simp] theorem recomputeOptimistic_uri : (sub.recomputeOptimistic reduce).uri = sub.uri := by
  unfold recomputeOptimistic
  split
  · rfl
  · split <;> rfl

@[simp] theorem recomputeOptimistic_error : (sub.recomputeOptimistic reduce).error = sub.error := by
  unfold recomputeOptimistic
  split
  · rfl
  · split <;> rfl

@[simp] theorem recomputeOptimistic_bufferedEnvelopes :
    (sub.recomputeOptimistic reduce).bufferedEnvelopes = sub.bufferedEnvelopes := by
  unfold recomputeOptimistic
  split
  · rfl
  · split <;> rfl

end Recompute

/-- The optimistic state is the pending actions folded over the confirmed one. -/
def Rebased (reduce : S → A → S) (sub : Subscription S A) : Prop :=
  match sub.confirmedState with
  | none => sub.optimisticState = none
  | some confirmed =>
    sub.optimisticState.getD confirmed = replayPending reduce sub.pendingActions confirmed

variable {sub : Subscription S A} {reduce : S → A → S}

theorem rebased_of_none (hc : sub.confirmedState = none) (ho : sub.optimisticState = none) :
    sub.Rebased reduce := by
  simp only [Rebased, hc, ho]

theorem rebased_recomputeOptimistic (reduce : S → A → S) (sub : Subscription S A) :
    (sub.recomputeOptimistic reduce).Rebased reduce := by
  unfold Rebased recomputeOptimistic
  cases hc : sub.confirmedState with
  | none => rfl
  | some confirmed =>
    by_cases hp : sub.pendingActions.isEmpty = true
    · simp only [hp, if_true, Option.getD_none]
      rw [isEmpty_iff.mp hp]
      rfl
    · simp only [hp, if_false, Option.getD_some, false_eq_true]

theorem value_of_rebased {confirmed : S} (hr : sub.Rebased reduce)
    (hc : sub.verifiedValue = some confirmed) (he : sub.error = none) :
    sub.value = some (.ok (replayPending reduce sub.pendingActions confirmed)) := by
  have hc' : sub.confirmedState = some confirmed := hc
  simp only [Rebased, hc'] at hr
  simp only [value, he, hc', ← hr]
  cases sub.optimisticState <;> rfl

end Subscription

/-! ## The effect on the confirmed state and the pending list -/

open Subscription

def pendingAfter (promotes : A → A → Bool) (sub : Subscription S A) (e : ActionEnvelope A) :
    List (PendingAction A) :=
  match e.namedSeq sub.clientId with
  | some n => sub.pendingActions.eraseP fun p => p.clientSeq = n
  | none =>
    if e.isRejected then sub.pendingActions
    else sub.pendingActions.eraseP fun p => promotes e.action p.action

theorem pendingAfter_sublist (promotes : A → A → Bool) (sub : Subscription S A)
    (e : ActionEnvelope A) : (pendingAfter promotes sub e).Sublist sub.pendingActions := by
  unfold pendingAfter
  split
  · exact eraseP_sublist
  · split
    · exact List.Sublist.refl _
    · exact eraseP_sublist

variable {n : Nat}

theorem filter_eq_eraseP_of_nodup {pending : List (PendingAction A)}
    (hn : (pending.map (·.clientSeq)).Nodup) :
    (pending.filter fun p => p.clientSeq ≠ n) = pending.eraseP fun p => p.clientSeq = n := by
  induction pending with
  | nil => rfl
  | cons p rest ih =>
    rw [map_cons, nodup_cons] at hn
    by_cases hp : p.clientSeq = n
    · rw [filter_cons_of_neg (by simpa using hp), eraseP_cons_of_pos (by simpa using hp)]
      apply filter_eq_self.mpr
      intro q hq
      have : q.clientSeq ≠ p.clientSeq := fun h => hn.1 (h ▸ mem_map_of_mem hq)
      simpa [hp] using this
    · rw [filter_cons_of_pos (by simpa using hp), eraseP_cons_of_neg (by simpa using hp), ih hn.2]

def answersPending (sub : Subscription S A) (e : ActionEnvelope A) : Bool :=
  match e.namedSeq sub.clientId with
  | some n => sub.hasPending n
  | none => false

def applies (guarded : Bool) (sub : Subscription S A) (e : ActionEnvelope A) : Bool :=
  !e.isRejected || !(guarded || answersPending sub e)

def SameFrame (sub sub' : Subscription S A) : Prop :=
  sub'.clientId = sub.clientId ∧ sub'.uri = sub.uri ∧ sub'.error = sub.error ∧
    sub'.bufferedEnvelopes = sub.bufferedEnvelopes

/-- The effect of `_reconcile` of one class. `start` is the confirmed state the
action of the envelope is applied to. -/
structure ReconcileSpec (cls : SubscriptionClass S A) (guarded : Bool)
    (promotes : A → A → Bool) (start : Subscription S A → ActionEnvelope A → S → S) : Prop where
  pending : ∀ sub e, (cls.reconcile sub e).pendingActions = pendingAfter promotes sub e
  confirmed : ∀ sub e, (cls.reconcile sub e).confirmedState =
    if applies guarded sub e then
      sub.confirmedState.map fun s => cls.applyReducer (start sub e s) e.action
    else sub.confirmedState
  rebased : ∀ sub e, (cls.reconcile sub e).Rebased cls.applyReducer
  frame : ∀ sub e, SameFrame sub (cls.reconcile sub e)

/-! ## The shared shape -/

theorem reconcileWith_eq (reduce : S → A → S)
    (onUnmatched onForeign : Subscription S A → ActionEnvelope A → Subscription S A)
    (sub : Subscription S A) (e : ActionEnvelope A) :
    reconcileWith reduce onUnmatched onForeign sub e =
      (match e.namedSeq sub.clientId with
        | some n =>
          if sub.hasPending n then (sub.guardedApply reduce e).dropPendingByClientSeq n
          else onUnmatched sub e
        | none => onForeign sub e).recomputeOptimistic reduce := by
  unfold reconcileWith namedSeq isOwn
  cases horigin : e.origin with
  | none => rfl
  | some origin =>
    by_cases hown : origin.clientId = sub.clientId
    · simp [hown]
    · simp [hown]

theorem eraseP_eq_self_of_not_hasPending {sub : Subscription S A} (h : sub.hasPending n = false) :
    sub.pendingActions.eraseP (fun p => p.clientSeq = n) = sub.pendingActions := by
  apply eraseP_of_forall_not
  intro p hp
  have := any_eq_false.mp h p hp
  simpa using this

theorem guardedApply_pendingActions (reduce : S → A → S) (sub : Subscription S A)
    (e : ActionEnvelope A) : (sub.guardedApply reduce e).pendingActions = sub.pendingActions := by
  unfold guardedApply
  split <;> rfl

theorem guardedApply_confirmedState (reduce : S → A → S) (sub : Subscription S A)
    (e : ActionEnvelope A) : (sub.guardedApply reduce e).confirmedState =
      if e.isRejected then sub.confirmedState
      else sub.confirmedState.map fun s => reduce s e.action := by
  unfold guardedApply
  split <;> rfl

theorem guardedApply_frame (reduce : S → A → S) (sub : Subscription S A)
    (e : ActionEnvelope A) : SameFrame sub (sub.guardedApply reduce e) := by
  unfold guardedApply
  split <;> exact ⟨rfl, rfl, rfl, rfl⟩

theorem reconcileWith_frame {reduce : S → A → S}
    {onUnmatched onForeign : Subscription S A → ActionEnvelope A → Subscription S A}
    (hu : ∀ sub e, SameFrame sub (onUnmatched sub e))
    (hf : ∀ sub e, SameFrame sub (onForeign sub e)) (sub : Subscription S A) (e : ActionEnvelope A) :
    SameFrame sub (reconcileWith reduce onUnmatched onForeign sub e) := by
  rw [reconcileWith_eq]
  unfold SameFrame
  simp only [recomputeOptimistic_clientId, recomputeOptimistic_uri, recomputeOptimistic_error,
    recomputeOptimistic_bufferedEnvelopes]
  cases e.namedSeq sub.clientId with
  | none => exact hf sub e
  | some n =>
    by_cases hp : sub.hasPending n = true
    · simp only [hp, if_true]
      exact guardedApply_frame reduce sub e
    · simp only [hp, if_false, false_eq_true]
      exact hu sub e

theorem rebased_reconcileWith (reduce : S → A → S)
    (onUnmatched onForeign : Subscription S A → ActionEnvelope A → Subscription S A)
    (sub : Subscription S A) (e : ActionEnvelope A) :
    (reconcileWith reduce onUnmatched onForeign sub e).Rebased reduce :=
  rebased_recomputeOptimistic reduce _

/-! ## Receiving -/

variable (cls : SubscriptionClass S A)

theorem receive_unhydrated {sub : Subscription S A} (h : sub.confirmedState = none)
    (e : ActionEnvelope A) :
    cls.receive sub e = { sub with bufferedEnvelopes := sub.bufferedEnvelopes ++ [e] } := by
  unfold SubscriptionClass.receive
  split
  · rfl
  · rename_i hsome
    rw [h] at hsome
    cases hsome

theorem receive_hydrated {sub : Subscription S A} {state : S}
    (h : sub.confirmedState = some state) (e : ActionEnvelope A) :
    cls.receive sub e = cls.reconcile sub e := by
  unfold SubscriptionClass.receive
  rw [h]

/-! ## The classes without promotion -/

def noPromotion (_ _ : A) : Bool := false

def fromConfirmed (_ : Subscription S A) (_ : ActionEnvelope A) (s : S) : S := s

theorem pendingAfter_noPromotion_none {sub : Subscription S A} {e : ActionEnvelope A}
    (h : e.namedSeq sub.clientId = none) : pendingAfter noPromotion sub e = sub.pendingActions := by
  simp only [pendingAfter, h]
  split
  · rfl
  · apply eraseP_of_forall_not
    simp [noPromotion]

variable {fallback : Subscription S A → ActionEnvelope A → Subscription S A}

theorem reconcileWith_pending {reduce : S → A → S}
    (hp : ∀ sub e, (fallback sub e).pendingActions = sub.pendingActions) (sub : Subscription S A)
    (e : ActionEnvelope A) :
    (reconcileWith reduce fallback fallback sub e).pendingActions =
      pendingAfter noPromotion sub e := by
  rw [reconcileWith_eq, recomputeOptimistic_pendingActions]
  cases hn : e.namedSeq sub.clientId with
  | none =>
    rw [pendingAfter_noPromotion_none hn]
    exact hp sub e
  | some n =>
    simp only [pendingAfter, hn]
    by_cases hpend : sub.hasPending n = true
    · simp only [hpend, if_true, dropPendingByClientSeq, guardedApply_pendingActions]
    · simp only [hpend, if_false, false_eq_true]
      rw [hp, eraseP_eq_self_of_not_hasPending (by simpa using hpend)]

theorem reconcileWith_confirmed {reduce : S → A → S} {guarded : Bool}
    (hc : ∀ sub e, (fallback sub e).confirmedState =
      if e.isRejected && guarded then sub.confirmedState
      else sub.confirmedState.map fun s => reduce s e.action) (sub : Subscription S A)
    (e : ActionEnvelope A) :
    (reconcileWith reduce fallback fallback sub e).confirmedState =
      if applies guarded sub e then sub.confirmedState.map fun s => reduce s e.action
      else sub.confirmedState := by
  rw [reconcileWith_eq, recomputeOptimistic_confirmedState]
  unfold applies answersPending
  cases hn : e.namedSeq sub.clientId with
  | none =>
    simp only [hc]
    cases e.isRejected <;> cases guarded <;> rfl
  | some n =>
    by_cases hpend : sub.hasPending n = true
    · simp only [hpend, if_true, dropPendingByClientSeq, guardedApply_confirmedState]
      cases e.isRejected <;> cases guarded <;> rfl
    · simp only [hpend, if_false, false_eq_true, hc]
      cases e.isRejected <;> cases guarded <;> rfl

theorem guardedApply_confirmed_eq (reduce : S → A → S) (sub : Subscription S A)
    (e : ActionEnvelope A) : (sub.guardedApply reduce e).confirmedState =
      if e.isRejected && true then sub.confirmedState
      else sub.confirmedState.map fun s => reduce s e.action := by
  rw [guardedApply_confirmedState, Bool.and_true]

theorem unguardedApply_confirmed_eq (reduce : S → A → S) (sub : Subscription S A)
    (e : ActionEnvelope A) : (sub.unguardedApply reduce e).confirmedState =
      if e.isRejected && false then sub.confirmedState
      else sub.confirmedState.map fun s => reduce s e.action := by
  rw [Bool.and_false]
  rfl

theorem session_reconcileSpec :
    ReconcileSpec SessionStateSubscription.cls true noPromotion fromConfirmed where
  pending := reconcileWith_pending (guardedApply_pendingActions sessionReducer)
  confirmed := reconcileWith_confirmed (guardedApply_confirmed_eq sessionReducer)
  rebased := rebased_reconcileWith sessionReducer _ _
  frame := reconcileWith_frame (guardedApply_frame _) (guardedApply_frame _)

theorem changeset_reconcileSpec :
    ReconcileSpec ChangesetStateSubscription.cls false noPromotion fromConfirmed where
  pending := reconcileWith_pending fun _ _ => rfl
  confirmed := reconcileWith_confirmed (unguardedApply_confirmed_eq changesetReducer)
  rebased := rebased_reconcileWith changesetReducer _ _
  frame := reconcileWith_frame (fun _ _ => ⟨rfl, rfl, rfl, rfl⟩) fun _ _ => ⟨rfl, rfl, rfl, rfl⟩

theorem annotations_reconcileSpec :
    ReconcileSpec AnnotationsStateSubscription.cls false noPromotion fromConfirmed where
  pending := reconcileWith_pending fun _ _ => rfl
  confirmed := reconcileWith_confirmed (unguardedApply_confirmed_eq annotationsReducer)
  rebased := rebased_reconcileWith annotationsReducer _ _
  frame := reconcileWith_frame (fun _ _ => ⟨rfl, rfl, rfl, rfl⟩) fun _ _ => ⟨rfl, rfl, rfl, rfl⟩

/-! ## The chat class -/

namespace ChatStateSubscription

def promotes (terminal pending : ChatAction) : Bool :=
  match terminalTurn? terminal with
  | none => false
  | some turnId => startsTurn turnId pending

def promotedState (sub : Subscription ChatState ChatAction) (e : ActionEnvelope ChatAction)
    (state : ChatState) : ChatState :=
  match e.namedSeq sub.clientId, terminalTurn? e.action with
  | none, some turnId =>
    match sub.pendingActions.find? fun p => startsTurn turnId p.action with
    | none => state
    | some pending =>
      if state.activeTurn.map (·.id) = some turnId then state
      else chatReducer state pending.action
  | _, _ => state

theorem promote_pendingActions (sub : Subscription ChatState ChatAction) (action : ChatAction) :
    (promotePendingTurnStartIfTerminal sub action).pendingActions =
      sub.pendingActions.eraseP fun p => promotes action p.action := by
  unfold promotePendingTurnStartIfTerminal promotes
  cases ht : terminalTurn? action with
  | none =>
    symm
    apply eraseP_of_forall_not
    simp
  | some turnId =>
    simp only
    cases hf : sub.pendingActions.find? fun p => startsTurn turnId p.action with
    | none =>
      symm
      apply List.eraseP_of_forall_not
      intro p hp
      simpa using List.find?_eq_none.mp hf p hp
    | some pending => rfl

theorem onForeign_pendingActions (sub : Subscription ChatState ChatAction)
    (e : ActionEnvelope ChatAction) :
    (onForeign sub e).pendingActions =
      if e.isRejected then sub.pendingActions
      else sub.pendingActions.eraseP fun p => promotes e.action p.action := by
  unfold onForeign
  split
  · rfl
  · exact promote_pendingActions sub e.action

theorem promote_confirmedState (sub : Subscription ChatState ChatAction)
    (e : ActionEnvelope ChatAction) (hforeign : e.namedSeq sub.clientId = none) :
    (promotePendingTurnStartIfTerminal sub e.action).confirmedState =
      sub.confirmedState.map (promotedState sub e) := by
  unfold promotePendingTurnStartIfTerminal promotedState
  rw [hforeign]
  cases terminalTurn? e.action with
  | none => simp
  | some turnId =>
    simp only
    cases sub.pendingActions.find? fun p => startsTurn turnId p.action with
    | none => simp
    | some pending => rfl

theorem onForeign_frame (sub : Subscription ChatState ChatAction)
    (e : ActionEnvelope ChatAction) : SameFrame sub (onForeign sub e) := by
  unfold onForeign promotePendingTurnStartIfTerminal
  split
  · exact ⟨rfl, rfl, rfl, rfl⟩
  · split
    · exact ⟨rfl, rfl, rfl, rfl⟩
    · split <;> exact ⟨rfl, rfl, rfl, rfl⟩

theorem reconcile_pending (sub : Subscription ChatState ChatAction) (e : ActionEnvelope ChatAction) :
    (reconcile sub e).pendingActions = pendingAfter promotes sub e := by
  unfold reconcile
  rw [reconcileWith_eq, recomputeOptimistic_pendingActions]
  cases hn : e.namedSeq sub.clientId with
  | none =>
    simp only [pendingAfter, hn]
    exact onForeign_pendingActions sub e
  | some n =>
    simp only [pendingAfter, hn]
    by_cases hpend : sub.hasPending n = true
    · simp only [hpend, if_true, dropPendingByClientSeq, guardedApply_pendingActions]
    · simp only [hpend, if_false, false_eq_true, guardedApply_pendingActions]
      rw [eraseP_eq_self_of_not_hasPending (by simpa using hpend)]

theorem promotedState_of_named {sub : Subscription ChatState ChatAction}
    {e : ActionEnvelope ChatAction} (h : e.namedSeq sub.clientId = some n) (s : ChatState) :
    promotedState sub e s = s := by
  simp only [promotedState, h]

theorem reconcile_confirmed (sub : Subscription ChatState ChatAction)
    (e : ActionEnvelope ChatAction) :
    (reconcile sub e).confirmedState =
      if applies true sub e then
        sub.confirmedState.map fun s => chatReducer (promotedState sub e s) e.action
      else sub.confirmedState := by
  unfold reconcile
  rw [reconcileWith_eq, recomputeOptimistic_confirmedState]
  unfold applies answersPending
  cases hn : e.namedSeq sub.clientId with
  | none =>
    simp only [onForeign]
    cases e.isRejected
    · simp only [confirmedApply, promote_confirmedState sub e hn, Option.map_map]
      rfl
    · rfl
  | some n =>
    simp only [promotedState_of_named hn]
    by_cases hpend : sub.hasPending n = true
    · simp only [hpend, if_true, dropPendingByClientSeq, guardedApply_confirmedState]
      cases e.isRejected <;> rfl
    · simp only [hpend, if_false, false_eq_true, guardedApply_confirmedState]
      cases e.isRejected <;> rfl

end ChatStateSubscription

theorem chat_reconcileSpec : ReconcileSpec ChatStateSubscription.cls true
    ChatStateSubscription.promotes ChatStateSubscription.promotedState where
  pending := ChatStateSubscription.reconcile_pending
  confirmed := ChatStateSubscription.reconcile_confirmed
  rebased := rebased_reconcileWith chatReducer _ _
  frame := reconcileWith_frame (guardedApply_frame _) ChatStateSubscription.onForeign_frame

/-! ## The four classes at once -/

namespace WriteAheadKind

/-- Whether the class leaves every rejected envelope unapplied. -/
def guarded : WriteAheadKind → Bool
  | session => true
  | chat => true
  | changeset => false
  | annotations => false

def promotes : (k : WriteAheadKind) → k.Action → k.Action → Bool
  | session => noPromotion
  | chat => ChatStateSubscription.promotes
  | changeset => noPromotion
  | annotations => noPromotion

def start : (k : WriteAheadKind) →
    Subscription k.State k.Action → ActionEnvelope k.Action → k.State → k.State
  | session => fromConfirmed
  | chat => ChatStateSubscription.promotedState
  | changeset => fromConfirmed
  | annotations => fromConfirmed

theorem reconcileSpec : (k : WriteAheadKind) → ReconcileSpec k.cls k.guarded k.promotes k.start
  | session => session_reconcileSpec
  | chat => chat_reconcileSpec
  | changeset => changeset_reconcileSpec
  | annotations => annotations_reconcileSpec

end WriteAheadKind

end Fumie.AgentHost
