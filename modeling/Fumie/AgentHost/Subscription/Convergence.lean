import Fumie.AgentHost.Subscription.Rebase

/-!
# A chat subscription converges to the server's log

The server's log of a chat is a list of envelopes in `serverSeq` order, and its
state is the fold of `chatReducer` over the log. The client receives the log in
order, dispatches actions of its own in between, and once receives a snapshot:
the fold of the log up to `fromSeq`.

`converges` shows that the verified value ends as the fold of the whole log, if
two things hold. The envelopes a snapshot covers come before it (`coversPast`):
nothing drops them later. And a foreign terminal action finds its turn active, or
finds no own start of that turn still pending (`calm`): otherwise the promotion
of the pending start applies an action the log does not have at that place.

The proof follows the order in which envelopes are reconciled. Its invariant,
`InStep`, relates the subscription to the part of the log reconciled so far.
-/

namespace Fumie.AgentHost

open Fumie.Lib Subscription ChatStateSubscription List

abbrev ChatSubscription := Subscription ChatState ChatAction
abbrev ChatEnvelope := ActionEnvelope ChatAction

/-! ## Runs -/

/-- What happens at the client: an own action is dispatched, or the next envelope
of the log is delivered. -/
inductive ChatEvent where
  | dispatch (pending : PendingAction ChatAction)
  | deliver (envelope : ChatEnvelope)

namespace ChatEvent

def run (sub : ChatSubscription) : ChatEvent → ChatSubscription
  | .dispatch p => sub.applyOptimistic chatReducer p.clientSeq p.action
  | .deliver e => cls.receiveEnvelope sub (e.map .chat)

def delivered? : ChatEvent → Option ChatEnvelope
  | .deliver e => some e
  | .dispatch _ => none

def dispatched? : ChatEvent → Option (PendingAction ChatAction)
  | .dispatch p => some p
  | .deliver _ => none

end ChatEvent

def deliveries (events : List ChatEvent) : List ChatEnvelope :=
  events.filterMap ChatEvent.delivered?

def dispatches (events : List ChatEvent) : List (PendingAction ChatAction) :=
  events.filterMap ChatEvent.dispatched?

def foldLog (init : ChatState) (log : List ChatEnvelope) : ChatState :=
  log.foldl (fun state e => chatReducer state e.action) init

structure ChatRun where
  clientId : ClientId
  uri : Uri
  init : ChatState
  before : List ChatEvent
  fromSeq : Nat
  after : List ChatEvent

namespace ChatRun

section

variable (r : ChatRun)

def events : List ChatEvent := r.before ++ r.after

def log : List ChatEnvelope := deliveries r.events

def snapshot : ChatState := foldLog r.init (r.log.filter fun e => e.serverSeq ≤ r.fromSeq)

def waiting : ChatSubscription := r.before.foldl ChatEvent.run (.create r.clientId r.uri)

def final : ChatSubscription :=
  r.after.foldl ChatEvent.run (cls.handleSnapshot r.waiting r.snapshot r.fromSeq)

end

structure Served (r : ChatRun) : Prop where
  increasing : r.log.Pairwise fun e e' => e.serverSeq < e'.serverSeq
  accepted : ∀ e ∈ r.log, e.rejectionReason = none
  onChannel : ∀ e ∈ r.log, e.channel = r.uri
  allocated : (dispatches r.events).Pairwise fun p p' => p.clientSeq < p'.clientSeq
  echoed : ∀ past e future, r.events = past ++ .deliver e :: future →
    ∀ n, e.namedSeq r.clientId = some n →
      { clientSeq := n, action := e.action } ∈ dispatches past

def CoversPast (r : ChatRun) : Prop := ∀ e ∈ deliveries r.after, r.fromSeq < e.serverSeq

/-- A foreign terminal action past the snapshot ends the turn that is active in
the log, unless every own start of its turn was echoed before it. -/
def Calm (r : ChatRun) : Prop :=
  ∀ past e future, r.log = past ++ e :: future → r.fromSeq < e.serverSeq →
    e.namedSeq r.clientId = none → ∀ turnId, terminalTurn? e.action = some turnId →
    (foldLog r.init past).activeTurn.map (·.id) = some turnId ∨
    ∀ p ∈ dispatches r.events, startsTurn turnId p.action →
      ∃ echo ∈ past, r.fromSeq < echo.serverSeq ∧ echo.namedSeq r.clientId = some p.clientSeq

def Echoed (r : ChatRun) (q : ChatEnvelope → Prop) (n : Nat) : Prop :=
  ∃ e ∈ r.log, q e ∧ e.namedSeq r.clientId = some n

structure Converges (r : ChatRun) (q : ChatEnvelope → Prop) : Prop where
  verified : r.final.verifiedValue = some (foldLog r.init r.log)
  pending : ∀ p ∈ r.final.pendingActions, ¬ r.Echoed q p.clientSeq
  value : (∀ p ∈ dispatches r.events, r.Echoed q p.clientSeq) →
    r.final.value = r.final.verifiedValue.map .ok

end ChatRun

/-! ## Logs and events -/

theorem foldLog_append (init : ChatState) (log log' : List ChatEnvelope) :
    foldLog init (log ++ log') = foldLog (foldLog init log) log' := foldl_append

variable (events : List ChatEvent)

theorem deliveries_append (events' : List ChatEvent) :
    deliveries (events ++ events') = deliveries events ++ deliveries events' :=
  filterMap_append

theorem dispatches_append (events' : List ChatEvent) :
    dispatches (events ++ events') = dispatches events ++ dispatches events' :=
  filterMap_append

@[simp] theorem deliveries_deliver (e : ChatEnvelope) (events : List ChatEvent) :
    deliveries (.deliver e :: events) = e :: deliveries events := rfl

@[simp] theorem deliveries_dispatch (p : PendingAction ChatAction) (events : List ChatEvent) :
    deliveries (.dispatch p :: events) = deliveries events := rfl

@[simp] theorem dispatches_deliver (e : ChatEnvelope) (events : List ChatEvent) :
    dispatches (.deliver e :: events) = dispatches events := rfl

@[simp] theorem dispatches_dispatch (p : PendingAction ChatAction) (events : List ChatEvent) :
    dispatches (.dispatch p :: events) = p :: dispatches events := rfl

@[simp] theorem deliveries_map_deliver (log : List ChatEnvelope) :
    deliveries (log.map .deliver) = log := by
  induction log with
  | nil => rfl
  | cons e rest ih =>
    rw [map_cons, deliveries_deliver, ih]

@[simp] theorem dispatches_map_deliver (log : List ChatEnvelope) :
    dispatches (log.map .deliver) = [] := by
  induction log with
  | nil => rfl
  | cons e rest ih => exact ih

variable {e : ChatEnvelope} {events : List ChatEvent}

theorem mem_deliveries :
    e ∈ deliveries events ↔ ∃ past future, events = past ++ .deliver e :: future := by
  constructor
  · intro h
    obtain ⟨event, hmem, hevent⟩ := mem_filterMap.mp h
    cases event with
    | dispatch p => cases hevent
    | deliver e' =>
      cases hevent
      exact append_of_mem hmem
  · rintro ⟨past, future, rfl⟩
    rw [deliveries_append]
    exact mem_append_right _ mem_cons_self

theorem split_at_seq {log : List ChatEnvelope}
    (h : log.Pairwise fun e e' => e.serverSeq < e'.serverSeq) (n : Nat) :
    log = (log.filter fun e => e.serverSeq ≤ n) ++ log.filter fun e => n < e.serverSeq := by
  induction log with
  | nil => rfl
  | cons e rest ih =>
    rw [pairwise_cons] at h
    by_cases he : e.serverSeq ≤ n
    · rw [filter_cons_of_pos (by simpa using he),
        filter_cons_of_neg (by simpa using he), cons_append, ← ih h.2]
    · have hlater : ∀ e' ∈ rest, n < e'.serverSeq := by
        intro e' he'
        have := h.1 e' he'
        omega
      have hnone : (rest.filter fun e => e.serverSeq ≤ n) = [] := by
        apply filter_eq_nil_iff.mpr
        intro e' he'
        have := hlater e' he'
        simp only [decide_eq_true_eq]
        omega
      have hall : (rest.filter fun e => n < e.serverSeq) = rest := by
        apply filter_eq_self.mpr
        intro e' he'
        simpa using hlater e' he'
      rw [filter_cons_of_neg (by simpa using he), hnone,
        filter_cons_of_pos (by simp; omega), hall, nil_append]

/-! ## Before the snapshot -/

theorem run_deliver {sub : ChatSubscription} (h : e.channel = sub.uri) :
    ChatEvent.run sub (.deliver e) = cls.receive sub e := by
  have hrelevant : cls.relevant sub (e.map .chat) = some e := if_pos h
  show cls.receiveEnvelope sub (e.map .chat) = cls.receive sub e
  unfold SubscriptionClass.receiveEnvelope
  rw [hrelevant]

/-- Without a snapshot, envelopes wait and actions stay pending. -/
structure Unhydrated (sub : ChatSubscription) (clientId : ClientId) (uri : Uri)
    (events : List ChatEvent) : Prop where
  client : sub.clientId = clientId
  channel : sub.uri = uri
  confirmed : sub.confirmedState = none
  optimistic : sub.optimisticState = none
  buffered : sub.bufferedEnvelopes = deliveries events
  pending : sub.pendingActions = dispatches events

theorem unhydrated_run {sub : ChatSubscription} {clientId : ClientId} {uri : Uri}
    {past : List ChatEvent} (h : Unhydrated sub clientId uri past) (events : List ChatEvent)
    (hchannel : ∀ e ∈ deliveries events, e.channel = uri) :
    Unhydrated (events.foldl ChatEvent.run sub) clientId uri (past ++ events) := by
  induction events generalizing sub past with
  | nil =>
    rw [append_nil]
    exact h
  | cons event rest ih =>
    rw [foldl_cons, append_cons]
    apply ih
    · cases event with
      | dispatch p =>
        refine ⟨h.client, h.channel, h.confirmed, ?_, ?_, ?_⟩
        · simp [ChatEvent.run, applyOptimistic, h.optimistic, h.confirmed]
        · rw [deliveries_append]
          exact h.buffered.trans (append_nil _).symm
        · rw [dispatches_append]
          show sub.pendingActions ++ [p] = _
          rw [h.pending]
          rfl
      | deliver e =>
        rw [run_deliver ((hchannel e mem_cons_self).trans h.channel.symm),
          receive_unhydrated _ h.confirmed]
        refine ⟨h.client, h.channel, h.confirmed, h.optimistic, ?_, ?_⟩
        · rw [deliveries_append, ← h.buffered]
          rfl
        · rw [dispatches_append]
          exact h.pending.trans (append_nil _).symm
    · intro e he
      apply hchannel e
      cases event with
      | dispatch p => exact he
      | deliver e' => exact mem_cons_of_mem _ he

/-! ## After the snapshot -/

def CalmAt (init : ChatState) (clientId : ClientId) (fromSeq : Nat)
    (sent : List (PendingAction ChatAction)) (past : List ChatEnvelope) (e : ChatEnvelope) :
    Prop :=
  e.namedSeq clientId = none → ∀ turnId, terminalTurn? e.action = some turnId →
    (foldLog init past).activeTurn.map (·.id) = some turnId ∨
    ∀ p ∈ sent, startsTurn turnId p.action →
      ∃ echo ∈ past, fromSeq < echo.serverSeq ∧ echo.namedSeq clientId = some p.clientSeq

structure InStep (init : ChatState) (clientId : ClientId) (uri : Uri) (fromSeq : Nat)
    (past : List ChatEnvelope) (sent : List (PendingAction ChatAction))
    (sub : ChatSubscription) : Prop where
  client : sub.clientId = clientId
  channel : sub.uri = uri
  error : sub.error = none
  confirmed : sub.confirmedState = some (foldLog init past)
  pending : sub.pendingActions.Sublist sent
  settled : ∀ e ∈ past, fromSeq < e.serverSeq → ∀ n, e.namedSeq clientId = some n →
    sub.hasPending n = false

variable {n : Nat}

theorem hasPending_of_sublist {sub sub' : ChatSubscription}
    (hs : sub'.pendingActions.Sublist sub.pendingActions) (h : sub.hasPending n = false) :
    sub'.hasPending n = false := by
  apply any_eq_false.mpr
  intro p hp
  exact any_eq_false.mp h p (hs.subset hp)

theorem not_hasPending_erased {sub sub' : ChatSubscription}
    (hnodup : (sub.pendingActions.map (·.clientSeq)).Nodup)
    (h : sub'.pendingActions = sub.pendingActions.eraseP fun p => p.clientSeq = n) :
    sub'.hasPending n = false := by
  apply any_eq_false.mpr
  intro p hp
  rw [h, ← filter_eq_eraseP_of_nodup hnodup] at hp
  simpa using (mem_filter.mp hp).2

variable {p : PendingAction ChatAction}

section Step

variable {init : ChatState} {clientId : ClientId} {uri : Uri} {fromSeq : Nat}
  {past : List ChatEnvelope} {sent : List (PendingAction ChatAction)} {sub : ChatSubscription}

variable {all : List (PendingAction ChatAction)}

theorem promotedState_of_calm (h : InStep init clientId uri fromSeq past sent sub)
    (hall : sent ⊆ all) (hcalm : CalmAt init clientId fromSeq all past e) :
    promotedState sub e (foldLog init past) = foldLog init past := by
  unfold promotedState
  rw [h.client]
  cases hn : e.namedSeq clientId with
  | some n => rfl
  | none =>
    cases ht : terminalTurn? e.action with
    | none => rfl
    | some turnId =>
      simp only
      cases hf : sub.pendingActions.find? fun p => startsTurn turnId p.action with
      | none => rfl
      | some p =>
        rcases hcalm hn turnId ht with hactive | hechoed
        · exact if_pos hactive
        · have hp : p ∈ sub.pendingActions := mem_of_find?_eq_some hf
          have hstarts : startsTurn turnId p.action = true := by
            simpa using find?_some hf
          obtain ⟨echo, hecho, hseq, hnamed⟩ := hechoed p (hall (h.pending.subset hp)) hstarts
          have hnot := h.settled echo hecho hseq _ hnamed
          exact absurd (decide_eq_true rfl) (any_eq_false.mp hnot p hp)

theorem inStep_reconcile (h : InStep init clientId uri fromSeq past sent sub) (hall : sent ⊆ all)
    (hnodup : (sent.map (·.clientSeq)).Nodup) (haccepted : e.rejectionReason = none)
    (hcalm : CalmAt init clientId fromSeq all past e) :
    InStep init clientId uri fromSeq (past ++ [e]) sent (cls.reconcile sub e) := by
  have hspec := chat_reconcileSpec
  have hframe := hspec.frame sub e
  have hrejected : e.isRejected = false := by
    unfold ActionEnvelope.isRejected
    rw [haccepted]
  have hsub : (cls.reconcile sub e).pendingActions.Sublist sub.pendingActions := by
    rw [hspec.pending]
    exact pendingAfter_sublist promotes sub e
  refine ⟨hframe.1.trans h.client, hframe.2.1.trans h.channel, hframe.2.2.1.trans h.error, ?_,
    hsub.trans h.pending, ?_⟩
  · have happlies : applies true sub e = true := by
      simp only [applies, hrejected, Bool.not_false, Bool.true_or]
    rw [hspec.confirmed, happlies, if_pos rfl, h.confirmed, Option.map_some,
      promotedState_of_calm h hall hcalm, foldLog_append]
    rfl
  · intro e' he' hseq n hn
    rcases mem_append.mp he' with he' | he'
    · exact hasPending_of_sublist hsub (h.settled e' he' hseq n hn)
    · rw [mem_singleton.mp he'] at hn
      apply not_hasPending_erased (hnodup.sublist (h.pending.map _))
      rw [hspec.pending, pendingAfter, h.client, hn]

theorem inStep_dispatch (h : InStep init clientId uri fromSeq past sent sub)
    (hfresh : ∀ e ∈ past, ∀ n, e.namedSeq clientId = some n → n ≠ p.clientSeq) :
    InStep init clientId uri fromSeq past (sent ++ [p])
      (sub.applyOptimistic chatReducer p.clientSeq p.action) := by
  refine ⟨h.client, h.channel, h.error, h.confirmed, h.pending.append (List.Sublist.refl _), ?_⟩
  intro e he hseq n hn
  have hold := h.settled e he hseq n hn
  have hne := hfresh e he n hn
  simp only [hasPending, applyOptimistic, any_append, any_cons, any_nil,
    Bool.or_false, Bool.or_eq_false_iff, decide_eq_false_iff_not]
  exact ⟨hold, fun heq => hne heq.symm⟩

end Step

structure Upcoming (init : ChatState) (clientId : ClientId) (uri : Uri) (fromSeq : Nat)
    (all : List (PendingAction ChatAction)) (past : List ChatEnvelope)
    (sent : List (PendingAction ChatAction)) (events : List ChatEvent) : Prop where
  inRun : sent ++ dispatches events ⊆ all
  allocated : (sent ++ dispatches events).Pairwise fun p p' => p.clientSeq < p'.clientSeq
  echoed : ∀ e ∈ past, ∀ n, e.namedSeq clientId = some n → n ∈ sent.map (·.clientSeq)
  envelopes : ∀ events₁ e events₂, events = events₁ ++ .deliver e :: events₂ →
    e.channel = uri ∧ e.rejectionReason = none ∧
    CalmAt init clientId fromSeq all (past ++ deliveries events₁) e ∧
    ∀ n, e.namedSeq clientId = some n → n ∈ (sent ++ dispatches events₁).map (·.clientSeq)

variable {sent : List (PendingAction ChatAction)}

theorem nodup_of_allocated (h : sent.Pairwise fun p p' => p.clientSeq < p'.clientSeq) :
    (sent.map (·.clientSeq)).Nodup := by
  apply pairwise_map.mpr
  exact h.imp fun hlt => Nat.ne_of_lt hlt

variable {past : List ChatEnvelope}

theorem Upcoming.deliver {init : ChatState} {clientId : ClientId} {uri : Uri} {fromSeq : Nat}
    {all : List (PendingAction ChatAction)}
    (h : Upcoming init clientId uri fromSeq all past sent (.deliver e :: events)) :
    Upcoming init clientId uri fromSeq all (past ++ [e]) sent events where
  inRun := h.inRun
  allocated := h.allocated
  echoed := by
    intro e' he' n hn
    rcases mem_append.mp he' with he' | he'
    · exact h.echoed e' he' n hn
    · rw [mem_singleton.mp he'] at hn
      have := (h.envelopes [] e events rfl).2.2.2 n hn
      rwa [show dispatches [] = [] from rfl, append_nil] at this
  envelopes := by
    intro events₁ e' events₂ heq
    have := h.envelopes (.deliver e :: events₁) e' events₂ (by rw [heq]; rfl)
    rwa [deliveries_deliver, dispatches_deliver, append_cons] at this

theorem Upcoming.dispatch {init : ChatState} {clientId : ClientId} {uri : Uri} {fromSeq : Nat}
    {all : List (PendingAction ChatAction)}
    (h : Upcoming init clientId uri fromSeq all past sent (.dispatch p :: events)) :
    Upcoming init clientId uri fromSeq all past (sent ++ [p]) events where
  inRun := by
    rw [append_assoc]
    exact h.inRun
  allocated := by
    rw [append_assoc]
    exact h.allocated
  echoed := by
    intro e he n hn
    rw [map_append]
    exact mem_append_left _ (h.echoed e he n hn)
  envelopes := by
    intro events₁ e events₂ heq
    have := h.envelopes (.dispatch p :: events₁) e events₂ (by rw [heq]; rfl)
    rwa [deliveries_dispatch, dispatches_dispatch, append_cons] at this

section Run

variable {init : ChatState} {clientId : ClientId} {uri : Uri} {fromSeq : Nat}
  {all : List (PendingAction ChatAction)}

theorem Upcoming.inStep {sub : ChatSubscription}
    (hup : Upcoming init clientId uri fromSeq all past sent (.deliver e :: events))
    (h : InStep init clientId uri fromSeq past sent sub) :
    InStep init clientId uri fromSeq (past ++ [e]) sent (cls.reconcile sub e) := by
  obtain ⟨-, haccepted, hcalm, -⟩ := hup.envelopes [] e events rfl
  rw [show deliveries [] = [] from rfl, append_nil] at hcalm
  exact inStep_reconcile h (fun p hp => hup.inRun (mem_append_left _ hp))
    (nodup_of_allocated (pairwise_append.mp hup.allocated).1) haccepted hcalm

theorem inStep_replay (log : List ChatEnvelope) {past : List ChatEnvelope}
    {sent : List (PendingAction ChatAction)} {sub : ChatSubscription}
    (h : InStep init clientId uri fromSeq past sent sub)
    (hup : Upcoming init clientId uri fromSeq all past sent (log.map .deliver)) :
    InStep init clientId uri fromSeq (past ++ log) sent (log.foldl cls.reconcile sub) := by
  induction log generalizing past sub with
  | nil =>
    rw [append_nil]
    exact h
  | cons e rest ih =>
    rw [foldl_cons, append_cons]
    exact ih (hup.inStep h) hup.deliver

theorem inStep_run (events : List ChatEvent) {past : List ChatEnvelope}
    {sent : List (PendingAction ChatAction)} {sub : ChatSubscription}
    (h : InStep init clientId uri fromSeq past sent sub) (hr : sub.Rebased chatReducer)
    (hup : Upcoming init clientId uri fromSeq all past sent events) :
    InStep init clientId uri fromSeq (past ++ deliveries events) (sent ++ dispatches events)
        (events.foldl ChatEvent.run sub) ∧
      (events.foldl ChatEvent.run sub).Rebased chatReducer := by
  induction events generalizing past sent sub with
  | nil =>
    rw [show deliveries [] = [] from rfl, show dispatches [] = [] from rfl, append_nil, append_nil]
    exact ⟨h, hr⟩
  | cons event rest ih =>
    cases event with
    | deliver e =>
      have hchannel := (hup.envelopes [] e rest rfl).1
      have hreceive : ChatEvent.run sub (.deliver e) = cls.reconcile sub e := by
        rw [run_deliver (hchannel.trans h.channel.symm), receive_hydrated _ h.confirmed]
      rw [foldl_cons, hreceive, deliveries_deliver, dispatches_deliver, append_cons]
      exact ih (hup.inStep h) (chat_reconcileSpec.rebased sub e) hup.deliver
    | dispatch p =>
      rw [foldl_cons, deliveries_dispatch, dispatches_dispatch, append_cons sent]
      refine ih (inStep_dispatch h ?_) (rebased_applyOptimistic hr _ _) hup.dispatch
      intro e he n hn
      obtain ⟨q, hq, rfl⟩ := mem_map.mp (hup.echoed e he n hn)
      have := (pairwise_append.mp hup.allocated).2.2 q hq p mem_cons_self
      exact Nat.ne_of_lt this

end Run

/-! ## The whole run -/

namespace ChatRun

variable {r : ChatRun}

theorem log_eq (r : ChatRun) : r.log = deliveries r.before ++ deliveries r.after :=
  deliveries_append _ _

theorem snapshot_eq (hcovers : r.CoversPast) : r.snapshot =
      foldLog r.init ((deliveries r.before).filter fun e => e.serverSeq ≤ r.fromSeq) := by
  have hnone : ((deliveries r.after).filter fun e => e.serverSeq ≤ r.fromSeq) = [] := by
    apply filter_eq_nil_iff.mpr
    intro e he
    have := hcovers e he
    simp only [decide_eq_true_eq]
    omega
  rw [snapshot, log_eq, filter_append, hnone, append_nil]

theorem waiting_unhydrated (h : r.Served) : Unhydrated r.waiting r.clientId r.uri r.before := by
  have hinit : Unhydrated (.create r.clientId r.uri) r.clientId r.uri [] :=
    ⟨rfl, rfl, rfl, rfl, rfl, rfl⟩
  refine unhydrated_run hinit r.before ?_
  intro e he
  apply h.onChannel e
  rw [log_eq]
  exact mem_append_left _ he

variable {e : ChatEnvelope}

theorem echo_dispatched (h : r.Served) {past future : List ChatEvent}
    (hevents : r.events = past ++ .deliver e :: future) (hn : e.namedSeq r.clientId = some n) :
    n ∈ (dispatches past).map (·.clientSeq) :=
  mem_map_of_mem (h.echoed past e future hevents n hn)

theorem calmAt_of_calm (hcalm : r.Calm) {future : List ChatEnvelope}
    (hlog : r.log = past ++ e :: future) (hseq : r.fromSeq < e.serverSeq) :
    CalmAt r.init r.clientId r.fromSeq (dispatches r.events) past e :=
  fun hn turnId ht => hcalm past e future hlog hseq hn turnId ht

theorem echo_in_before (h : r.Served) (he : e ∈ deliveries r.before)
    (hn : e.namedSeq r.clientId = some n) : n ∈ (dispatches r.before).map (·.clientSeq) := by
  obtain ⟨past, future, hbefore⟩ := mem_deliveries.mp he
  have hevents : r.events = past ++ .deliver e :: (future ++ r.after) := by
    rw [events, hbefore, append_assoc, cons_append]
  have hpast := echo_dispatched h hevents hn
  rw [hbefore, dispatches_append, map_append]
  exact mem_append_left _ hpast

def covered (r : ChatRun) : List ChatEnvelope :=
  (deliveries r.before).filter fun e => e.serverSeq ≤ r.fromSeq

def replayed (r : ChatRun) : List ChatEnvelope :=
  (deliveries r.before).filter fun e => r.fromSeq < e.serverSeq

theorem deliveries_before_eq (h : r.Served) : deliveries r.before = r.covered ++ r.replayed := by
  have hincreasing := h.increasing
  rw [log_eq] at hincreasing
  exact split_at_seq (pairwise_append.mp hincreasing).1 r.fromSeq

theorem upcoming_replayed (h : r.Served) (hcalm : r.Calm) :
    Upcoming r.init r.clientId r.uri r.fromSeq (dispatches r.events) r.covered
      (dispatches r.before) (r.replayed.map .deliver) where
  inRun := by
    rw [dispatches_map_deliver, append_nil, events, dispatches_append]
    exact subset_append_left _ _
  allocated := by
    have := h.allocated
    rw [events, dispatches_append] at this
    rw [dispatches_map_deliver, append_nil]
    exact (pairwise_append.mp this).1
  echoed := fun e he _ hn => echo_in_before h (mem_filter.mp he).1 hn
  envelopes := by
    intro events₁ e events₂ heq
    have hdeliveries := congrArg deliveries heq
    rw [deliveries_map_deliver, deliveries_append, deliveries_deliver] at hdeliveries
    have hreplayed : e ∈ r.replayed := by
      rw [hdeliveries]
      exact mem_append_right _ mem_cons_self
    obtain ⟨hbefore, hseq⟩ := mem_filter.mp hreplayed
    have hlog : r.log =
        (r.covered ++ deliveries events₁) ++ e :: (deliveries events₂ ++ deliveries r.after) := by
      rw [log_eq, deliveries_before_eq h, hdeliveries]
      simp only [append_assoc, cons_append]
    have hmem : e ∈ r.log := by
      rw [log_eq]
      exact mem_append_left _ hbefore
    refine ⟨h.onChannel e hmem, h.accepted e hmem,
      calmAt_of_calm hcalm hlog (by simpa using hseq), ?_⟩
    intro n hn
    rw [map_append]
    exact mem_append_left _ (echo_in_before h hbefore hn)

theorem upcoming_after (h : r.Served) (hcovers : r.CoversPast) (hcalm : r.Calm) :
    Upcoming r.init r.clientId r.uri r.fromSeq (dispatches r.events) (deliveries r.before)
      (dispatches r.before) r.after where
  inRun := by
    rw [events, dispatches_append]
    exact List.Subset.refl _
  allocated := by
    have := h.allocated
    rwa [events, dispatches_append] at this
  echoed := fun e he _ hn => echo_in_before h he hn
  envelopes := by
    intro events₁ e events₂ heq
    have hevents : r.events = (r.before ++ events₁) ++ .deliver e :: events₂ := by
      rw [events, heq, append_assoc]
    have hmem : e ∈ deliveries r.after := mem_deliveries.mpr ⟨events₁, events₂, heq⟩
    have hlog : r.log = (deliveries r.before ++ deliveries events₁) ++ e :: deliveries events₂ := by
      rw [log, hevents, deliveries_append, deliveries_append, deliveries_deliver]
    have hmem' : e ∈ r.log := by
      rw [log_eq]
      exact mem_append_right _ hmem
    refine ⟨h.onChannel e hmem', h.accepted e hmem', calmAt_of_calm hcalm hlog (hcovers e hmem), ?_⟩
    intro n hn
    have := echo_dispatched h hevents hn
    rwa [dispatches_append] at this

theorem inStep_snapshot (h : r.Served) (hcovers : r.CoversPast) (hcalm : r.Calm) :
    InStep r.init r.clientId r.uri r.fromSeq (deliveries r.before) (dispatches r.before)
      (cls.handleSnapshot r.waiting r.snapshot r.fromSeq) := by
  have hwaiting := waiting_unhydrated h
  have hstart : InStep r.init r.clientId r.uri r.fromSeq r.covered (dispatches r.before)
      { r.waiting with
        confirmedState := some r.snapshot, error := none, bufferedEnvelopes := [] } := by
    refine ⟨hwaiting.client, hwaiting.channel, rfl, ?_, ?_, ?_⟩
    · rw [snapshot_eq hcovers]
      rfl
    · rw [hwaiting.pending]
    · intro e he hseq
      have := (mem_filter.mp he).2
      simp only [decide_eq_true_eq] at this
      omega
  have hreplay := inStep_replay r.replayed hstart (upcoming_replayed h hcalm)
  rw [← deliveries_before_eq h] at hreplay
  unfold SubscriptionClass.handleSnapshot SubscriptionClass.replayBuffered
  simp only [hwaiting.buffered]
  refine ⟨?_, ?_, ?_, ?_, ?_, ?_⟩
  · rw [recomputeOptimistic_clientId]
    exact hreplay.client
  · rw [recomputeOptimistic_uri]
    exact hreplay.channel
  · rw [recomputeOptimistic_error]
    exact hreplay.error
  · rw [recomputeOptimistic_confirmedState]
    exact hreplay.confirmed
  · rw [recomputeOptimistic_pendingActions]
    exact hreplay.pending
  · intro e he hseq n hn
    unfold hasPending
    rw [recomputeOptimistic_pendingActions]
    exact hreplay.settled e he hseq n hn

/-- The envelopes a snapshot covers come before it and foreign terminal actions
are calm: the client ends with the fold of the whole log, no action echoed past
the snapshot is pending and, when all actions are so echoed, the value is the
verified one. -/
theorem converges (r : ChatRun) (h : r.Served) (hcovers : r.CoversPast) (hcalm : r.Calm) :
    r.Converges fun e => r.fromSeq < e.serverSeq := by
  have hrun : InStep r.init r.clientId r.uri r.fromSeq r.log (dispatches r.events) r.final ∧
      r.final.Rebased chatReducer := by
    rw [log_eq, events, dispatches_append]
    exact inStep_run r.after (inStep_snapshot h hcovers hcalm)
      (rebased_recomputeOptimistic _ _) (upcoming_after h hcovers hcalm)
  obtain ⟨hstep, hrebased⟩ := hrun
  have hsettled : ∀ p ∈ r.final.pendingActions,
      ¬ r.Echoed (fun e => r.fromSeq < e.serverSeq) p.clientSeq := by
    rintro p hp ⟨e, he, hseq, hn⟩
    have := any_eq_false.mp (hstep.settled e he hseq _ hn) p hp
    exact this (decide_eq_true rfl)
  refine ⟨hstep.confirmed, hsettled, ?_⟩
  intro hall
  have hnil : r.final.pendingActions = [] := by
    apply eq_nil_iff_forall_not_mem.mpr
    intro p hp
    exact hsettled p hp (hall p (hstep.pending.subset hp))
  have hverified : r.final.verifiedValue = some (foldLog r.init r.log) := hstep.confirmed
  rw [value_of_rebased hrebased hverified hstep.error, hnil, hverified]
  rfl

/-! ## Fixed runs -/

def echoesDispatched (clientId : ClientId) (sent : List (PendingAction ChatAction)) :
    List ChatEvent → Bool
  | [] => true
  | .dispatch p :: rest => echoesDispatched clientId (sent ++ [p]) rest
  | .deliver e :: rest =>
    (match e.namedSeq clientId with
      | none => true
      | some n => { clientSeq := n, action := e.action } ∈ sent) &&
      echoesDispatched clientId sent rest

theorem echoed_of_check {clientId : ClientId} (sent : List (PendingAction ChatAction))
    {events : List ChatEvent} (h : echoesDispatched clientId sent events = true) :
    ∀ past e future, events = past ++ .deliver e :: future → ∀ n, e.namedSeq clientId = some n →
        { clientSeq := n, action := e.action } ∈ sent ++ dispatches past := by
  induction events generalizing sent with
  | nil =>
    intro past e future heq
    cases past <;> cases heq
  | cons event rest ih =>
    intro past e future heq n hn
    cases past with
    | nil =>
      obtain ⟨rfl, rfl⟩ := cons.inj heq
      unfold echoesDispatched at h
      rw [hn] at h
      simp only [Bool.and_eq_true, decide_eq_true_eq] at h
      exact mem_append_left _ h.1
    | cons event' past =>
      obtain ⟨rfl, htail⟩ := cons.inj heq
      cases event with
      | dispatch p =>
        have := ih _ h past e future htail n hn
        rwa [append_assoc] at this
      | deliver e' =>
        unfold echoesDispatched at h
        rw [Bool.and_eq_true] at h
        exact ih _ h.2 past e future htail n hn

def startTurn : ChatAction := .turnStarted "t" 0 default none

def startEcho (serverSeq : Nat) : ChatEnvelope :=
  { channel := .root, action := startTurn, serverSeq, origin := some ⟨"c", 1⟩,
    rejectionReason := none }

def hostEnvelope (action : ChatAction) (serverSeq : Nat) : ChatEnvelope :=
  { channel := .root, action, serverSeq, origin := none, rejectionReason := none }

def turnRun (fromSeq : Nat) (log : List ChatEnvelope) : ChatRun :=
  { clientId := "c", uri := .root, init := default, before := [], fromSeq
    after := .dispatch ⟨1, startTurn⟩ :: log.map .deliver }

/-- A turn start that is echoed and then ended by the host. -/
theorem converges_turn : (turnRun 0 [startEcho 1, hostEnvelope (.turnComplete "t" 5) 2]).Converges
      fun e => 0 < e.serverSeq := by
  refine converges _ ⟨by decide, by decide, by decide, by decide, ?_⟩ ?_ ?_
  · exact echoed_of_check [] rfl
  · intro e he
    revert e
    decide
  · intro past e future heq _ hn turnId ht
    have heq' : [startEcho 1, hostEnvelope (.turnComplete "t" 5) 2] = past ++ e :: future := heq
    rcases past with _ | ⟨a, _ | ⟨b, past⟩⟩
    · obtain ⟨rfl, -⟩ := cons.inj heq'
      cases ht
    · left
      obtain ⟨rfl, htail⟩ := cons.inj heq'
      obtain ⟨rfl, -⟩ := cons.inj htail
      exact ht
    · have hlength := congrArg length heq'
      simp at hlength

/-- A terminal action that comes before the echo of the pending start leaves an
extra turn; an envelope that comes after the snapshot that covers it is applied
twice. -/
theorem not_always_converges :
    (¬ ∀ r : ChatRun, r.Served → r.CoversPast → r.Converges fun _ => True) ∧
    ¬ ∀ r : ChatRun, r.Served → r.Calm → r.Converges fun _ => True := by
  constructor
  · intro hall
    have h := hall (turnRun 0 [hostEnvelope (.turnComplete "t" 5) 1, startEcho 2])
      ⟨by decide, by decide, by decide, by decide, echoed_of_check [] rfl⟩
      (by
        intro e he
        revert e
        decide)
    have hverified := h.verified
    revert hverified
    decide
  · intro hall
    have h := hall
      { clientId := "c", uri := .root, init := default, fromSeq := 2
        before := [.deliver (hostEnvelope startTurn 1)]
        after := [.deliver (hostEnvelope (.responsePart "t" default) 2)] }
      ⟨by decide, by decide, by decide, by decide, echoed_of_check [] rfl⟩
      (by
        intro past e future heq hseq
        have he : e ∈ [hostEnvelope startTurn 1, hostEnvelope (.responsePart "t" default) 2] := by
          rw [show [hostEnvelope startTurn 1, hostEnvelope (.responsePart "t" default) 2] =
            past ++ e :: future from heq]
          exact mem_append_right _ mem_cons_self
        intro _ turnId ht
        rcases mem_cons.mp he with rfl | he
        · cases ht
        · rw [mem_singleton.mp he] at ht
          cases ht)
    have hverified := h.verified
    revert hverified
    decide

end ChatRun

end Fumie.AgentHost
