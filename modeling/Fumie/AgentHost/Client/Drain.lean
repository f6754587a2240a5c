import Fumie.AgentHost.Client.ProtocolClient
import Fumie.AgentHost.Subscription.ManagerPending

/-!
# The drain after a reconnect

Every number the allocator gave stands for one action on one channel (`issued`).
An action waits in the outbox or was written before, never both, and the pending
actions of all subscriptions have numbers of their own. So what the drain writes,
the pending actions the outbox does not hold and then the outbox, names each
number once. What it does not write are the pending actions of changesets, which
the manager cannot list, unless they wait in the outbox.
-/

namespace Fumie.AgentHost

open Fumie.Lib List Function Record
open SubscriptionManager (ManagerEvent Held Carries Ok)

namespace ConnectionState

def outbox : ConnectionState → List ClientMessage
  | .connecting outbox => outbox
  | .reconnecting outbox _ => outbox
  | _ => []

def trying : ConnectionState → Bool
  | .reconnecting _ .idle => false
  | .reconnecting _ _ => true
  | _ => false

/-- The envelopes of a replay not applied yet. -/
def unread : ConnectionState → Option (List (ActionEnvelope StateAction))
  | .reconnecting _ (.applying actions _ _) => some actions
  | _ => none

end ConnectionState

variable {messages : List ClientMessage} {n : Nat} {action : StateAction} {attempt : Attempt}
  {clientId : ClientId}

namespace ProtocolClient

variable {c c' : ProtocolClient} {issued : Nat → Uri × StateAction} {max : Int}

def seqs (messages : List ClientMessage) : List Nat := messages.filterMap (·.clientSeq)

theorem mem_seqs :
    n ∈ seqs messages ↔ ∃ channel action, ClientMessage.dispatchAction channel n action ∈ messages := by
  unfold seqs
  rw [mem_filterMap]
  constructor
  · rintro ⟨message, hmem, hseq⟩
    cases message with
    | dispatchAction channel clientSeq action =>
      cases hseq
      exact ⟨channel, action, hmem⟩
    | unsubscribe channel => cases hseq
  · rintro ⟨channel, action, hmem⟩
    exact ⟨_, hmem, rfl⟩

theorem seqs_append (messages messages' : List ClientMessage) :
    seqs (messages ++ messages') = seqs messages ++ seqs messages' := filterMap_append

/-- The own actions of a replay applied so far wait nowhere. -/
def Gone (c : ProtocolClient) : Prop :=
  ∀ n ∈ c.echoed, n ≠ 0 → n ∈ seqs c.sent ∧
    ∀ resource id, c.manager.subscriptions.get resource = some id →
      (c.manager.entries id).sub.tracksPending = true →
      ∀ p ∈ (c.manager.entries id).sub.pendingActions, p.clientSeq ≠ n

structure ClientInv (max : Int) (issued : Nat → Uri × StateAction) (c : ProtocolClient) :
    Prop where
  ok : Ok max c.manager
  clientId : c.manager.clientId = c.clientId
  positive : 0 < c.nextClientSeq
  held : Held c.manager c.nextClientSeq
  pending : ∀ j, j < c.manager.nextEntry → ∀ p ∈ (c.manager.entries j).sub.pendingActions,
    issued p.clientSeq = (p.channel, p.action)
  messages : ∀ channel n action,
    ClientMessage.dispatchAction channel n action ∈ c.sent ++ c.state.outbox → n ≠ 0 →
    n < c.nextClientSeq ∧ issued n = (channel, action)
  outboxNodup : ((seqs c.state.outbox).filter (· ≠ 0)).Nodup
  outboxNew : ∀ n ∈ seqs c.state.outbox, n ≠ 0 → n ∉ seqs c.sent
  unwritten : c.state.trying → c.written = []
  unread : ∀ actions, c.state.unread = some actions → (∀ e ∈ actions, c.echoes e) ∧ c.Gone

/-! ## Building blocks -/

variable {m : SubscriptionManager}

theorem Gone.carries (h : c.Gone) (hok : Ok max m) (hm : Carries c.manager m) :
    ({ c with manager := m } : ProtocolClient).Gone := by
  intro n hn hpos
  obtain ⟨hsent, hfree⟩ := h n hn hpos
  refine ⟨hsent, fun resource id hget htracks p hp => ?_⟩
  obtain ⟨hlt, _⟩ := hok.inv.mapped resource id hget
  obtain ⟨hold, hp'⟩ := hm.pending hlt hp
  rcases hm.mapped resource id hget with hget' | hge
  · refine hfree resource id hget' ?_ p hp'
    rw [← (hm.old id hold).2.tracksPending]
    exact htracks
  · exact absurd hold (Nat.not_lt.mpr hge)

theorem ClientInv.carries (h : ClientInv max issued c) (hok : Ok max m) (hm : Carries c.manager m) :
    ClientInv max issued { c with manager := m } where
  ok := hok
  clientId := hm.clientId.trans h.clientId
  positive := h.positive
  held := h.held.carries hm
  pending j hj p hp := by
    obtain ⟨hold, hp'⟩ := hm.pending hj hp
    exact h.pending j hold p hp'
  messages := h.messages
  outboxNodup := h.outboxNodup
  outboxNew := h.outboxNew
  unwritten := h.unwritten
  unread actions ha := by
    obtain ⟨hechoes, hgone⟩ := h.unread actions ha
    exact ⟨hechoes, hgone.carries hok hm⟩

def Fresh (issued : Nat → Uri × StateAction) (c : ProtocolClient) (message : ClientMessage) :
    Prop :=
  ∀ channel n action, message = .dispatchAction channel n action → n ≠ 0 →
    n < c.nextClientSeq ∧ issued n = (channel, action) ∧ n ∉ seqs c.sent ∧ n ∉ seqs c.state.outbox

theorem fresh_unsubscribe (issued : Nat → Uri × StateAction) (c : ProtocolClient)
    (resource : Uri) : Fresh issued c (.unsubscribe resource) := by
  intro channel n action h
  cases h

variable {message : ClientMessage}

theorem ClientInv.write (h : ClientInv max issued c) (hfresh : Fresh issued c message)
    (htrying : c.state.trying = false) (hunread : c.state.unread = none) :
    ClientInv max issued (c.write [message]) where
  ok := h.ok
  clientId := h.clientId
  positive := h.positive
  held := h.held
  pending := h.pending
  messages channel n action hmem hn := by
    have hmem' : ClientMessage.dispatchAction channel n action ∈
      (c.sent ++ [message]) ++ c.state.outbox := hmem
    rw [mem_append, mem_append, mem_singleton] at hmem'
    rcases hmem' with (hmem' | rfl) | hmem'
    · exact h.messages channel n action (mem_append_left _ hmem') hn
    · obtain ⟨hlt, hissued, _⟩ := hfresh channel n action rfl hn
      exact ⟨hlt, hissued⟩
    · exact h.messages channel n action (mem_append_right _ hmem') hn
  outboxNodup := h.outboxNodup
  outboxNew n hn hpos hsent := by
    have hsent' : n ∈ seqs (c.sent ++ [message]) := hsent
    rw [seqs_append, mem_append] at hsent'
    rcases hsent' with hsent' | hsent'
    · exact h.outboxNew n hn hpos hsent'
    · obtain ⟨channel, action, hmem⟩ := mem_seqs.mp hsent'
      obtain rfl := mem_singleton.mp hmem
      exact (hfresh channel n action rfl hpos).2.2.2 hn
  unwritten ht := by
    have ht' : c.state.trying = true := ht
    rw [htrying] at ht'
    cases ht'
  unread actions ha := by
    have ha' : c.state.unread = some actions := ha
    rw [hunread] at ha'
    cases ha'

theorem ClientInv.enqueue {state : ConnectionState} (h : ClientInv max issued c)
    (hfresh : Fresh issued c message) (houtbox : state.outbox = c.state.outbox ++ [message])
    (htrying : state.trying = c.state.trying) (hunread : state.unread = c.state.unread) :
    ClientInv max issued { c with state } where
  ok := h.ok
  clientId := h.clientId
  positive := h.positive
  held := h.held
  pending := h.pending
  messages channel n action hmem hn := by
    have hmem' : ClientMessage.dispatchAction channel n action ∈ c.sent ++ state.outbox := hmem
    rw [houtbox, ← append_assoc, mem_append, mem_singleton] at hmem'
    rcases hmem' with hmem' | rfl
    · exact h.messages channel n action hmem' hn
    · obtain ⟨hlt, hissued, _⟩ := hfresh channel n action rfl hn
      exact ⟨hlt, hissued⟩
  outboxNodup := by
    rw [houtbox, seqs_append, filter_append, nodup_append]
    refine ⟨h.outboxNodup, ?_, fun a ha b hb hab => ?_⟩
    · cases message with
      | dispatchAction channel n action =>
        refine List.Nodup.filter _ ?_
        exact nodup_singleton n
      | unsubscribe channel => exact nodup_nil
    · subst hab
      obtain ⟨hb, hne⟩ := mem_filter.mp hb
      obtain ⟨channel, action, hmem⟩ := mem_seqs.mp hb
      obtain rfl := mem_singleton.mp hmem
      exact (hfresh channel a action rfl (by simpa using hne)).2.2.2 (mem_filter.mp ha).1
  outboxNew n hn hpos := by
    have hn' : n ∈ seqs state.outbox := hn
    rw [houtbox, seqs_append, mem_append] at hn'
    rcases hn' with hn' | hn'
    · exact h.outboxNew n hn' hpos
    · obtain ⟨channel, action, hmem⟩ := mem_seqs.mp hn'
      obtain rfl := mem_singleton.mp hmem
      exact (hfresh channel n action rfl hpos).2.2.1
  unwritten ht := h.unwritten (htrying ▸ ht)
  unread actions ha := h.unread actions (hunread ▸ ha)

theorem ClientInv.sendNotification {message : ClientMessage} (h : ClientInv max issued c)
    (hfresh : Fresh issued c message) : ClientInv max issued (c.sendNotification message) := by
  unfold ProtocolClient.sendNotification
  cases hstate : c.state with
  | closed | incompatible => exact h
  | connecting outbox =>
    simp only
    split
    · refine h.enqueue hfresh ?_ ?_ ?_ <;> rw [hstate] <;> rfl
    · refine h.write hfresh ?_ ?_ <;> rw [hstate] <;> rfl
  | reconnecting outbox attempt =>
    refine h.enqueue hfresh ?_ ?_ ?_ <;> rw [hstate] <;> cases attempt <;> rfl
  | connected => refine h.write hfresh ?_ ?_ <;> rw [hstate] <;> rfl

theorem ClientInv.setState {state : ConnectionState} (h : ClientInv max issued c)
    (houtbox : state.outbox = c.state.outbox ∨ state.outbox = [])
    (htrying : state.trying → c.written = []) (hunread : state.unread = none) :
    ClientInv max issued { c with state } := by
  have hsub : state.outbox.Sublist c.state.outbox := by
    rcases houtbox with houtbox | houtbox
    · exact houtbox ▸ List.Sublist.refl _
    · exact houtbox ▸ nil_sublist _
  have hseqs : (seqs state.outbox).Sublist (seqs c.state.outbox) := hsub.filterMap _
  exact { h with
    messages := fun channel n action hmem hn => by
      refine h.messages channel n action ?_ hn
      rcases mem_append.mp hmem with hmem | hmem
      · exact mem_append_left _ hmem
      · exact mem_append_right _ (hsub.subset hmem)
    outboxNodup := h.outboxNodup.sublist (hseqs.filter _)
    outboxNew := fun n hn => h.outboxNew n (hseqs.subset hn)
    unwritten := htrying
    unread := fun actions ha => by
      have ha' : state.unread = some actions := ha
      rw [hunread] at ha'
      cases ha' }

theorem ClientInv.afterManager (h : ClientInv max issued c) (hok : Ok max m)
    (hm : Carries c.manager m) : ClientInv max issued (c.afterManager m) := by
  have hstart := h.carries hok hm
  unfold ProtocolClient.afterManager
  generalize m.wire.drop c.manager.wire.length = calls
  generalize ({ c with manager := m } : ProtocolClient) = c₁ at hstart ⊢
  induction calls generalizing c₁ with
  | nil => exact hstart
  | cons e calls ih =>
    rw [foldl_cons]
    apply ih
    cases e with
    | subscribe _ _ | settled _ _ => exact hstart
    | unsubscribe resource id cause entry =>
      exact hstart.sendNotification (fresh_unsubscribe issued c₁ resource)

theorem ClientInv.allocate (h : ClientInv max issued c) (channel : Uri) (action : StateAction) :
    ClientInv max (Function.update issued c.nextClientSeq (channel, action))
      { c with
        nextClientSeq := c.nextClientSeq + 1
        manager := c.manager.dispatchOptimistic channel c.nextClientSeq action } := by
  obtain ⟨hheld, hpending⟩ := h.held.dispatch h.positive h.ok.inv.mapped channel action
  have hok := h.ok.dispatchOptimistic channel c.nextClientSeq action
  have hsame : ∀ n, n < c.nextClientSeq →
      Function.update issued c.nextClientSeq (channel, action) n = issued n :=
    fun n hn => update_of_ne (Nat.ne_of_lt hn) ..
  obtain ⟨hclient, hnext, hsubs, htracking⟩ := SubscriptionManager.dispatchOptimistic_frame
    c.manager channel c.nextClientSeq action
  exact {
    ok := hok
    clientId := hclient.trans h.clientId
    positive := Nat.succ_pos _
    held := hheld
    pending := fun j hj p hp => by
      have hj' : j < c.manager.nextEntry := hnext ▸ hj
      rcases hpending j p hp with hp' | rfl
      · rw [hsame _ (h.held.numbered j hj' p hp').2]
        exact h.pending j hj' p hp'
      · exact update_self ..
    messages := fun channel' n action' hmem hn => by
      obtain ⟨hlt, hissued⟩ := h.messages channel' n action' hmem hn
      exact ⟨Nat.lt_succ_of_lt hlt, (hsame n hlt).trans hissued⟩
    outboxNodup := h.outboxNodup
    outboxNew := h.outboxNew
    unwritten := h.unwritten
    unread := fun actions ha => by
      obtain ⟨hechoes, hgone⟩ := h.unread actions ha
      refine ⟨hechoes, fun n hn hpos => ?_⟩
      obtain ⟨hsent, hfree⟩ := hgone n hn hpos
      refine ⟨hsent, fun resource id hget htracks p hp => ?_⟩
      have hget' : c.manager.subscriptions.get resource = some id := hsubs ▸ hget
      -- The number of the echo is older than the new one.
      have hlt : n < c.nextClientSeq := by
        obtain ⟨channel', action', hmem⟩ := mem_seqs.mp hsent
        exact (h.messages channel' n action' (mem_append_left _ hmem) hpos).1
      rcases hpending id p hp with hp' | rfl
      · exact hfree resource id hget' (htracking id ▸ htracks) p hp'
      · exact Ne.symm (Nat.ne_of_lt hlt) }

theorem ClientInv.dispatch (h : ClientInv max issued c) (channel : Uri) (action : StateAction) :
    ∃ issued, ClientInv max issued (c.dispatch channel action) := by
  refine ⟨_, (h.allocate channel action).sendNotification ?_⟩
  intro channel' n action' heq hpos
  cases heq
  have hold : ∀ n, n ≠ 0 → (∃ channel action, ClientMessage.dispatchAction channel n action ∈
      c.sent ++ c.state.outbox) → n < c.nextClientSeq := by
    rintro n hn ⟨channel, action, hmem⟩
    exact (h.messages channel n action hmem hn).1
  refine ⟨Nat.lt_succ_self _, update_self .., fun hsent => ?_, fun hqueued => ?_⟩
  · obtain ⟨channel, action, hmem⟩ := mem_seqs.mp hsent
    exact Nat.lt_irrefl _ (hold _ hpos ⟨channel, action, mem_append_left _ hmem⟩)
  · obtain ⟨channel, action, hmem⟩ := mem_seqs.mp hqueued
    exact Nat.lt_irrefl _ (hold _ hpos ⟨channel, action, mem_append_right _ hmem⟩)

theorem ClientInv.dispatchRootConfig (h : ClientInv max issued c)
    (config : Record String Payload) : ClientInv max issued (c.dispatchRootConfig config) := by
  refine h.sendNotification fun channel n action heq hpos => ?_
  cases heq
  exact absurd rfl hpos

/-! ## The drain -/

variable {outbox : List ClientMessage}

theorem mem_replays : message ∈ c.replays outbox ↔ ∃ resource id p,
      c.manager.subscriptions.get resource = some id ∧
      (c.manager.entries id).sub.tracksPending = true ∧
      p ∈ (c.manager.entries id).sub.pendingActions ∧ p.clientSeq ∉ seqs outbox ∧
      message = .dispatchAction p.channel p.clientSeq p.action := by
  unfold replays SubscriptionManager.getPendingActions
  simp only [mem_map, mem_filter, mem_flatMap, decide_eq_true_iff]
  constructor
  · rintro ⟨p, ⟨⟨e, he, hp⟩, hqueued⟩, rfl⟩
    split at hp
    · rename_i htracks
      exact ⟨e.1, e.2, p, get_of_mem he, htracks, hp, hqueued, rfl⟩
    · cases hp
  · rintro ⟨resource, id, p, hget, htracks, hp, hqueued, rfl⟩
    refine ⟨p, ⟨⟨(resource, id), mem_of_get hget, ?_⟩, hqueued⟩, rfl⟩
    rw [if_pos htracks]
    exact hp

theorem replays_nodup (h : ClientInv max issued c) (outbox : List ClientMessage) :
    (seqs (c.replays outbox)).Nodup := by
  have hseqs : seqs (c.replays outbox) =
      (c.manager.getPendingActions.filter fun p =>
        p.clientSeq ∉ outbox.filterMap (·.clientSeq)).map (·.clientSeq) := by
    unfold seqs replays
    rw [filterMap_map]
    exact congrFun (filterMap_eq_map (f := fun p : PendingDispatchAction => p.clientSeq)) _
  rw [hseqs]
  refine List.Nodup.sublist (filter_sublist.map _) ?_
  unfold SubscriptionManager.getPendingActions
  rw [map_flatMap, nodup_flatMap]
  refine ⟨fun e he => ?_, ?_⟩
  · obtain ⟨hlt, _⟩ := h.ok.inv.mapped e.1 e.2 (get_of_mem he)
    simp only
    split
    · exact h.held.nodup e.2 hlt
    · exact nodup_nil
  · have hkeys := c.manager.subscriptions.nodup
    rw [List.Nodup, pairwise_map] at hkeys
    refine hkeys.imp_of_mem fun {a b} ha hb hne => ?_
    obtain ⟨hlta, hresa⟩ := h.ok.inv.mapped a.1 a.2 (get_of_mem ha)
    obtain ⟨hltb, hresb⟩ := h.ok.inv.mapped b.1 b.2 (get_of_mem hb)
    intro n hna hnb
    simp only [mem_map] at hna hnb
    obtain ⟨p, hp, rfl⟩ := hna
    obtain ⟨q, hq, heq⟩ := hnb
    split at hp
    · split at hq
      · have hsame := h.held.apart b.2 a.2 hltb hlta q hq p hp heq
        exact hne (by rw [← hresa, ← hresb, hsame])
      · cases hq
    · cases hp

theorem ClientInv.message_eq (h : ClientInv max issued c) {j : Nat} (hj : j < c.manager.nextEntry)
    {p : PendingDispatchAction} (hp : p ∈ (c.manager.entries j).sub.pendingActions)
    {channel : Uri}
    (hmem : ClientMessage.dispatchAction channel p.clientSeq action ∈ c.sent ++ c.state.outbox) :
    channel = p.channel ∧ action = p.action := by
  have hpos := (h.held.numbered j hj p hp).1
  have h₁ := (h.messages channel p.clientSeq action hmem (Nat.ne_of_gt hpos)).2
  rw [h.pending j hj p hp] at h₁
  exact ⟨(congrArg Prod.fst h₁).symm, (congrArg Prod.snd h₁).symm⟩

theorem filter_eq_singleton {channel : Uri} (hnodup : ((seqs messages).filter (· ≠ 0)).Nodup)
    (hn : n ≠ 0) (hmem : ClientMessage.dispatchAction channel n action ∈ messages) :
    (messages.filter fun message => message.clientSeq = some n) =
      [.dispatchAction channel n action] := by
  induction messages with
  | nil => cases hmem
  | cons message rest ih =>
    have hrest : ((seqs rest).filter (· ≠ 0)).Nodup := by
      refine hnodup.sublist (List.Sublist.filter _ ?_)
      exact (sublist_cons_self message rest).filterMap _
    rcases mem_cons.mp hmem with rfl | hmem
    · have hnot : n ∉ seqs rest := by
        intro hn'
        have hcons : seqs (.dispatchAction channel n action :: rest) = n :: seqs rest := rfl
        rw [hcons, filter_cons_of_pos (by simpa using hn), nodup_cons] at hnodup
        exact hnodup.1 (mem_filter.mpr ⟨hn', by simpa using hn⟩)
      rw [filter_cons_of_pos (by simp [ClientMessage.clientSeq]), cons_eq_cons]
      refine ⟨rfl, filter_eq_nil_iff.mpr fun message' hmem' => ?_⟩
      intro hseq
      exact hnot (mem_filterMap.mpr ⟨message', hmem', of_decide_eq_true hseq⟩)
    · rw [filter_cons_of_neg, ih hrest hmem]
      intro hseq
      have hseq' : message.clientSeq = some n := of_decide_eq_true hseq
      have hcons : seqs (message :: rest) = n :: seqs rest := by
        unfold seqs
        rw [filterMap_cons_some hseq']
      rw [hcons, filter_cons_of_pos (by simpa using hn), nodup_cons] at hnodup
      exact hnodup.1 (mem_filter.mpr ⟨mem_seqs.mpr ⟨channel, action, hmem⟩, by simpa using hn⟩)

theorem drained_nodup (h : ClientInv max issued c) :
    ((seqs (c.replays c.state.outbox ++ c.state.outbox)).filter (· ≠ 0)).Nodup := by
  rw [seqs_append, filter_append, nodup_append]
  refine ⟨(replays_nodup h _).filter _, h.outboxNodup, fun a ha b hb hab => ?_⟩
  subst hab
  obtain ⟨channel, action, hmem⟩ := mem_seqs.mp (mem_filter.mp ha).1
  obtain ⟨_, _, p, _, _, _, hqueued, heq⟩ := mem_replays.mp hmem
  cases heq
  exact hqueued (mem_filter.mp hb).1

def drained (c : ProtocolClient) : ProtocolClient :=
  { c.write (c.replays c.state.outbox ++ c.state.outbox) with state := .connected }

theorem finishReconnect_eq (hstate : c.state = .reconnecting outbox attempt)
    (config : Record String Payload) :
    c.finishReconnect config = (c.dispatchRootConfig config).drained := by
  unfold finishReconnect drained drainAfterReconnect
  have hstate' : (c.dispatchRootConfig config).state = .reconnecting
      (outbox ++ [.dispatchAction .root 0 (.root (.configChanged config false))]) attempt := by
    unfold dispatchRootConfig ProtocolClient.sendNotification
    rw [hstate]
  simp only [hstate']
  unfold write replays ConnectionState.outbox
  simp only [append_assoc]

theorem ClientInv.drained (h : ClientInv max issued c) : ClientInv max issued c.drained where
  ok := h.ok
  clientId := h.clientId
  positive := h.positive
  held := h.held
  pending := h.pending
  messages channel n action hmem hn := by
    have hmem' : ClientMessage.dispatchAction channel n action ∈
      (c.sent ++ (c.replays c.state.outbox ++ c.state.outbox)) ++ [] := hmem
    rw [append_nil, mem_append, mem_append] at hmem'
    rcases hmem' with hmem' | hmem' | hmem'
    · exact h.messages channel n action (mem_append_left _ hmem') hn
    · obtain ⟨resource, id, p, hget, _, hp, _, heq⟩ := mem_replays.mp hmem'
      cases heq
      obtain ⟨hlt, _⟩ := h.ok.inv.mapped resource id hget
      exact ⟨(h.held.numbered id hlt p hp).2, h.pending id hlt p hp⟩
    · exact h.messages channel n action (mem_append_right _ hmem') hn
  outboxNodup := nodup_nil
  outboxNew _ hn := by cases hn
  unwritten ht := by cases ht
  unread _ ha := by cases ha

/-- Every pending action is written to the new transport once, and no action the
replay named is. -/
def Delivered (c : ProtocolClient) : Prop :=
  (∀ resource id, c.manager.subscriptions.get resource = some id →
    ∀ p ∈ (c.manager.entries id).sub.pendingActions,
      (c.written.filter fun message => message.clientSeq = some p.clientSeq) =
        [.dispatchAction p.channel p.clientSeq p.action]) ∧
  ∀ n ∈ c.echoed, n ≠ 0 → ∀ message ∈ c.written, message.clientSeq ≠ some n

def ChangesetsQueued (c : ProtocolClient) : Prop :=
  ∀ resource id, c.manager.subscriptions.get resource = some id →
    (c.manager.entries id).sub.tracksPending = false →
    ∀ p ∈ (c.manager.entries id).sub.pendingActions, p.clientSeq ∈ seqs c.state.outbox

theorem delivered_drained (h : ClientInv max issued c) (hwritten : c.written = [])
    (hgone : c.Gone) : c.drained.Delivered ↔ c.ChangesetsQueued := by
  have hwritten' : c.drained.written = c.replays c.state.outbox ++ c.state.outbox := by
    show c.written ++ _ = _
    rw [hwritten, nil_append]
  have hnodup := drained_nodup h
  constructor
  · rintro ⟨honce, _⟩ resource id hget huntracked p hp
    obtain ⟨hlt, _⟩ := h.ok.inv.mapped resource id hget
    have hmem : ClientMessage.dispatchAction p.channel p.clientSeq p.action ∈
        c.replays c.state.outbox ++ c.state.outbox := by
      rw [← hwritten']
      refine mem_of_mem_filter (p := fun message => message.clientSeq = some p.clientSeq) ?_
      rw [honce resource id hget p hp]
      exact mem_cons_self
    rcases mem_append.mp hmem with hmem | hmem
    · -- A changeset is not among the subscriptions the drain lists.
      obtain ⟨resource', id', p', hget', htracks, hp', _, heq⟩ := mem_replays.mp hmem
      obtain ⟨hlt', _⟩ := h.ok.inv.mapped resource' id' hget'
      have hseq : p.clientSeq = p'.clientSeq := (ClientMessage.dispatchAction.inj heq).2.1
      have hsame := h.held.apart id id' hlt hlt' p hp p' hp' hseq
      rw [← hsame, huntracked] at htracks
      cases htracks
    · exact mem_seqs.mpr ⟨_, _, hmem⟩
  · intro hqueued
    refine ⟨fun resource id hget p hp => ?_, fun n hn hpos message hmem hseq => ?_⟩
    · obtain ⟨hlt, _⟩ := h.ok.inv.mapped resource id hget
      rw [hwritten']
      refine filter_eq_singleton hnodup (Nat.ne_of_gt (h.held.numbered id hlt p hp).1) ?_
      by_cases hout : p.clientSeq ∈ seqs c.state.outbox
      · obtain ⟨channel, action, hmem⟩ := mem_seqs.mp hout
        obtain ⟨rfl, rfl⟩ := h.message_eq hlt hp (mem_append_right _ hmem)
        exact mem_append_right _ hmem
      · refine mem_append_left _ (mem_replays.mpr ⟨resource, id, p, hget, ?_, hp, hout, rfl⟩)
        cases htracks : (c.manager.entries id).sub.tracksPending with
        | true => rfl
        | false => exact absurd (hqueued resource id hget htracks p hp) hout
    · obtain ⟨hsent, hfree⟩ := hgone n hn hpos
      rw [hwritten', mem_append] at hmem
      rcases hmem with hmem | hmem
      · obtain ⟨resource, id, p, hget, htracks, hp, _, rfl⟩ := mem_replays.mp hmem
        exact hfree resource id hget htracks p hp (Option.some.inj hseq)
      · exact h.outboxNew n (mem_filterMap.mpr ⟨message, hmem, hseq⟩) hpos hsent

/-! ## Events -/

/-- A rejected own action of a replay finds its subscription with a snapshot, when
that subscription holds it pending. -/
def RejectionsReach (c : ProtocolClient) : ClientEvent → Prop
  | .replayNext =>
    match c.state with
    | .reconnecting _ (.applying (e :: _) _ _) =>
      e.isRejected = true → ∀ n, e.namedSeq c.clientId = some n →
        ∀ id k sub, c.manager.subscriptions.get e.channel = some id →
          (c.manager.entries id).sub = .writeAhead k sub → k.cls.tracksPending = true →
          sub.hasPending n = true → sub.confirmedState.isSome = true
    | _ => True
  | _ => True

def system (clientId : ClientId) (clientTransport transportFactory : Bool)
    (releaseGraceMs maxIdleSubscriptions : Int) : System ProtocolClient ClientEvent :=
  .ofStep (fun c => c = create clientId clientTransport transportFactory releaseGraceMs
    maxIdleSubscriptions) step

theorem namedSeq_eq_some {α : Type} {e : ActionEnvelope α} (h : e.namedSeq clientId = some n) :
    ∃ origin, e.origin = some origin ∧ origin.clientId = clientId ∧ origin.clientSeq = n := by
  unfold ActionEnvelope.namedSeq at h
  split at h
  · cases h
  · rename_i origin horigin
    obtain ⟨hclient, hseq⟩ := Option.ite_none_right_eq_some.mp h
    exact ⟨origin, horigin, hclient, Option.some.inj hseq⟩

variable {e : ActionEnvelope StateAction}

theorem echoes_named (h : c.echoes e) (hnamed : e.namedSeq c.clientId = some n) :
    ∃ action, ClientMessage.dispatchAction e.channel n action ∈ c.sent ∧
      WriteAheadKind.ofAction action = WriteAheadKind.ofAction e.action := by
  unfold echoes at h
  simp only [hnamed] at h
  obtain ⟨message, hmem, hmessage⟩ := any_eq_true.mp h
  cases message with
  | dispatchAction channel seq action =>
    obtain ⟨rfl, rfl, hkind⟩ := of_decide_eq_true hmessage
    exact ⟨action, hmem, hkind⟩
  | unsubscribe channel => cases hmessage

theorem carries_dropEchoed (c : ProtocolClient) (e : ActionEnvelope StateAction) :
    ∃ m, c.dropEchoed e = { c with manager := m } ∧ Carries c.manager m := by
  unfold dropEchoed
  split
  · split
    · exact ⟨_, rfl, SubscriptionManager.carries_dropPendingAction ..⟩
    · exact ⟨_, rfl, Carries.refl _⟩
  · exact ⟨_, rfl, Carries.refl _⟩

theorem ok_dropEchoed (h : Ok max c.manager) (e : ActionEnvelope StateAction) :
    Ok max (c.dropEchoed e).manager := by
  unfold dropEchoed
  split
  · split
    · exact h.dropPendingAction ..
    · exact h
  · exact h

theorem gone_replayEnvelope (h : ClientInv max issued c) (hgone : c.Gone) (hechoes : c.echoes e)
    (hreach : e.isRejected = true → ∀ n, e.namedSeq c.clientId = some n → ∀ id k sub,
      c.manager.subscriptions.get e.channel = some id →
      (c.manager.entries id).sub = .writeAhead k sub → k.cls.tracksPending = true →
      sub.hasPending n = true → sub.confirmedState.isSome = true) :
    (c.replayEnvelope e).Gone := by
  obtain ⟨m, hm, hdrop⟩ := carries_dropEchoed c e
  have hokm : Ok max m := by
    have hok := ok_dropEchoed h.ok e
    rw [hm] at hok
    exact hok
  have hreceive := SubscriptionManager.carries_receiveEnvelope m e
  have hok := hokm.receiveEnvelope e
  have hreplay : c.replayEnvelope e = { c with
      manager := m.receiveEnvelope e
      echoed := c.echoed ++ (e.namedSeq c.clientId).toList } := by
    unfold replayEnvelope fire
    rw [hm]
  rw [hreplay]
  intro n hn hpos
  rcases mem_append.mp hn with hn | hn
  · exact hgone.carries hok (hdrop.trans hreceive) n hn hpos
  · have hnamed : e.namedSeq c.clientId = some n := by
      rw [Option.mem_toList] at hn
      exact hn
    obtain ⟨action, hsent, hkind⟩ := echoes_named hechoes hnamed
    refine ⟨mem_seqs.mpr ⟨e.channel, action, hsent⟩, fun resource id hget htracks p hp hseq => ?_⟩
    -- The pending action is the one the message carried, so its channel is that of the echo.
    subst hseq
    obtain ⟨hlt, hres⟩ := hok.inv.mapped resource id hget
    obtain ⟨hltm, hpm⟩ := hreceive.pending hlt hp
    obtain ⟨hlt₀, hp₀⟩ := hdrop.pending hltm hpm
    obtain ⟨hchannel, haction⟩ := h.message_eq hlt₀ hp₀ (mem_append_left _ hsent)
    have hgetm : m.subscriptions.get resource = some id :=
      (hreceive.mapped resource id hget).resolve_right (Nat.not_le.mpr hltm)
    have hget₀ : c.manager.subscriptions.get resource = some id :=
      (hdrop.mapped resource id hgetm).resolve_right (Nat.not_le.mpr hlt₀)
    have hresource : resource = e.channel := by
      rw [hchannel, h.held.channel hlt₀ hp₀]
      exact (h.ok.inv.mapped resource id hget₀).2.symm
    subst hresource
    have htracks₀ : (c.manager.entries id).sub.tracksPending = true := by
      rw [← (hdrop.old id hlt₀).2.tracksPending, ← (hreceive.old id hltm).2.tracksPending]
      exact htracks
    obtain ⟨origin, horigin, hown, hseq⟩ := namedSeq_eq_some hnamed
    cases hrejected : e.isRejected with
    | false =>
      -- It was dropped before the envelope was routed.
      have hm' : m = c.manager.dropPendingAction e.channel p.clientSeq := by
        have h₁ : c.dropEchoed e = { c with
            manager := c.manager.dropPendingAction e.channel origin.clientSeq } := by
          unfold dropEchoed
          rw [horigin]
          exact if_pos ⟨hown, hrejected⟩
        rw [hm, hseq] at h₁
        exact congrArg ProtocolClient.manager h₁
      unfold SubscriptionManager.dropPendingAction at hm'
      rw [hget₀] at hm'
      rw [hm'] at hpm
      unfold SubscriptionManager.setSub at hpm
      rw [SubscriptionManager.setEntry_self] at hpm
      exact SubscriptionManager.not_pending_of_drop htracks₀ (h.held.nodup id hlt₀) p hpm rfl
    | true =>
      have hm' : m = c.manager := by
        have h₁ : c.dropEchoed e = c := by
          unfold dropEchoed
          rw [horigin]
          exact if_neg (by simp [hrejected])
        rw [hm] at h₁
        exact congrArg ProtocolClient.manager h₁
      subst hm'
      rw [SubscriptionManager.receiveEnvelope_entry h.ok.inv.mapped e hget₀] at hp
      have howned := h.held.owned id hlt₀
      have hnodup := h.held.nodup id hlt₀
      cases hsub : (c.manager.entries id).sub with
      | writeAhead k sub =>
        rw [hsub] at hp hp₀ howned hnodup htracks₀
        rw [SubscriptionManager.pendingActions_seqs] at hnodup
        obtain ⟨q, hq, hqp⟩ := mem_map.mp hp₀
        have hpending : sub.hasPending p.clientSeq = true := by
          rw [← hqp]
          exact any_eq_true.mpr ⟨q, hq, decide_eq_true rfl⟩
        have hofAction : WriteAheadKind.ofAction e.action = some k := by
          rw [← hkind, haction, ← hqp]
          exact SubscriptionManager.ofAction_wrap q.action
        have hhydrated := hreach hrejected _ hnamed id k sub hget₀ hsub htracks₀ hpending
        have huri : sub.uri = e.channel := howned.2.trans (h.ok.inv.mapped e.channel id hget₀).2
        exact SubscriptionManager.not_pending_of_echo (howned.1.trans h.clientId) huri hofAction
          hhydrated hnamed hnodup p hp rfl
      | terminal error =>
        rw [hsub] at hp₀
        cases hp₀

theorem ClientInv.serverSeq (h : ClientInv max issued c) (serverSeq : Nat) :
    ClientInv max issued { c with serverSeq } := { h with }

theorem carries_step {m m' : SubscriptionManager} {e : ManagerEvent}
    (hevent : (isCall e || isCallback e) = true) (h : m.step e = some m') : Carries m m' := by
  cases e with
  | getSubscription kind resource => exact SubscriptionManager.carries_getSubscription h
  | disposeReference id ownerId =>
    cases h
    exact SubscriptionManager.carries_disposeReference m id ownerId
  | fireTimer timer id =>
    obtain ⟨_, h⟩ := Option.ite_none_right_eq_some.mp h
    cases h
    have hclear : Carries m (m.clearTimer timer id) := by
      have hset : Carries m (m.setEntry id { m.entries id with
          releaseTimer := if (m.entries id).releaseTimer = some timer then none
            else (m.entries id).releaseTimer }) :=
        SubscriptionManager.carries_setEntry rfl (Keeps.refl _)
      exact hset.trans (SubscriptionManager.carries_of_entries rfl rfl rfl fun _ _ h => h)
    exact hclear.trans (SubscriptionManager.carries_expire _ id)
  | trackSessionCreate resource promise =>
    cases h
    unfold SubscriptionManager.trackSessionCreate
    split
    · exact Carries.refl m
    · exact SubscriptionManager.carries_of_entries rfl rfl rfl fun _ _ h => h
  | settleCreate resource promise =>
    cases h
    unfold SubscriptionManager.settleCreate
    split
    · exact SubscriptionManager.carries_of_entries rfl rfl rfl fun _ _ h => h
    · exact Carries.refl m
  | resumeCreate id =>
    obtain ⟨_, h⟩ := Option.ite_none_right_eq_some.mp h
    cases h
    have hset : Carries m (m.setEntry id { m.entries id with awaiting := none }) :=
      SubscriptionManager.carries_setEntry rfl (Keeps.refl _)
    exact hset.trans (SubscriptionManager.carries_startSubscribe _ id)
  | settleSubscribe id result =>
    obtain ⟨_, h⟩ := Option.ite_none_right_eq_some.mp h
    cases h
    exact SubscriptionManager.carries_settleSubscribe m id result
  | receiveEnvelope | dispatchOptimistic | dropPendingAction | markMissing
  | applyReconnectSnapshot | dispose => cases hevent

theorem ClientInv.manager (h : ClientInv max issued c) {e : ManagerEvent}
    (hevent : (isCall e || isCallback e) = true) (hm : c.manager.step e = some m) :
    ClientInv max issued (c.afterManager m) :=
  h.afterManager (h.ok.step hm) (carries_step hevent hm)

theorem ClientInv.fire (h : ClientInv max issued c) (e : ActionEnvelope StateAction) :
    ClientInv max issued (c.fire e) :=
  h.carries (h.ok.receiveEnvelope e) (SubscriptionManager.carries_receiveEnvelope c.manager e)

theorem ClientInv.markMissing (h : ClientInv max issued c) (missing : List Uri) :
    ClientInv max issued { c with manager := c.manager.markSubscriptionsMissing missing } :=
  h.carries (h.ok.markSubscriptionsMissing missing)
    (SubscriptionManager.carries_markSubscriptionsMissing c.manager missing)

theorem ClientInv.applySnapshots (h : ClientInv max issued c) (snapshots : List Snapshot)
    (preservePending : Bool) :
    ClientInv max issued (c.applySnapshots snapshots preservePending) := by
  have hfold : ∀ (snapshots : List Snapshot) (m : SubscriptionManager), Ok max m →
      Ok max (snapshots.foldl (fun m s =>
        m.applyReconnectSnapshot s.resource s.state s.fromSeq preservePending) m) ∧
      Carries m (snapshots.foldl (fun m s =>
        m.applyReconnectSnapshot s.resource s.state s.fromSeq preservePending) m) := by
    intro snapshots
    induction snapshots with
    | nil => exact fun m hm => ⟨hm, Carries.refl m⟩
    | cons s rest ih =>
      intro m hm
      obtain ⟨hok, hcarries⟩ := ih _ (hm.applyReconnectSnapshot s.resource s.state s.fromSeq
        preservePending)
      exact ⟨hok, (SubscriptionManager.carries_applyReconnectSnapshot ..).trans hcarries⟩
  obtain ⟨hok, hcarries⟩ := hfold snapshots c.manager h.ok
  exact (h.carries hok hcarries).serverSeq _

theorem ClientInv.initialized (h : ClientInv max issued c) (hstate : c.state = .connecting outbox)
    (serverSeq : Nat) : ClientInv max issued (c.initialized serverSeq) := by
  unfold ProtocolClient.initialized
  rw [hstate]
  simp only
  split
  · exact {
      ok := h.ok
      clientId := h.clientId
      positive := h.positive
      held := h.held
      pending := h.pending
      messages := fun channel n action hmem hn => by
        have hmem' : ClientMessage.dispatchAction channel n action ∈
          (c.sent ++ outbox) ++ [] := hmem
        rw [List.append_nil] at hmem'
        refine h.messages channel n action ?_ hn
        rw [hstate]
        exact hmem'
      outboxNodup := List.nodup_nil
      outboxNew := nofun
      unwritten := nofun
      unread := nofun }
  · have hset : ClientInv max issued { c with state := .connected } :=
      h.setState (.inr rfl) nofun rfl
    exact hset.serverSeq serverSeq

theorem ClientInv.handleClose (h : ClientInv max issued c) : ClientInv max issued c.handleClose :=
  h.setState (.inr rfl) nofun rfl

theorem ClientInv.handleTransportClose (h : ClientInv max issued c) :
    ClientInv max issued c.handleTransportClose := by
  unfold ProtocolClient.handleTransportClose
  cases hstate : c.state with
  | closed => exact h
  | connecting outbox =>
    simp only
    split
    · refine h.setState (.inl ?_) nofun rfl
      rw [hstate]
      rfl
    · exact h.handleClose
  | incompatible => exact h.handleClose
  | connected =>
    simp only
    split
    · exact h.setState (.inr rfl) nofun rfl
    · exact h.handleClose
  | reconnecting outbox attempt =>
    refine h.setState (.inl ?_) nofun rfl
    rw [hstate]
    rfl

theorem ClientInv.finishReconnect (h : ClientInv max issued c)
    (hstate : c.state = .reconnecting outbox attempt) (config : Record String Payload) :
    ClientInv max issued (c.finishReconnect config) := by
  rw [finishReconnect_eq hstate]
  exact (h.dispatchRootConfig config).drained

theorem ClientInv.replayNext (h : ClientInv max issued c)
    {actions : List (ActionEnvelope StateAction)} {maxSeq : Nat} {missing : List Uri}
    (hstate : c.state = .reconnecting outbox (.applying (e :: actions) maxSeq
      missing)) (hreach : RejectionsReach c .replayNext) (maxSeq' : Nat) :
    ClientInv max issued { c.replayEnvelope e with
      state := .reconnecting outbox (.applying actions maxSeq' missing) } := by
  obtain ⟨hechoes, hgone⟩ := h.unread (e :: actions) (by rw [hstate]; rfl)
  have hgone' : (c.replayEnvelope e).Gone := by
    refine gone_replayEnvelope h hgone (hechoes e mem_cons_self) ?_
    unfold RejectionsReach at hreach
    rw [hstate] at hreach
    exact hreach
  obtain ⟨m, hm, hdrop⟩ := carries_dropEchoed c e
  have hokm : Ok max m := by
    have hok := ok_dropEchoed h.ok e
    rw [hm] at hok
    exact hok
  have hbase := h.carries (hokm.receiveEnvelope e)
    (hdrop.trans (SubscriptionManager.carries_receiveEnvelope m e))
  have hreplay : c.replayEnvelope e = { c with
      manager := m.receiveEnvelope e
      echoed := c.echoed ++ (e.namedSeq c.clientId).toList } := by
    unfold replayEnvelope ProtocolClient.fire
    rw [hm]
  rw [hreplay] at hgone' ⊢
  have houtbox : c.state.outbox = outbox := by rw [hstate]; rfl
  exact {
    ok := hbase.ok
    clientId := hbase.clientId
    positive := hbase.positive
    held := hbase.held
    pending := hbase.pending
    messages := houtbox ▸ hbase.messages
    outboxNodup := houtbox ▸ hbase.outboxNodup
    outboxNew := houtbox ▸ hbase.outboxNew
    unwritten := fun _ => h.unwritten (by rw [hstate]; rfl)
    unread := fun rest hrest => by
      cases hrest
      exact ⟨fun e' he' => hechoes e' (mem_cons_of_mem _ he'), hgone'⟩ }

theorem ClientInv.step {e : ClientEvent} (h : ClientInv max issued c) (hreach : RejectionsReach c e)
    (hstep : c.step e = some c') : ∃ issued, ClientInv max issued c' := by
  revert hreach hstep
  fun_cases ProtocolClient.step c e
  all_goals
    intro hreach hstep
    first
    | contradiction
    | obtain rfl := Option.some.inj hstep
    | skip
  case case1 => exact h.dispatch _ _
  case case2 => exact ⟨issued, h.dispatchRootConfig _⟩
  case case3 e hevent =>
    obtain ⟨m, hm, rfl⟩ := Option.map_eq_some_iff.mp hstep
    refine ⟨issued, h.manager ?_ hm⟩
    cases hcall : isCall e with
    | true => rfl
    | false =>
      rw [hcall, Bool.false_or, Bool.and_eq_true] at hevent
      exact hevent.1
  case case7 => exact ⟨issued, (h.serverSeq _).fire _⟩
  case case8 hstate => exact ⟨issued, h.initialized hstate _⟩
  case case9 => exact ⟨issued, h.setState (.inr rfl) nofun rfl⟩
  case case11 => exact ⟨issued, h.handleTransportClose⟩
  case case13 => exact ⟨issued, h.handleClose⟩
  case case14 =>
    have hclosed := h.handleClose
    exact ⟨issued, hclosed.afterManager h.ok.dispose (SubscriptionManager.carries_dispose c.manager)⟩
  case case15 => exact ⟨issued, h.setState (.inr rfl) nofun rfl⟩
  -- A new transport: nothing is written to it yet.
  case case17 outbox hstate =>
    have hset : ClientInv max issued { c with state := .reconnecting outbox .idle } :=
      h.setState (.inl (by rw [hstate])) nofun rfl
    exact ⟨issued, { hset with
      unwritten := fun _ => rfl
      unread := nofun }⟩
  case case18 outbox hstate =>
    exact ⟨issued, h.setState (.inl (by rw [hstate]; rfl))
      (fun _ => h.unwritten (by rw [hstate]; rfl)) rfl⟩
  case case21 hstate _ _ =>
    exact ⟨issued, h.setState (.inl (by rw [hstate]; rfl)) nofun rfl⟩
  case case22 hstate hechoes =>
    have hset : ClientInv max issued { c with state := .reconnecting _ .idle } :=
      h.setState (.inl (by rw [hstate]; rfl)) nofun rfl
    refine ⟨issued, { hset with
      unwritten := fun _ => h.unwritten (by rw [hstate]; rfl)
      unread := fun rest hrest => ?_ }⟩
    cases hrest
    exact ⟨all_eq_true.mp hechoes, nofun⟩
  case case24 hstate => exact ⟨issued, h.replayNext hstate hreach _⟩
  case case25 hstate _ => exact ⟨issued, ((h.markMissing _).serverSeq _).finishReconnect hstate _⟩
  case case26 hstate => exact ⟨issued, (h.applySnapshots _ false).finishReconnect hstate _⟩
  case case27 hstate =>
    refine ⟨issued, ((h.serverSeq _).applySnapshots _ true).setState (.inl ?_)
      (fun _ => h.unwritten (by rw [hstate]; rfl)) rfl⟩
    rw [hstate]
    rfl
  case case28 => exact ⟨issued, h.applySnapshots _ true⟩
  case case29 => exact ⟨issued, h.markMissing _⟩
  case case30 hstate => exact ⟨issued, h.finishReconnect hstate _⟩

theorem clientInv_create (clientId : ClientId) (clientTransport transportFactory : Bool)
    (releaseGraceMs max : Int) : ClientInv max (fun _ => (.root, .root (.activeSessionsChanged 0)))
      (create clientId clientTransport transportFactory releaseGraceMs max) where
  ok := SubscriptionManager.ok_create clientId releaseGraceMs max
  clientId := rfl
  positive := Nat.one_pos
  held := ⟨fun _ hj => absurd hj (Nat.not_lt_zero _), fun _ hj => absurd hj (Nat.not_lt_zero _),
    fun _ hj => absurd hj (Nat.not_lt_zero _), fun _ _ hi => absurd hi (Nat.not_lt_zero _)⟩
  pending _ hj := absurd hj (Nat.not_lt_zero _)
  messages _ _ _ hmem := by cases hmem
  outboxNodup := nodup_nil
  outboxNew _ hn := by cases hn
  unwritten ht := by cases ht
  unread _ ha := by cases ha

theorem clientInv_of_reachable {clientTransport transportFactory : Bool} {releaseGraceMs : Int}
    (h : (system clientId clientTransport transportFactory releaseGraceMs max).ReachableVia
      RejectionsReach c) : ∃ issued, ClientInv max issued c := by
  have hinit : ∀ c, (system clientId clientTransport transportFactory releaseGraceMs max).init c →
      ∃ issued, ClientInv max issued c := by
    rintro _ rfl
    exact ⟨_, clientInv_create clientId clientTransport transportFactory releaseGraceMs max⟩
  refine System.ReachableVia.invariant hinit ?_ h
  rintro c e c' ⟨issued, hc⟩ hreach hstep
  exact hc.step hreach hstep

/-! ## The end of a replay -/

theorem pendingActions_setError (sub : ManagedSubscription) (error : String) :
    (sub.setError error).pendingActions = sub.pendingActions := by
  cases sub <;> rfl

theorem pendingActions_clearPending {sub : ManagedSubscription} (h : sub.tracksPending = false) :
    sub.clearPending.pendingActions = sub.pendingActions := by
  cases sub with
  | writeAhead k sub =>
    have h' : k.cls.tracksPending = false := h
    unfold ManagedSubscription.clearPending
    simp only [h', Bool.false_eq_true, if_false]
  | terminal error => rfl

theorem markSubscriptionsMissing_untracked (m : SubscriptionManager) (missing : List Uri) :
    (m.markSubscriptionsMissing missing).subscriptions = m.subscriptions ∧
      ∀ id, ((m.markSubscriptionsMissing missing).entries id).sub.tracksPending =
          (m.entries id).sub.tracksPending ∧
        ((m.entries id).sub.tracksPending = false →
          ((m.markSubscriptionsMissing missing).entries id).sub.pendingActions =
            (m.entries id).sub.pendingActions) := by
  have hone : ∀ (m : SubscriptionManager) (resource : Uri),
      (m.markMissing resource).subscriptions = m.subscriptions ∧
      ∀ id, ((m.markMissing resource).entries id).sub.tracksPending =
          (m.entries id).sub.tracksPending ∧
        ((m.entries id).sub.tracksPending = false →
          ((m.markMissing resource).entries id).sub.pendingActions =
            (m.entries id).sub.pendingActions) := by
    intro m resource
    unfold SubscriptionManager.markMissing
    split
    · exact ⟨rfl, fun _ => ⟨rfl, fun _ => rfl⟩⟩
    · rename_i i _
      split
      · refine ⟨rfl, fun id => ?_⟩
        unfold SubscriptionManager.setSub
        by_cases hid : id = i
        · subst hid
          rw [SubscriptionManager.setEntry_self]
          have hkeeps := (keeps_clearPending (m.entries id).sub).trans
            (keeps_setError _ SubscriptionManager.missingError)
          exact ⟨hkeeps.tracksPending, fun h => (pendingActions_setError ..).trans
            (pendingActions_clearPending h)⟩
        · rw [SubscriptionManager.setEntry_of_ne hid]
          exact ⟨rfl, fun _ => rfl⟩
      · exact ⟨rfl, fun _ => ⟨rfl, fun _ => rfl⟩⟩
  unfold SubscriptionManager.markSubscriptionsMissing
  induction missing generalizing m with
  | nil => exact ⟨rfl, fun _ => ⟨rfl, fun _ => rfl⟩⟩
  | cons resource rest ih =>
    obtain ⟨hsubs, hentries⟩ := hone m resource
    obtain ⟨hsubs', hentries'⟩ := ih (m.markMissing resource)
    refine ⟨hsubs'.trans hsubs, fun id => ⟨(hentries' id).1.trans (hentries id).1, fun h => ?_⟩⟩
    have h' := (hentries id).1.trans h
    exact ((hentries' id).2 h').trans ((hentries id).2 h)

/-- In every run in which the rejected actions of each replay reach a subscription
with a snapshot: when a replay ends, each pending action is written to the new
transport exactly once, and none the replay named, if and only if the pending
actions of the changesets wait in the outbox. -/
theorem delivered_iff_of_reachable {clientId : ClientId}
    {clientTransport transportFactory : Bool} {releaseGraceMs : Int}
    {config : Record String Payload}
    (h : (system clientId clientTransport transportFactory releaseGraceMs max).ReachableVia
      RejectionsReach c) (hstep : c.step (.replayDone config) = some c') :
    c'.Delivered ↔ c.ChangesetsQueued := by
  obtain ⟨issued, hc⟩ := clientInv_of_reachable h
  obtain ⟨outbox, maxSeq, missing, hstate, hdone⟩ : ∃ outbox maxSeq missing,
      c.state = .reconnecting outbox (.applying [] maxSeq missing) ∧
      c' = ({ c with
        serverSeq := maxSeq
        manager := c.manager.markSubscriptionsMissing missing } : ProtocolClient).finishReconnect
          config := by
    cases hstate : c.state with
    | reconnecting outbox attempt =>
      cases attempt with
      | applying actions maxSeq missing =>
        cases actions with
        | nil =>
          simp only [ProtocolClient.step, hstate, Option.some.injEq] at hstep
          exact ⟨outbox, maxSeq, missing, rfl, hstep.symm⟩
        | cons e rest => simp [ProtocolClient.step, hstate] at hstep
      | idle | opening | requested | restoring => simp [ProtocolClient.step, hstate] at hstep
    | connecting | connected | incompatible | closed => simp [ProtocolClient.step, hstate] at hstep
  obtain ⟨c₁, hc₁⟩ : ∃ c₁ : ProtocolClient, c₁ = { c with
    serverSeq := maxSeq, manager := c.manager.markSubscriptionsMissing missing } := ⟨_, rfl⟩
  have hinv₁ : ClientInv max issued c₁ := hc₁ ▸ (hc.markMissing missing).serverSeq maxSeq
  have hstate₁ : c₁.state = .reconnecting outbox (.applying [] maxSeq missing) := by
    rw [hc₁]
    exact hstate
  obtain ⟨c₂, hc₂⟩ : ∃ c₂, c₂ = c₁.dispatchRootConfig config := ⟨_, rfl⟩
  have hinv₂ : ClientInv max issued c₂ := hc₂ ▸ hinv₁.dispatchRootConfig config
  have hqueue : c₂ = { c₁ with state := .reconnecting (outbox ++ [.dispatchAction .root 0
      (.root (.configChanged config false))]) (.applying [] maxSeq missing) } := by
    rw [hc₂]
    unfold dispatchRootConfig ProtocolClient.sendNotification
    rw [hstate₁]
  have hgone : c₂.Gone := (hinv₂.unread [] (by rw [hqueue]; rfl)).2
  have hwritten : c₂.written = [] := hinv₂.unwritten (by rw [hqueue]; rfl)
  rw [hdone, ← hc₁, finishReconnect_eq hstate₁, ← hc₂, delivered_drained hinv₂ hwritten hgone]
  -- The configuration and the missing subscriptions change nothing about changesets.
  obtain ⟨hsubs, hentries⟩ := markSubscriptionsMissing_untracked c.manager missing
  have hmanager : c₂.manager = c.manager.markSubscriptionsMissing missing := by
    rw [hqueue, hc₁]
  have hseqs : ∀ n, n ≠ 0 → (n ∈ seqs c₂.state.outbox ↔ n ∈ seqs c.state.outbox) := by
    intro n hn
    have houtbox : c.state.outbox = outbox := by
      rw [hstate]
      rfl
    have houtbox₂ : c₂.state.outbox = outbox ++ [.dispatchAction .root 0
        (.root (.configChanged config false))] := by
      rw [hqueue]
      rfl
    rw [houtbox₂, houtbox, seqs_append, mem_append]
    refine or_iff_left fun h => hn ?_
    obtain ⟨_, _, hmem⟩ := mem_seqs.mp h
    rw [mem_singleton] at hmem
    exact (ClientMessage.dispatchAction.inj hmem).2.1
  unfold ChangesetsQueued
  rw [hmanager, hsubs]
  constructor
  · intro hqueued resource id hget htracks p hp
    obtain ⟨hlt, _⟩ := hc.ok.inv.mapped resource id hget
    have hpos := Nat.ne_of_gt (hc.held.numbered id hlt p hp).1
    refine (hseqs p.clientSeq hpos).mp (hqueued resource id hget ?_ p ?_)
    · rw [(hentries id).1]
      exact htracks
    · rw [(hentries id).2 htracks]
      exact hp
  · intro hqueued resource id hget htracks p hp
    rw [(hentries id).1] at htracks
    rw [(hentries id).2 htracks] at hp
    obtain ⟨hlt, _⟩ := hc.ok.inv.mapped resource id hget
    have hpos := Nat.ne_of_gt (hc.held.numbered id hlt p hp).1
    exact (hseqs p.clientSeq hpos).mpr (hqueued resource id hget htracks p hp)

/-! ### Two runs -/

def start : ProtocolClient := create "c" true true 30000 10

def someSession : Uri := .session "copilot" "s"

def removal (id : String) : StateAction := .annotations (.removed id)

def annotationsRun : List ClientEvent :=
  [.initialized 0, .manager (.getSubscription (.writeAhead .annotations) (.annotations someSession)),
    .manager (.settleSubscribe 0 (.ok (.writeAhead .annotations ⟨[]⟩, 0))),
    .dispatch (.annotations someSession) (removal "a"),
    .dispatch (.annotations someSession) (removal "b"), .transportClose,
    .dispatch (.annotations someSession) (removal "d"), .attempt, .opened,
    .replay [⟨.annotations someSession, removal "a", 1, some ⟨"c", 1⟩, none⟩] []]

/-- The echoed removal is not resent, the lost one is, and the queued one is flushed. -/
theorem delivered_annotationsRun : ∃ c c' : ProtocolClient,
    (annotationsRun ++ [ClientEvent.replayNext]).foldlM step start = some c ∧
      c.step (.replayDone .empty) = some c' ∧ c'.Delivered ∧
      seqs c'.written = [2, 3, 0] ∧ c'.echoed = [1] := by
  have hrun : (system "c" true true 30000 10).ReachableVia RejectionsReach
      ((annotationsRun.foldlM step start).get rfl) := by
    refine System.ReachableVia.run (.init rfl) annotationsRun (fun e he _ => ?_) rfl
    simp only [annotationsRun, mem_cons, not_mem_nil, or_false] at he
    rcases he with rfl | rfl | rfl | rfl | rfl | rfl | rfl | rfl | rfl | rfl <;> trivial
  have hlast : (system "c" true true 30000 10).ReachableVia RejectionsReach
      (((annotationsRun ++ [ClientEvent.replayNext]).foldlM step start).get rfl) := by
    refine System.ReachableVia.step (i := ClientEvent.replayNext) hrun ?_ rfl
    intro hrejected
    cases hrejected
  refine ⟨_, _, rfl, rfl, (delivered_iff_of_reachable hlast rfl).mpr ?_, by decide, by decide⟩
  intro resource id hget htracks
  have hmem := mem_of_get hget
  change (resource, id) ∈ [(Uri.annotations someSession, 0)] at hmem
  rw [mem_singleton] at hmem
  cases hmem
  cases htracks

def changesetRun : List ClientEvent :=
  [.initialized 0,
    .manager (.getSubscription (.writeAhead .changeset) (.changeset someSession "branch")),
    .manager (.settleSubscribe 0 (.ok (.writeAhead .changeset ⟨.ready, none, [], none⟩, 0))),
    .dispatch (.changeset someSession "branch") (.changeset (.filesReviewChanged ["f"] true)),
    .transportClose, .attempt, .opened, .replay [] []]

/-- The pending action of a changeset is lost with its transport. -/
theorem not_always_delivered : ¬ ∀ c c' : ProtocolClient, ∀ config,
    (system "c" true true 30000 10).Reachable c → c.step (.replayDone config) = some c' →
      c'.Delivered := by
  intro h
  have hrun : (system "c" true true 30000 10).Reachable
      ((changesetRun.foldlM step start).get rfl) :=
    System.Reachable.run (.init rfl) changesetRun rfl
  have honce := (h _ _ .empty hrun rfl).1 (.changeset someSession "branch") 0 (by decide)
    ⟨.changeset someSession "branch", 1, .changeset (.filesReviewChanged ["f"] true)⟩ (by decide)
  revert honce
  decide

end ProtocolClient

end Fumie.AgentHost
