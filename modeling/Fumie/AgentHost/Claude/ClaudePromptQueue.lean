import Fumie.Lib.Runs

/-!
# The prompt queue of a Claude session

Entries, waiters and calls of `next()` are numbered in the order they are made. A call runs
until it is parked on a waiter; once the waiter is completed the call goes on at any later
time, as the promise job that resumes it. The signal in force may be aborted, and replaced.
-/

namespace Fumie.AgentHost.Claude

open Fumie.Lib List

/-- Where a call of `next()` is. -/
inductive Stage where
  | parked (waiter : Nat)
  | done
  | value (entry : Nat)
  deriving DecidableEq

structure NextCall where
  generation : Nat
  stage : Stage
  deriving DecidableEq

structure ClaudePromptQueue where
  toYield : List Nat
  yielded : List Nat
  popped : List Nat
  pendingPromptDeferred : Nat
  generation : Nat
  /-- The number of entries pushed. -/
  pushed : Nat
  /-- The entries whose deferred is settled, in the order they were settled. -/
  settled : List Nat
  /-- The number of waiters made. -/
  waiters : Nat
  completed : List Nat
  aborted : Bool
  /-- `notifyAborted` was called while the signal was aborted. -/
  notified : Bool
  calls : List NextCall
  /-- The entries handed out by calls of `next()`, in order. -/
  delivered : List Nat
  deriving DecidableEq

inductive Action where
  | push
  /-- `next()` of an iterator made in a generation. -/
  | next (generation : Nat)
  /-- A call goes on after its waiter was completed. -/
  | resume (call : Nat)
  | settleHead
  | failAll
  | abort
  | replaceSignal
  | notifyAborted
  | resetForRebind

variable {settled : List Nat} {e waiter : Nat}

namespace ClaudePromptQueue

def new : ClaudePromptQueue where
  toYield := []
  yielded := []
  popped := []
  pendingPromptDeferred := 0
  generation := 0
  pushed := 0
  settled := []
  waiters := 1
  completed := []
  aborted := false
  notified := false
  calls := []
  delivered := []

section

variable (q : ClaudePromptQueue)

def isEmpty (q : ClaudePromptQueue) : Bool := q.toYield.isEmpty && q.yielded.isEmpty

def complete (waiter : Nat) : ClaudePromptQueue :=
  { q with completed := if waiter ∈ q.completed then q.completed else waiter :: q.completed }

/-- A new deferred promise for calls to be parked on. -/
def renewPending : ClaudePromptQueue :=
  { q with pendingPromptDeferred := q.waiters, waiters := q.waiters + 1 }

def settle (settled : List Nat) (entry : Nat) : List Nat :=
  if entry ∈ settled then settled else settled ++ [entry]

def settleAll (entries : List Nat) : ClaudePromptQueue :=
  { q with settled := entries.foldl settle q.settled }

def push : ClaudePromptQueue :=
  ({ q with toYield := q.toYield ++ [q.pushed], pushed := q.pushed + 1 } :
    ClaudePromptQueue).complete q.pendingPromptDeferred

/-- The loop of `next()` up to where the call is parked or returns. -/
def proceed (generation : Nat) : ClaudePromptQueue × Stage :=
  if generation ≠ q.generation ∨ q.aborted = true then (q, .done)
  else
    match q.toYield with
    | entry :: toYield =>
      ({ q with
          toYield := toYield
          yielded := q.yielded ++ [entry]
          delivered := q.delivered ++ [entry] }, .value entry)
    | [] => (q, .parked q.pendingPromptDeferred)

def next (generation : Nat) : ClaudePromptQueue :=
  let after := q.proceed generation
  { after.1 with calls := after.1.calls ++ [⟨generation, after.2⟩] }

def afterWaiting (waiter : Nat) : ClaudePromptQueue :=
  if q.pendingPromptDeferred = waiter then q.renewPending else q

def resume (call : Nat) : Option ClaudePromptQueue :=
  match q.calls[call]? with
  | some ⟨generation, .parked waiter⟩ =>
    if waiter ∈ q.completed then
      let after := (q.afterWaiting waiter).proceed generation
      some { after.1 with calls := after.1.calls.set call ⟨generation, after.2⟩ }
    else none
  | _ => none

def settleHead : ClaudePromptQueue :=
  match q.yielded with
  | [] => q
  | head :: yielded =>
    let shifted := { q with yielded := yielded }
    if shifted.isEmpty then
      { (shifted.settleAll [head]).settleAll q.popped with popped := [] }
    else { shifted with popped := q.popped ++ [head] }

def failAll : ClaudePromptQueue :=
  { ((q.settleAll q.toYield).settleAll q.yielded).settleAll q.popped with
    toYield := []
    yielded := []
    popped := [] }

def notifyAborted : ClaudePromptQueue :=
  { q.complete q.pendingPromptDeferred with notified := q.notified || q.aborted }

def resetForRebind : ClaudePromptQueue :=
  ({ q with generation := q.generation + 1 } : ClaudePromptQueue).renewPending.complete
    q.pendingPromptDeferred

def step : Action → Option ClaudePromptQueue
  | .push => some q.push
  | .next generation => some (q.next generation)
  | .resume call => q.resume call
  | .settleHead => some q.settleHead
  | .failAll => some q.failAll
  | .abort => some { q with aborted := true }
  | .replaceSignal => some { q with aborted := false, notified := false }
  | .notifyAborted => some q.notifyAborted
  | .resetForRebind => some q.resetForRebind

def system : System ClaudePromptQueue Action := .ofStep (· = new) step

/-! ## What is claimed of a queue -/

def listed : List Nat := q.toYield ++ q.yielded ++ q.popped

def Waits (call : NextCall) : Prop := ∃ waiter, call.stage = .parked waiter ∧ waiter ∉ q.completed

end

/-- Every entry stands once in one list until it is settled, and is settled once. -/
structure Conserved (q : ClaudePromptQueue) : Prop where
  listed_once : q.listed.Nodup
  listed_iff : ∀ entry, entry ∈ q.listed ↔ entry < q.pushed ∧ entry ∉ q.settled
  settled_once : q.settled.Nodup
  /-- Entries are numbered in push order. -/
  in_order : (q.delivered ++ q.toYield).Pairwise (· < ·)
  awake : ∀ call ∈ q.calls, q.Waits call → call.generation = q.generation →
    q.toYield = [] ∧ ¬(q.aborted = true ∧ q.notified = true)

structure Entries (q : ClaudePromptQueue) : Prop where
  listed_once : q.listed.Nodup
  listed_iff : ∀ entry, entry ∈ q.listed ↔ entry < q.pushed ∧ entry ∉ q.settled
  settled_once : q.settled.Nodup
  in_order : (q.delivered ++ q.toYield).Pairwise (· < ·)
  settled_lt : ∀ entry ∈ q.settled, entry < q.pushed
  delivered_lt : ∀ entry ∈ q.delivered, entry < q.pushed

/-- Calls are parked on the waiter in force or on completed ones; none waits while there is
something to wake it. -/
structure Wakes (q : ClaudePromptQueue) : Prop where
  notified_aborted : q.notified = true → q.aborted = true
  pending_lt : q.pendingPromptDeferred < q.waiters
  completed_lt : ∀ waiter ∈ q.completed, waiter < q.waiters
  parked : ∀ call ∈ q.calls, ∀ waiter, call.stage = .parked waiter →
    waiter ∈ q.completed ∨ waiter = q.pendingPromptDeferred
  quiet : ∀ call ∈ q.calls, q.Waits call → q.toYield = [] ∧ q.notified = false

variable {q : ClaudePromptQueue}

theorem Entries.conserved (h : q.Entries) (hwakes : q.Wakes) : q.Conserved where
  listed_once := h.listed_once
  listed_iff := h.listed_iff
  settled_once := h.settled_once
  in_order := h.in_order
  awake := by
    intro call hcall hwaits _
    obtain ⟨hempty, hquiet⟩ := hwakes.quiet call hcall hwaits
    refine ⟨hempty, fun hnotified => ?_⟩
    rw [hquiet] at hnotified
    cases hnotified.2

/-! ## Entries -/

theorem mem_settle {entry : Nat} : e ∈ settle settled entry ↔ e ∈ settled ∨ e = entry := by
  unfold settle
  split
  · next hmem =>
    refine ⟨.inl, ?_⟩
    rintro (h | rfl)
    · exact h
    · exact hmem
  · rw [mem_append, mem_singleton]

theorem nodup_settle (entry : Nat) (h : settled.Nodup) : (settle settled entry).Nodup := by
  unfold settle
  split
  · exact h
  · next hnot =>
    refine nodup_append.mpr ⟨h, nodup_singleton entry, fun e he e' he' heq => hnot ?_⟩
    rw [mem_singleton.mp he'] at heq
    exact heq ▸ he

theorem mem_settleAll {entries : List Nat} :
    e ∈ entries.foldl settle settled ↔ e ∈ settled ∨ e ∈ entries := by
  induction entries generalizing settled with
  | nil => exact ⟨.inl, fun h => h.resolve_right not_mem_nil⟩
  | cons entry rest ih => rw [foldl_cons, ih, mem_settle, mem_cons, or_assoc]

theorem nodup_settleAll (entries : List Nat) (h : settled.Nodup) :
    (entries.foldl settle settled).Nodup := by
  induction entries generalizing settled with
  | nil => exact h
  | cons entry rest ih => exact ih (nodup_settle entry h)

variable {q' : ClaudePromptQueue}

theorem Entries.of_lists (h : q.Entries) (hlisted : q'.listed.Nodup)
    (hmem : ∀ entry, entry ∈ q'.listed ↔ entry ∈ q.listed ∧ entry ∉ q'.settled)
    (hsettled : ∀ entry, entry ∈ q'.settled → entry ∈ q.settled ∨ entry ∈ q.listed)
    (hkept : ∀ entry ∈ q.settled, entry ∈ q'.settled) (honce : q'.settled.Nodup)
    (horder : (q'.delivered ++ q'.toYield).Pairwise (· < ·))
    (hdelivered : ∀ entry ∈ q'.delivered, entry ∈ q.delivered ∨ entry ∈ q.listed)
    (hpushed : q'.pushed = q.pushed) : q'.Entries where
  listed_once := hlisted
  listed_iff := by
    intro entry
    rw [hmem, h.listed_iff, hpushed]
    exact ⟨fun ⟨⟨hlt, _⟩, hnot⟩ => ⟨hlt, hnot⟩,
      fun ⟨hlt, hnot⟩ => ⟨⟨hlt, fun hold => hnot (hkept entry hold)⟩, hnot⟩⟩
  settled_once := honce
  in_order := horder
  settled_lt := by
    intro entry hentry
    rw [hpushed]
    rcases hsettled entry hentry with hold | hlisted
    · exact h.settled_lt entry hold
    · exact ((h.listed_iff entry).mp hlisted).1
  delivered_lt := by
    intro entry hentry
    rw [hpushed]
    rcases hdelivered entry hentry with hold | hlisted
    · exact h.delivered_lt entry hold
    · exact ((h.listed_iff entry).mp hlisted).1

theorem Entries.of_perm (h : q.Entries) (hperm : q'.listed.Perm q.listed)
    (hsettled : q'.settled = q.settled)
    (horder : q'.delivered ++ q'.toYield = q.delivered ++ q.toYield)
    (hdelivered : ∀ entry ∈ q'.delivered, entry ∈ q.delivered ∨ entry ∈ q.listed)
    (hpushed : q'.pushed = q.pushed) : q'.Entries := by
  refine h.of_lists (hperm.nodup_iff.mpr h.listed_once) (fun entry => ?_) (fun entry hentry => ?_)
    (fun entry hentry => ?_) ?_ ?_ hdelivered hpushed
  · rw [hperm.mem_iff, hsettled]
    exact ⟨fun hmem => ⟨hmem, ((h.listed_iff entry).mp hmem).2⟩, And.left⟩
  · exact .inl (hsettled ▸ hentry)
  · exact hsettled ▸ hentry
  · rw [hsettled]
    exact h.settled_once
  · rw [horder]
    exact h.in_order

theorem Entries.emptied (h : q.Entries) (hlisted : q'.listed = [])
    (hsettled : ∀ entry, entry ∈ q'.settled ↔ entry ∈ q.settled ∨ entry ∈ q.listed)
    (honce : q'.settled.Nodup) (horder : (q'.delivered ++ q'.toYield).Pairwise (· < ·))
    (hdelivered : q'.delivered = q.delivered) (hpushed : q'.pushed = q.pushed) : q'.Entries := by
  refine h.of_lists (hlisted ▸ nodup_nil) (fun entry => ?_)
    (fun entry hentry => (hsettled entry).mp hentry)
    (fun entry hentry => (hsettled entry).mpr (.inl hentry)) honce horder
    (fun entry hentry => .inl (hdelivered ▸ hentry)) hpushed
  rw [hlisted, hsettled]
  exact ⟨nofun, fun ⟨hmem, hnot⟩ => absurd (.inr hmem) hnot⟩

theorem Entries.push (h : q.Entries) : q.push.Entries := by
  have hperm : (q.toYield ++ [q.pushed] ++ q.yielded ++ q.popped).Perm (q.pushed :: q.listed) := by
    unfold listed
    rw [append_assoc, append_assoc, append_assoc]
    exact perm_middle
  have hfresh : q.pushed ∉ q.listed := fun hmem =>
    Nat.lt_irrefl _ ((h.listed_iff q.pushed).mp hmem).1
  refine ⟨hperm.nodup_iff.mpr (nodup_cons.mpr ⟨hfresh, h.listed_once⟩), fun entry => ?_,
    h.settled_once, ?_, fun entry hentry => ?_, fun entry hentry => ?_⟩
  · show entry ∈ q.toYield ++ [q.pushed] ++ q.yielded ++ q.popped ↔
      entry < q.pushed + 1 ∧ entry ∉ q.settled
    rw [hperm.mem_iff, mem_cons, h.listed_iff]
    constructor
    · rintro (rfl | ⟨hlt, hnot⟩)
      · exact ⟨Nat.lt_succ_self _, fun hmem => Nat.lt_irrefl _ (h.settled_lt _ hmem)⟩
      · exact ⟨Nat.lt_succ_of_lt hlt, hnot⟩
    · rintro ⟨hlt, hnot⟩
      rcases Nat.lt_succ_iff_lt_or_eq.mp hlt with hlt | rfl
      · exact .inr ⟨hlt, hnot⟩
      · exact .inl rfl
  · show (q.delivered ++ (q.toYield ++ [q.pushed])).Pairwise (· < ·)
    rw [← append_assoc, pairwise_append]
    refine ⟨h.in_order, pairwise_singleton _ _, fun e he e' he' => ?_⟩
    rw [mem_singleton.mp he']
    rcases mem_append.mp he with hdelivered | hwaiting
    · exact h.delivered_lt e hdelivered
    · refine ((h.listed_iff e).mp ?_).1
      exact mem_append_left _ (mem_append_left _ hwaiting)
  · exact Nat.lt_succ_of_lt (h.settled_lt entry hentry)
  · exact Nat.lt_succ_of_lt (h.delivered_lt entry hentry)

theorem Entries.proceed (h : q.Entries) (generation : Nat) : (q.proceed generation).1.Entries := by
  unfold ClaudePromptQueue.proceed
  split
  · exact h
  · cases htoYield : q.toYield with
    | nil => exact h
    | cons entry rest =>
      refine h.of_perm ?_ rfl ?_ (fun e he => ?_) rfl
      · show (rest ++ (q.yielded ++ [entry]) ++ q.popped).Perm (q.toYield ++ q.yielded ++ q.popped)
        rw [htoYield]
        refine List.Perm.append_right _ ?_
        rw [← append_assoc]
        exact perm_append_singleton entry (rest ++ q.yielded)
      · rw [htoYield, append_assoc]
        rfl
      · rcases mem_append.mp he with hdelivered | hlast
        · exact .inl hdelivered
        · refine .inr (mem_append_left _ (mem_append_left _ ?_))
          rw [mem_singleton.mp hlast, htoYield]
          exact mem_cons_self

theorem Entries.settleHead (h : q.Entries) : q.settleHead.Entries := by
  unfold ClaudePromptQueue.settleHead
  cases hyielded : q.yielded with
  | nil => exact h
  | cons head rest =>
    dsimp only
    split
    · next hempty =>
      -- nothing is left to be answered: the head and what was popped are settled
      obtain ⟨htoYield, hrest⟩ : q.toYield = [] ∧ rest = [] := by
        unfold isEmpty at hempty
        rw [Bool.and_eq_true, List.isEmpty_iff, List.isEmpty_iff] at hempty
        exact hempty
      have hlisted : q.listed = head :: q.popped := by
        unfold listed
        rw [htoYield, hyielded, hrest]
        rfl
      refine h.emptied ?_ (fun entry => ?_) ?_ h.in_order rfl rfl
      · rw [htoYield, hrest]
        rfl
      · show entry ∈ q.popped.foldl settle ([head].foldl settle q.settled) ↔ _
        rw [mem_settleAll, mem_settleAll, hlisted, List.mem_singleton, List.mem_cons, or_assoc]
      · exact nodup_settleAll _ (nodup_settleAll _ h.settled_once)
    · refine h.of_perm ?_ rfl rfl (fun _ => .inl) rfl
      show (q.toYield ++ rest ++ (q.popped ++ [head])).Perm (q.toYield ++ q.yielded ++ q.popped)
      rw [hyielded, List.append_assoc, List.append_assoc]
      refine List.Perm.append_left _ ?_
      rw [← List.append_assoc]
      exact List.perm_append_singleton head (rest ++ q.popped)

theorem Entries.failAll (h : q.Entries) : q.failAll.Entries := by
  refine h.emptied rfl (fun entry => ?_) ?_ ?_ rfl rfl
  · show entry ∈ q.popped.foldl settle (q.yielded.foldl settle (q.toYield.foldl settle q.settled)) ↔
      entry ∈ q.settled ∨ entry ∈ q.toYield ++ q.yielded ++ q.popped
    rw [mem_settleAll, mem_settleAll, mem_settleAll, mem_append, mem_append, or_assoc,
      or_assoc, or_assoc]
  · exact nodup_settleAll _ (nodup_settleAll _ (nodup_settleAll _ h.settled_once))
  · show (q.delivered ++ []).Pairwise (· < ·)
    rw [append_nil]
    exact (pairwise_append.mp h.in_order).1

theorem Entries.frame (h : q.Entries) (htoYield : q'.toYield = q.toYield)
    (hyielded : q'.yielded = q.yielded) (hpopped : q'.popped = q.popped)
    (hsettled : q'.settled = q.settled) (hdelivered : q'.delivered = q.delivered)
    (hpushed : q'.pushed = q.pushed) : q'.Entries := by
  refine h.of_perm ?_ hsettled ?_ (fun entry hentry => .inl (hdelivered ▸ hentry)) hpushed
  · unfold listed
    rw [htoYield, hyielded, hpopped]
  · rw [hdelivered, htoYield]

/-! ## Waking -/

theorem mem_complete {w : Nat} :
    w ∈ (q.complete waiter).completed ↔ w ∈ q.completed ∨ w = waiter := by
  show w ∈ (if waiter ∈ q.completed then q.completed else waiter :: q.completed) ↔ _
  split
  · next hmem =>
    refine ⟨.inl, ?_⟩
    rintro (h | rfl)
    · exact h
    · exact hmem
  · rw [mem_cons, or_comm]

theorem Wakes.not_waits (h : q.Wakes) (hpending : q.pendingPromptDeferred ∈ q.completed)
    {call : NextCall} (hcall : call ∈ q.calls) : ¬q.Waits call := by
  rintro ⟨waiter, hstage, hnot⟩
  rcases h.parked call hcall waiter hstage with hcompleted | rfl
  · exact hnot hcompleted
  · exact hnot hpending

theorem Wakes.woken (h : q.Wakes) (hcalls : q'.calls = q.calls)
    (hpending : q'.pendingPromptDeferred < q'.waiters) (hwaiters : q.waiters ≤ q'.waiters)
    (hcompleted : ∀ waiter, waiter ∈ q'.completed ↔
      waiter ∈ q.completed ∨ waiter = q.pendingPromptDeferred)
    (hnotified : q'.notified = true → q'.aborted = true) : q'.Wakes := by
  have hparked (call : NextCall) (hcall : call ∈ q'.calls) (waiter : Nat)
      (hstage : call.stage = .parked waiter) : waiter ∈ q'.completed :=
    (hcompleted waiter).mpr (h.parked call (hcalls ▸ hcall) waiter hstage)
  refine ⟨hnotified, hpending, fun waiter hwaiter => ?_,
    fun call hcall waiter hstage => .inl (hparked call hcall waiter hstage),
    fun call hcall ⟨waiter, hstage, hnot⟩ => absurd (hparked call hcall waiter hstage) hnot⟩
  rcases (hcompleted waiter).mp hwaiter with hold | rfl
  · exact lt_of_lt_of_le (h.completed_lt waiter hold) hwaiters
  · exact lt_of_lt_of_le h.pending_lt hwaiters

theorem Wakes.frame (h : q.Wakes) (hcalls : q'.calls = q.calls)
    (hpending : q'.pendingPromptDeferred = q.pendingPromptDeferred)
    (hwaiters : q'.waiters = q.waiters) (hcompleted : q'.completed = q.completed)
    (htoYield : q.toYield = [] → q'.toYield = [])
    (hnotified : q'.notified = true → q.notified = true ∧ q'.aborted = true) : q'.Wakes := by
  refine ⟨fun h => (hnotified h).2, ?_, fun waiter hwaiter => ?_, fun call hcall waiter hstage => ?_,
    fun call hcall ⟨waiter, hstage, hnot⟩ => ?_⟩
  · rw [hpending, hwaiters]
    exact h.pending_lt
  · rw [hwaiters]
    exact h.completed_lt waiter (hcompleted ▸ hwaiter)
  · rw [hcompleted, hpending]
    exact h.parked call (hcalls ▸ hcall) waiter hstage
  · obtain ⟨hempty, hquiet⟩ := h.quiet call (hcalls ▸ hcall) ⟨waiter, hstage, hcompleted ▸ hnot⟩
    refine ⟨htoYield hempty, Bool.eq_false_iff.mpr fun hnow => ?_⟩
    rw [(hnotified hnow).1] at hquiet
    cases hquiet

theorem Wakes.renewPending (h : q.Wakes) (hpending : q.pendingPromptDeferred ∈ q.completed) :
    q.renewPending.Wakes := by
  refine ⟨h.notified_aborted, Nat.lt_succ_self _, fun waiter hwaiter => ?_,
    fun call hcall waiter hstage => ?_, fun call hcall hwaits => ?_⟩
  · exact Nat.lt_succ_of_lt (h.completed_lt waiter hwaiter)
  · rcases h.parked call hcall waiter hstage with hcompleted | rfl
    · exact .inl hcompleted
    · exact .inl hpending
  · exact absurd hwaits (h.not_waits hpending hcall)

theorem Wakes.proceed (h : q.Wakes) (generation : Nat) : (q.proceed generation).1.Wakes := by
  unfold ClaudePromptQueue.proceed
  split
  · exact h
  · cases htoYield : q.toYield with
    | nil => exact h
    | cons entry rest =>
      refine h.frame rfl rfl rfl rfl (fun hempty => ?_) fun hnow => ⟨hnow, h.notified_aborted hnow⟩
      rw [htoYield] at hempty
      cases hempty

theorem proceed_calls (q : ClaudePromptQueue) (generation : Nat) :
    (q.proceed generation).1.calls = q.calls := by
  unfold ClaudePromptQueue.proceed
  split
  · rfl
  · split <;> rfl

variable {generation : Nat}

theorem Wakes.proceed_parked (h : q.Wakes) (hparked : (q.proceed generation).2 = .parked waiter) :
    waiter = (q.proceed generation).1.pendingPromptDeferred ∧
      (q.proceed generation).1.toYield = [] ∧ (q.proceed generation).1.notified = false := by
  unfold ClaudePromptQueue.proceed at hparked ⊢
  split at hparked
  · cases hparked
  · next hrun =>
    rw [if_neg hrun]
    cases htoYield : q.toYield with
    | nil =>
      rw [htoYield] at hparked
      cases hparked
      refine ⟨rfl, htoYield, Bool.eq_false_iff.mpr fun hnotified => ?_⟩
      exact hrun (.inr (h.notified_aborted hnotified))
    | cons entry rest =>
      rw [htoYield] at hparked
      cases hparked

theorem Wakes.called (h : q.Wakes)
    (hq' : { q' with calls := (q.proceed generation).1.calls } = (q.proceed generation).1)
    (hcalls : ∀ call ∈ q'.calls, call ∈ q.calls ∨ call = ⟨generation, (q.proceed generation).2⟩) :
    q'.Wakes := by
  have hafter := h.proceed generation
  have hsame := proceed_calls q generation
  rw [← hq'] at hafter
  refine ⟨hafter.notified_aborted, hafter.pending_lt, hafter.completed_lt,
    fun call hcall waiter hstage => ?_, fun call hcall hwaits => ?_⟩
  · rcases hcalls call hcall with hold | rfl
    · exact hafter.parked call (hsame ▸ hold) waiter hstage
    · obtain ⟨hwaiter, -, -⟩ := h.proceed_parked hstage
      rw [← hq'] at hwaiter
      exact .inr hwaiter
  · rcases hcalls call hcall with hold | rfl
    · exact hafter.quiet call (hsame ▸ hold) hwaits
    · obtain ⟨waiter, hstage, -⟩ := hwaits
      obtain ⟨-, hquiet⟩ := h.proceed_parked hstage
      rw [← hq'] at hquiet
      exact hquiet

/-! ## Runs -/

theorem resume_eq_some {call : Nat} (h : q.resume call = some q') :
    ∃ generation waiter, q.calls[call]? = some ⟨generation, .parked waiter⟩ ∧
      waiter ∈ q.completed ∧ q' = { ((q.afterWaiting waiter).proceed generation).1 with
        calls := ((q.afterWaiting waiter).proceed generation).1.calls.set call
          ⟨generation, ((q.afterWaiting waiter).proceed generation).2⟩ } := by
  unfold resume at h
  split at h
  · next generation waiter hcall =>
    split at h
    · next hcompleted =>
      cases h
      exact ⟨generation, waiter, hcall, hcompleted, rfl⟩
    · cases h
  · cases h

theorem step_kept {q' : ClaudePromptQueue} {a : Action} (h : q.Entries ∧ q.Wakes)
    (hstep : step q a = some q') : q'.Entries ∧ q'.Wakes := by
  obtain ⟨hentries, hwakes⟩ := h
  cases a with
  | push =>
    cases hstep
    refine ⟨hentries.push, hwakes.woken rfl hwakes.pending_lt le_rfl (fun waiter => ?_)
      hwakes.notified_aborted⟩
    exact mem_complete (q := q)
  | next generation =>
    cases hstep
    refine ⟨(hentries.proceed generation).frame rfl rfl rfl rfl rfl rfl,
      hwakes.called rfl fun call hcall => ?_⟩
    rcases mem_append.mp hcall with hold | hlast
    · exact .inl (proceed_calls q generation ▸ hold)
    · exact .inr (mem_singleton.mp hlast)
  | resume call =>
    obtain ⟨generation, waiter, -, hcompleted, rfl⟩ := resume_eq_some hstep
    -- the queue once the waiter has been replaced
    have hrenewed : (q.afterWaiting waiter).Entries ∧ (q.afterWaiting waiter).Wakes := by
      unfold afterWaiting
      split
      · next hpending =>
        exact ⟨hentries.frame rfl rfl rfl rfl rfl rfl, hwakes.renewPending (hpending ▸ hcompleted)⟩
      · exact ⟨hentries, hwakes⟩
    refine ⟨(hrenewed.1.proceed generation).frame rfl rfl rfl rfl rfl rfl,
      hrenewed.2.called rfl fun c hc => ?_⟩
    rcases mem_or_eq_of_mem_set hc with hold | hnew
    · exact .inl (proceed_calls _ generation ▸ hold)
    · exact .inr hnew
  | settleHead =>
    cases hstep
    refine ⟨hentries.settleHead, ?_⟩
    unfold settleHead
    split
    · exact hwakes
    · dsimp only
      split
      · exact hwakes.frame rfl rfl rfl rfl id fun hnow => ⟨hnow, hwakes.notified_aborted hnow⟩
      · exact hwakes.frame rfl rfl rfl rfl id fun hnow => ⟨hnow, hwakes.notified_aborted hnow⟩
  | failAll =>
    cases hstep
    exact ⟨hentries.failAll, hwakes.frame rfl rfl rfl rfl (fun _ => rfl)
      fun hnow => ⟨hnow, hwakes.notified_aborted hnow⟩⟩
  | abort =>
    cases hstep
    exact ⟨hentries.frame rfl rfl rfl rfl rfl rfl,
      hwakes.frame rfl rfl rfl rfl id fun hnow => ⟨hnow, rfl⟩⟩
  | replaceSignal =>
    cases hstep
    refine ⟨hentries.frame rfl rfl rfl rfl rfl rfl, hwakes.frame rfl rfl rfl rfl id fun hnow => ?_⟩
    cases hnow
  | notifyAborted =>
    cases hstep
    refine ⟨hentries.frame rfl rfl rfl rfl rfl rfl,
      hwakes.woken rfl hwakes.pending_lt le_rfl (fun waiter => mem_complete (q := q)) fun hnow => ?_⟩
    rcases (Bool.or_eq_true _ _).mp hnow with hold | hold
    · exact hwakes.notified_aborted hold
    · exact hold
  | resetForRebind =>
    cases hstep
    exact ⟨hentries.frame rfl rfl rfl rfl rfl rfl,
      hwakes.woken rfl (Nat.lt_succ_self _) (Nat.le_succ _) (fun waiter => mem_complete (q := q))
        hwakes.notified_aborted⟩

theorem new_kept : new.Entries ∧ new.Wakes := by
  have hlisted : new.listed = [] := rfl
  refine ⟨⟨nodup_nil, fun entry => ?_, nodup_nil, List.Pairwise.nil, fun entry hentry => ?_,
    fun entry hentry => ?_⟩, ⟨fun h => ?_, Nat.zero_lt_one, fun waiter hwaiter => ?_,
    fun call hcall => ?_, fun call hcall => ?_⟩⟩
  · rw [hlisted]
    exact ⟨nofun, fun h => absurd h.1 (Nat.not_lt_zero entry)⟩
  · cases hentry
  · cases hentry
  · cases h
  · cases hwaiter
  · cases hcall
  · cases hcall

/-- The generation of the iterator whose `next()` runs in a step. -/
def runningGeneration (q : ClaudePromptQueue) : Action → Option Nat
  | .next generation => some generation
  | .resume call => q.calls[call]?.map NextCall.generation
  | _ => none

theorem proceed_earlier (h : generation ≠ q.generation) : q.proceed generation = (q, .done) := by
  unfold proceed
  rw [if_pos (.inl h)]

theorem earlier_takes_nothing {q' : ClaudePromptQueue} {a : Action} {generation : Nat}
    (hstep : step q a = some q') (hruns : q.runningGeneration a = some generation)
    (h : generation ≠ q.generation) :
    q'.toYield = q.toYield ∧ q'.yielded = q.yielded ∧ q'.delivered = q.delivered := by
  cases a with
  | next =>
    cases hruns
    cases hstep
    unfold next
    rw [proceed_earlier h]
    exact ⟨rfl, rfl, rfl⟩
  | resume call =>
    obtain ⟨generation', waiter, hcall, -, rfl⟩ := resume_eq_some hstep
    change q.calls[call]?.map NextCall.generation = some generation at hruns
    rw [hcall] at hruns
    cases hruns
    unfold afterWaiting
    split
    · rw [proceed_earlier (show generation' ≠ q.renewPending.generation from h)]
      exact ⟨rfl, rfl, rfl⟩
    · rw [proceed_earlier h]
      exact ⟨rfl, rfl, rfl⟩
  | push | settleHead | failAll | abort | replaceSignal | notifyAborted | resetForRebind =>
    cases hruns

theorem prompts_conserved {q : ClaudePromptQueue} (h : system.Reachable q) :
    q.Conserved ∧ ∀ a q' generation, step q a = some q' →
      q.runningGeneration a = some generation → generation ≠ q.generation →
      q'.toYield = q.toYield ∧ q'.yielded = q.yielded ∧ q'.delivered = q.delivered := by
  have hkept : q.Entries ∧ q.Wakes := by
    induction h with
    | init hinit =>
      rw [hinit]
      exact new_kept
    | step _ _ hstep ih => exact step_kept ih hstep
  exact ⟨hkept.1.conserved hkept.2,
    fun a q' generation hstep hruns hearlier => earlier_takes_nothing hstep hruns hearlier⟩

/-- A parked call takes the first of two entries, and a later iterator the second. -/
theorem prompts_conserved_sample : ∃ q : ClaudePromptQueue, system.Reachable q ∧
    q.delivered = [0, 1] ∧ q.generation = 1 ∧ q.Conserved := by
  have hrun : ∃ q, system.Reachable q ∧ q.delivered = [0, 1] ∧ q.generation = 1 := by
    refine ⟨_, System.Reachable.run (.init rfl)
      [.next 0, .push, .push, .resume 0, .resetForRebind, .next 1, .next 0] rfl, rfl, rfl⟩
  obtain ⟨q, hreach, hdelivered, hgeneration⟩ := hrun
  exact ⟨q, hreach, hdelivered, hgeneration, (prompts_conserved hreach).1⟩

end ClaudePromptQueue

end Fumie.AgentHost.Claude
