import Fumie.AgentHost.Attribution.Placement

/-!
# The account over whole runs

In runs in which no locked prepare replaces a prepared flush that holds resources, and no
cancel puts back resources of a file whose slot it does not hold, every resource stays in
exactly one place, and a settled token stays settled.
-/

namespace Fumie.AgentHost.EditAttribution

open Fumie.Lib List Record

namespace Store

variable {other rest : TrackedResource → Nat} {s : Store} {held : List TrackedResource}

theorem Placed.focus (h : Placed other s []) (hsum : ∀ r, other r = rest r + held.count r)
    (hkeys : (held.map (·.key)).Nodup) (hfree : ∀ r ∈ held, s.resources.get r.key = none) :
    Placed rest s held where
  placed := by
    intro r
    have hold := h.placed r
    rw [count_nil, hsum r] at hold
    omega
  unique := h.unique
  numbered := h.numbered
  claimed := by
    intro r
    rw [h.claimed r, count_nil, hsum r]
    constructor
    · exact fun hpos => by omega
    · exact fun hpos => by omega
  heldKeys := hkeys
  heldFree := hfree
  preparedKeys := h.preparedKeys
  named := h.named
  unsettled := h.unsettled

theorem Placed.unfocus (h : Placed rest s held) (hsum : ∀ r, other r = rest r + held.count r) :
    Placed other s [] where
  placed := by
    intro r
    have hold := h.placed r
    rw [count_nil, hsum r]
    omega
  unique := h.unique
  numbered := h.numbered
  claimed := by
    intro r
    rw [h.claimed r, count_nil, hsum r]
    constructor
    · exact fun hpos => by omega
    · exact fun hpos => by omega
  heldKeys := nodup_nil
  heldFree := nofun
  preparedKeys := h.preparedKeys
  named := h.named
  unsettled := h.unsettled

end Store

namespace State

/-- The step replaces a prepared flush that holds resources. -/
def Overwrites (s : State) : Event → Prop
  | .runSlot f _ =>
    match s.head f with
    | some (_, task) => s.store.Overwrites task.work
    | none => False
  | _ => False

/-- The step loses no resource out of sight. -/
structure Careful (s : State) (e : Event) : Prop where
  keeps : ¬s.Overwrites e
  stays : ¬s.CancelsElsewhere e

def heldCount (s : State) (r : TrackedResource) : Nat :=
  s.tasks.sumOf fun task => task.work.held.count r

structure Accounted (s : State) : Prop where
  slotted : s.Slotted
  placed : Store.Placed s.heldCount s.store []
  heldKeys : ∀ id task, s.tasks.get id = some task → (task.work.held.map (·.key)).Nodup
  heldFree : ∀ id task, s.tasks.get id = some task →
    ∀ r ∈ task.work.held, s.store.resources.get r.key = none

theorem Accounted.initial : State.initial.Accounted where
  slotted := Slotted.initial
  placed := {
    placed := fun r => rfl
    unique := fun r => Nat.zero_le 1
    numbered := nofun
    claimed := fun r => ⟨nofun, fun h => absurd h (Nat.lt_irrefl 0)⟩
    heldKeys := nodup_nil
    heldFree := nofun
    preparedKeys := nofun
    named := fun n => rfl
    unsettled := nofun }
  heldKeys := nofun
  heldFree := nofun

variable {store : Store} {s : State}

theorem Accounted.outside (h : s.Accounted) (hout : Outside s.store store) :
    ({ s with store := store } : State).Accounted where
  slotted := h.slotted.outside hout
  placed := (hout.move Store.NoneReplaced "" ⟨[], []⟩).keepsPlaced (fun _ _ h => h) h.placed
  heldKeys := h.heldKeys
  heldFree := by
    intro id task hget r hr
    rw [hout.resources]
    exact h.heldFree id task hget r hr

variable {f : FileKey} {work : Work}

theorem heldCount_queue (hnew : s.tasks.get s.nextTask = none) (hheld : work.held = [])
    (r : TrackedResource) : (s.queue f work).heldCount r = s.heldCount r := by
  have hset := sumOf_set_of_none (fun task : Task => task.work.held.count r)
    (⟨f, work⟩ : Task) hnew
  rw [hheld] at hset
  exact hset

theorem Accounted.queue (h : s.Accounted) (hfresh : Fresh f work) : (s.queue f work).Accounted := by
  have hheld := Work.held_of_not_started hfresh.notStarted
  refine ⟨h.slotted.queue hfresh, h.placed.unfocus fun r => ?_, fun id task hget => ?_,
    fun id task hget => ?_⟩
  · rw [heldCount_queue h.slotted.unused hheld, count_nil, Nat.add_zero]
  · rcases get_queue hget with hget | ⟨-, rfl⟩
    · exact h.heldKeys id task hget
    · rw [hheld]
      exact nodup_nil
  · rcases get_queue hget with hget | ⟨-, rfl⟩
    · exact h.heldFree id task hget
    · rw [hheld]
      exact nofun

def heldByOthers (s : State) (id : Nat) (r : TrackedResource) : Nat :=
  (s.tasks.delete id).sumOf fun task => task.work.held.count r

variable {id : Nat} {task : Task}

theorem heldByOthers_add (h : s.tasks.get id = some task) (r : TrackedResource) :
    s.heldByOthers id r + task.work.held.count r = s.heldCount r :=
  sumOf_delete _ h

theorem Accounted.focus (h : s.Accounted) (hget : s.tasks.get id = some task) :
    Store.Placed (s.heldByOthers id) s.store task.work.held :=
  h.placed.focus (fun r => (heldByOthers_add hget r).symm) (h.heldKeys id task hget)
    (h.heldFree id task hget)

theorem Accounted.heldFree_of_other {id' : Nat} {task' : Task} (h : s.Accounted)
    (hhead : s.head f = some (id, task)) (hkept : s.store.OthersKept f store) (hne : id' ≠ id)
    (hget : s.tasks.get id' = some task') :
    ∀ r ∈ task'.work.held, store.resources.get r.key = none := by
  intro r hr
  have hstarted : task'.work.Started := by
    by_contra hnot
    rw [Work.held_of_not_started hnot] at hr
    exact absurd hr not_mem_nil
  have hfile : r.key.fileKey ≠ f := by
    rw [(h.slotted.filed id' task' hget).held r hr]
    exact h.slotted.other_file hhead hne hget hstarted
  rw [hkept r.key hfile]
  exact h.heldFree id' task' hget r hr

theorem Accounted.goOn (h : s.Accounted) (hhead : s.head f = some (id, task))
    (hslotted : (s.advance id task store (.goOn work)).Slotted) (hkept : s.store.OthersKept f store)
    (hplaced : Store.Placed (s.heldByOthers id) store work.held) :
    (s.advance id task store (.goOn work)).Accounted := by
  obtain ⟨hget, rfl⟩ := mem_of_head hhead
  refine ⟨hslotted, hplaced.unfocus fun r => ?_, fun id' task' h' => ?_, fun id' task' h' => ?_⟩
  · have hset : (s.advance id task store (.goOn work)).heldCount r + task.work.held.count r =
        s.heldCount r + work.held.count r := sumOf_set _ _ hget
    have hold := heldByOthers_add hget r
    omega
  · have hget' : (s.tasks.set id { task with work := work }).get id' = some task' := h'
    rw [get_set] at hget'
    split at hget'
    · cases hget'
      exact hplaced.heldKeys
    · exact h.heldKeys id' task' hget'
  · have hget' : (s.tasks.set id { task with work := work }).get id' = some task' := h'
    rw [get_set] at hget'
    split at hget'
    · cases hget'
      exact hplaced.heldFree
    · next hne => exact h.heldFree_of_other hhead hkept (Ne.symm hne) hget'

theorem Accounted.ended {fulfilled : Bool} (h : s.Accounted) (hhead : s.head f = some (id, task))
    (hslotted : (s.advance id task store (.ended fulfilled)).Slotted)
    (hkept : s.store.OthersKept f store) (hplaced : Store.Placed (s.heldByOthers id) store []) :
    (s.advance id task store (.ended fulfilled)).Accounted := by
  refine ⟨hslotted, hplaced, fun id' task' h' => ?_, fun id' task' h' => ?_⟩
  · exact h.heldKeys id' task' (Store.get_of_delete h')
  · have hget' : (s.tasks.delete id).get id' = some task' := h'
    rw [get_delete] at hget'
    split at hget'
    · cases hget'
    · next hne => exact h.heldFree_of_other hhead hkept (Ne.symm hne) hget'

theorem Accounted.advance {next : Next} {ok : Store → PreparedFlush → Prop} (h : s.Accounted)
    (hhead : s.head f = some (id, task)) (hok : ∀ s p, ok s p → Store.NoneReplaced s p)
    (hmoves : Store.Moves ok f (s.store, task.work.holding) (store, next.holding))
    (hfits : next.Fits s.store store f task.work) : (s.advance id task store next).Accounted := by
  obtain ⟨hget, hfile⟩ := mem_of_head hhead
  have hstart := h.slotted.inFiles hget
  rw [hfile] at hstart
  obtain ⟨hin, hkept⟩ := hmoves.inFiles hstart
  have hplaced := hmoves.keepsPlaced hok (h.focus hget)
  cases next with
  | goOn work => exact h.goOn hhead (h.slotted.advance hhead hmoves hfits) hkept hplaced
  | ended fulfilled => exact h.ended hhead (h.slotted.advance hhead hmoves hfits) hkept hplaced
  | await edit r =>
    obtain ⟨-, -, hedit, -⟩ := hfits
    let work : Work := .recordEdit edit (.waitingForSlot r.key.fileKey s.nextTask)
    have hfiled : work.FiledUnder f := ⟨hedit, nofun⟩
    have hwaiting : (s.advance id task store (.goOn work)).Accounted :=
      h.goOn hhead (h.slotted.goOn hhead hin hkept hfiled trivial) hkept hplaced
    exact hwaiting.queue ⟨rfl, nofun⟩

theorem noneReplaced_of_stores {o : Outcome} (hhead : s.head f = some (id, task))
    (h : ¬s.Overwrites (.runSlot f o)) (taken : Store) (p : PreparedFlush)
    (hstores : s.store.Stores id task.work taken p) : taken.NoneReplaced p := by
  intro q hq
  unfold Overwrites at h
  dsimp only at h
  rw [hhead] at h
  rw [hstores.preparedFlushes] at hq
  by_contra hne
  exact h (hstores.overwrites hq hne)

theorem Accounted.step {t : State} {e : Event} (h : s.Accounted) (hcareful : s.Careful e)
    (hstep : s.step e = some t) : t.Accounted := by
  refine step_invariant Careful (fun s store h hout => h.outside hout)
    (fun s f work h hfresh => h.queue hfresh) ?_ s e t h hcareful hstep
  intro s f o id task store next h hcareful hhead hsection
  obtain ⟨hmoves, hfits⟩ := h.slotted.slot (noneReplaced_of_stores hhead hcareful.keeps)
    (not_cancelsElsewhere hhead hcareful.stays) hhead hsection
  exact h.advance hhead (fun _ _ h => h) hmoves hfits

theorem Accounted.of_reachable (h : system.ReachableVia Careful s) : s.Accounted := by
  refine h.invariant ?_ fun s e t hs hok hstep => hs.step hok hstep
  rintro s rfl
  exact Accounted.initial

/-! ## The places -/

def heldResources (s : State) : List TrackedResource := s.tasks.entries.flatMap fun e => e.2.work.held

def preparedResources (s : State) : List TrackedResource :=
  s.store.preparedFlushes.entries.flatMap fun e => e.2.resources

def emittedResources (s : State) : List TrackedResource :=
  s.store.emitted.flatMap fun e => e.1.resources

def places (s : State) : List TrackedResource :=
  s.liveResources ++ s.heldResources ++ s.preparedResources ++ s.emittedResources

structure Settled (s : State) (flushToken : String) (result : FlushResult) : Prop where
  prepare : ∀ params : PrepareParams, params.flushToken = flushToken → (s.prepareFlush params).1 = s
  commit : s.commitFlush flushToken = (s, some result)
  cancel : s.cancelFlush flushToken = (s, some result)
  /-- A prepare, a commit or a cancel that was queued before the token was settled. -/
  queuedPrepare : ∀ identity params acks done, params.flushToken = flushToken →
    (s.store.finishPrepare identity params acks done).preparedFlushes = s.store.preparedFlushes ∧
      (s.store.finishPrepare identity params acks done).emitted = s.store.emitted
  queuedCommit : s.store.commitFlushNow (.client flushToken) = (s.store, result)
  queuedCancel : s.store.cancelFlushNow (.client flushToken) = (s.store, result)

structure NothingLost (s : State) : Prop where
  once : ∀ r ∈ s.store.created, s.places.count r = 1
  claimed : ∀ r, r ∈ s.store.claimedResources ↔ r ∈ s.heldResources ∨ r ∈ s.preparedResources
  settled : ∀ flushToken result time,
    s.store.settledFlushes.get (.client flushToken) = some (result, time) →
      s.Settled flushToken result

theorem count_flatMap_entries {κ : Type} [DecidableEq κ] {α : Type} (rec : Record κ α)
    (f : α → List TrackedResource) (r : TrackedResource) :
    (rec.entries.flatMap fun e => f e.2).count r = rec.sumOf fun a => (f a).count r := by
  rw [count_flatMap]
  rfl

theorem liveResources_count (s : State) (r : TrackedResource) :
    s.liveResources.count r = s.store.liveCount r := by
  unfold liveResources Store.liveCount sumOf
  induction s.store.resources.entries with
  | nil => rfl
  | cons e rest ih =>
    rw [map_cons, Store.count_cons_eq, ih, map_cons, sum_cons, Nat.add_comm]

theorem heldResources_count (s : State) (r : TrackedResource) :
    s.heldResources.count r = s.heldCount r :=
  count_flatMap_entries s.tasks (fun task => task.work.held) r

theorem preparedResources_count (s : State) (r : TrackedResource) :
    s.preparedResources.count r = s.store.preparedCount r :=
  count_flatMap_entries s.store.preparedFlushes (·.resources) r

theorem places_count (s : State) (r : TrackedResource) :
    s.places.count r = s.store.liveCount r + s.heldCount r + s.store.preparedCount r +
      s.store.emittedCount r := by
  unfold places
  rw [count_append, count_append, count_append, liveResources_count,
    heldResources_count, preparedResources_count]
  unfold emittedResources
  rw [count_flatMap]
  rfl

theorem Accounted.settled (h : s.Accounted) {flushToken : String} {result : FlushResult}
    {time : Nat} (hsettled : s.store.settledFlushes.get (.client flushToken) = some (result, time)) :
    s.Settled flushToken result := by
  have hnone := h.placed.unsettled _ _ hsettled
  refine ⟨?_, ?_, ?_, ?_, ?_, ?_⟩
  · rintro params rfl
    unfold prepareFlush
    dsimp only
    split
    · rfl
    · split
      · rfl
      · rw [hnone]
        rw [hsettled]
        rfl
  · unfold commitFlush Store.settledResult
    rw [hnone, hsettled]
    rfl
  · unfold cancelFlush
    rw [hsettled]
  · rintro identity params acks done rfl
    unfold Store.finishPrepare
    dsimp only
    split
    · exact ⟨rfl, rfl⟩
    · rw [if_pos]
      · rw [Store.restoreStandaloneAcknowledgements_eq, Store.restoreResources_eq]
        exact ⟨rfl, rfl⟩
      · show (s.store.settledFlushes.get _).isSome = true
        rw [hsettled]
        rfl
  · unfold Store.commitFlushNow Store.settledResult
    rw [hnone, hsettled]
    rfl
  · unfold Store.cancelFlushNow
    rw [hsettled]

def preparedTwice : List Event :=
  recorded "a" ++ [editBy "ahp:/s" "a", .prepareFlush ⟨"a", "t", false⟩, editBy "ahp:/s" "a",
    .prepareSettles "t" 2, .prepareFlush ⟨"a", "t", false⟩] ++ sections "a" 14

end State

end Fumie.AgentHost.EditAttribution
