import Fumie.AgentHost.Attribution.Slots

/-!
# The queues of the slots

How queueing a task and running one changes who holds a slot, and the rule by which an
invariant of the service is proved: it is kept by a change of the collections outside the
slots, by queueing a new task, and by a section of a task that holds its slot.
-/

namespace Fumie.AgentHost.EditAttribution

open Fumie.Lib List Record Store

namespace State

/-! ## Who holds a slot -/

variable {s : State} {f : FileKey} {id : Nat} {task : Task}

theorem mem_of_head (h : s.head f = some (id, task)) :
    s.tasks.get id = some task ∧ task.fileKey = f := by
  have hfile : task.fileKey = f := by simpa using find?_some h
  exact ⟨Record.get_of_mem (mem_of_find?_eq_some h), hfile⟩

variable {work : Work} {x : Nat × Task} {g : FileKey}

theorem head_queue (hnew : s.tasks.get s.nextTask = none) (h : s.head g = some x) :
    (s.queue f work).head g = some x := by
  show (s.tasks.set s.nextTask ⟨f, work⟩).entries.find? _ = _
  rw [entries_set_of_none _ hnew, find?_append]
  unfold head at h
  rw [h]
  rfl

theorem head_set (hget : s.tasks.get id = some task) (h : s.head g = some x) :
    (s.tasks.set id { task with work := work }).entries.find? (fun e => e.2.fileKey = g) =
      some (if x.1 = id then (id, { task with work := work }) else x) := by
  obtain ⟨pre, post, hsplit, hpre, hpost⟩ := entries_split hget
  unfold head at h
  show (setEntries _ _ s.tasks.entries).find? _ = _
  rw [hsplit, setEntries_split hpre]
  rw [hsplit] at h
  rw [find?_append] at h ⊢
  cases hfound : pre.find? (fun e => e.2.fileKey = g) with
  | some y =>
    rw [hfound] at h
    cases h
    have hmem := mem_of_find?_eq_some hfound
    have hne : x.1 ≠ id := fun heq => hpre (heq ▸ mem_map_of_mem hmem)
    rw [if_neg hne]
    rfl
  | none =>
    rw [hfound, Option.none_or] at h
    rw [Option.none_or]
    by_cases hfile : task.fileKey = g
    · rw [find?_cons_of_pos (by simpa using hfile)] at h ⊢
      cases h
      rw [if_pos rfl]
    · rw [find?_cons_of_neg (by simpa using hfile)] at h ⊢
      have hmem := mem_of_find?_eq_some h
      have hne : x.1 ≠ id := fun heq => hpost (heq ▸ mem_map_of_mem hmem)
      rw [if_neg hne]
      exact h

theorem head_delete (hget : s.tasks.get id = some task) (hfile : task.fileKey ≠ g)
    (h : s.head g = some x) :
    (s.tasks.delete id).entries.find? (fun e => e.2.fileKey = g) = some x := by
  obtain ⟨pre, post, hsplit, hpre, hpost⟩ := entries_split hget
  unfold head at h
  show (s.tasks.entries.filter fun e => e.1 ≠ id).find? _ = _
  rw [hsplit, filter_ne_split hpre hpost]
  rw [hsplit, find?_append, find?_cons_of_neg (by simpa using hfile)] at h
  rw [find?_append]
  exact h

/-! ## Steps -/

structure Fresh (f : FileKey) (work : Work) : Prop where
  filed : work.FiledUnder f
  notStarted : ¬work.Started

/-- What an operation does to the collections while it holds no slot. -/
def Outside (s t : Store) : Prop :=
  Store.SameCollections s t ∨
    (∃ token result, s.preparedFlushes.get token = none ∧ t = s.recordSettledFlush token result) ∨
    ∃ now, t = s.forget now

theorem Outside.move {s t : Store} (h : Outside s t) (ok : Store → PreparedFlush → Prop)
    (f : FileKey) (held : Store.Holding) : Store.Move ok f (s, held) (t, held) := by
  rcases h with h | ⟨token, result, hnone, rfl⟩ | ⟨now, rfl⟩
  · exact .quiet h
  · exact .settle token result hnone
  · exact .forget now

theorem Outside.resources {s t : Store} (h : Outside s t) : t.resources = s.resources := by
  rcases h with h | ⟨token, result, -, rfl⟩ | ⟨now, rfl⟩
  · exact h.resources
  · obtain ⟨settled, -, heq⟩ := recordSettledFlush_eq s token result
    rw [heq]
  · rfl

theorem step_invariant {inv : State → Prop} (ok : State → Event → Prop)
    (houtside : ∀ s store, inv s → Outside s.store store → inv { s with store := store })
    (hqueue : ∀ s f work, inv s → Fresh f work → inv (s.queue f work))
    (hslot : ∀ s f o id task store next, inv s → ok s (.runSlot f o) → s.head f = some (id, task) →
      s.store.runSection s.finished.get id o task.work = some (store, next) →
      inv (s.advance id task store next))
    (s : State) (e : Event) (t : State) (hs : inv s) (hok : ok s e) (h : s.step e = some t) :
    inv t := by
  have hqueueAll : ∀ (rs : List TrackedResource) (s : State), inv s → inv (s.flushResources rs) := by
    intro rs
    induction rs with
    | nil => exact fun s hs => hs
    | cons r rest ih => exact fun s hs => ih _ (hqueue _ _ _ hs ⟨rfl, nofun⟩)
  have hexpireAll : ∀ (now : Nat) (old : List (Token × PreparedFlush)) (s : State), inv s →
      inv (old.foldl (fun t e => t.queue e.2.fileKey (.expirePreparedFlush e.1 e.2 now)) s) := by
    intro now old
    induction old with
    | nil => exact fun s hs => hs
    | cons e rest ih => exact fun s hs => ih _ (hqueue _ _ _ hs ⟨rfl, fun h => h⟩)
  have hquiet : ∀ (s : State) store, inv s → Store.SameCollections s.store store →
      inv { s with store := store } := fun s store hs hsame => houtside s store hs (.inl hsame)
  cases e with
  | recordEdit edit =>
    cases h
    refine hqueue _ _ _ hs ⟨⟨rfl, fun r hr => ?_⟩, fun h => h⟩
    exact absurd hr not_mem_nil
  | flushSession _ | flushAll | checkGitState _ =>
    cases h
    exact hqueueAll _ s hs
  | prepareFlush params =>
    cases h
    unfold prepareFlush
    dsimp only
    split
    · exact hs
    · split
      · exact hs
      · split
        · exact hs
        · split
          · exact hs
          · have hpreparing := hquiet s { s.store with
              preparingFlushes := s.store.preparingFlushes.set (.client params.flushToken)
                s.nextTask } hs
              ⟨rfl, rfl, rfl, rfl, rfl, rfl, rfl, rfl, rfl, rfl, rfl, rfl, rfl⟩
            refine hqueue _ _ _ hpreparing ⟨⟨rfl, fun r hr => ?_⟩, fun h => h⟩
            exact absurd hr not_mem_nil
  | prepareSettles flushToken call =>
    cases h
    unfold prepareSettles
    split
    · exact hquiet s _ hs ⟨rfl, rfl, rfl, rfl, rfl, rfl, rfl, rfl, rfl, rfl, rfl, rfl, rfl⟩
    · exact hs
  | commitFlush flushToken =>
    cases h
    unfold commitFlush
    split
    · exact hs
    · exact hqueue _ _ _ hs ⟨trivial, fun h => h⟩
  | cancelFlush flushToken =>
    cases h
    unfold cancelFlush
    split
    · exact hs
    · split
      · next hnone => exact houtside s _ hs (.inr (.inl ⟨_, _, hnone, rfl⟩))
      · exact hqueue _ _ _ hs ⟨trivial, fun h => h⟩
  | expireFlushState =>
    cases h
    exact hexpireAll _ _ s hs
  | forget now =>
    rw [step] at h
    split at h
    · cases h
      exact houtside s _ hs (.inr (.inr ⟨now, rfl⟩))
    · cases h
  | elapse milliseconds =>
    cases h
    exact hquiet s _ hs ⟨rfl, rfl, rfl, rfl, rfl, rfl, rfl, rfl, rfl, rfl, rfl, rfl, rfl⟩
  | runSlot f o =>
    rw [step, runSlot] at h
    split at h
    · cases h
    · next id task hhead =>
      obtain ⟨⟨store, next⟩, hsection, rfl⟩ := Option.map_eq_some_iff.mp h
      exact hslot s f o id task store next hs hok hhead hsection

/-! ## The invariant of the slots -/

/-- The tasks are numbered in the order they were queued, only the first of a file is
past its first section, and each is about its own file. -/
structure Slotted (s : State) : Prop where
  numbered : ∀ id task, s.tasks.get id = some task → id < s.nextTask
  started : ∀ id task, s.tasks.get id = some task → task.work.Started →
    s.head task.fileKey = some (id, task)
  filed : ∀ id task, s.tasks.get id = some task → task.work.FiledUnder task.fileKey
  upToDate : ∀ id task, s.tasks.get id = some task → task.work.UpToDate s.store
  keyed : s.store.Keyed
  prepared : ∀ token p, s.store.preparedFlushes.get token = some p →
    ∀ r ∈ p.resources, r.key.fileKey = p.fileKey

theorem Slotted.initial : State.initial.Slotted where
  numbered := nofun
  started := nofun
  filed := nofun
  upToDate := nofun
  keyed := nofun
  prepared := nofun

theorem Slotted.unused {s : State} (h : s.Slotted) : s.tasks.get s.nextTask = none := by
  cases hget : s.tasks.get s.nextTask with
  | none => rfl
  | some task => exact absurd (h.numbered _ _ hget) (Nat.lt_irrefl _)

theorem Slotted.inFiles (h : s.Slotted) (hget : s.tasks.get id = some task) :
    s.store.InFiles task.fileKey task.work.holding :=
  ⟨h.keyed, h.prepared, (h.filed id task hget).held⟩

theorem get_queue (h : (s.queue f work).tasks.get id = some task) :
    s.tasks.get id = some task ∨ id = s.nextTask ∧ task = ⟨f, work⟩ := by
  have h' : (s.tasks.set s.nextTask ⟨f, work⟩).get id = some task := h
  rw [get_set] at h'
  split at h'
  · next hid =>
    cases h'
    exact .inr ⟨hid.symm, rfl⟩
  · exact .inl h'

theorem Slotted.other_file {id' : Nat} {task' : Task} (h : s.Slotted)
    (hhead : s.head f = some (id, task)) (hne : id' ≠ id) (hget : s.tasks.get id' = some task')
    (hstarted : task'.work.Started) : task'.fileKey ≠ f := by
  rintro rfl
  have hhead' := h.started id' task' hget hstarted
  rw [hhead] at hhead'
  cases hhead'
  exact hne rfl

variable {store : Store}

theorem Slotted.upToDate_of_other {id' : Nat} {task' : Task} (h : s.Slotted)
    (hhead : s.head f = some (id, task)) (hkept : s.store.OthersKept f store) (hne : id' ≠ id)
    (hget : s.tasks.get id' = some task') : task'.work.UpToDate store := by
  by_cases hstarted : task'.work.Started
  · have hfile := h.other_file hhead hne hget hstarted
    exact (h.upToDate id' task' hget).others (h.filed id' task' hget) hfile hkept
  · exact Work.upToDate_of_not_started hstarted store

theorem Slotted.outside (h : s.Slotted) (hout : Outside s.store store) :
    ({ s with store := store } : State).Slotted := by
  have hin := (hout.move (fun _ _ => True) "" ⟨[], []⟩).inFiles ⟨h.keyed, h.prepared, nofun⟩
  refine ⟨h.numbered, h.started, h.filed, fun id task hget => ?_, hin.1.keyed, hin.1.prepared⟩
  refine (h.upToDate id task hget).of_kept (h.filed id task hget) fun key _ => ?_
  rw [hout.resources]

theorem Slotted.queue (h : s.Slotted) (hfresh : Fresh f work) : (s.queue f work).Slotted where
  numbered := by
    intro id task hget
    rcases get_queue hget with hget | ⟨rfl, -⟩
    · exact Nat.lt_succ_of_lt (h.numbered id task hget)
    · exact Nat.lt_succ_self _
  started := by
    intro id task hget hstarted
    rcases get_queue hget with hget | ⟨-, rfl⟩
    · exact head_queue h.unused (h.started id task hget hstarted)
    · exact absurd hstarted hfresh.notStarted
  filed := by
    intro id task hget
    rcases get_queue hget with hget | ⟨-, rfl⟩
    · exact h.filed id task hget
    · exact hfresh.filed
  upToDate := by
    intro id task hget
    rcases get_queue hget with hget | ⟨-, rfl⟩
    · exact h.upToDate id task hget
    · exact Work.upToDate_of_not_started hfresh.notStarted s.store
  keyed := h.keyed
  prepared := h.prepared

theorem Slotted.goOn (h : s.Slotted) (hhead : s.head f = some (id, task))
    (hin : store.InFiles f work.holding) (hkept : s.store.OthersKept f store)
    (hfiled : work.FiledUnder f) (hcurrent : work.UpToDate store) :
    (s.advance id task store (.goOn work)).Slotted := by
  obtain ⟨hget, rfl⟩ := mem_of_head hhead
  have hcases : ∀ id' task', (s.tasks.set id { task with work := work }).get id' = some task' →
      id' = id ∧ task' = { task with work := work } ∨ id' ≠ id ∧ s.tasks.get id' = some task' := by
    intro id' task' h'
    rw [get_set] at h'
    split at h'
    · next hid =>
      cases h'
      exact .inl ⟨hid.symm, rfl⟩
    · next hid => exact .inr ⟨Ne.symm hid, h'⟩
  refine ⟨fun id' task' h' => ?_, fun id' task' h' hstarted => ?_, fun id' task' h' => ?_,
    fun id' task' h' => ?_, hin.keyed, hin.prepared⟩
  · rcases hcases id' task' h' with ⟨rfl, rfl⟩ | ⟨-, h'⟩
    · exact h.numbered id' task hget
    · exact h.numbered id' task' h'
  · rcases hcases id' task' h' with ⟨rfl, rfl⟩ | ⟨hne, h'⟩
    · show (s.tasks.set id' { task with work := work }).entries.find? _ = _
      rw [head_set hget hhead, if_pos rfl]
    · show (s.tasks.set id { task with work := work }).entries.find? _ = _
      rw [head_set hget (h.started id' task' h' hstarted), if_neg hne]
  · rcases hcases id' task' h' with ⟨rfl, rfl⟩ | ⟨-, h'⟩
    · exact hfiled
    · exact h.filed id' task' h'
  · rcases hcases id' task' h' with ⟨rfl, rfl⟩ | ⟨hne, h'⟩
    · exact hcurrent
    · exact h.upToDate_of_other hhead hkept hne h'

theorem Slotted.ended {fulfilled : Bool} (h : s.Slotted) (hhead : s.head f = some (id, task))
    (hin : store.InFiles f ⟨[], []⟩) (hkept : s.store.OthersKept f store) :
    (s.advance id task store (.ended fulfilled)).Slotted := by
  obtain ⟨hget, rfl⟩ := mem_of_head hhead
  have hcases : ∀ id' task', (s.tasks.delete id).get id' = some task' →
      id' ≠ id ∧ s.tasks.get id' = some task' := by
    intro id' task' h'
    rw [get_delete] at h'
    split at h'
    · cases h'
    · next hid => exact ⟨Ne.symm hid, h'⟩
  refine ⟨fun id' task' h' => h.numbered id' task' (hcases id' task' h').2,
    fun id' task' h' hstarted => ?_, fun id' task' h' => h.filed id' task' (hcases id' task' h').2,
    fun id' task' h' => ?_, hin.keyed, hin.prepared⟩
  · obtain ⟨hne, h'⟩ := hcases id' task' h'
    have hfile := h.other_file hhead hne h' hstarted
    exact head_delete hget hfile.symm (h.started id' task' h' hstarted)
  · obtain ⟨hne, h'⟩ := hcases id' task' h'
    exact h.upToDate_of_other hhead hkept hne h'

variable {ok : Store → PreparedFlush → Prop}

theorem Slotted.slot {o : Outcome} {next : Next} (h : s.Slotted)
    (hok : ∀ taken p, s.store.Stores id task.work taken p → ok taken p)
    (hhome : ¬s.store.CancelsElsewhere f task.work) (hhead : s.head f = some (id, task))
    (hsection : s.store.runSection s.finished.get id o task.work = some (store, next)) :
    Store.Moves ok f (s.store, task.work.holding) (store, next.holding) ∧
      next.Fits s.store store f task.work := by
  obtain ⟨hget, rfl⟩ := mem_of_head hhead
  exact ⟨runSection_moves (h.filed id task hget) (h.upToDate id task hget) h.keyed hok hhome
    hsection, runSection_fits (h.filed id task hget) (h.upToDate id task hget) h.keyed
    hsection⟩

theorem Slotted.advance {next : Next} (h : s.Slotted) (hhead : s.head f = some (id, task))
    (hmoves : Store.Moves ok f (s.store, task.work.holding) (store, next.holding))
    (hfits : next.Fits s.store store f task.work) : (s.advance id task store next).Slotted := by
  obtain ⟨hget, hfile⟩ := mem_of_head hhead
  have hstart := h.inFiles hget
  rw [hfile] at hstart
  obtain ⟨hin, hkept⟩ := hmoves.inFiles hstart
  cases next with
  | goOn work => exact h.goOn hhead hin hkept hfits.1 hfits.2.1
  | ended fulfilled => exact h.ended hhead hin hkept
  | await edit r =>
    obtain ⟨-, -, hedit, -⟩ := hfits
    let work : Work := .recordEdit edit (.waitingForSlot r.key.fileKey s.nextTask)
    have hfiled : work.FiledUnder f := ⟨hedit, fun a ha => absurd ha not_mem_nil⟩
    have hwaiting : (s.advance id task store (.goOn work)).Slotted :=
      h.goOn hhead hin hkept hfiled trivial
    exact hwaiting.queue ⟨rfl, nofun⟩

end State

end Fumie.AgentHost.EditAttribution
