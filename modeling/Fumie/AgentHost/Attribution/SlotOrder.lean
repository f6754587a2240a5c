import Fumie.AgentHost.Attribution.SlotQueues

/-!
# Waiting for another file's slot

An edit at the capacity limit may wait for the slot of another file while it holds its
own. It does so only when its own file has no live resource, and nothing brings one back
before it goes on, so a later edit never comes to wait for its slot. Slots that are
waited for are therefore reached in the order of time, and nobody waits in a circle, as
long as no cancel puts back resources of a file whose slot it does not hold.
-/

namespace Fumie.AgentHost.EditAttribution

open Fumie.Lib Record OrderDual Prod.Lex

namespace State

def HoldsAndAwaits (s : State) (a : Nat) (f g : FileKey) (x : Nat) : Prop :=
  ∃ task, s.head f = some (a, task) ∧ task.work.awaits = some (g, x)

def WaitsFor (s : State) (a b : Nat) : Prop :=
  ∃ f g x f' g' y, s.HoldsAndAwaits a f g x ∧ s.HoldsAndAwaits b f' g' y ∧ (f' = g ∨ g' = g ∧ y < x)

def CancelsElsewhere (s : State) : Event → Prop
  | .runSlot f _ =>
    match s.head f with
    | some (_, task) => s.store.CancelsElsewhere f task.work
    | none => False
  | _ => False

variable {s : State} {f : FileKey} {task : Task}

theorem not_cancelsElsewhere {o : Outcome} {id : Nat} (hhead : s.head f = some (id, task))
    (h : ¬s.CancelsElsewhere (.runSlot f o)) : ¬s.store.CancelsElsewhere f task.work := by
  unfold CancelsElsewhere at h
  dsimp only at h
  rw [hhead] at h
  exact h

def Awaiting (s : State) (a : Nat) (f g : FileKey) (x : Nat) : Prop :=
  ∃ task, s.tasks.get a = some task ∧ task.fileKey = f ∧ task.work.awaits = some (g, x)

variable {a x : Nat} {g : FileKey}

theorem HoldsAndAwaits.awaiting (h : s.HoldsAndAwaits a f g x) : s.Awaiting a f g x := by
  obtain ⟨task, hhead, hawaits⟩ := h
  obtain ⟨hget, hfile⟩ := mem_of_head hhead
  exact ⟨task, hget, hfile, hawaits⟩

/-- While a task waits for another slot its own file has no live resource, and whoever it
waits for began to wait later. -/
structure Ordered (s : State) : Prop where
  slotted : s.Slotted
  free : ∀ a f g x, s.Awaiting a f g x →
    ∀ key r, s.store.resources.get key = some r → key.fileKey ≠ f
  later : ∀ a f g x b g' y, s.Awaiting a f g x → s.Awaiting b g g' y → x < y
  issued : ∀ a f g x, s.Awaiting a f g x → x < s.nextTask

theorem Ordered.initial : State.initial.Ordered where
  slotted := Slotted.initial
  free := nofun
  later := nofun
  issued := nofun

theorem Ordered.outside {store : Store} (h : s.Ordered) (hout : Outside s.store store) :
    ({ s with store := store } : State).Ordered where
  slotted := h.slotted.outside hout
  free := by
    intro a f g x ha key r hr
    rw [hout.resources] at hr
    exact h.free a f g x ha key r hr
  later := h.later
  issued := h.issued

theorem Awaiting.of_queue {work : Work} (hfresh : Fresh f work) {f' : FileKey}
    (h : (s.queue f work).Awaiting a f' g x) : s.Awaiting a f' g x := by
  obtain ⟨task, hget, hfile, hawaits⟩ := h
  rcases get_queue hget with hget | ⟨-, rfl⟩
  · exact ⟨task, hget, hfile, hawaits⟩
  · exact absurd (Work.started_of_awaits hawaits) hfresh.notStarted

theorem Ordered.queue {work : Work} (h : s.Ordered) (hfresh : Fresh f work) :
    (s.queue f work).Ordered where
  slotted := h.slotted.queue hfresh
  free := fun a f' g x ha => h.free a f' g x (ha.of_queue hfresh)
  later := fun a f' g x b g' y ha hb =>
    h.later a f' g x b g' y (ha.of_queue hfresh) (hb.of_queue hfresh)
  issued := fun a f' g x ha => Nat.lt_succ_of_lt (h.issued a f' g x (ha.of_queue hfresh))

variable {id : Nat}

theorem Slotted.file_ne {f' : FileKey} (h : s.Slotted) (hhead : s.head f = some (id, task))
    (ha : s.Awaiting a f' g x) (hne : a ≠ id) : f' ≠ f := by
  obtain ⟨task', hget, rfl, hawaits⟩ := ha
  exact h.other_file hhead hne hget (Work.started_of_awaits hawaits)

theorem Ordered.of_waits {t : State} (h : s.Ordered) (hslotted : t.Slotted)
    (hhead : s.head f = some (id, task)) (hkept : s.store.OthersKept f t.store)
    (hnext : t.nextTask = s.nextTask)
    (hothers : ∀ a f' g x, t.Awaiting a f' g x → a ≠ id ∧ s.Awaiting a f' g x) : t.Ordered where
  slotted := hslotted
  free := by
    intro a f' g x ha key r hr hkey
    obtain ⟨hne, hold⟩ := hothers a f' g x ha
    have hfile : key.fileKey ≠ f := by
      rw [hkey]
      exact h.slotted.file_ne hhead hold hne
    rw [hkept key hfile] at hr
    exact h.free a f' g x hold key r hr hkey
  later := fun a f' g x b g' y ha hb =>
    h.later a f' g x b g' y (hothers _ _ _ _ ha).2 (hothers _ _ _ _ hb).2
  issued := by
    intro a f' g x ha
    rw [hnext]
    exact h.issued a f' g x (hothers a f' g x ha).2

theorem Ordered.advance {store : Store} {next : Next} (h : s.Ordered)
    (hhead : s.head f = some (id, task))
    (hmoves : Store.Moves (fun _ _ => True) f (s.store, task.work.holding) (store, next.holding))
    (hfits : next.Fits s.store store f task.work) : (s.advance id task store next).Ordered := by
  have hslotted := h.slotted.advance hhead hmoves hfits
  obtain ⟨hget, rfl⟩ := mem_of_head hhead
  obtain ⟨-, hkept⟩ := hmoves.inFiles (h.slotted.inFiles hget)
  cases next with
  | goOn work =>
    refine h.of_waits hslotted hhead hkept rfl fun a f' g x ha => ?_
    obtain ⟨task', hget', hfile', hawaits⟩ := ha
    have hget'' : (s.tasks.set id { task with work := work }).get a = some task' := hget'
    rw [get_set] at hget''
    split at hget''
    · cases hget''
      rw [hfits.2.2] at hawaits
      cases hawaits
    · next hne => exact ⟨Ne.symm hne, task', hget'', hfile', hawaits⟩
  | ended fulfilled =>
    refine h.of_waits hslotted hhead hkept rfl fun a f' g x ha => ?_
    obtain ⟨task', hget', hfile', hawaits⟩ := ha
    have hget'' : (s.tasks.delete id).get a = some task' := hget'
    rw [get_delete] at hget''
    split at hget''
    · cases hget''
    · next hne => exact ⟨Ne.symm hne, task', hget'', hfile', hawaits⟩
  | await edit r =>
    obtain ⟨-, rfl, -, hlive, hother, hfree⟩ := hfits
    -- the task that runs waits from now on, for a slot whose file has a live resource
    have hcases : ∀ a f' g x, (s.advance id task s.store (.await edit r)).Awaiting a f' g x →
        f' = task.fileKey ∧ g = r.key.fileKey ∧ x = s.nextTask ∨ s.Awaiting a f' g x := by
      intro a f' g x ha
      have hfresh : Fresh r.key.fileKey (.flushStandalone r false) := ⟨rfl, fun h => by cases h⟩
      obtain ⟨task', hget', hfile', hawaits⟩ := ha.of_queue hfresh
      have hget'' : (s.tasks.set id { task with
        work := .recordEdit edit (.waitingForSlot r.key.fileKey s.nextTask) }).get a =
          some task' := hget'
      rw [get_set] at hget''
      split at hget''
      · cases hget''
        cases hawaits
        exact .inl ⟨hfile'.symm, rfl, rfl⟩
      · exact .inr ⟨task', hget'', hfile', hawaits⟩
    refine ⟨hslotted, fun a f' g x ha => ?_, fun a f' g x b g' y ha hb => ?_, fun a f' g x ha => ?_⟩
    · rcases hcases a f' g x ha with ⟨rfl, -, -⟩ | hold
      · exact hfree
      · exact h.free a f' g x hold
    · rcases hcases b g g' y hb with ⟨rfl, -, rfl⟩ | hbold
      · rcases hcases a f' task.fileKey x ha with ⟨-, hself, -⟩ | haold
        · exact absurd hself.symm hother
        · exact h.issued a f' task.fileKey x haold
      · rcases hcases a f' g x ha with ⟨-, rfl, rfl⟩ | haold
        · exact absurd rfl (h.free b _ g' y hbold r.key r hlive)
        · exact h.later a f' g x b g' y haold hbold
    · rcases hcases a f' g x ha with ⟨-, -, rfl⟩ | hold
      · exact Nat.lt_succ_self _
      · exact Nat.lt_succ_of_lt (h.issued a f' g x hold)

theorem Ordered.step {t : State} {e : Event} (h : s.Ordered) (hhome : ¬s.CancelsElsewhere e)
    (hstep : s.step e = some t) : t.Ordered := by
  refine step_invariant (fun s e => ¬s.CancelsElsewhere e) (fun s store h hout => h.outside hout)
    (fun s f work h hfresh => h.queue hfresh) ?_ s e t h hhome hstep
  intro s f o id task store next h hhome hhead hsection
  obtain ⟨hmoves, hfits⟩ := h.slotted.slot (fun _ _ _ => trivial)
    (not_cancelsElsewhere hhead hhome) hhead hsection
  exact h.advance hhead hmoves hfits

theorem Ordered.of_reachable (h : system.ReachableVia (fun s e => ¬s.CancelsElsewhere e) s) :
    s.Ordered := by
  refine h.invariant ?_ fun s e t hs hok hstep => hs.step hok hstep
  rintro s rfl
  exact Ordered.initial

/-! ## No circle -/

def holderAwaits (s : State) (f : FileKey) : WithTop Nat :=
  match s.head f with
  | some (_, task) => match task.work.awaits with
    | some (_, x) => x
    | none => ⊤
  | none => ⊤

theorem holderAwaits_eq (h : s.HoldsAndAwaits a f g x) : s.holderAwaits f = x := by
  obtain ⟨task, hhead, hawaits⟩ := h
  unfold holderAwaits
  rw [hhead]
  dsimp only
  rw [hawaits]

def rank (s : State) (a : Nat) : WithTop Nat ×ₗ Natᵒᵈ :=
  match (s.tasks.get a).bind (·.work.awaits) with
  | some (g, x) => toLex (s.holderAwaits g, toDual x)
  | none => toLex (⊤, toDual 0)

theorem rank_eq (h : s.HoldsAndAwaits a f g x) : s.rank a = toLex (s.holderAwaits g, toDual x) := by
  obtain ⟨task, hget, -, hawaits⟩ := h.awaiting
  unfold rank
  rw [hget, Option.bind_some, hawaits]

theorem Ordered.lt_holderAwaits (h : s.Ordered) {b : Nat} {y : Nat} (hb : s.HoldsAndAwaits b f g y) :
    (y : WithTop Nat) < s.holderAwaits g := by
  unfold holderAwaits
  split
  · next c task hhead =>
    split
    · next g' z hawaits =>
      have hc : s.HoldsAndAwaits c g g' z := ⟨task, hhead, hawaits⟩
      exact WithTop.coe_lt_coe.mpr (h.later b f g y c g' z hb.awaiting hc.awaiting)
    · exact WithTop.coe_lt_top y
  · exact WithTop.coe_lt_top y

theorem Ordered.rank_lt (h : s.Ordered) {b : Nat} (hwaits : s.WaitsFor a b) :
    s.rank a < s.rank b := by
  obtain ⟨f, g, x, f', g', y, ha, hb, hheld | ⟨hsame, hahead⟩⟩ := hwaits
  · subst hheld
    rw [rank_eq ha, rank_eq hb, toLex_lt_toLex]
    left
    rw [holderAwaits_eq hb]
    exact h.lt_holderAwaits hb
  · subst hsame
    rw [rank_eq ha, rank_eq hb, toLex_lt_toLex]
    right
    exact ⟨rfl, hahead⟩

def fulfilled : Outcome := ⟨true, true, false, false⟩

def rejected : Outcome := ⟨false, true, false, false⟩

def textExceeded : Outcome := ⟨true, false, false, false⟩

def editBy (sessionUri : String) (f : FileKey) : Event := .recordEdit ⟨sessionUri, f, false⟩

def sections (f : FileKey) (n : Nat) : List Event := List.replicate n (.runSlot f fulfilled)

def recorded (f : FileKey) : List Event := editBy "ahp:/s" f :: sections f 3

def crossedFiles : List Event :=
  recorded "g" ++ recorded "h" ++ (editBy "ahp:/s" "g" :: sections "g" 2) ++
  [.prepareFlush ⟨"g", "t", false⟩, .prepareSettles "t" 3, .prepareFlush ⟨"h", "t", false⟩] ++
  sections "h" 4 ++ (editBy "ahp:/s" "h" :: sections "h" 2) ++ [.cancelFlush "t"] ++
  sections "g" 5 ++ recorded "f" ++ recorded "i" ++ recorded "j" ++ recorded "k" ++
  [editBy "ahp:/s" "g", editBy "ahp:/t" "f", .runSlot "g" textExceeded,
    .runSlot "f" textExceeded, .runSlot "h" rejected, .runSlot "h" fulfilled] ++
  recorded "i" ++ recorded "j" ++ recorded "k" ++
  [.runSlot "f" fulfilled, .runSlot "f" textExceeded]

end State

end Fumie.AgentHost.EditAttribution
