import Fumie.AgentHost.Server.SummaryChanges

/-!
# One session in the summary stream

What the stream is for, one session at a time. A row has what the host last notified for the
session, the summary it has now, what a client holds, and three flags. The operations of a
row are what the operations of the stream do to the session they are about.

A row is `Anchored` when the client holds what was last notified and the fields that no
delta carries are those of the current summary. A flush of an anchored row brings it
`InStep`; a row is `Good` when it is anchored, and in step unless it is dirty.
-/

namespace Fumie.AgentHost

open Fumie.Lib CatalogSummary

@[ext] structure SummaryRow where
  added : Bool
  published : Bool
  dirty : Bool
  lastNotified : Option CatalogSummary
  current : Option CatalogSummary
  client : Option CatalogSummary

namespace SummaryRow

variable (r : SummaryRow)

/-! ## Operations -/

def notify (changes : SessionSummaryChanges) : SummaryRow :=
  if r.published then { r with client := r.client.map (·.receive changes) } else r

def flush : SummaryRow :=
  match r.current, r.lastNotified with
  | some current, some lastNotified =>
    let changes := summaryChanges current lastNotified
    if changes = .none then { r with lastNotified := some current }
    else { r with lastNotified := some current }.notify changes
  | _, _ => r

def emitAdded (ephemeral : Bool) (summary : CatalogSummary) : SummaryRow :=
  if ephemeral then r
  else
    { r with
      added := true
      published := true
      lastNotified := some summary
      client := some summary }

def unpublish : SummaryRow :=
  if r.published || r.added then
    { r with
      added := false
      published := false
      dirty := false
      lastNotified := none
      client := none }
  else r

def list (summary : CatalogSummary) : SummaryRow :=
  if r.published then if r.dirty then r.flush else r
  else { r with lastNotified := some (r.current.getD summary), published := true }

/-- The session goes, the client keeps what it holds. -/
def remove : SummaryRow :=
  { (if r.dirty then r.flush else r) with lastNotified := none, current := none, dirty := false }

/-! ## The invariant -/

def InStep : Prop := ∀ held current, r.client = some held → r.current = some current →
  held = current

structure Anchored : Prop where
  held : r.client.isSome = r.added
  published : r.added = true → r.published = true
  notified : ∀ held last, r.client = some held → r.lastNotified = some last → held = last
  fixed : ∀ held current, r.client = some held → r.current = some current →
    r.lastNotified = some held ∧ held.SameFixed current

structure Good : Prop where
  anchored : r.Anchored
  settled : r.dirty = false → r.InStep

variable {r}

theorem Good.of_not_added (hadded : r.added = false) (hclient : r.client = none) : r.Good := by
  have hheld : ∀ held, r.client ≠ some held := by
    intro held hsome
    rw [hclient] at hsome
    cases hsome
  have hanchored : r.Anchored := by
    constructor
    · simp [hadded, hclient]
    · simp [hadded]
    · intro held last hsome
      exact absurd hsome (hheld held)
    · intro held current hsome
      exact absurd hsome (hheld held)
  exact ⟨hanchored, fun _ held current hsome => absurd hsome (hheld held)⟩

theorem Good.of_not_live (hheld : r.client.isSome = r.added)
    (hpublished : r.added = true → r.published = true)
    (hnotified : ∀ held last, r.client = some held → r.lastNotified = some last → held = last)
    (hcurrent : r.current = none) : r.Good := by
  have hnot : ∀ current, r.current ≠ some current := by
    intro current hsome
    rw [hcurrent] at hsome
    cases hsome
  exact ⟨⟨hheld, hpublished, hnotified, fun _ current _ hsome => absurd hsome (hnot current)⟩,
    fun _ _ current _ hsome => absurd hsome (hnot current)⟩

theorem Anchored.client_of_not_published (h : r.Anchored) (hpublished : r.published = false) :
    r.added = false ∧ r.client = none := by
  have hadded : r.added = false := by
    cases hadd : r.added with
    | false => rfl
    | true =>
      rw [h.published hadd] at hpublished
      cases hpublished
  refine ⟨hadded, ?_⟩
  have hheld := h.held
  rw [hadded] at hheld
  simpa using hheld

/-! ## A flush -/

variable (changes : SessionSummaryChanges)

@[simp] theorem notify_current : (r.notify changes).current = r.current := by
  unfold notify
  split
  · rfl
  · rfl

@[simp] theorem notify_added : (r.notify changes).added = r.added := by
  unfold notify
  split
  · rfl
  · rfl

@[simp] theorem notify_published : (r.notify changes).published = r.published := by
  unfold notify
  split
  · rfl
  · rfl

@[simp] theorem notify_lastNotified : (r.notify changes).lastNotified = r.lastNotified := by
  unfold notify
  split
  · rfl
  · rfl

theorem notify_client (hpublished : r.added = true → r.published = true)
    (hheld : r.client.isSome = r.added) (changes : SessionSummaryChanges) :
    (r.notify changes).client = r.client.map (·.receive changes) := by
  unfold notify
  split
  · rfl
  · rename_i hnot
    cases hclient : r.client with
    | none => rfl
    | some held =>
      rw [hclient] at hheld
      exact absurd (hpublished hheld.symm) hnot

theorem Anchored.flush_client (h : r.Anchored) {current : CatalogSummary}
    (hcurrent : r.current = some current) {held : CatalogSummary} (hheld : r.client = some held) :
    r.flush.client = some current ∧ r.flush.lastNotified = some current := by
  obtain ⟨hlast, hfixed⟩ := h.fixed held current hheld hcurrent
  have hround := receive_summaryChanges hfixed
  unfold flush
  rw [hcurrent, hlast]
  dsimp only
  split
  · rename_i hnone
    rw [hnone, receive_none] at hround
    rw [← hround]
    exact ⟨hheld, rfl⟩
  · refine ⟨?_, notify_lastNotified _⟩
    have hclient := @notify_client
      { r with lastNotified := some current, current := some current } h.published h.held
    refine (hclient _).trans ?_
    rw [hheld]
    exact congrArg some hround

theorem flush_frame (r : SummaryRow) :
    r.flush.current = r.current ∧ r.flush.added = r.added ∧ r.flush.published = r.published ∧
      r.flush.client.isSome = r.client.isSome := by
  unfold flush
  split
  · dsimp only
    split
    · exact ⟨rfl, rfl, rfl, rfl⟩
    · refine ⟨by simp, by simp, by simp, ?_⟩
      unfold notify
      split
      · simp
      · rfl
  · exact ⟨rfl, rfl, rfl, rfl⟩

theorem flush_of_none (h : r.current = none ∨ r.lastNotified = none) : r.flush = r := by
  unfold flush
  split
  · rename_i hcurrent hlast
    rw [hcurrent, hlast] at h
    simp at h
  · rfl

theorem flush_of_some {current last : CatalogSummary} (hcurrent : r.current = some current)
    (hlast : r.lastNotified = some last) :
    r.flush =
      if summaryChanges current last = .none then
        { r with lastNotified := some current }
      else
        { r with lastNotified := some current }.notify (summaryChanges current last) := by
  unfold flush
  rw [hcurrent, hlast]

theorem Anchored.flush_inStep (h : r.Anchored) : r.flush.InStep := by
  intro held current hheld hcurrent
  obtain ⟨hsame, -, -, hsome⟩ := flush_frame r
  rw [hsame] at hcurrent
  cases hclient : r.client with
  | none =>
    rw [hclient, hheld] at hsome
    cases hsome
  | some old =>
    rw [(h.flush_client hcurrent hclient).1] at hheld
    exact (Option.some.inj hheld).symm

theorem Anchored.flush (h : r.Anchored) : r.flush.Anchored := by
  obtain ⟨hcurrent, hadded, hpublished, hsome⟩ := flush_frame r
  cases hlive : r.current with
  | none =>
    rw [flush_of_none (.inl hlive)]
    exact h
  | some current =>
    have hlast : ∀ held, r.flush.client = some held →
        held = current ∧ r.flush.lastNotified = some current := by
      intro held hheld
      cases hclient : r.client with
      | none =>
        rw [hclient, hheld] at hsome
        cases hsome
      | some old =>
        obtain ⟨hnow, hlast⟩ := h.flush_client hlive hclient
        rw [hnow] at hheld
        exact ⟨(Option.some.inj hheld).symm, hlast⟩
    constructor
    · rw [hsome, hadded]
      exact h.held
    · rw [hadded, hpublished]
      exact h.published
    · intro held last hheld hnotified
      obtain ⟨heq, hlast⟩ := hlast held hheld
      rw [hlast] at hnotified
      exact heq.trans (Option.some.inj hnotified)
    · intro held now hheld hnow
      obtain ⟨heq, hlast⟩ := hlast held hheld
      rw [hcurrent, hlive] at hnow
      cases hnow
      subst heq
      exact ⟨hlast, .refl held⟩

theorem Anchored.flush_good (h : r.Anchored) : r.flush.Good := ⟨h.flush, fun _ => h.flush_inStep⟩

theorem Good.flushDirty (h : r.Good) :
    SummaryRow.Good { (if r.dirty then r.flush else r) with dirty := false } ∧
      InStep { (if r.dirty then r.flush else r) with dirty := false } := by
  cases hdirty : r.dirty with
  | true =>
    obtain ⟨⟨h₁, h₂, h₃, h₄⟩, hstep⟩ := And.intro h.anchored.flush h.anchored.flush_inStep
    exact ⟨⟨⟨h₁, h₂, h₃, h₄⟩, fun _ => hstep⟩, hstep⟩
  | false =>
    obtain ⟨⟨h₁, h₂, h₃, h₄⟩, hstep⟩ := h
    exact ⟨⟨⟨h₁, h₂, h₃, h₄⟩, fun _ => hstep hdirty⟩, hstep hdirty⟩

/-! ## The other operations -/

theorem Good.emitAdded {ephemeral : Bool} {summary : CatalogSummary}
    (hquiet : ephemeral = true → r.Good)
    (hcurrent : ephemeral = false → ∀ current, r.current = some current → summary = current) :
    (r.emitAdded ephemeral summary).Good := by
  cases ephemeral with
  | true => exact hquiet rfl
  | false =>
    have hstep : (r.emitAdded false summary).InStep := by
      intro held current hheld hsome
      cases hheld
      exact hcurrent rfl current hsome
    refine ⟨⟨rfl, fun _ => rfl, ?_, ?_⟩, fun _ => hstep⟩
    · intro held last hheld hlast
      cases hheld
      exact Option.some.inj hlast
    · intro held current hheld hsome
      obtain rfl := hstep held current hheld hsome
      exact ⟨hheld, .refl held⟩

theorem Good.unpublish (h : r.Good) : r.unpublish.Good := by
  unfold SummaryRow.unpublish
  split
  · exact .of_not_added rfl rfl
  · exact h

theorem Good.list (h : r.Good) (summary : CatalogSummary) : (r.list summary).Good := by
  unfold SummaryRow.list
  cases hpublished : r.published with
  | true =>
    rw [if_pos rfl]
    split
    · exact h.anchored.flush_good
    · exact h
  | false =>
    obtain ⟨hadded, hclient⟩ := h.anchored.client_of_not_published hpublished
    exact .of_not_added hadded hclient

theorem Good.remove (h : r.Good) : r.remove.Good := by
  have hanchored : SummaryRow.Anchored (if r.dirty then r.flush else r) := by
    split
    · exact h.anchored.flush
    · exact h.anchored
  refine .of_not_live hanchored.held hanchored.published ?_ rfl
  rintro held last hheld ⟨⟩

theorem Good.retouch (h : r.Good) {current : Option CatalogSummary} {marked : Bool}
    (hkept : marked = false → current = r.current)
    (hfixed : ∀ new, current = some new → ∃ old, r.current = some old ∧ old.SameFixed new) :
    SummaryRow.Good { r with current := current, dirty := r.dirty || marked } := by
  refine ⟨⟨h.anchored.held, h.anchored.published, h.anchored.notified, ?_⟩, ?_⟩
  · intro held new hheld hnew
    obtain ⟨old, hold, hsame⟩ := hfixed new hnew
    obtain ⟨hlast, hbase⟩ := h.anchored.fixed held old hheld hold
    exact ⟨hlast, hbase.trans hsame⟩
  · intro hdirty held new hheld hnew
    obtain ⟨hclean, hmarked⟩ := Bool.or_eq_false_iff.mp hdirty
    have hsame : current = some new := hnew
    rw [hkept hmarked] at hsame
    exact h.settled hclean held new hheld hsame

end SummaryRow

end Fumie.AgentHost
