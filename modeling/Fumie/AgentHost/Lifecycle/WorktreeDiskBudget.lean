import Mathlib

/-!
# The worktree disk budget

Clean idle worktrees are removed, least recently used first, until the usage of all
candidates fits the budget. Usage is measured again after every removal. The remover is
the owner's: it works on a world of its own, of which only the trees at the worktree paths
are read, and may fail after changing it.
-/

namespace Fumie.AgentHost

open List

/-- What `lstat` and `readdir` report below a path; a symbolic link is a leaf. -/
inductive DiskEntry where
  | leaf (blocks : Option Nat) (size : Nat)
  | directory (blocks : Option Nat) (size : Nat) (entries : List DiskEntry)

def allocatedBytes (blocks : Option Nat) (size : Nat) : Nat :=
  match blocks with
  | some (n + 1) => (n + 1) * 512
  | _ => size

mutual

def measureEntry : DiskEntry → Nat
  | .leaf blocks size => allocatedBytes blocks size
  | .directory blocks size entries => allocatedBytes blocks size + measureEntries entries

def measureEntries : List DiskEntry → Nat
  | [] => 0
  | entry :: rest => measureEntry entry + measureEntries rest

end

structure WorktreeDiskBudgetCandidate where
  sessionId : String
  worktreePath : String
  lastUsedAt : ℚ
  running : Bool
  pinned : Bool
  dirty : Bool
  deriving DecidableEq

structure WorktreeDiskBudgetResult where
  before : Nat
  after : Nat
  reclaimed : Nat
  deriving DecidableEq

/-- How `reclaim` ends; `threw` passes the remover's error on. -/
inductive ReclaimOutcome (ε : Type) where
  | disabled
  | result (result : WorktreeDiskBudgetResult)
  | exceeded (budget : Nat) (result : WorktreeDiskBudgetResult)
  | threw (error : ε)
  deriving DecidableEq

/-- The comparator of the sort: last use, and the input position between equals. -/
def UsedBefore (l r : WorktreeDiskBudgetCandidate × Nat) : Prop :=
  l.1.lastUsedAt < r.1.lastUsedAt ∨ l.1.lastUsedAt = r.1.lastUsedAt ∧ l.2 ≤ r.2

instance : DecidableRel UsedBefore := fun _ _ => inferInstanceAs (Decidable (_ ∨ _))

/-- The clean idle candidates with their positions. -/
def cleanIdle (candidates : List WorktreeDiskBudgetCandidate) :
    List (WorktreeDiskBudgetCandidate × Nat) :=
  (candidates.filter fun c => !c.running && !c.pinned && !c.dirty).zipIdx

def reclaimable (candidates : List WorktreeDiskBudgetCandidate) :
    List (WorktreeDiskBudgetCandidate × Nat) :=
  (cleanIdle candidates).insertionSort UsedBefore

variable {c : WorktreeDiskBudgetCandidate}

section Reclaim

variable {σ ε : Type} (disk : σ → String → Option DiskEntry)
  (remover : WorktreeDiskBudgetCandidate → σ → σ × Option ε)
  (candidates : List WorktreeDiskBudgetCandidate)

/-- A missing path has no bytes. -/
def measureWorktreeDiskUsage (w : σ) (path : String) : Nat := ((disk w path).map measureEntry).getD 0

def getUsage (w : σ) : Nat :=
  (candidates.map fun c => measureWorktreeDiskUsage disk w c.worktreePath).sum

/-- A pass: the candidates given to the remover, the world left and the loop's variables. -/
structure ReclaimRun (σ ε : Type) where
  calls : List WorktreeDiskBudgetCandidate
  world : σ
  after : Nat
  reclaimed : Nat
  error : Option ε

def reclaimLoop (budget : Nat) :
    List WorktreeDiskBudgetCandidate → σ → Nat → Nat → ReclaimRun σ ε
  | [], w, after, reclaimed => ⟨[], w, after, reclaimed, none⟩
  | c :: rest, w, after, reclaimed =>
    if after ≤ budget then ⟨[], w, after, reclaimed, none⟩
    else
      let candidateBefore := measureWorktreeDiskUsage disk w c.worktreePath
      match remover c w with
      | (w', some error) => ⟨[c], w', after, reclaimed, some error⟩
      | (w', none) =>
        let candidateAfter := measureWorktreeDiskUsage disk w' c.worktreePath
        let run := reclaimLoop budget rest w' (getUsage disk candidates w')
          (reclaimed + (candidateBefore - candidateAfter))
        { run with calls := c :: run.calls }

def reclaim (budget : Option Nat) (w : σ) :
    List WorktreeDiskBudgetCandidate × σ × ReclaimOutcome ε :=
  match budget with
  | none => ([], w, .disabled)
  | some budget =>
    let before := getUsage disk candidates w
    let run := reclaimLoop disk remover candidates budget
      ((reclaimable candidates).map Prod.fst) w before 0
    let result := ⟨before, run.after, run.reclaimed⟩
    (run.calls, run.world,
      match run.error with
      | some error => .threw error
      | none => if budget < run.after then .exceeded budget result else .result result)

/-- The world after some removals. -/
def worldAfter (w : σ) (calls : List WorktreeDiskBudgetCandidate) : σ :=
  calls.foldl (fun w c => (remover c w).1) w

/-- Distinct paths, and a remover that frees bytes of its own candidate alone. -/
def FreesOwn : Prop :=
  candidates.Pairwise (fun a b => a.worktreePath ≠ b.worktreePath) ∧
  ∀ c ∈ candidates, ∀ w,
    measureWorktreeDiskUsage disk (remover c w).1 c.worktreePath ≤
        measureWorktreeDiskUsage disk w c.worktreePath ∧
      ∀ path ≠ c.worktreePath, measureWorktreeDiskUsage disk (remover c w).1 path =
        measureWorktreeDiskUsage disk w path

/-! ## The order -/

theorem usedBefore_total : Std.Total UsedBefore :=
  ⟨fun l r => by
    unfold UsedBefore
    rcases lt_trichotomy l.1.lastUsedAt r.1.lastUsedAt with h | h | h
    · exact .inl (.inl h)
    · exact (Nat.le_total l.2 r.2).imp (fun hle => .inr ⟨h, hle⟩) fun hle => .inr ⟨h.symm, hle⟩
    · exact .inr (.inl h)⟩

theorem usedBefore_trans : IsTrans _ UsedBefore :=
  ⟨fun l m r => by
    rintro (h | ⟨h, hle⟩) (h' | ⟨h', hle'⟩)
    · exact .inl (h.trans h')
    · exact .inl (h.trans_eq h')
    · exact .inl (h.trans_lt h')
    · exact .inr ⟨h.trans h', hle.trans hle'⟩⟩

/-! ## The loop -/

variable {disk candidates} (budget : Nat)

theorem reclaimLoop_spec (order : List WorktreeDiskBudgetCandidate) {w : σ} {after : Nat}
    (hafter : after = getUsage disk candidates w) (reclaimed : Nat) :
    let run := reclaimLoop disk remover candidates budget order w after reclaimed
    run.calls <+: order ∧ run.world = worldAfter remover w run.calls ∧
      (∀ done, done <+: run.calls → done ≠ run.calls →
        budget < getUsage disk candidates (worldAfter remover w done)) ∧
      match run.error with
      | none => run.after = getUsage disk candidates run.world ∧
        (budget < run.after → run.calls = order)
      | some error => ∃ done c, run.calls = done ++ [c] ∧
        (remover c (worldAfter remover w done)).2 = some error := by
  fun_induction reclaimLoop disk remover candidates budget order w after reclaimed with
  | case1 w after reclaimed =>
    exact ⟨prefix_rfl, rfl, fun done hdone hne => absurd (prefix_nil.mp hdone) hne, hafter,
      fun _ => rfl⟩
  | case2 c rest w after reclaimed hfits =>
    exact ⟨ nil_prefix, rfl, fun done hdone hne => absurd (prefix_nil.mp hdone) hne, hafter,
      fun hover => absurd hfits (Nat.not_le.mpr hover)⟩
  | case3 c rest w after reclaimed hover w' error hremove =>
    refine ⟨cons_prefix_cons.mpr ⟨rfl, nil_prefix⟩, by simp [worldAfter, hremove],
      fun done hdone hne => ?_, [], c, rfl, by simp [worldAfter, hremove]⟩
    rcases prefix_cons_iff.mp hdone with rfl | ⟨rest, rfl, hrest⟩
    · exact hafter ▸ Nat.not_le.mp hover
    · exact absurd (congrArg _ (prefix_nil.mp hrest)) hne
  | case4 c rest w after reclaimed hover candidateBefore w' hremove candidateAfter run ih =>
    obtain ⟨hstart, hworld, hneeded, herror⟩ := ih rfl
    have hnext (calls : List WorktreeDiskBudgetCandidate) :
        worldAfter remover w (c :: calls) = worldAfter remover w' calls := by
      simp [worldAfter, hremove]
    refine ⟨cons_prefix_cons.mpr ⟨rfl, hstart⟩, hworld.trans (hnext _).symm,
      fun done hdone hne => ?_, ?_⟩
    · rcases prefix_cons_iff.mp hdone with rfl | ⟨rest, rfl, hrest⟩
      · exact hafter ▸ Nat.not_le.mp hover
      · rw [hnext]
        exact hneeded rest hrest fun heq => hne (congrArg _ heq)
    · revert herror
      cases run.error with
      | none => exact fun h => ⟨h.1, fun hover => congrArg _ (h.2 hover)⟩
      | some error =>
        rintro ⟨done, last, hcalls, hthrew⟩
        exact ⟨c :: done, last, congrArg _ hcalls, by rw [hnext]; exact hthrew⟩

/-! ## Accounting -/

variable {remover}

theorem getUsage_remover (h : FreesOwn disk remover candidates) (hc : c ∈ candidates) (w : σ) :
    getUsage disk candidates (remover c w).1 +
        (measureWorktreeDiskUsage disk w c.worktreePath -
          measureWorktreeDiskUsage disk (remover c w).1 c.worktreePath) =
      getUsage disk candidates w := by
  obtain ⟨hle, hothers⟩ := h.2 c hc w
  obtain ⟨before, rest, hsplit⟩ := append_of_mem hc
  have hpaths := h.1
  rw [hsplit, pairwise_append, pairwise_cons] at hpaths
  obtain ⟨-, ⟨hrest, -⟩, hbefore⟩ := hpaths
  rw [getUsage, getUsage, hsplit, map_append, map_append, map_cons, map_cons,
    map_congr_left fun a ha => hothers _ (hbefore a ha c mem_cons_self),
    map_congr_left fun a ha => hothers _ (hrest a ha).symm]
  simp only [sum_append, sum_cons]
  omega

theorem reclaimLoop_reclaimed (h : FreesOwn disk remover candidates)
    {order : List WorktreeDiskBudgetCandidate} (horder : ∀ c ∈ order, c ∈ candidates) {w : σ}
    {after : Nat} (hafter : after = getUsage disk candidates w) (reclaimed : Nat) :
    let run := reclaimLoop disk remover candidates budget order w after reclaimed
    run.error = none → run.after + run.reclaimed = after + reclaimed := by
  fun_induction reclaimLoop disk remover candidates budget order w after reclaimed with
  | case1 w after reclaimed => exact fun _ => rfl
  | case2 c rest w after reclaimed hfits => exact fun _ => rfl
  | case3 c rest w after reclaimed hover w' error hremove => exact fun h => by cases h
  | case4 c rest w after reclaimed hover candidateBefore w' hremove candidateAfter run ih =>
    intro run' herror
    have hrun := ih (fun c hc => horder c (mem_cons_of_mem _ hc)) rfl herror
    have husage := getUsage_remover h (horder c mem_cons_self) w
    rw [hremove, ← hafter] at husage
    rw [hrun, ← husage, Nat.add_assoc, Nat.add_comm reclaimed]

/-! ## The pass -/

theorem mem_reclaimable (h : c ∈ (reclaimable candidates).map Prod.fst) :
    c ∈ candidates ∧ c.running = false ∧ c.pinned = false ∧ c.dirty = false := by
  have hmem := ((perm_insertionSort UsedBefore (cleanIdle candidates)).map Prod.fst).mem_iff.mp h
  rw [cleanIdle, zipIdx_map_fst] at hmem
  simpa [and_assoc] using hmem

end Reclaim

end Fumie.AgentHost
