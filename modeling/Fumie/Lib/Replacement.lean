import Fumie.Lib.ListChange

/-!
# Parts of a list replaced at the same time

A replacement names two positions of a list and what stands between them afterwards.
Several replacements that do not overlap are carried out at once: at every position the
items put there stand in front of what is kept. Where the list is given as gaps with the
replaced parts between them, the result is the same gaps with the new parts between them.
-/

namespace Fumie.Lib

open List

structure Replacement (α : Type) where
  start : Nat
  stop : Nat
  text : List α
  deriving DecidableEq, Repr

variable {i : Nat}

namespace Replacement

variable {α : Type}

def emptyAt (i : Nat) (r : Replacement α) : Bool := r.start = i && r.stop = i

def startsAt (i : Nat) (r : Replacement α) : Bool := r.start = i && i < r.stop

def covers (i : Nat) (r : Replacement α) : Bool := r.start ≤ i && i < r.stop

/-- What is put at a position: the texts without a part to replace, in their order, and the
text for the part that starts there. -/
def inserted (rs : List (Replacement α)) (i : Nat) : List α :=
  (rs.filter (emptyAt i) ++ rs.filter (startsAt i)).flatMap text

def replaceFrom (rs : List (Replacement α)) (i : Nat) : List α → List α
  | [] => inserted rs i
  | a :: s => inserted rs i ++ ((if rs.any (covers i) then [] else [a]) ++ replaceFrom rs (i + 1) s)

def replaceAll (rs : List (Replacement α)) (s : List α) : List α := replaceFrom rs 0 s

/-! ## Positions that nothing touches -/

theorem replaceFrom_congr {rs rs' : List (Replacement α)}
    (hinserted : ∀ j, i ≤ j → inserted rs j = inserted rs' j)
    (hcovers : ∀ j, i ≤ j → rs.any (covers j) = rs'.any (covers j)) (s : List α) :
    replaceFrom rs i s = replaceFrom rs' i s := by
  induction s generalizing i with
  | nil => exact hinserted i (Nat.le_refl i)
  | cons a s ih =>
    have hrest : replaceFrom rs (i + 1) s = replaceFrom rs' (i + 1) s :=
      ih (fun j hj => hinserted j (by omega)) fun j hj => hcovers j (by omega)
    rw [replaceFrom, replaceFrom, hinserted i (Nat.le_refl i), hcovers i (Nat.le_refl i), hrest]

variable {rs : List (Replacement α)}

theorem inserted_cons_of_ne {r : Replacement α} (h : r.start ≠ i) :
    inserted (r :: rs) i = inserted rs i := by
  have hempty : emptyAt i r = false := by simp [emptyAt, h]
  have hstarts : startsAt i r = false := by simp [startsAt, h]
  simp only [inserted, filter_cons, hempty, hstarts, Bool.false_eq_true, if_false]

theorem inserted_nil {rs : List (Replacement α)} (h : ∀ r ∈ rs, i < r.start) :
    inserted rs i = [] := by
  induction rs with
  | nil => rfl
  | cons r rs ih =>
    have hr := h r mem_cons_self
    rw [inserted_cons_of_ne (by omega), ih fun x hx => h x (mem_cons_of_mem _ hx)]

theorem any_covers_false (h : ∀ r ∈ rs, i < r.start) : rs.any (covers i) = false := by
  rw [any_eq_false]
  intro r hr
  have hlt := h r hr
  simp only [covers, Bool.and_eq_true, decide_eq_true_eq, not_and]
  omega

theorem replaceFrom_gap {rs : List (Replacement α)} {gap : List α}
    (h : ∀ r ∈ rs, i + gap.length ≤ r.start) (s : List α) :
    replaceFrom rs i (gap ++ s) = gap ++ replaceFrom rs (i + gap.length) s := by
  induction gap generalizing i with
  | nil => rfl
  | cons a gap ih =>
    rw [length_cons] at h
    have hlt : ∀ r ∈ rs, i < r.start := fun r hr => by
      have hle := h r hr
      omega
    have hgap : ∀ r ∈ rs, i + 1 + gap.length ≤ r.start := fun r hr => by
      have hle := h r hr
      omega
    have hrest := ih hgap
    rw [cons_append, replaceFrom, inserted_nil hlt, any_covers_false hlt, hrest,
      length_cons, Nat.add_right_comm, Nat.add_assoc i]
    rfl

/-! ## The first replacement -/

theorem replaceFrom_after {r : Replacement α} {rs : List (Replacement α)} {i : Nat}
    (hstart : r.start < i) (hstop : r.stop ≤ i) (s : List α) :
    replaceFrom (r :: rs) i s = replaceFrom rs i s := by
  refine replaceFrom_congr (fun j hj => inserted_cons_of_ne (by omega)) (fun j hj => ?_) s
  have hnot : covers j r = false := by
    simp only [covers, Bool.and_eq_false_iff, decide_eq_false_iff_not]
    omega
  rw [any_cons, hnot, Bool.false_or]

theorem replaceFrom_inside {r : Replacement α} {rs : List (Replacement α)} {i : Nat} {old : List α}
    (hstart : r.start < i) (hstop : r.stop = i + old.length) (h : ∀ x ∈ rs, r.stop ≤ x.start)
    (s : List α) : replaceFrom (r :: rs) i (old ++ s) = replaceFrom rs (i + old.length) s := by
  induction old generalizing i with
  | nil => exact replaceFrom_after hstart (Nat.le_of_eq hstop) s
  | cons a old ih =>
    rw [length_cons] at hstop
    have hlt : ∀ x ∈ rs, i < x.start := fun x hx => by
      have hle := h x hx
      omega
    have hcovered : covers i r = true := by
      simp only [covers, Bool.and_eq_true, decide_eq_true_eq]
      omega
    have hrest := @ih (i + 1) (by omega) (by omega)
    rw [cons_append, replaceFrom, inserted_cons_of_ne (by omega), inserted_nil hlt,
      any_cons, hcovered, Bool.true_or, if_pos rfl, hrest, length_cons,
      Nat.add_right_comm, Nat.add_assoc i]
    rfl

theorem replaceFrom_head {r : Replacement α} {rs : List (Replacement α)} {old : List α}
    (hstop : r.stop = r.start + old.length) (h : ∀ x ∈ rs, r.stop ≤ x.start) (s : List α) :
    replaceFrom (r :: rs) r.start (old ++ s) = r.text ++ replaceFrom rs r.stop s := by
  cases old with
  | nil =>
    have hsame : r.stop = r.start := hstop
    have hinserted : inserted (r :: rs) r.start = r.text ++ inserted rs r.start := by
      have hempty : emptyAt r.start r = true := by simp [emptyAt, hsame]
      have hstarts : startsAt r.start r = false := by simp [startsAt, hsame]
      simp only [inserted, filter_cons, hempty, hstarts, Bool.false_eq_true, if_false, if_true,
        cons_append, flatMap_cons]
    have hcovers : covers r.start r = false := by simp [covers, hsame]
    rw [nil_append, hsame]
    cases s with
    | nil => exact hinserted
    | cons a s =>
      have hrest := @replaceFrom_after α r rs (r.start + 1) (by omega) (by omega) s
      rw [replaceFrom, hinserted, any_cons, hcovers, Bool.false_or, hrest, replaceFrom,
        append_assoc]
  | cons a old =>
    rw [length_cons] at hstop
    have hlt : ∀ x ∈ rs, r.start < x.start := fun x hx => by
      have hle := h x hx
      omega
    have hinserted : inserted (r :: rs) r.start = r.text := by
      have hempty : emptyAt r.start r = false := by
        simp only [emptyAt, Bool.and_eq_false_iff, decide_eq_false_iff_not]
        omega
      have hstarts : startsAt r.start r = true := by
        simp only [startsAt, Bool.and_eq_true, decide_eq_true_eq, true_and]
        omega
      have hnone := inserted_nil hlt
      rw [inserted, flatMap_append, append_eq_nil_iff] at hnone
      simp only [inserted, filter_cons, hempty, hstarts, Bool.false_eq_true, if_false, if_true,
        flatMap_append, flatMap_cons, hnone.1, hnone.2, nil_append, append_nil]
    have hcovered : covers r.start r = true := by
      simp only [covers, Bool.and_eq_true, decide_eq_true_eq]
      omega
    have hinside := @replaceFrom_inside α r rs (r.start + 1) old (by omega) (by omega) h s
    have hend : r.start + 1 + old.length = r.stop := by omega
    rw [cons_append, replaceFrom, hinserted, any_cons, hcovered, Bool.true_or, if_pos rfl,
      hinside, hend]
    rfl

variable {rs' : List (Replacement α)}

theorem replaceAll_perm (hperm : rs.Perm rs')
    (hempty : ∀ i, rs.filter (emptyAt i) = rs'.filter (emptyAt i))
    (hstarts : ∀ i, rs.filter (startsAt i) = rs'.filter (startsAt i)) (s : List α) :
    replaceAll rs s = replaceAll rs' s := by
  refine replaceFrom_congr (fun i _ => ?_) (fun i _ => hperm.any_eq) s
  rw [inserted, inserted, hempty, hstarts]

theorem replaceAll_perm_of_starts (hperm : rs.Perm rs')
    (h : rs.Pairwise fun a b => a.start ≠ b.start) (s : List α) :
    replaceAll rs s = replaceAll rs' s := by
  have h' : rs'.Pairwise fun a b => a.start ≠ b.start :=
    (hperm.pairwise_iff fun hne => Ne.symm hne).mp h
  have hone : ∀ (p : Replacement α → Bool) (i : Nat), (∀ r, p r = true → r.start = i) →
      rs.filter p = rs'.filter p := by
    intro p i hp
    have hnone : ∀ l : List (Replacement α), l.Pairwise (fun a b => a.start ≠ b.start) →
        (l.filter p).Pairwise fun _ _ => False := by
      intro l hl
      rw [pairwise_filter]
      exact hl.imp fun hne ha hb => hne ((hp _ ha).trans (hp _ hb).symm)
    exact (hperm.filter p).eq_of_pairwise (fun _ _ _ _ hfalse => hfalse.elim) (hnone rs h)
      (hnone rs' h')
  refine replaceAll_perm hperm (fun i => hone _ i fun r hr => ?_) (fun i => hone _ i fun r hr => ?_) s
  · rw [emptyAt, Bool.and_eq_true, decide_eq_true_eq] at hr
    exact hr.1
  · rw [startsAt, Bool.and_eq_true, decide_eq_true_eq] at hr
    exact hr.1

end Replacement

/-! ## Gaps and parts -/

/-- A gap and behind it a part, with what replaces it. -/
structure Cut (α : Type) where
  gap : List α
  old : List α
  new : List α

namespace Cut

variable {α : Type}

def swap (c : Cut α) : Cut α := ⟨c.gap, c.new, c.old⟩

variable (c : Cut α)

@[simp] theorem swap_gap : c.swap.gap = c.gap := rfl

@[simp] theorem swap_old : c.swap.old = c.new := rfl

@[simp] theorem swap_new : c.swap.new = c.old := rfl

def source (tail : List α) : List (Cut α) → List α
  | [] => tail
  | c :: cuts => c.gap ++ (c.old ++ source tail cuts)

def target (tail : List α) : List (Cut α) → List α
  | [] => tail
  | c :: cuts => c.gap ++ (c.new ++ target tail cuts)

variable (cuts : List (Cut α))

theorem map_swap_swap : (cuts.map swap).map swap = cuts := by
  rw [map_map, Function.Involutive.comp_self fun c => rfl, map_id]

variable (tail : List α)

theorem source_swap (cuts : List (Cut α)) : source tail (cuts.map swap) = target tail cuts := by
  induction cuts with
  | nil => rfl
  | cons c cuts ih => rw [map_cons, source, target, ih, swap_gap, swap_old]

theorem target_swap (cuts : List (Cut α)) : target tail (cuts.map swap) = source tail cuts := by
  induction cuts with
  | nil => rfl
  | cons c cuts ih => rw [map_cons, source, target, ih, swap_gap, swap_new]

def join (c : Cut α) (cuts : List (Cut α)) : Cut α :=
  ⟨c.gap, c.old ++ cuts.flatMap (fun d => d.gap ++ d.old),
    c.new ++ cuts.flatMap (fun d => d.gap ++ d.new)⟩

theorem source_eq (cuts : List (Cut α)) :
    source tail cuts = cuts.flatMap (fun c => c.gap ++ c.old) ++ tail := by
  induction cuts with
  | nil => rfl
  | cons c cuts ih => rw [source, ih, flatMap_cons, append_assoc, append_assoc]

theorem source_join (c : Cut α) (cuts : List (Cut α)) :
    source tail [c.join cuts] = source tail (c :: cuts) := by
  rw [source, source, source, source_eq, join, append_assoc]

theorem target_join (c : Cut α) (cuts : List (Cut α)) :
    target tail [c.join cuts] = target tail (c :: cuts) := by
  have hswap := source_join tail c.swap (cuts.map swap)
  rw [← map_cons, source_swap] at hswap
  rw [← hswap, ← source_swap, map_singleton]
  simp only [join, swap, flatMap_map]

def replacements (n : Nat) : List (Cut α) → List (Replacement α)
  | [] => []
  | c :: cuts =>
    ⟨n + c.gap.length, n + c.gap.length + c.old.length, c.new⟩ ::
      replacements (n + c.gap.length + c.old.length) cuts

theorem replacements_le {n : Nat} {cuts : List (Cut α)} :
    ∀ r ∈ replacements n cuts, n ≤ r.start ∧ r.start ≤ r.stop := by
  induction cuts generalizing n with
  | nil =>
    intro r hr
    cases hr
  | cons c cuts ih =>
    intro r hr
    rcases mem_cons.mp hr with rfl | hr
    · exact ⟨Nat.le_add_right _ _, Nat.le_add_right _ _⟩
    · have hle := ih r hr
      omega

theorem replacements_sorted (n : Nat) (cuts : List (Cut α)) :
    (replacements n cuts).Pairwise fun a b => a.stop ≤ b.start := by
  induction cuts generalizing n with
  | nil => exact List.Pairwise.nil
  | cons c cuts ih => exact List.Pairwise.cons (fun r hr => (replacements_le r hr).1) (ih _)

theorem replacements_starts {n : Nat} {cuts : List (Cut α)} (h : ∀ c ∈ cuts.tail, c.gap ≠ []) :
    (replacements n cuts).Pairwise fun a b => a.start ≠ b.start := by
  induction cuts generalizing n with
  | nil => exact List.Pairwise.nil
  | cons c cuts ih =>
    refine List.Pairwise.cons (fun r hr => ?_) (ih fun d hd => h d (mem_of_mem_tail hd))
    cases cuts with
    | nil => cases hr
    | cons d cuts =>
      have hpos := length_pos_iff.mpr (h d mem_cons_self)
      rcases mem_cons.mp hr with rfl | hr
      · exact (by omega : n + c.gap.length ≠ n + c.gap.length + c.old.length + d.gap.length)
      · have hle := (replacements_le r hr).1
        exact (by omega : n + c.gap.length ≠ r.start)

theorem replaceFrom_replacements (n : Nat) (cuts : List (Cut α)) (tail : List α) :
    Replacement.replaceFrom (replacements n cuts) n (source tail cuts) = target tail cuts := by
  induction cuts generalizing n with
  | nil =>
    have hnone : ∀ r ∈ ([] : List (Replacement α)), n + tail.length ≤ r.start := by
      intro r hr
      cases hr
    have hgap := Replacement.replaceFrom_gap hnone []
    rw [append_nil] at hgap
    rw [replacements, source, target, hgap]
    exact append_nil tail
  | cons c cuts ih =>
    have hgap : ∀ r ∈ replacements n (c :: cuts), n + c.gap.length ≤ r.start := by
      intro r hr
      rcases mem_cons.mp hr with rfl | hr
      · exact Nat.le_refl _
      · have hle := replacements_le r hr
        omega
    have hhead := @Replacement.replaceFrom_head α
      ⟨n + c.gap.length, n + c.gap.length + c.old.length, c.new⟩ _ c.old rfl
      (fun r hr => (@replacements_le α _ cuts r hr).1) (source tail cuts)
    rw [source, Replacement.replaceFrom_gap hgap, replacements, hhead, ih, target]

def changes (o n : Int) : List (Cut α) → List (ListChange α)
  | [] => []
  | c :: cuts =>
    ⟨o + c.gap.length, c.old, n + c.gap.length, c.new⟩ ::
      changes (o + c.gap.length + c.old.length) (n + c.gap.length + c.new.length) cuts

end Cut

end Fumie.Lib
