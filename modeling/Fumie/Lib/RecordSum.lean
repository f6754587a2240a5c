import Fumie.Lib.Record

/-!
# Sums over a record

`sumOf f` adds `f` over the values of a record. Writing a new key adds its value,
overwriting a key exchanges one summand for another, and deleting a key takes its
summand away, so a counter kept beside a record can be compared with the sum after
each of the three.
-/

namespace Fumie.Lib

open List

namespace Record

variable {κ α : Type} [DecidableEq κ]

def sumOf (f : α → Nat) (r : Record κ α) : Nat := (r.entries.map fun e => f e.2).sum

variable {r : Record κ α} {k : κ}

theorem get_eq_none_iff : r.get k = none ↔ k ∉ r.entries.map Prod.fst := by
  constructor
  · intro h hmem
    obtain ⟨a, ha⟩ := mem_keys_iff.mp hmem
    rw [h] at ha
    cases ha
  · intro h
    rw [Option.eq_none_iff_forall_not_mem]
    intro a ha
    exact h (mem_map_of_mem (mem_of_get ha))

theorem setEntries_of_notMem {k : κ} {a : α} {es : List (κ × α)}
    (h : k ∉ es.map Prod.fst) : setEntries k a es = es ++ [(k, a)] := by
  induction es with
  | nil => rfl
  | cons e rest ih =>
    rw [map_cons, mem_cons, not_or] at h
    show (if e.1 = k then _ else _) = _
    rw [if_neg (Ne.symm h.1), ih h.2]
    rfl

theorem entries_set_of_none (a : α) (h : r.get k = none) :
    (r.set k a).entries = r.entries ++ [(k, a)] :=
  setEntries_of_notMem (get_eq_none_iff.mp h)

variable (f : α → Nat)

theorem sumOf_set_of_none (a : α) (h : r.get k = none) : (r.set k a).sumOf f = r.sumOf f + f a := by
  unfold sumOf
  rw [entries_set_of_none a h, map_append, sum_append]
  simp

theorem length_set_of_none (a : α) (h : r.get k = none) :
    (r.set k a).entries.length = r.entries.length + 1 := by
  rw [entries_set_of_none a h, length_append]
  rfl

variable {a : α}

theorem entries_split (h : r.get k = some a) :
    ∃ pre post, r.entries = pre ++ (k, a) :: post ∧ k ∉ pre.map Prod.fst ∧
      k ∉ post.map Prod.fst := by
  obtain ⟨pre, post, hsplit⟩ := append_of_mem (mem_of_get h)
  have hnodup := r.nodup
  rw [hsplit, map_append, map_cons, nodup_append] at hnodup
  obtain ⟨-, hpost, hdisjoint⟩ := hnodup
  refine ⟨pre, post, hsplit, fun hmem => ?_, (nodup_cons.mp hpost).1⟩
  exact hdisjoint k hmem k mem_cons_self rfl

variable {pre post : List (κ × α)}

theorem setEntries_split {k : κ} {a b : α} (h : k ∉ pre.map Prod.fst) :
    setEntries k b (pre ++ (k, a) :: post) = pre ++ (k, b) :: post := by
  induction pre with
  | nil =>
    show (if k = k then _ else _) = _
    rw [if_pos rfl]
    rfl
  | cons e rest ih =>
    rw [map_cons, mem_cons, not_or] at h
    show (if e.1 = k then _ else _) = _
    rw [if_neg (Ne.symm h.1), append_eq, ih h.2]
    rfl

theorem filter_ne_split (hpre : k ∉ pre.map Prod.fst) (hpost : k ∉ post.map Prod.fst) :
    (pre ++ (k, a) :: post).filter (fun e => e.1 ≠ k) = pre ++ post := by
  have hkeep : ∀ es : List (κ × α), k ∉ es.map Prod.fst → es.filter (fun e => e.1 ≠ k) = es := by
    intro es hes
    refine filter_eq_self.mpr fun e he => ?_
    have : e.1 ≠ k := fun hk => hes (hk ▸ mem_map_of_mem he)
    simpa using this
  rw [filter_append, filter_cons_of_neg (by simp), hkeep pre hpre, hkeep post hpost]

theorem sumOf_set (b : α) (h : r.get k = some a) : (r.set k b).sumOf f + f a = r.sumOf f + f b := by
  obtain ⟨pre, post, hsplit, hpre, -⟩ := entries_split h
  show ((setEntries k b r.entries).map fun e => f e.2).sum + f a =
    (r.entries.map fun e => f e.2).sum + f b
  rw [hsplit, setEntries_split hpre]
  simp only [map_append, map_cons, sum_append, sum_cons]
  omega

theorem length_set (b : α) (h : r.get k = some a) :
    (r.set k b).entries.length = r.entries.length := by
  obtain ⟨pre, post, hsplit, hpre, -⟩ := entries_split h
  show (setEntries k b r.entries).length = r.entries.length
  rw [hsplit, setEntries_split hpre]
  simp

theorem sumOf_delete (h : r.get k = some a) : (r.delete k).sumOf f + f a = r.sumOf f := by
  obtain ⟨pre, post, hsplit, hpre, hpost⟩ := entries_split h
  show ((r.entries.filter fun e => e.1 ≠ k).map fun e => f e.2).sum + f a =
    (r.entries.map fun e => f e.2).sum
  rw [hsplit, filter_ne_split hpre hpost]
  simp only [map_append, map_cons, sum_append, sum_cons]
  omega

theorem le_sumOf (h : r.get k = some a) : f a ≤ r.sumOf f :=
  le_sum_of_mem (mem_map_of_mem (f := fun e : κ × α => f e.2) (mem_of_get h))

theorem exists_pos_of_sumOf {f : α → Nat} (h : 0 < r.sumOf f) :
    ∃ k a, r.get k = some a ∧ 0 < f a := by
  by_contra hnone
  push Not at hnone
  have hzero : r.sumOf f = 0 := by
    refine sum_eq_zero fun x hx => ?_
    obtain ⟨e, he, rfl⟩ := mem_map.mp hx
    exact Nat.le_zero.mp (hnone e.1 e.2 (get_of_mem he))
  omega

theorem length_delete_le (r : Record κ α) (k : κ) :
    (r.delete k).entries.length ≤ r.entries.length :=
  length_filter_le _ _

end Record

end Fumie.Lib
