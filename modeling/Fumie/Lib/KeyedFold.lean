import Fumie.Lib.RecordSum

/-!
# Folds by key

A fold that passes each item to the entry of its key keeps one fold for each key: the
entry of a key is the fold of the items of that key, however the items interleave.
-/

namespace Fumie.Lib

open List

namespace Record

variable {κ α ι ε : Type} [DecidableEq κ]

/-! ## Keys -/

variable {r : Record κ α} {k : κ}

theorem keys_set_of_none (a : α) (h : r.get k = none) : (r.set k a).keys = r.keys ++ [k] := by
  unfold keys
  rw [entries_set_of_none a h, map_append]
  rfl

variable {a : α}

theorem keys_set (b : α) (h : r.get k = some a) : (r.set k b).keys = r.keys := by
  obtain ⟨pre, post, hsplit, hpre, -⟩ := entries_split h
  show (setEntries k b r.entries).map Prod.fst = r.entries.map Prod.fst
  rw [hsplit, setEntries_split hpre]
  simp

theorem entries_set (b : α) (h : r.get k = some a) :
    (r.set k b).entries = r.entries.map fun e => if e.1 = k then (k, b) else e := by
  obtain ⟨pre, post, hsplit, hpre, hpost⟩ := entries_split h
  have hkeep : ∀ es : List (κ × α), k ∉ es.map Prod.fst →
      (es.map fun e => if e.1 = k then (k, b) else e) = es := by
    intro es hes
    have hsame : ∀ e ∈ es, (if e.1 = k then (k, b) else e) = e := by
      intro e he
      have hother : e.1 ≠ k := fun heq => hes (heq ▸ mem_map_of_mem he)
      exact if_neg hother
    rw [map_congr_left hsame, map_id']
  show setEntries k b r.entries = _
  rw [hsplit, setEntries_split hpre, map_append, map_cons, hkeep pre hpre,
    hkeep post hpost, if_pos rfl]

theorem keys_delete (r : Record κ α) (k : κ) : (r.delete k).keys = r.keys.filter (· ≠ k) := by
  show (r.entries.filter fun e => e.1 ≠ k).map Prod.fst = (r.entries.map Prod.fst).filter (· ≠ k)
  rw [filter_map]
  rfl

theorem get_of_notMem_keys (h : k ∉ r.keys) : r.get k = none := get_eq_none_iff.mpr h

/-! ## The fold -/

section

variable (key : ι → Except ε κ) (step : κ → Option α → ι → Except ε α)

def keyedStep (r : Record κ α) (item : ι) : Except ε (Record κ α) := do
  let k ← key item
  let a ← step k (r.get k) item
  .ok (r.set k a)

def itemsOf (k : κ) (items : List ι) : List ι :=
  items.filter fun item =>
    match key item with
    | .ok k' => k' = k
    | .error _ => false

def entryFold (k : κ) (entry : Option α) (items : List ι) : Except ε (Option α) :=
  items.foldlM (fun entry item => (step k entry item).map some) entry

end

variable {key : ι → Except ε κ} {step : κ → Option α → ι → Except ε α}

variable {item : ι}

theorem itemsOf_cons {k' : κ} (hkey : key item = .ok k') (k : κ) (items : List ι) :
    itemsOf key k (item :: items) =
      if k' = k then item :: itemsOf key k items else itemsOf key k items := by
  unfold itemsOf
  rw [filter_cons, hkey]
  simp

theorem keyedStep_ok {r r' : Record κ α} {item : ι} (h : keyedStep key step r item = .ok r') :
    ∃ k a, key item = .ok k ∧ step k (r.get k) item = .ok a ∧ r' = r.set k a := by
  unfold keyedStep at h
  cases hkey : key item with
  | error e =>
    rw [hkey] at h
    cases h
  | ok k =>
    rw [hkey] at h
    cases hstep : step k (r.get k) item with
    | error e =>
      simp only [bind, Except.bind, hstep] at h
      cases h
    | ok a =>
      simp only [bind, Except.bind, hstep] at h
      exact ⟨k, a, rfl, hstep, (Except.ok.inj h).symm⟩

theorem keyedStep_eq (hkey : key item = .ok k) (hstep : step k (r.get k) item = .ok a) :
    keyedStep key step r item = .ok (r.set k a) := by
  unfold keyedStep
  simp only [bind, Except.bind, hkey, hstep]

variable {items : List ι}

omit [DecidableEq κ] in
theorem entryFold_cons {entry : Option α} (hstep : step k entry item = .ok a) :
    entryFold step k entry (item :: items) = entryFold step k (some a) items := by
  unfold entryFold
  rw [foldlM_cons, hstep]
  rfl

theorem foldlM_keyedStep {r : Record κ α} {goal : κ → Option α}
    (hkeys : ∀ item ∈ items, ∃ k, key item = .ok k)
    (h : ∀ k, entryFold step k (r.get k) (itemsOf key k items) = .ok (goal k)) :
    ∃ r', items.foldlM (keyedStep key step) r = .ok r' ∧ ∀ k, r'.get k = goal k := by
  induction items generalizing r with
  | nil => exact ⟨r, rfl, fun k => Except.ok.inj (h k)⟩
  | cons item rest ih =>
    obtain ⟨k, hkey⟩ := hkeys item mem_cons_self
    have hk := h k
    rw [itemsOf_cons hkey, if_pos rfl] at hk
    cases hstep : step k (r.get k) item with
    | error e =>
      unfold entryFold at hk
      rw [foldlM_cons, hstep] at hk
      cases hk
    | ok a =>
      rw [entryFold_cons hstep] at hk
      obtain ⟨r', hr', hget⟩ := ih (r := r.set k a)
        (fun item' hitem => hkeys item' (mem_cons_of_mem _ hitem)) (by
          intro k'
          rw [get_set]
          split
          · next heq =>
            subst heq
            exact hk
          · next hne =>
            have hk' := h k'
            rwa [itemsOf_cons hkey, if_neg hne] at hk')
      refine ⟨r', ?_, hget⟩
      rw [foldlM_cons, keyedStep_eq hkey hstep]
      exact hr'

theorem entryFold_of_foldlM {r r' : Record κ α} (h : items.foldlM (keyedStep key step) r = .ok r')
    (k : κ) : entryFold step k (r.get k) (itemsOf key k items) = .ok (r'.get k) := by
  induction items generalizing r with
  | nil =>
    obtain rfl := Except.ok.inj h
    rfl
  | cons item rest ih =>
    rw [foldlM_cons] at h
    cases hstep : keyedStep key step r item with
    | error e =>
      rw [hstep] at h
      cases h
    | ok next =>
      rw [hstep] at h
      have hrest := ih h
      obtain ⟨k', a, hkey, hitem, rfl⟩ := keyedStep_ok hstep
      rw [get_set] at hrest
      rw [itemsOf_cons hkey]
      split
      · next heq =>
        subst heq
        rw [if_pos rfl] at hrest
        rw [entryFold_cons hitem]
        exact hrest
      · next hne =>
        rw [if_neg hne] at hrest
        exact hrest

end Record

end Fumie.Lib
