import Mathlib

/-!
# Insertion-ordered records

A `Record κ α` is a finite map that remembers the order in which its keys were
first written, as a JavaScript object does. Writing a present key keeps its
position, writing a new key appends it. The field `nodup` makes a record with a
repeated key impossible to build, so `get` never has to choose between two
entries.
-/

namespace Fumie.Lib

open List Option

/-- Finite map with its keys in insertion order. -/
structure Record (κ α : Type) where
  entries : List (κ × α)
  nodup : (entries.map Prod.fst).Nodup
  deriving DecidableEq

namespace Record

variable {κ α : Type} [DecidableEq κ]

def empty : Record κ α := ⟨[], nodup_nil⟩

instance : Inhabited (Record κ α) := ⟨empty⟩

def keys (r : Record κ α) : List κ := r.entries.map Prod.fst

def get (r : Record κ α) (k : κ) : Option α := (r.entries.find? fun e => e.1 = k).map Prod.snd

def isEmpty (r : Record κ α) : Bool := r.entries.isEmpty

/-- Overwrite in place, or append when the key is new. -/
def setEntries (k : κ) (a : α) : List (κ × α) → List (κ × α)
  | [] => [(k, a)]
  | e :: rest => if e.1 = k then (k, a) :: rest else e :: setEntries k a rest

theorem mem_setEntries_keys {k k' : κ} {a : α} {es : List (κ × α)}
    (h : k' ∈ (setEntries k a es).map Prod.fst) : k' = k ∨ k' ∈ es.map Prod.fst := by
  induction es with
  | nil =>
    left
    simpa [setEntries] using h
  | cons e rest ih =>
    unfold setEntries at h
    split at h
    · rename_i hk
      rcases mem_cons.mp h with rfl | h
      · exact .inl rfl
      · exact .inr (mem_cons_of_mem _ h)
    · rcases mem_cons.mp h with rfl | h
      · exact .inr mem_cons_self
      · rcases ih h with hk | hk
        · exact .inl hk
        · exact .inr (mem_cons_of_mem _ hk)

theorem setEntries_nodup {k : κ} {a : α} {es : List (κ × α)}
    (h : (es.map Prod.fst).Nodup) : ((setEntries k a es).map Prod.fst).Nodup := by
  induction es with
  | nil => simp [setEntries]
  | cons e rest ih =>
    rw [map_cons, nodup_cons] at h
    unfold setEntries
    split
    · rename_i hk
      subst hk
      exact nodup_cons.mpr h
    · rename_i hk
      rw [map_cons, nodup_cons]
      refine ⟨fun hmem => ?_, ih h.2⟩
      rcases mem_setEntries_keys hmem with hk' | hk'
      · exact hk hk'
      · exact h.1 hk'

def set (r : Record κ α) (k : κ) (a : α) : Record κ α :=
  ⟨setEntries k a r.entries, setEntries_nodup r.nodup⟩

def delete (r : Record κ α) (k : κ) : Record κ α :=
  ⟨r.entries.filter fun e => e.1 ≠ k, r.nodup.sublist ((filter_sublist).map Prod.fst)⟩

def filter (p : κ → α → Bool) (r : Record κ α) : Record κ α :=
  ⟨r.entries.filter fun e => p e.1 e.2, r.nodup.sublist ((filter_sublist).map Prod.fst)⟩

/-! ## Reading after writing -/

@[simp] theorem get_empty (k : κ) : (empty : Record κ α).get k = none := rfl

theorem find_setEntries (k k' : κ) (a : α) (es : List (κ × α)) :
    ((setEntries k a es).find? fun e => e.1 = k').map Prod.snd =
      if k = k' then some a else (es.find? fun e => e.1 = k').map Prod.snd := by
  induction es with
  | nil =>
    by_cases hk : k = k'
    · simp [setEntries, hk]
    · simp [setEntries, hk]
  | cons e rest ih =>
    unfold setEntries
    by_cases he : e.1 = k
    · rw [if_pos he]
      by_cases hk : k = k'
      · simp [hk]
      · have : e.1 ≠ k' := fun h => hk (he.symm.trans h)
        simp [hk, this]
    · rw [if_neg he]
      by_cases hk' : e.1 = k'
      · have : k ≠ k' := fun h => he (hk'.trans h.symm)
        simp [hk', this]
      · rw [find?_cons_of_neg (by simpa using hk'), ih, find?_cons_of_neg (by simpa using hk')]

theorem get_set (r : Record κ α) (k k' : κ) (a : α) :
    (r.set k a).get k' = if k = k' then some a else r.get k' :=
  find_setEntries k k' a r.entries

theorem get_delete (r : Record κ α) (k k' : κ) :
    (r.delete k).get k' = if k = k' then none else r.get k' := by
  show ((r.entries.filter fun e => e.1 ≠ k).find? fun e => e.1 = k').map Prod.snd = _
  rw [find?_filter]
  by_cases hk : k = k'
  · subst hk
    rw [if_pos rfl]
    simp
  · rw [if_neg hk]
    congr 2
    funext e
    by_cases he : e.1 = k'
    · have : e.1 ≠ k := fun h => hk (h.symm.trans he)
      simp [he, Ne.symm hk]
    · simp [he]

variable {r : Record κ α} {k : κ} {a : α}

theorem mem_of_get (h : r.get k = some a) : (k, a) ∈ r.entries := by
  obtain ⟨e, he, rfl⟩ := map_eq_some_iff.mp h
  have hk : e.1 = k := by simpa using find?_some he
  rw [← hk]
  exact mem_of_find?_eq_some he

theorem get_of_mem {r : Record κ α} {k : κ} {a : α} (h : (k, a) ∈ r.entries) :
    r.get k = some a := by
  obtain ⟨es, hnodup⟩ := r
  induction es with
  | nil => cases h
  | cons e rest ih =>
    rw [map_cons, nodup_cons] at hnodup
    unfold get
    rcases mem_cons.mp h with rfl | hmem
    · simp
    · have hne : e.1 ≠ k := fun hk => hnodup.1 (hk ▸ mem_map_of_mem hmem)
      rw [find?_cons_of_neg (by simpa using hne)]
      exact ih hnodup.2 hmem

variable {p : κ → α → Bool}

theorem get_filter (h : (r.filter p).get k = some a) : r.get k = some a ∧ p k a = true := by
  obtain ⟨hmem, hp⟩ := mem_filter.mp (mem_of_get h)
  exact ⟨get_of_mem hmem, hp⟩

theorem get_filter_of_pos (h : r.get k = some a) (hp : p k a = true) :
    (r.filter p).get k = some a :=
  get_of_mem (mem_filter.mpr ⟨mem_of_get h, hp⟩)

theorem get_filter_eq (p : κ → α → Bool) (r : Record κ α) (k : κ) :
    (r.filter p).get k = (r.get k).filter (p k) := by
  cases hget : r.get k with
  | none =>
    rw [filter_none, eq_none_iff_forall_not_mem]
    intro a ha
    rw [(get_filter ha).1] at hget
    cases hget
  | some a =>
    by_cases hp : p k a = true
    · rw [get_filter_of_pos hget hp, filter_some, if_pos hp]
    · rw [filter_some, if_neg hp, eq_none_iff_forall_not_mem]
      intro b hb
      obtain ⟨hb, hpb⟩ := get_filter hb
      obtain rfl := Option.some.inj (hget.symm.trans hb)
      exact hp hpb

theorem mem_keys_iff : k ∈ r.keys ↔ ∃ a, r.get k = some a := by
  constructor
  · intro h
    obtain ⟨e, he, rfl⟩ := mem_map.mp h
    exact ⟨e.2, get_of_mem he⟩
  · rintro ⟨a, h⟩
    exact mem_map_of_mem (mem_of_get h)

def merge (r s : Record κ α) : Record κ α := s.entries.foldl (fun acc e => acc.set e.1 e.2) r

end Record

end Fumie.Lib
