import Fumie.Lib.OrderedSet
import Fumie.Lib.Record

/-!
# Comparing two dictionaries

A merge compares dictionaries pairwise and walks through the keys of each difference.
Every step of such a walk touches one key only, so what a walk leaves at a key is what its
step makes of that key, however many others there are.
-/

namespace Fumie.UserDataSync

open Fumie.Lib List Record

/-! ## One key at a time -/

section

variable {σ κ ρ : Type} [DecidableEq κ]

theorem foldl_row (row : σ → κ → ρ) {step : σ → κ → σ} (f : κ → ρ → ρ)
    (hstep : ∀ s key other, row (step s key) other =
      if key = other then f other (row s other) else row s other)
    {keys : List κ} (hnodup : keys.Nodup) (s : σ) (key : κ) :
    row (keys.foldl step s) key = if key ∈ keys then f key (row s key) else row s key := by
  induction keys generalizing s with
  | nil => rfl
  | cons first rest ih =>
    obtain ⟨hfirst, hrest⟩ := nodup_cons.mp hnodup
    rw [foldl_cons, ih hrest, hstep]
    by_cases heq : first = key
    · subst heq
      rw [if_neg hfirst, if_pos rfl, if_pos mem_cons_self]
    · simp only [if_neg heq, mem_cons, Ne.symm heq, false_or]

end

/-! ## Differences -/

variable {α : Type}

/-- What a `compare` returns. -/
structure Comparison where
  added : OrderedSet String
  removed : OrderedSet String
  updated : OrderedSet String

def keysWhere (d : Record String α) (p : String → Bool) : OrderedSet String :=
  ⟨d.keys.filter p, d.nodup.filter p⟩

variable {source target : Record String α} {key : String}

theorem mem_keys_iff_ne : key ∈ source.keys ↔ source.get key ≠ none := by
  rw [mem_keys_iff, Option.ne_none_iff_exists']

variable [DecidableEq α]

def compare (source target : Record String α) : Comparison where
  added := keysWhere target fun key => key ∉ source.keys
  removed := keysWhere source fun key => key ∉ target.keys
  updated := keysWhere source fun key => key ∈ target.keys ∧ source.get key ≠ target.get key

theorem mem_compare_added :
    key ∈ (compare source target).added ↔ source.get key = none ∧ target.get key ≠ none := by
  show key ∈ target.keys.filter _ ↔ _
  rw [mem_filter, decide_eq_true_eq, mem_keys_iff_ne, mem_keys_iff_ne, not_ne_iff]
  exact and_comm

theorem mem_compare_removed :
    key ∈ (compare source target).removed ↔ source.get key ≠ none ∧ target.get key = none := by
  show key ∈ source.keys.filter _ ↔ _
  rw [mem_filter, decide_eq_true_eq, mem_keys_iff_ne, mem_keys_iff_ne, not_ne_iff]

theorem mem_compare_updated : key ∈ (compare source target).updated ↔
    source.get key ≠ none ∧ target.get key ≠ none ∧ source.get key ≠ target.get key := by
  show key ∈ source.keys.filter _ ↔ _
  rw [mem_filter, decide_eq_true_eq, mem_keys_iff_ne, mem_keys_iff_ne]

/-- `areSame`, and the test for an early return of both merges. -/
def Comparison.unchanged (c : Comparison) : Bool :=
  c.added.isEmpty && c.removed.isEmpty && c.updated.isEmpty

theorem unchanged_compare_iff :
    (compare source target).unchanged = true ↔ ∀ key, source.get key = target.get key := by
  unfold Comparison.unchanged
  rw [Bool.and_eq_true, Bool.and_eq_true]
  constructor
  · rintro ⟨⟨hadded, hremoved⟩, hupdated⟩ key
    have hadded := OrderedSet.not_mem_of_isEmpty hadded key
    have hremoved := OrderedSet.not_mem_of_isEmpty hremoved key
    have hupdated := OrderedSet.not_mem_of_isEmpty hupdated key
    rw [mem_compare_added] at hadded
    rw [mem_compare_removed] at hremoved
    rw [mem_compare_updated] at hupdated
    grind
  · intro h
    have hempty : ∀ s : OrderedSet String, (∀ key, key ∉ s) → s.isEmpty = true :=
      fun s hs => isEmpty_iff.mpr (eq_nil_iff_forall_not_mem.mpr hs)
    refine ⟨⟨hempty _ fun key hmem => ?_, hempty _ fun key hmem => ?_⟩, hempty _ fun key hmem => ?_⟩
    · rw [mem_compare_added, h key] at hmem
      exact hmem.2 hmem.1
    · rw [mem_compare_removed, h key] at hmem
      exact hmem.1 hmem.2
    · exact (mem_compare_updated.mp hmem).2.2 (h key)

/-! ## Changes -/

/-- `into[key] = from[key]`, for a key that is there. -/
def copyEntry (into source : Record String α) (key : String) : Record String α :=
  match source.get key with
  | some value => into.set key value
  | none => into

/-- What a merge asks of one side. -/
structure Changes (α : Type) where
  added : Record String α
  updated : Record String α
  removed : OrderedSet String

/-- What changes say of one key. -/
structure ChangeRow (α : Type) where
  added : Option α
  updated : Option α
  removed : Bool

namespace ChangeRow

variable (row : ChangeRow α)

def empty : ChangeRow α := ⟨none, none, false⟩

def add (value : Option α) : ChangeRow α := { row with added := value.or row.added }

def update (value : Option α) : ChangeRow α := { row with updated := value.or row.updated }

def remove : ChangeRow α := { row with removed := true }

def value (old : Option α) : Option α :=
  if row.removed then none else row.updated.or (row.added.or old)

/-- A key that is removed or updated is there, and one that is added is not. -/
def Fits (old : Option α) : Prop :=
  (row.removed = true → old ≠ none) ∧ (row.updated ≠ none → old ≠ none) ∧
    (row.added ≠ none → old = none)

end ChangeRow

namespace Changes

def empty : Changes α := ⟨.empty, .empty, .empty⟩

variable (c : Changes α)

def add (source : Record String α) (key : String) : Changes α :=
  { c with added := copyEntry c.added source key }

def update (source : Record String α) (key : String) : Changes α :=
  { c with updated := copyEntry c.updated source key }

def remove (key : String) : Changes α := { c with removed := c.removed.insert key }

def apply (d : Record String α) : Record String α :=
  c.removed.elems.foldl delete ((d.merge c.added).merge c.updated)

def row (key : String) : ChangeRow α := ⟨c.added.get key, c.updated.get key, key ∈ c.removed⟩

def Fits (d : Record String α) : Prop := ∀ key, (c.row key).Fits (d.get key)

end Changes

omit [DecidableEq α]

theorem get_merge (d e : Record String α) (key : String) :
    (d.merge e).get key = (e.get key).or (d.get key) := by
  obtain ⟨entries, hnodup⟩ := e
  show (entries.foldl (fun acc e => acc.set e.1 e.2) d).get key =
    ((entries.find? fun e => e.1 = key).map Prod.snd).or (d.get key)
  induction entries generalizing d with
  | nil => rfl
  | cons e rest ih =>
    rw [map_cons, nodup_cons] at hnodup
    rw [foldl_cons, ih _ hnodup.2, get_set]
    by_cases heq : e.1 = key
    · have hrest : rest.find? (fun e => e.1 = key) = none :=
        find?_eq_none.mpr fun e' he' hkey => hnodup.1 (by
          rw [heq, ← of_decide_eq_true hkey]
          exact mem_map_of_mem he')
      rw [if_pos heq, hrest, find?_cons_of_pos (by simpa using heq)]
      rfl
    · rw [if_neg heq, find?_cons_of_neg (by simpa using heq)]

variable (c : Changes α) (d : Record String α) (key other : String)

theorem get_apply : (c.apply d).get key = (c.row key).value (d.get key) := by
  show (c.removed.elems.foldl delete _).get key = _
  rw [foldl_row get (fun _ _ => none)
    (fun d key other => get_delete d key other) c.removed.nodup, get_merge, get_merge]
  unfold ChangeRow.value Changes.row
  simp only [decide_eq_true_eq]
  rfl

theorem get_copyEntry (into : Record String α) : (copyEntry into d key).get other =
    if key = other then (d.get other).or (into.get other) else into.get other := by
  unfold copyEntry
  by_cases heq : key = other
  · subst heq
    cases hget : d.get key with
    | none => simp
    | some value => simp [get_set]
  · cases hget : d.get key with
    | none => simp [heq]
    | some value => simp [get_set, heq]

theorem row_add : (c.add d key).row other =
    if key = other then (c.row other).add (d.get other) else c.row other := by
  unfold Changes.row Changes.add
  simp only [get_copyEntry]
  split <;> rfl

theorem row_update : (c.update d key).row other =
    if key = other then (c.row other).update (d.get other) else c.row other := by
  unfold Changes.row Changes.update
  simp only [get_copyEntry]
  split <;> rfl

theorem row_remove : (c.remove key).row other =
    if key = other then (c.row other).remove else c.row other := by
  unfold Changes.row Changes.remove ChangeRow.remove
  by_cases h : key = other
  · simp [h]
  · simp [h, Ne.symm h]

end Fumie.UserDataSync
