import Mathlib

/-!
# Insertion-ordered sets

An `OrderedSet α` is a finite set that remembers the order in which its elements
were first added, as a JavaScript `Set` does. The field `nodup` makes a repeated
element impossible to build, so erasing one occurrence erases the element.
-/

namespace Fumie.Lib

open List

structure OrderedSet (α : Type) where
  elems : List α
  nodup : elems.Nodup
  deriving DecidableEq

namespace OrderedSet

variable {α : Type}

def empty : OrderedSet α := ⟨[], nodup_nil⟩

instance : Inhabited (OrderedSet α) := ⟨empty⟩

instance : Membership α (OrderedSet α) := ⟨fun s a => a ∈ s.elems⟩

variable {s : OrderedSet α}

theorem mem_def {a : α} : a ∈ s ↔ a ∈ s.elems := Iff.rfl

@[simp] theorem not_mem_empty (a : α) : a ∉ (empty : OrderedSet α) := not_mem_nil

def isEmpty (s : OrderedSet α) : Bool := s.elems.isEmpty

theorem not_mem_of_isEmpty (h : s.isEmpty = true) (a : α) : a ∉ s := by
  rw [mem_def, isEmpty_iff.mp h]
  exact not_mem_nil

variable [DecidableEq α]

instance (a : α) (s : OrderedSet α) : Decidable (a ∈ s) :=
  inferInstanceAs (Decidable (a ∈ s.elems))

def insert (s : OrderedSet α) (a : α) : OrderedSet α :=
  if h : a ∈ s.elems then s
  else ⟨s.elems ++ [a], nodup_append.mpr ⟨s.nodup, nodup_singleton a, by
    rintro x hx y hy rfl
    exact h (mem_singleton.mp hy ▸ hx)⟩⟩

def erase (s : OrderedSet α) (a : α) : OrderedSet α := ⟨s.elems.erase a, s.nodup.erase a⟩

/-! ## Membership -/

@[simp] theorem mem_insert {a b : α} : b ∈ s.insert a ↔ b = a ∨ b ∈ s := by
  unfold insert
  split
  · rename_i h
    constructor
    · exact .inr
    · rintro (rfl | hb)
      · exact h
      · exact hb
  · rw [mem_def, mem_append, mem_singleton]
    exact Or.comm

@[simp] theorem mem_erase {a b : α} : b ∈ s.erase a ↔ b ≠ a ∧ b ∈ s :=
  s.nodup.mem_erase_iff

end OrderedSet

end Fumie.Lib
