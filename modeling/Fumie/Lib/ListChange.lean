import Mathlib

/-!
# Changes between two lists

A change says which items stand at a position of the old list and which stand there in
the new one. A list of changes takes one list to another when the two are the same gaps
with the old items between them and with the new items between them; from this follow
the order of the positions, what stands at them and how to compute one list from the
other.
-/

namespace Fumie.Lib

open List

structure ListChange (α : Type) where
  oldPosition : Int
  oldText : List α
  newPosition : Int
  newText : List α
  deriving DecidableEq, Repr

namespace ListChange

variable {α : Type}

section

variable (c : ListChange α)

def oldLength : Int := c.oldText.length

def oldEnd : Int := c.oldPosition + c.oldLength

def newLength : Int := c.newText.length

def newEnd : Int := c.newPosition + c.newLength

def flip : ListChange α := ⟨c.newPosition, c.newText, c.oldPosition, c.oldText⟩

end

def Takes (o n : Int) : List (ListChange α) → List α → List α → Prop
  | [], s, t => s = t
  | c :: rest, s, t => ∃ gap s' t', s = gap ++ (c.oldText ++ s') ∧ t = gap ++ (c.newText ++ t') ∧
      c.oldPosition = o + gap.length ∧ c.newPosition = n + gap.length ∧
      Takes c.oldEnd c.newEnd rest s' t'

theorem Takes.refl (o n : Int) (s : List α) : Takes o n [] s s := rfl

variable {o n position : Int} {s t front back before after : List α}

theorem Takes.flip {changes : List (ListChange α)} (h : Takes o n changes s t) :
    Takes n o (changes.map ListChange.flip) t s := by
  induction changes generalizing o n s t with
  | nil => exact Eq.symm h
  | cons c rest ih =>
    obtain ⟨gap, s', t', hs, ht, hold, hnew, hrest⟩ := h
    exact ⟨gap, t', s', ht, hs, hnew, hold, ih hrest⟩

theorem Takes.extend {changes : List (ListChange α)} (gap : List α)
    (h : Takes (o + gap.length) (n + gap.length) changes s t) :
    Takes o n changes (gap ++ s) (gap ++ t) := by
  cases changes with
  | nil => exact congrArg (gap ++ ·) h
  | cons c rest =>
    obtain ⟨inner, s', t', rfl, rfl, hold, hnew, hrest⟩ := h
    refine ⟨gap ++ inner, s', t', (append_assoc ..).symm, (append_assoc ..).symm, ?_, ?_, hrest⟩
    · rw [hold, length_append, Nat.cast_add, Int.add_assoc]
    · rw [hnew, length_append, Nat.cast_add, Int.add_assoc]

theorem Takes.split {changes : List (ListChange α)} (h : Takes o n changes s (front ++ back))
    (hfirst : ∀ c ∈ changes.head?, n + front.length ≤ c.newPosition) :
    ∃ s', s = front ++ s' ∧ Takes (o + front.length) (n + front.length) changes s' back := by
  cases changes with
  | nil => exact ⟨back, h, rfl⟩
  | cons c rest =>
    obtain ⟨gap, s', t', hs, ht, hold, hnew, hrest⟩ := h
    have hle := hfirst c rfl
    rw [hnew] at hle
    obtain ⟨inner, rfl⟩ : front <+: gap := by
      refine prefix_of_prefix_length_le ⟨back, rfl⟩ ?_ (by omega)
      rw [ht]
      exact prefix_append _ _
    rw [append_assoc] at hs ht
    refine ⟨inner ++ (c.oldText ++ s'), hs, inner, s', t', rfl, append_cancel_left ht, ?_, ?_,
      hrest⟩
    · rw [hold, length_append, Nat.cast_add, Int.add_assoc]
    · rw [hnew, length_append, Nat.cast_add, Int.add_assoc]

variable {changes : List (ListChange α)}

theorem Takes.split_old (h : Takes o n changes (front ++ back) t)
    (hfirst : ∀ c ∈ changes.head?, o + front.length ≤ c.oldPosition) :
    ∃ t', t = front ++ t' ∧ Takes (o + front.length) (n + front.length) changes back t' := by
  obtain ⟨t', ht, hrest⟩ := h.flip.split (by
    intro c hc
    rw [head?_map, Option.mem_map] at hc
    obtain ⟨d, hd, rfl⟩ := hc
    exact hfirst d hd)
  have hback := hrest.flip
  rw [map_map, Function.Involutive.comp_self (f := ListChange.flip) fun c => rfl, map_id] at hback
  exact ⟨t', ht, hback⟩

/-! ## Positions -/

theorem Takes.le {changes : List (ListChange α)} (h : Takes o n changes s t) :
    ∀ c ∈ changes, o ≤ c.oldPosition ∧ n ≤ c.newPosition := by
  induction changes generalizing o n s t with
  | nil =>
    intro c hc
    cases hc
  | cons d rest ih =>
    obtain ⟨gap, s', t', -, -, hold, hnew, hrest⟩ := h
    intro c hc
    rcases mem_cons.mp hc with rfl | hc
    · omega
    · have hle := ih hrest c hc
      simp only [oldEnd, newEnd, oldLength, newLength] at hle
      omega

theorem Takes.sorted {changes : List (ListChange α)} (h : Takes o n changes s t) :
    changes.Pairwise fun a b => a.oldEnd ≤ b.oldPosition ∧ a.newEnd ≤ b.newPosition := by
  induction changes generalizing o n s t with
  | nil => exact List.Pairwise.nil
  | cons c rest ih =>
    obtain ⟨gap, s', t', -, -, -, -, hrest⟩ := h
    exact List.Pairwise.cons hrest.le (ih hrest)

def slice (s : List α) (position : Int) (length : Nat) : List α :=
  (s.drop position.toNat).take length

theorem slice_append {text : List α} (h : position = before.length) :
    slice (before ++ (text ++ after)) position text.length = text := by
  rw [slice, h, Int.toNat_natCast, drop_left, take_left]

theorem Takes.found {changes : List (ListChange α)} (h : Takes o n changes s t)
    (hbefore : o = before.length) :
    ∀ c ∈ changes, slice (before ++ s) c.oldPosition c.oldText.length = c.oldText := by
  induction changes generalizing o n before s t with
  | nil =>
    intro c hc
    cases hc
  | cons d rest ih =>
    obtain ⟨gap, s', t', hs, -, hold, -, hrest⟩ := h
    have hposition : d.oldPosition = (before ++ gap).length := by
      rw [hold, hbefore, length_append, Nat.cast_add]
    have hwhole : before ++ s = (before ++ gap) ++ (d.oldText ++ s') := by
      rw [hs, append_assoc]
    intro c hc
    rw [hwhole]
    rcases mem_cons.mp hc with rfl | hc
    · exact slice_append hposition
    · have hend : d.oldEnd = (before ++ gap ++ d.oldText).length := by
        rw [oldEnd, hposition, oldLength, @length_append _ _ d.oldText, Nat.cast_add]
      have hfound := ih hrest hend c hc
      rwa [append_assoc (before ++ gap)] at hfound

/-! ## Applying changes -/

def splice (s : List α) (position : Int) (length : Nat) (text : List α) : List α :=
  s.take position.toNat ++ text ++ s.drop (position.toNat + length)

theorem splice_append {old : List α} (text : List α) (h : position = before.length) :
    splice (before ++ (old ++ after)) position old.length text = before ++ (text ++ after) := by
  rw [splice, h, Int.toNat_natCast, take_left, ← drop_drop, drop_left, drop_left, append_assoc]

def applyAll (changes : List (ListChange α)) (s : List α) : List α :=
  changes.foldr (fun c text => splice text c.oldPosition c.oldText.length c.newText) s

theorem Takes.applyAll_append {changes : List (ListChange α)} (h : Takes o n changes s t)
    (hbefore : o = before.length) : applyAll changes (before ++ s) = before ++ t := by
  induction changes generalizing o n before s t with
  | nil =>
    cases h
    rfl
  | cons c rest ih =>
    obtain ⟨gap, s', t', hs, ht, hold, -, hrest⟩ := h
    have hposition : c.oldPosition = (before ++ gap).length := by
      rw [hold, hbefore, length_append, Nat.cast_add]
    have hend : c.oldEnd = (before ++ gap ++ c.oldText).length := by
      rw [oldEnd, hposition, oldLength, @length_append _ _ c.oldText, Nat.cast_add]
    have hrest' := ih hrest hend
    have hwhole : before ++ s = before ++ gap ++ c.oldText ++ s' := by
      rw [hs]
      simp only [append_assoc]
    rw [applyAll] at hrest' ⊢
    rw [foldr_cons, hwhole, hrest', append_assoc (before ++ gap),
      splice_append c.newText hposition, ht, append_assoc]

theorem Takes.applyAll_eq (h : Takes 0 0 changes s t) : applyAll changes s = t := by
  have hstart : (0 : Int) = ([] : List α).length := rfl
  exact h.applyAll_append hstart

end ListChange

end Fumie.Lib
