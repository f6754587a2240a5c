import Mathlib

/-!
# Transducers over cut input

A `Transducer` reads one symbol at a time and writes a list for each. Its run over a
concatenation is the run over the parts, so a reader of pieces that does on every
piece what a transducer does there reads cut input as it reads whole input.
-/

namespace Fumie.Lib

structure Transducer (σ α β : Type) where
  step : σ → α → σ × List β

namespace Transducer

variable {σ α β : Type} (t : Transducer σ α β)

/-- The state after `input` and what was written on the way. -/
def run (s : σ) : List α → σ × List β
  | [] => (s, [])
  | a :: rest => ((run (t.step s a).1 rest).1, (t.step s a).2 ++ (run (t.step s a).1 rest).2)

@[simp] theorem run_nil (s : σ) : t.run s [] = (s, []) := rfl

theorem run_cons (s : σ) (a : α) (rest : List α) : t.run s (a :: rest) =
      ((t.run (t.step s a).1 rest).1, (t.step s a).2 ++ (t.run (t.step s a).1 rest).2) := rfl

theorem run_append (s : σ) (xs ys : List α) :
    t.run s (xs ++ ys) = ((t.run (t.run s xs).1 ys).1, (t.run s xs).2 ++ (t.run (t.run s xs).1 ys).2) := by
  induction xs generalizing s with
  | nil => rfl
  | cons a rest ih =>
    rw [List.cons_append, run_cons, run_cons, ih]
    simp only [List.append_assoc]

end Transducer

def feed {σ π β : Type} (read : σ → π → σ × List β) (s : σ) : List π → σ × List β
  | [] => (s, [])
  | piece :: rest =>
    ((feed read (read s piece).1 rest).1, (read s piece).2 ++ (feed read (read s piece).1 rest).2)

section Feed

variable {σ π β : Type} {read : σ → π → σ × List β}

@[simp] theorem feed_nil (s : σ) : feed read s [] = (s, []) := rfl

theorem feed_cons (s : σ) (piece : π) (rest : List π) : feed read s (piece :: rest) =
      ((feed read (read s piece).1 rest).1,
        (read s piece).2 ++ (feed read (read s piece).1 rest).2) := rfl

end Feed

end Fumie.Lib
