import Mathlib

/-!
# Runs of a labelled transition system

A `System` is a set of initial states and a step relation labelled by events.
`ReachableVia ok` are the states reached by runs all of whose steps satisfy `ok`;
`Reachable` are those reached by any run. `ReachableVia.invariant` is the only
induction over runs the developments need: what every initial state has and every
step keeps, every reached state has.
-/

namespace Fumie.Lib

open List

structure System (σ ι : Type) where
  init : σ → Prop
  step : σ → ι → σ → Prop

namespace System

variable {σ ι : Type}

def ofStep (init : σ → Prop) (step : σ → ι → Option σ) : System σ ι where
  init := init
  step s i s' := step s i = some s'

inductive ReachableVia (sys : System σ ι) (ok : σ → ι → Prop) : σ → Prop where
  | init {s : σ} (h : sys.init s) : ReachableVia sys ok s
  | step {s s' : σ} {i : ι} (hs : ReachableVia sys ok s) (hok : ok s i)
      (hstep : sys.step s i s') : ReachableVia sys ok s'

def Reachable (sys : System σ ι) : σ → Prop := sys.ReachableVia fun _ _ => True

variable {sys : System σ ι} {ok : σ → ι → Prop}

theorem ReachableVia.invariant {inv : σ → Prop} (hinit : ∀ s, sys.init s → inv s)
    (hstep : ∀ s i s', inv s → ok s i → sys.step s i s' → inv s')
    {s : σ} (hs : sys.ReachableVia ok s) : inv s := by
  induction hs with
  | init h => exact hinit _ h
  | step _ hok hstep' ih => exact hstep _ _ _ ih hok hstep'

variable {init : σ → Prop} {step : σ → ι → Option σ}

theorem ReachableVia.run {s s' : σ} (hs : (ofStep init step).ReachableVia ok s) (events : List ι)
    (hok : ∀ i ∈ events, ∀ s, ok s i) (h : events.foldlM step s = some s') :
    (ofStep init step).ReachableVia ok s' := by
  induction events generalizing s with
  | nil =>
    cases h
    exact hs
  | cons i rest ih =>
    rw [foldlM_cons] at h
    obtain ⟨t, ht, hrest⟩ := Option.bind_eq_some_iff.mp h
    exact ih (ReachableVia.step hs (hok i mem_cons_self s) ht)
      (fun j hj => hok j (mem_cons_of_mem _ hj)) hrest

theorem Reachable.run {s s' : σ} (hs : (ofStep init step).Reachable s) (events : List ι)
    (h : events.foldlM step s = some s') : (ofStep init step).Reachable s' :=
  ReachableVia.run hs events (fun _ _ _ => trivial) h

def RunVia (step : σ → ι → Option σ) (ok : σ → ι → Prop) (s : σ) : List ι → σ → Prop
  | [], t => s = t
  | i :: rest, t => ∃ m, ok s i ∧ step s i = some m ∧ RunVia step ok m rest t

theorem RunVia.invariant {step : σ → ι → Option σ} {inv : σ → Prop}
    (hstep : ∀ s i s', inv s → ok s i → step s i = some s' → inv s') {s t : σ} {events : List ι}
    (h : RunVia step ok s events t) (hs : inv s) : inv t := by
  induction events generalizing s with
  | nil =>
    cases h
    exact hs
  | cons i rest ih =>
    obtain ⟨m, hok, hm, hrest⟩ := h
    exact ih hrest (hstep s i m hs hok hm)

theorem ReachableVia.of_runVia {ok : σ → ι → Prop} {s t : σ} {events : List ι}
    (hs : (ofStep init step).ReachableVia ok s) (h : RunVia step ok s events t) :
    (ofStep init step).ReachableVia ok t := by
  induction events generalizing s with
  | nil =>
    cases h
    exact hs
  | cons i rest ih =>
    obtain ⟨m, hok, hm, hrest⟩ := h
    exact ih (.step hs hok hm) hrest

end System

end Fumie.Lib
