import Mathlib

/-!
# Chains of promises

Tasks of one key are run one after the other by chaining each to the promise of the
task asked for before it. The last promise of a key is its tail; it is forgotten once it
has settled, and a task that finds no tail waits for nothing. `Ordered` is what every
chain built this way has: a task is begun only when every earlier task of its key has
settled.
-/

namespace Fumie.Lib

open List Function Option

inductive LinkPhase where
  | waiting
  | running
  | settled
  deriving DecidableEq

/-- A promise of a chain: its key, the promise it waits for and its task. -/
structure Link (κ τ : Type) where
  key : κ
  previous : Option Nat
  phase : LinkPhase
  task : τ

/-- The promises in the order they were asked for, and the tail of each key. -/
structure PromiseChain (κ τ : Type) where
  links : List (Link κ τ) := []
  tail : κ → Option Nat := fun _ => none

namespace PromiseChain

variable {κ τ : Type} [DecidableEq κ]

section

variable (c : PromiseChain κ τ)

def request (key : κ) (task : τ) : PromiseChain κ τ where
  links := c.links ++ [{ key, previous := c.tail key, phase := .waiting, task }]
  tail := Function.update c.tail key (some c.links.length)

def hasSettled (i : Nat) : Bool := (c.links[i]?).any (·.phase = .settled)

def setLink (i : Nat) (link : Link κ τ) : PromiseChain κ τ :=
  { c with links := c.links.set i link }

def start (i : Nat) : Option (PromiseChain κ τ) := do
  let link ← c.links[i]?
  if link.phase = .waiting ∧ link.previous.all (c.hasSettled ·) then
    some (c.setLink i { link with phase := .running })
  else none

def cleanup (i : Nat) : Option (PromiseChain κ τ) := do
  let link ← c.links[i]?
  if link.phase = .settled then
    some (if c.tail link.key = some i then { c with tail := Function.update c.tail link.key none }
      else c)
  else none

end

/-! ## Lookups -/

omit [DecidableEq κ] in
theorem getElem?_setLink {c : PromiseChain κ τ} {i : Nat} {old : Link κ τ}
    (hold : c.links[i]? = some old) (link : Link κ τ) (j : Nat) :
    (c.setLink i link).links[j]? = if j = i then some link else c.links[j]? := by
  have hi : i < c.links.length := (List.getElem?_eq_some_iff.mp hold).1
  unfold setLink
  rw [getElem?_set]
  by_cases h : i = j
  · subst h
    simp [hi]
  · rw [if_neg h, if_neg fun hji => h hji.symm]

theorem getElem?_request (c : PromiseChain κ τ) (key : κ) (task : τ) (j : Nat) :
    (c.request key task).links[j]? =
      if j = c.links.length then
        some { key, previous := c.tail key, phase := .waiting, task }
      else c.links[j]? := by
  unfold request
  rw [getElem?_append]
  by_cases hlt : j < c.links.length
  · rw [if_pos hlt, if_neg (by omega)]
  · rw [if_neg hlt]
    by_cases h : j = c.links.length
    · subst h
      simp
    · rw [if_neg h, getElem?_eq_none (by simp; omega), getElem?_eq_none (by omega)]

/-! ## Order -/

def SettledBefore (c : PromiseChain κ τ) (key : κ) (i : Nat) : Prop :=
  ∀ j link, j < i → c.links[j]? = some link → link.key = key → link.phase = .settled

def FreeBetween (c : PromiseChain κ τ) (key : κ) (i n : Nat) : Prop :=
  ∀ j link, i < j → j < n → c.links[j]? = some link → link.key ≠ key

structure Ordered (c : PromiseChain κ τ) : Prop where
  /-- A tail is the last promise of its key. -/
  tailLast : ∀ key i, c.tail key = some i →
    (∃ link, c.links[i]? = some link ∧ link.key = key) ∧ c.FreeBetween key i c.links.length
  noTail : ∀ key, c.tail key = none → c.SettledBefore key c.links.length
  /-- A promise waits for the one of its key asked for just before it. -/
  previousLast : ∀ i link p, c.links[i]? = some link → link.previous = some p →
    p < i ∧ (∃ before, c.links[p]? = some before ∧ before.key = link.key) ∧
      c.FreeBetween link.key p i
  noPrevious : ∀ i link, c.links[i]? = some link → link.previous = none → c.SettledBefore link.key i
  begun : ∀ i link, c.links[i]? = some link → link.phase ≠ .waiting → c.SettledBefore link.key i

omit [DecidableEq κ] in
theorem ordered_empty : Ordered ({} : PromiseChain κ τ) where
  tailLast key i h := by cases h
  noTail key _ j link _ hj := by simp at hj
  previousLast i link p hi := by simp at hi
  noPrevious i link hi := by simp at hi
  begun i link hi := by simp at hi

section

variable {c : PromiseChain κ τ} {i : Nat} {old link : Link κ τ}

omit [DecidableEq κ] in
theorem Ordered.running_unique (h : c.Ordered) {j : Nat} {other : Link κ τ}
    (hi : c.links[i]? = some link) (hj : c.links[j]? = some other) (hkey : other.key = link.key)
    (hlink : link.phase = .running) (hother : other.phase = .running) : j = i := by
  rcases Nat.lt_trichotomy j i with hlt | heq | hgt
  · have hsettled := h.begun i link hi (by rw [hlink]; decide) j other hlt hj hkey
    rw [hother] at hsettled
    cases hsettled
  · exact heq
  · have hsettled := h.begun j other hj (by rw [hother]; decide) i link hgt hi hkey.symm
    rw [hlink] at hsettled
    cases hsettled

variable {key : κ} {n m : Nat}

omit [DecidableEq κ] in
theorem settledBefore_setLink (hold : c.links[i]? = some old) (hkey : link.key = old.key)
    (hphase : old.phase = .settled → link.phase = .settled) (h : c.SettledBefore key n) :
    (c.setLink i link).SettledBefore key n := by
  intro j found hj hfound hfoundKey
  rw [getElem?_setLink hold] at hfound
  split at hfound
  · next hji =>
    cases hfound
    subst hji
    exact hphase (h j old hj hold (hkey.symm.trans hfoundKey))
  · exact h j found hj hfound hfoundKey

omit [DecidableEq κ] in
theorem freeBetween_setLink (hold : c.links[i]? = some old) (hkey : link.key = old.key)
    (h : c.FreeBetween key m n) : (c.setLink i link).FreeBetween key m n := by
  intro j found hmj hjn hfound
  rw [getElem?_setLink hold] at hfound
  split at hfound
  · next hji =>
    cases hfound
    subst hji
    rw [hkey]
    exact h j old hmj hjn hold
  · exact h j found hmj hjn hfound

omit [DecidableEq κ] in
theorem exists_key_setLink (hold : c.links[i]? = some old) (hkey : link.key = old.key)
    (h : ∃ found, c.links[m]? = some found ∧ found.key = key) :
    ∃ found, (c.setLink i link).links[m]? = some found ∧ found.key = key := by
  obtain ⟨found, hfound, hfoundKey⟩ := h
  rw [getElem?_setLink hold]
  by_cases hm : m = i
  · subst hm
    obtain rfl := Option.some.inj (hold.symm.trans hfound)
    exact ⟨link, if_pos rfl, hkey.trans hfoundKey⟩
  · exact ⟨found, by rw [if_neg hm, hfound], hfoundKey⟩

omit [DecidableEq κ] in
theorem Ordered.setLink (h : c.Ordered) (hold : c.links[i]? = some old)
    (hkey : link.key = old.key) (hprevious : link.previous = old.previous)
    (hphase : old.phase = .settled → link.phase = .settled)
    (hbegun : link.phase ≠ .waiting → c.SettledBefore old.key i) : (c.setLink i link).Ordered := by
  have hlength : (c.setLink i link).links.length = c.links.length := length_set
  have hcases : ∀ j found, (c.setLink i link).links[j]? = some found →
      j = i ∧ found = link ∨ c.links[j]? = some found := by
    intro j found hfound
    rw [getElem?_setLink hold] at hfound
    split at hfound
    · next hji => exact .inl ⟨hji, (Option.some.inj hfound).symm⟩
    · exact .inr hfound
  constructor
  · intro key n htail
    obtain ⟨hlast, hfree⟩ := h.tailLast key n htail
    rw [hlength]
    exact ⟨exists_key_setLink hold hkey hlast, freeBetween_setLink hold hkey hfree⟩
  · intro key htail
    rw [hlength]
    exact settledBefore_setLink hold hkey hphase (h.noTail key htail)
  · intro j found p hfound hp
    obtain ⟨rfl, rfl⟩ | hfound := hcases j found hfound
    · obtain ⟨hlt, hbefore, hfree⟩ := h.previousLast j old p hold (hprevious.symm.trans hp)
      rw [hkey]
      exact ⟨hlt, exists_key_setLink hold hkey hbefore, freeBetween_setLink hold hkey hfree⟩
    · obtain ⟨hlt, hbefore, hfree⟩ := h.previousLast j found p hfound hp
      exact ⟨hlt, exists_key_setLink hold hkey hbefore, freeBetween_setLink hold hkey hfree⟩
  · intro j found hfound hnone
    obtain ⟨rfl, rfl⟩ | hfound := hcases j found hfound
    · rw [hkey]
      exact settledBefore_setLink hold hkey hphase
        (h.noPrevious j old hold (hprevious.symm.trans hnone))
    · exact settledBefore_setLink hold hkey hphase (h.noPrevious j found hfound hnone)
  · intro j found hfound hphaseFound
    obtain ⟨rfl, rfl⟩ | hfound := hcases j found hfound
    · rw [hkey]
      exact settledBefore_setLink hold hkey hphase (hbegun hphaseFound)
    · exact settledBefore_setLink hold hkey hphase (h.begun j found hfound hphaseFound)

omit [DecidableEq κ] in
theorem Ordered.setLink_of_begun (h : c.Ordered) (hold : c.links[i]? = some old)
    (hkey : link.key = old.key) (hprevious : link.previous = old.previous)
    (hrunning : old.phase = .running) : (c.setLink i link).Ordered := by
  apply h.setLink hold hkey hprevious
  · intro hsettled
    rw [hrunning] at hsettled
    cases hsettled
  · intro _
    exact h.begun i old hold (by rw [hrunning]; decide)

end

section

variable {c c' : PromiseChain κ τ} {i : Nat}

omit [DecidableEq κ] in
theorem start_eq (hstart : c.start i = some c') : ∃ link, c.links[i]? = some link ∧
    link.phase = .waiting ∧ link.previous.all (c.hasSettled ·) = true ∧
      c' = c.setLink i { link with phase := .running } := by
  obtain ⟨link, hlink, hstart⟩ := bind_eq_some_iff.mp hstart
  split at hstart
  · next hready => exact ⟨link, hlink, hready.1, hready.2, (Option.some.inj hstart).symm⟩
  · cases hstart

omit [DecidableEq κ] in
theorem Ordered.settledBefore_of_ready (h : c.Ordered) {link : Link κ τ}
    (hlink : c.links[i]? = some link) (hready : link.previous.all (c.hasSettled ·) = true) :
    c.SettledBefore link.key i := by
  cases hprevious : link.previous with
  | none => exact h.noPrevious i link hlink hprevious
  | some p =>
    obtain ⟨hlt, ⟨before, hbefore, hkey⟩, hfree⟩ := h.previousLast i link p hlink hprevious
    rw [hprevious, all_some, hasSettled, hbefore, any_some, decide_eq_true_eq] at hready
    intro j found hj hfound hfoundKey
    rcases Nat.lt_trichotomy j p with hjp | rfl | hpj
    · have hbegun := h.begun p before hbefore (by rw [hready]; decide)
      exact hbegun j found hjp hfound (hfoundKey.trans hkey.symm)
    · obtain rfl := Option.some.inj (hbefore.symm.trans hfound)
      exact hready
    · exact (hfree j found hpj hj hfound hfoundKey).elim

omit [DecidableEq κ] in
theorem Ordered.start (h : c.Ordered) (hstart : c.start i = some c') : c'.Ordered := by
  obtain ⟨link, hlink, hwaiting, hready, rfl⟩ := start_eq hstart
  have hbegun := h.settledBefore_of_ready hlink hready
  refine Ordered.setLink h hlink rfl rfl ?_ fun _ => hbegun
  intro hsettled
  rw [hwaiting] at hsettled
  cases hsettled

theorem cleanup_eq (hcleanup : c.cleanup i = some c') : ∃ link, c.links[i]? = some link ∧
    link.phase = .settled ∧ c'.links = c.links ∧
      (c'.tail = c.tail ∨
        c.tail link.key = some i ∧ c'.tail = Function.update c.tail link.key none) := by
  obtain ⟨link, hlink, hcleanup⟩ := bind_eq_some_iff.mp hcleanup
  refine ⟨link, hlink, ?_⟩
  split at hcleanup
  · next hsettled =>
    cases hcleanup
    refine ⟨hsettled, ?_⟩
    split
    · next htail => exact ⟨rfl, .inr ⟨htail, rfl⟩⟩
    · exact ⟨rfl, .inl rfl⟩
  · cases hcleanup

theorem Ordered.cleanup (h : c.Ordered) (hcleanup : c.cleanup i = some c') : c'.Ordered := by
  obtain ⟨link, hlink, hsettled, hlinks, htail⟩ := cleanup_eq hcleanup
  have htailOf : ∀ key n, c'.tail key = some n → c.tail key = some n := by
    intro key n hn
    obtain htail | ⟨-, htail⟩ := htail
    · rwa [htail] at hn
    · rw [htail, update_apply] at hn
      split at hn
      · cases hn
      · exact hn
  constructor
  · intro key n hn
    simpa only [FreeBetween, hlinks] using h.tailLast key n (htailOf key n hn)
  · intro key hnone
    unfold SettledBefore
    rw [hlinks]
    obtain htail | ⟨hlast, htail⟩ := htail
    · rw [htail] at hnone
      exact h.noTail key hnone
    · by_cases hkey : key = link.key
      · -- The promise that has settled was the last of its key.
        subst hkey
        intro j found hj hfound hfoundKey
        obtain ⟨-, hfree⟩ := h.tailLast link.key i hlast
        rcases Nat.lt_trichotomy j i with hji | rfl | hij
        · exact h.begun i link hlink (by rw [hsettled]; decide) j found hji hfound hfoundKey
        · obtain rfl := Option.some.inj (hlink.symm.trans hfound)
          exact hsettled
        · exact (hfree j found hij hj hfound hfoundKey).elim
      · rw [htail, update_of_ne hkey] at hnone
        exact h.noTail key hnone
  · simpa only [FreeBetween, hlinks] using h.previousLast
  · simpa only [SettledBefore, hlinks] using h.noPrevious
  · simpa only [SettledBefore, hlinks] using h.begun

theorem tail_request (c : PromiseChain κ τ) (key : κ) (task : τ) :
    (c.request key task).tail = Function.update c.tail key (some c.links.length) := rfl

theorem Ordered.request (h : c.Ordered) (key : κ) (task : τ) : (c.request key task).Ordered := by
  have hlength : (c.request key task).links.length = c.links.length + 1 := by
    simp [PromiseChain.request]
  have hsettledBefore : ∀ {k : κ} {n : Nat}, n ≤ c.links.length → c.SettledBefore k n →
      (c.request key task).SettledBefore k n := by
    intro k n hn hsettled j found hj hfound hfoundKey
    rw [getElem?_request, if_neg (by omega)] at hfound
    exact hsettled j found hj hfound hfoundKey
  have hfreeBetween : ∀ {k : κ} {m n : Nat}, n ≤ c.links.length → c.FreeBetween k m n →
      (c.request key task).FreeBetween k m n := by
    intro k m n hn hfree j found hmj hjn hfound
    rw [getElem?_request, if_neg (by omega)] at hfound
    exact hfree j found hmj hjn hfound
  have hexists : ∀ {k : κ} {m : Nat}, (∃ found, c.links[m]? = some found ∧ found.key = k) →
      ∃ found, (c.request key task).links[m]? = some found ∧ found.key = k := by
    intro k m hfound
    obtain ⟨found, hfound, hkey⟩ := hfound
    have hm : m < c.links.length := (List.getElem?_eq_some_iff.mp hfound).1
    exact ⟨found, by rw [getElem?_request, if_neg (by omega), hfound], hkey⟩
  have hcases : ∀ j found, (c.request key task).links[j]? = some found →
      j = c.links.length ∧ found = ⟨key, c.tail key, .waiting, task⟩ ∨
        j < c.links.length ∧ c.links[j]? = some found := by
    intro j found hfound
    rw [getElem?_request] at hfound
    split at hfound
    · next hj => exact .inl ⟨hj, (Option.some.inj hfound).symm⟩
    · exact .inr ⟨(List.getElem?_eq_some_iff.mp hfound).1, hfound⟩
  constructor
  · intro k n htail
    rw [hlength]
    by_cases hk : k = key
    · subst hk
      rw [tail_request, update_self] at htail
      cases htail
      refine ⟨⟨_, by rw [getElem?_request, if_pos rfl], rfl⟩, ?_⟩
      intro j found hlt hj
      omega
    · rw [tail_request, update_of_ne hk] at htail
      obtain ⟨hlast, hfree⟩ := h.tailLast k n htail
      refine ⟨hexists hlast, ?_⟩
      intro j found hnj hj hfound
      obtain ⟨-, rfl⟩ | ⟨hj, hfound⟩ := hcases j found hfound
      · exact fun hkey => hk hkey.symm
      · exact hfree j found hnj hj hfound
  · intro k htail
    have hk : k ≠ key := by
      rintro rfl
      rw [tail_request, update_self] at htail
      cases htail
    rw [tail_request, update_of_ne hk] at htail
    intro j found hj hfound hfoundKey
    obtain ⟨-, rfl⟩ | ⟨hj, hfound⟩ := hcases j found hfound
    · exact (hk hfoundKey.symm).elim
    · exact h.noTail k htail j found hj hfound hfoundKey
  · intro j found p hfound hp
    obtain ⟨rfl, rfl⟩ | ⟨hj, hfound⟩ := hcases j found hfound
    · obtain ⟨hlast, hfree⟩ := h.tailLast key p hp
      obtain ⟨before, hbefore, -⟩ := id hlast
      exact ⟨(List.getElem?_eq_some_iff.mp hbefore).1, hexists hlast,
        hfreeBetween (Nat.le_refl _) hfree⟩
    · obtain ⟨hlt, hbefore, hfree⟩ := h.previousLast j found p hfound hp
      exact ⟨hlt, hexists hbefore, hfreeBetween hj.le hfree⟩
  · intro j found hfound hnone
    obtain ⟨rfl, rfl⟩ | ⟨hj, hfound⟩ := hcases j found hfound
    · exact hsettledBefore (Nat.le_refl _) (h.noTail key hnone)
    · exact hsettledBefore hj.le (h.noPrevious j found hfound hnone)
  · intro j found hfound hphase
    obtain ⟨rfl, rfl⟩ | ⟨hj, hfound⟩ := hcases j found hfound
    · exact (hphase rfl).elim
    · exact hsettledBefore hj.le (h.begun j found hfound hphase)

end

end PromiseChain

end Fumie.Lib
