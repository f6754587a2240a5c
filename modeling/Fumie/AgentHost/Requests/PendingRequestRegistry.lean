import Fumie.Lib.Record
import Fumie.Lib.Runs

/-!
# The registry of pending requests

Promises are numbered in the order they are handed out. A fire callback runs in the middle
of the call it was given to, so a state holds the calls still to be made, those of a
callback in front. In runs where no `registerAndFire` finds a request parked under its key,
every promise is settled or parked; any other one loses the promise that was parked.
-/

namespace Fumie.AgentHost.Requests

open Fumie.Lib List Record

inductive Outcome (R E : Type) where
  | resolved (value : R)
  | rejected (error : E)
  /-- A `CancellationError`. -/
  | cancelled

/-- A parked request: its deferred promise and its metadata. -/
structure Entry (M : Type) where
  deferred : Nat
  metadata : M

structure PendingRequestRegistry (K R M E : Type) where
  entries : Record K (Entry M)
  earlyResults : Record K R
  /-- The keys of the promises handed out. -/
  promises : List K
  /-- The settled promises, in the order they were settled. -/
  outcomes : List (Nat × Outcome R E)

/-- A call, with the calls its callback makes. -/
inductive Operation (K R M E : Type) where
  | register (key : K) (metadata : M)
  | registerAndFire (key : K) (metadata : M) (fire : List (Operation K R M E))
  | respond (key : K) (value : R)
  | respondOrBuffer (key : K) (value : R)
  | respondWhere (predicate : M → K → Bool) (value : R)
  | denyAll (denyValue : R)
  | rejectAll (error : E)

namespace PendingRequestRegistry

variable {K R M E : Type} [DecidableEq K]

def new : PendingRequestRegistry K R M E := ⟨.empty, .empty, [], []⟩

section

variable (r : PendingRequestRegistry K R M E)

def isSettled (deferred : Nat) : Bool := decide (deferred ∈ r.outcomes.map Prod.fst)

def settle (deferred : Nat) (outcome : Outcome R E) : PendingRequestRegistry K R M E :=
  if r.isSettled deferred then r else { r with outcomes := r.outcomes ++ [(deferred, outcome)] }

def takeBuffered (key : K) (buffered : R) : PendingRequestRegistry K R M E :=
  { r with
    earlyResults := r.earlyResults.delete key
    promises := r.promises ++ [key]
    outcomes := r.outcomes ++ [(r.promises.length, .resolved buffered)] }

def park (key : K) (metadata : M) : PendingRequestRegistry K R M E :=
  { r with
    entries := r.entries.set key ⟨r.promises.length, metadata⟩
    promises := r.promises ++ [key] }

def register (key : K) (metadata : M) : PendingRequestRegistry K R M E :=
  match r.earlyResults.get key with
  | some buffered => r.takeBuffered key buffered
  | none =>
    match r.entries.get key with
    | some existing =>
      if r.isSettled existing.deferred then r.park key metadata
      else (r.settle existing.deferred .cancelled).park key metadata
    | none => r.park key metadata

def respond (key : K) (value : R) : PendingRequestRegistry K R M E × Bool :=
  match r.entries.get key with
  | none => (r, false)
  | some entry =>
    (({ r with entries := r.entries.delete key } : PendingRequestRegistry K R M E).settle
      entry.deferred (.resolved value), true)

def respondOrBuffer (key : K) (value : R) : PendingRequestRegistry K R M E :=
  if (r.respond key value).2 then (r.respond key value).1
  else { r with earlyResults := r.earlyResults.set key value }

/-- An entry that is taken out during the iteration has been visited. -/
def respondWhere (predicate : M → K → Bool) (value : R) : PendingRequestRegistry K R M E :=
  r.entries.entries.foldl
    (fun r e => if predicate e.2.metadata e.1 then (r.respond e.1 value).1 else r) r

def settleAll (outcome : Outcome R E) : PendingRequestRegistry K R M E :=
  let settled := r.entries.entries.foldl
    (fun r e => if r.isSettled e.2.deferred then r else r.settle e.2.deferred outcome) r
  { settled with entries := .empty, earlyResults := .empty }

def denyAll (denyValue : R) : PendingRequestRegistry K R M E := r.settleAll (.resolved denyValue)

def rejectAll (error : E) : PendingRequestRegistry K R M E := r.settleAll (.rejected error)

end

/-! ## What is claimed of a registry -/

structure Accounted (r : PendingRequestRegistry K R M E) : Prop where
  once : (r.outcomes.map Prod.fst).Nodup
  kept : ∀ d key, r.promises[d]? = some key →
    r.isSettled d = true ∨ ∃ metadata, r.entries.get key = some ⟨d, metadata⟩
  apart : ∀ key, r.entries.get key = none ∨ r.earlyResults.get key = none

/-- Also, what is parked is not settled. -/
structure Sound (r : PendingRequestRegistry K R M E) : Prop extends Accounted r where
  known : ∀ d, r.isSettled d = true → d < r.promises.length
  parked : ∀ key entry, r.entries.get key = some entry →
    r.promises[entry.deferred]? = some key ∧ r.isSettled entry.deferred = false

variable {r : PendingRequestRegistry K R M E}

theorem sound_new : (new : PendingRequestRegistry K R M E).Sound where
  once := nodup_nil
  kept := by
    exact nofun
  apart key := .inl rfl
  known := by
    intro d hd
    cases of_decide_eq_true hd
  parked := by
    exact nofun

/-! ## Settling -/

omit [DecidableEq K] in
theorem isSettled_append (r : PendingRequestRegistry K R M E) (d d' : Nat) (outcome : Outcome R E) :
    ({ r with outcomes := r.outcomes ++ [(d', outcome)] } :
      PendingRequestRegistry K R M E).isSettled d = (r.isSettled d || decide (d = d')) := by
  unfold isSettled
  rw [map_append, Bool.eq_iff_iff, Bool.or_eq_true, decide_eq_true_iff, decide_eq_true_iff,
    decide_eq_true_iff, mem_append]
  exact or_congr Iff.rfl mem_singleton

omit [DecidableEq K] in
theorem isSettled_settle (r : PendingRequestRegistry K R M E) (d d' : Nat) (outcome : Outcome R E) :
    (r.settle d' outcome).isSettled d = (r.isSettled d || decide (d = d')) := by
  unfold settle
  split
  · next hsettled =>
    by_cases hd : d = d'
    · rw [hd, hsettled]
      rfl
    · rw [decide_eq_false hd, Bool.or_false]
  · exact isSettled_append r d d' outcome

omit [DecidableEq K] in
theorem settle_entries (r : PendingRequestRegistry K R M E) (d : Nat) (outcome : Outcome R E) :
    (r.settle d outcome).entries = r.entries := by
  unfold settle
  split <;> rfl

omit [DecidableEq K] in
theorem settle_earlyResults (r : PendingRequestRegistry K R M E) (d : Nat)
    (outcome : Outcome R E) : (r.settle d outcome).earlyResults = r.earlyResults := by
  unfold settle
  split <;> rfl

omit [DecidableEq K] in
theorem settle_promises (r : PendingRequestRegistry K R M E) (d : Nat) (outcome : Outcome R E) :
    (r.settle d outcome).promises = r.promises := by
  unfold settle
  split <;> rfl

variable (key : K) (outcome : Outcome R E)

omit [DecidableEq K] in
theorem nodup_append {d : Nat} (hd : r.isSettled d = false) (h : (r.outcomes.map Prod.fst).Nodup) :
    ((r.outcomes ++ [(d, outcome)]).map Prod.fst).Nodup := by
  rw [List.map_append, List.nodup_append]
  refine ⟨h, nodup_singleton d, fun a ha b hb hab => ?_⟩
  obtain rfl := mem_singleton.mp hb
  subst hab
  exact of_decide_eq_false hd ha

omit [DecidableEq K] in
theorem nodup_settle (d : Nat) (outcome : Outcome R E) (h : (r.outcomes.map Prod.fst).Nodup) :
    ((r.settle d outcome).outcomes.map Prod.fst).Nodup := by
  unfold settle
  split
  · exact h
  · next hd => exact nodup_append outcome (Bool.eq_false_iff.mpr hd) h

/-! ## Parking -/

theorem park_sound {key : K} {metadata : M} (honce : (r.outcomes.map Prod.fst).Nodup)
    (hknown : ∀ d, r.isSettled d = true → d < r.promises.length)
    (hkept : ∀ d key', r.promises[d]? = some key' →
      r.isSettled d = true ∨ key' ≠ key ∧ ∃ metadata, r.entries.get key' = some ⟨d, metadata⟩)
    (hparked : ∀ key' entry, key' ≠ key → r.entries.get key' = some entry →
      r.promises[entry.deferred]? = some key' ∧ r.isSettled entry.deferred = false)
    (hapart : ∀ key', r.entries.get key' = none ∨ r.earlyResults.get key' = none)
    (hearly : r.earlyResults.get key = none) : (r.park key metadata).Sound := by
  have hlast : (r.promises ++ [key])[r.promises.length]? = some key := by
    rw [getElem?_append_right le_rfl, Nat.sub_self]
    rfl
  refine ⟨⟨honce, fun d key' hkey => ?_, fun key' => ?_⟩, fun d hd => ?_,
    fun key' entry hentry => ?_⟩
  · change (r.promises ++ [key])[d]? = some key' at hkey
    show r.isSettled d = true ∨ ∃ metadata', (r.entries.set key _).get key' = _
    rw [get_set]
    rcases Nat.lt_trichotomy d r.promises.length with hlt | rfl | hgt
    · rw [getElem?_append_left hlt] at hkey
      rcases hkept d key' hkey with hsettled | ⟨hne, hentry⟩
      · exact .inl hsettled
      · rw [if_neg (Ne.symm hne)]
        exact .inr hentry
    · obtain rfl := Option.some.inj (hlast.symm.trans hkey)
      rw [if_pos rfl]
      exact .inr ⟨metadata, rfl⟩
    · rw [getElem?_eq_none (by rw [length_append]; exact hgt)] at hkey
      cases hkey
  · show (r.entries.set key _).get key' = none ∨ r.earlyResults.get key' = none
    by_cases hkey : key = key'
    · exact .inr (hkey ▸ hearly)
    · rw [get_set, if_neg hkey]
      exact hapart key'
  · show d < (r.promises ++ [key]).length
    rw [length_append]
    exact Nat.lt_succ_of_lt (hknown d hd)
  · change (r.entries.set key _).get key' = some entry at hentry
    show (r.promises ++ [key])[entry.deferred]? = some key' ∧ r.isSettled entry.deferred = false
    rw [get_set] at hentry
    by_cases hkey : key = key'
    · rw [if_pos hkey] at hentry
      cases hentry
      refine ⟨hkey ▸ hlast, Bool.eq_false_iff.mpr fun hsettled => ?_⟩
      exact Nat.lt_irrefl _ (hknown _ hsettled)
    · rw [if_neg hkey] at hentry
      obtain ⟨hpromise, hunsettled⟩ := hparked key' entry (Ne.symm hkey) hentry
      refine ⟨?_, hunsettled⟩
      rw [List.getElem?_append_left (List.getElem?_eq_some_iff.mp hpromise).1]
      exact hpromise

theorem Sound.park {key : K} (metadata : M) (h : r.Sound) (hfree : r.entries.get key = none)
    (hearly : r.earlyResults.get key = none) : (r.park key metadata).Sound := by
  refine park_sound h.once h.known (fun d key' hkey => ?_) (fun key' entry _ => h.parked key' entry)
    h.apart hearly
  rcases h.kept d key' hkey with hsettled | ⟨metadata', hentry⟩
  · exact .inl hsettled
  · refine .inr ⟨?_, metadata', hentry⟩
    rintro rfl
    rw [hfree] at hentry
    cases hentry

theorem Sound.takeBuffered (buffered : R) (h : r.Sound) : (r.takeBuffered key buffered).Sound := by
  have hnew : r.isSettled r.promises.length = false :=
    Bool.eq_false_iff.mpr fun hsettled => Nat.lt_irrefl _ (h.known _ hsettled)
  have hsettled (d : Nat) : (r.takeBuffered key buffered).isSettled d =
      (r.isSettled d || decide (d = r.promises.length)) := isSettled_append r d _ _
  refine ⟨⟨nodup_append _ hnew h.once, fun d key' hkey => ?_, fun key' => ?_⟩, fun d hd => ?_,
    fun key' entry hentry => ?_⟩
  · change (r.promises ++ [key])[d]? = some key' at hkey
    rw [hsettled]
    by_cases hd : d = r.promises.length
    · rw [decide_eq_true hd, Bool.or_true]
      exact .inl rfl
    · rw [decide_eq_false hd, Bool.or_false]
      have hlt : d < r.promises.length := by
        have hbound := (List.getElem?_eq_some_iff.mp hkey).1
        rw [length_append, length_singleton] at hbound
        omega
      rw [getElem?_append_left hlt] at hkey
      exact h.kept d key' hkey
  · show r.entries.get key' = none ∨ (r.earlyResults.delete key).get key' = none
    rw [get_delete]
    split
    · exact .inr rfl
    · exact h.apart key'
  · rw [hsettled, Bool.or_eq_true] at hd
    show d < (r.promises ++ [key]).length
    rw [length_append, length_singleton]
    rcases hd with hd | hd
    · exact Nat.lt_succ_of_lt (h.known d hd)
    · rw [of_decide_eq_true hd]
      exact Nat.lt_succ_self _
  · obtain ⟨hpromise, hunsettled⟩ := h.parked key' entry hentry
    have hlt := (List.getElem?_eq_some_iff.mp hpromise).1
    refine ⟨(getElem?_append_left hlt).trans hpromise, ?_⟩
    rw [hsettled, hunsettled, decide_eq_false (Nat.ne_of_lt hlt)]
    rfl

theorem Sound.register (metadata : M) (h : r.Sound) : (r.register key metadata).Sound := by
  unfold PendingRequestRegistry.register
  cases hearly : r.earlyResults.get key with
  | some buffered => exact h.takeBuffered key buffered
  | none =>
    cases hexisting : r.entries.get key with
    | none => exact h.park metadata hexisting hearly
    | some existing =>
      obtain ⟨hpromise, hunsettled⟩ := h.parked key existing hexisting
      dsimp only
      rw [if_neg (by rw [hunsettled]; exact Bool.false_ne_true)]
      have hsettled (d : Nat) : (r.settle existing.deferred .cancelled).isSettled d =
          (r.isSettled d || decide (d = existing.deferred)) := isSettled_settle r d _ _
      refine park_sound (nodup_settle _ _ h.once) (fun d hd => ?_) (fun d key' hkey => ?_)
        (fun key' entry hne hentry => ?_) (fun key' => ?_) ?_
      · rw [settle_promises]
        rw [hsettled, Bool.or_eq_true] at hd
        rcases hd with hd | hd
        · exact h.known d hd
        · rw [of_decide_eq_true hd]
          exact (List.getElem?_eq_some_iff.mp hpromise).1
      · rw [settle_promises] at hkey
        rw [hsettled, settle_entries, Bool.or_eq_true]
        rcases h.kept d key' hkey with hd | ⟨metadata', hentry⟩
        · exact .inl (.inl hd)
        · by_cases hkey' : key' = key
          · subst hkey'
            obtain rfl := Option.some.inj (hexisting.symm.trans hentry)
            exact .inl (.inr (decide_eq_true rfl))
          · exact .inr ⟨hkey', metadata', hentry⟩
      · rw [settle_entries] at hentry
        obtain ⟨hpromise', hunsettled'⟩ := h.parked key' entry hentry
        rw [settle_promises, hsettled, hunsettled']
        refine ⟨hpromise', decide_eq_false fun heq => hne ?_⟩
        rw [heq] at hpromise'
        exact Option.some.inj (hpromise'.symm.trans hpromise)
      · rw [settle_entries, settle_earlyResults]
        exact h.apart key'
      · rw [settle_earlyResults]
        exact hearly

/-! ## Responding -/

theorem Sound.respond (value : R) (h : r.Sound) : (r.respond key value).1.Sound := by
  unfold PendingRequestRegistry.respond
  cases hentry : r.entries.get key with
  | none => exact h
  | some entry =>
    obtain ⟨hpromise, hunsettled⟩ := h.parked key entry hentry
    have hsettled (d : Nat) : (({ r with entries := r.entries.delete key } :
        PendingRequestRegistry K R M E).settle entry.deferred (.resolved value)).isSettled d =
          (r.isSettled d || decide (d = entry.deferred)) := isSettled_settle _ d _ _
    refine ⟨⟨nodup_settle (r := { r with entries := r.entries.delete key }) _ _ h.once,
      fun d key' hkey => ?_, fun key' => ?_⟩, fun d hd => ?_, fun key' entry' hentry' => ?_⟩
    · rw [settle_promises] at hkey
      rw [hsettled, settle_entries, get_delete, Bool.or_eq_true]
      rcases h.kept d key' hkey with hd | ⟨metadata, hparked⟩
      · exact .inl (.inl hd)
      · by_cases hkey' : key = key'
        · subst hkey'
          obtain rfl := Option.some.inj (hentry.symm.trans hparked)
          exact .inl (.inr (decide_eq_true rfl))
        · rw [if_neg hkey']
          exact .inr ⟨metadata, hparked⟩
    · rw [settle_entries, settle_earlyResults, get_delete]
      split
      · exact .inl rfl
      · exact h.apart key'
    · rw [settle_promises]
      rw [hsettled, Bool.or_eq_true] at hd
      rcases hd with hd | hd
      · exact h.known d hd
      · rw [of_decide_eq_true hd]
        exact (List.getElem?_eq_some_iff.mp hpromise).1
    · rw [settle_entries, get_delete] at hentry'
      split at hentry'
      · cases hentry'
      · next hne =>
        obtain ⟨hpromise', hunsettled'⟩ := h.parked key' entry' hentry'
        rw [settle_promises, hsettled, hunsettled']
        refine ⟨hpromise', decide_eq_false fun heq => hne ?_⟩
        rw [heq] at hpromise'
        exact Option.some.inj (hpromise.symm.trans hpromise')

theorem Sound.respondOrBuffer (value : R) (h : r.Sound) : (r.respondOrBuffer key value).Sound := by
  unfold PendingRequestRegistry.respondOrBuffer
  split
  · exact h.respond key value
  · next hnot =>
    have hfree : r.entries.get key = none := by
      cases hentry : r.entries.get key with
      | none => rfl
      | some entry =>
        unfold PendingRequestRegistry.respond at hnot
        rw [hentry] at hnot
        exact absurd rfl hnot
    refine ⟨⟨h.once, h.kept, fun key' => ?_⟩, h.known, h.parked⟩
    rw [get_set]
    split
    · next hkey => exact .inl (hkey ▸ hfree)
    · exact h.apart key'

theorem Sound.respondWhere (predicate : M → K → Bool) (value : R) (h : r.Sound) :
    (r.respondWhere predicate value).Sound := by
  unfold PendingRequestRegistry.respondWhere
  generalize r.entries.entries = entries
  induction entries generalizing r with
  | nil => exact h
  | cons e rest ih =>
    rw [foldl_cons]
    split
    · exact ih (h.respond e.1 value)
    · exact ih h

/-! ## Settling all -/

structure SettledList (r r' : PendingRequestRegistry K R M E) (entries : List (K × Entry M)) :
    Prop where
  promises : r'.promises = r.promises
  settled : ∀ d, r'.isSettled d = true ↔ r.isSettled d = true ∨ ∃ e ∈ entries, e.2.deferred = d
  once : (r.outcomes.map Prod.fst).Nodup → (r'.outcomes.map Prod.fst).Nodup

omit [DecidableEq K] in
theorem settleList (r : PendingRequestRegistry K R M E) (entries : List (K × Entry M)) :
    SettledList r (entries.foldl
      (fun r e => if r.isSettled e.2.deferred then r else r.settle e.2.deferred outcome) r)
      entries := by
  induction entries generalizing r with
  | nil => exact ⟨rfl, fun d => by simp, id⟩
  | cons e rest ih =>
    rw [foldl_cons]
    have hsame : (if r.isSettled e.2.deferred then r else r.settle e.2.deferred outcome) =
        r.settle e.2.deferred outcome := by
      unfold settle
      split <;> rfl
    rw [hsame]
    have hrest := ih (r.settle e.2.deferred outcome)
    refine ⟨hrest.promises.trans (settle_promises r _ _), fun d => ?_,
      fun honce => hrest.once (nodup_settle _ _ honce)⟩
    rw [hrest.settled, isSettled_settle, Bool.or_eq_true, decide_eq_true_iff, or_assoc,
      exists_mem_cons_iff]
    exact or_congr Iff.rfl (or_congr eq_comm Iff.rfl)

theorem Sound.settleAll (h : r.Sound) :
    (r.settleAll outcome).Sound ∧ (r.settleAll outcome).promises = r.promises ∧
      ∀ d < r.promises.length, (r.settleAll outcome).isSettled d = true := by
  have hlist := settleList outcome r r.entries.entries
  have hall (d : Nat) (hd : d < r.promises.length) : (r.settleAll outcome).isSettled d = true := by
    refine (hlist.settled d).mpr ?_
    rcases h.kept d _ (getElem?_eq_getElem hd) with hsettled | ⟨metadata, hentry⟩
    · exact .inl hsettled
    · exact .inr ⟨_, mem_of_get hentry, rfl⟩
  refine ⟨⟨⟨hlist.once h.once, fun d key hkey => .inl (hall d ?_), fun key => .inl rfl⟩,
    fun d hd => ?_, fun key entry hentry => ?_⟩, hlist.promises, hall⟩
  · rw [← hlist.promises]
    exact (List.getElem?_eq_some_iff.mp hkey).1
  · rw [show (r.settleAll outcome).promises = r.promises from hlist.promises]
    rcases (hlist.settled d).mp hd with hsettled | ⟨e, he, rfl⟩
    · exact h.known d hsettled
    · exact (List.getElem?_eq_some_iff.mp (h.parked e.1 e.2 (Record.get_of_mem he)).1).1
  · cases hentry

/-! ## Runs -/

/-- A registry and the calls still to be made on it. -/
structure State (K R M E : Type) where
  registry : PendingRequestRegistry K R M E
  calls : List (Operation K R M E)

/-- The next call. A callback is not called where a result was buffered. -/
def step (s : State K R M E) : Unit → Option (State K R M E) := fun _ =>
  match s.calls with
  | [] => none
  | .register key metadata :: calls => some ⟨s.registry.register key metadata, calls⟩
  | .registerAndFire key metadata fire :: calls =>
    match s.registry.earlyResults.get key with
    | some buffered => some ⟨s.registry.takeBuffered key buffered, calls⟩
    | none => some ⟨s.registry.park key metadata, fire ++ calls⟩
  | .respond key value :: calls => some ⟨(s.registry.respond key value).1, calls⟩
  | .respondOrBuffer key value :: calls => some ⟨s.registry.respondOrBuffer key value, calls⟩
  | .respondWhere predicate value :: calls =>
    some ⟨s.registry.respondWhere predicate value, calls⟩
  | .denyAll denyValue :: calls => some ⟨s.registry.denyAll denyValue, calls⟩
  | .rejectAll error :: calls => some ⟨s.registry.rejectAll error, calls⟩

def system (K R M E : Type) [DecidableEq K] : System (State K R M E) Unit :=
  .ofStep (fun s => s.registry = new) step

def FiresFree (s : State K R M E) (_ : Unit) : Prop :=
  ∀ key metadata fire calls, s.calls = .registerAndFire key metadata fire :: calls →
    s.registry.entries.get key = none

variable {s s' : State K R M E}

theorem step_sound (h : s.registry.Sound) (hfree : FiresFree s ()) (hstep : step s () = some s') :
    s'.registry.Sound := by
  obtain ⟨r, calls⟩ := s
  cases calls with
  | nil => cases hstep
  | cons call calls =>
    cases call with
    | register key metadata =>
      cases hstep
      exact h.register key metadata
    | registerAndFire key metadata fire =>
      unfold step at hstep
      dsimp only at hstep
      split at hstep
      · next buffered _ =>
        cases hstep
        exact h.takeBuffered key buffered
      · next hearly =>
        cases hstep
        exact h.park metadata (hfree key metadata fire calls rfl) hearly
    | respond key value =>
      cases hstep
      exact h.respond key value
    | respondOrBuffer key value =>
      cases hstep
      exact h.respondOrBuffer key value
    | respondWhere predicate value =>
      cases hstep
      exact h.respondWhere predicate value
    | denyAll _ | rejectAll _ =>
      cases hstep
      exact (h.settleAll _).1

theorem firesFree_of_accounted (h : s.registry.Sound) (hstep : step s () = some s')
    (hafter : s'.registry.Accounted) : FiresFree s () := by
  intro key metadata fire calls hcalls
  cases hentry : s.registry.entries.get key with
  | none => rfl
  | some entry =>
    exfalso
    obtain ⟨hpromise, hunsettled⟩ := h.parked key entry hentry
    have hearly : s.registry.earlyResults.get key = none := by
      refine (h.apart key).resolve_left fun hnone => ?_
      rw [hentry] at hnone
      cases hnone
    unfold step at hstep
    rw [hcalls] at hstep
    dsimp only at hstep
    rw [hearly] at hstep
    cases hstep
    have hlt := (List.getElem?_eq_some_iff.mp hpromise).1
    rcases hafter.kept entry.deferred key ((getElem?_append_left hlt).trans hpromise) with
      hsettled | ⟨metadata', hparked⟩
    · exact Bool.eq_false_iff.mp hunsettled hsettled
    · change (s.registry.entries.set key _).get key = _ at hparked
      rw [get_set, if_pos rfl] at hparked
      have hsame := congrArg Entry.deferred (Option.some.inj hparked)
      exact Nat.lt_irrefl _ (hsame ▸ hlt)

theorem promises_kept {s : State K R M E} (h : (system K R M E).ReachableVia FiresFree s) :
    s.registry.Accounted ∧
      (∀ d < s.registry.promises.length,
        (∀ denyValue, (s.registry.denyAll denyValue).isSettled d = true) ∧
          ∀ error, (s.registry.rejectAll error).isSettled d = true) ∧
      ∀ s', step s () = some s' → (s'.registry.Accounted ↔ FiresFree s ()) := by
  have hsound : s.registry.Sound := by
    induction h with
    | init hinit =>
      rw [hinit]
      exact sound_new
    | step _ hfree hstep ih => exact step_sound ih hfree hstep
  refine ⟨hsound.toAccounted, fun d hd => ⟨fun denyValue => ?_, fun error => ?_⟩,
    fun s' hstep => ?_⟩
  · exact (hsound.settleAll (.resolved denyValue)).2.2 d hd
  · exact (hsound.settleAll (.rejected error)).2.2 d hd
  · exact ⟨firesFree_of_accounted hsound hstep,
      fun hfree => (step_sound hsound hfree hstep).toAccounted⟩

/-- A request is answered by its own callback, beside another one and a buffered result. -/
theorem promises_kept_sample : ∃ s : State Nat Nat Unit Unit,
    s.registry.promises = [1, 2, 3] ∧ s.registry.outcomes.map Prod.fst = [1, 2] ∧
      s.registry.Accounted := by
  have hrun : ∃ s : State Nat Nat Unit Unit, System.RunVia step FiresFree
      ⟨new, [.register 1 (), .registerAndFire 2 () [.respondOrBuffer 3 7, .respond 2 5],
        .register 3 ()]⟩ [(), (), (), (), ()] s ∧
      s.registry.promises = [1, 2, 3] ∧ s.registry.outcomes.map Prod.fst = [1, 2] := by
    refine ⟨_, ⟨_, ?_, rfl, _, ?_, rfl, _, ?_, rfl, _, ?_, rfl, _, ?_, rfl, rfl⟩, rfl, rfl⟩
    all_goals
      intro key metadata fire calls hcalls
      cases hcalls
    rfl
  obtain ⟨s, hrun, hpromises, houtcomes⟩ := hrun
  exact ⟨s, hpromises, houtcomes, (promises_kept (.of_runVia (.init (by rfl)) hrun)).1⟩

/-- `registerAndFire` under the key of a parked request loses its promise. -/
theorem parked_lost : ∃ s : State Nat Nat Unit Unit, (system Nat Nat Unit Unit).Reachable s ∧
    ¬s.registry.Accounted := by
  refine ⟨_, System.Reachable.run (s := ⟨new, [.register 1 (), .registerAndFire 1 () []]⟩)
    (.init (by rfl)) [(), ()] rfl, fun h => ?_⟩
  rcases h.kept 0 1 rfl with hsettled | ⟨metadata, hparked⟩
  · cases hsettled
  · cases hparked

end PendingRequestRegistry

end Fumie.AgentHost.Requests
