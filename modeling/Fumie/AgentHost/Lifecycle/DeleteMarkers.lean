import Fumie.AgentHost.Lifecycle.DeleteRuns

/-!
# The marker of a session being deleted

`isDeleting` is meant to say whether the table has an intent for the session. The marker
is set before there is an intent, and no exit takes it away but the last, so an attempt
that fails before its intent is written leaves a marker for nothing, and so does one whose
last step fails behind the removal of the intent. `LeavesMarker` names these steps; in
runs without them marker and table agree.
-/

namespace Fumie.AgentHost

open Fumie.Lib List Function PromiseChain Option

namespace Lifecycle

section

variable (s : AgentSessionLifecycleService)

def DeleteInFlight (session : SessionKey) : Prop :=
  ∃ (i : Nat) (link : Link SessionKey Task) (provider : String) (await : DeleteAwait),
    s.chain.links[i]? = some link ∧ link.key = session ∧ link.phase ≠ .settled ∧
      link.task = .delete provider await

/-- Where the intents are loaded and no deletion of a session is in flight, it is marked
exactly when the table has an intent for it. -/
def MarkerAgrees : Prop :=
  s.isReady = true → ∀ session, ¬DeleteInFlight s session →
    (s.isDeleting session = true ↔ (s.intents session).isSome)

def DeleteAwait.Fails (session : SessionKey) (provider : String) : DeleteAwait → Answer → Prop
  | .get, .failed _ | .capture _, .failed _ | .prepare _ _, .failed _ | .finalized _, .failed _ =>
    True
  | .capture now, .captured targets =>
    ∃ error, validateDeleteIntent (newIntent s.operations session provider now targets) =
      .error error
  | _, _ => False

/-- A deletion fails at the lookup of its intent, at the capture of the targets, at the
preparation of the intent or behind its removal, and the table has no intent. -/
def LeavesMarker (event : LifecycleEvent) : Prop :=
  ∃ (i : Nat) (now : Int) (answer : Answer) (link : Link SessionKey Task) (provider : String)
      (await : DeleteAwait),
    event = .answer i now answer ∧ s.running i = some link ∧ link.task = .delete provider await ∧
      s.intents link.key = none ∧ await.Fails s link.key provider answer

end

/-! ## The row in hand -/

def DeleteAwait.Held (row : Option SessionDeleteIntent) : DeleteAwait → Prop
  | .load | .get | .capture _ | .finalized _ => True
  | .prepare _ inserted => inserted = true → row.isSome = true
  | .finalize _ removed => removed ≠ some true → row.isSome = true
  | .read _ _ _ | .write _ _ _ | .stop _ | .deleteBacking _ _ _ | .cleanup _ => row.isSome = true

structure Progress.Held (row : Option SessionDeleteIntent) (p : Progress) : Prop where
  next : ∀ await, p.next = some await → await.Held row
  settled : p.next = none → p.deleting = some false ∨ row.isSome = true
  removed : p.deleting = some false → p.next = none ∧ row = none

section

variable {row : Option SessionDeleteIntent}

theorem Progress.held_of_awaits {await : DeleteAwait} (h : await.Held row) :
    (Progress.awaits await).Held row where
  next next hnext := by
    cases hnext
    exact h
  settled hnone := by cases hnone
  removed hremoved := by cases hremoved

theorem Progress.held_settles (h : row.isSome = true) : Progress.settles.Held row where
  next _ hnext := by cases hnext
  settled _ := .inr h
  removed hremoved := by cases hremoved

theorem held_updateFailed (h : row.isSome = true) (operationId : OperationId) (error : String)
    (now : Int) (after : AfterUpdate) : (updateFailed operationId error now after).Held row := by
  cases after with
  | rethrow => exact Progress.held_settles h
  | stop | deleteBackings | nextBacking | clean => exact Progress.held_of_awaits h

theorem held_beginAttempt (h : row.isSome = true) (intent : SessionDeleteIntent) (now : Int) :
    (beginAttempt intent now).Held row where
  next next hnext := by
    cases hnext
    exact h
  settled hnone := by cases hnone
  removed hremoved := by cases hremoved

theorem held_deleteFrom (h : row.isSome = true) (intent : SessionDeleteIntent) (index : Nat)
    (firstDeleteError : Option String) (now : Int) :
    (deleteFrom intent index firstDeleteError now).Held row := by
  unfold deleteFrom
  split
  · refine ⟨?_, ?_, ?_⟩
    · intro next hnext
      cases hnext
      exact h
    · exact nofun
    · exact nofun
  · split
    · exact Progress.held_of_awaits h
    · exact Progress.held_of_awaits h

theorem held_afterUpdate (h : row.isSome = true) (intent : SessionDeleteIntent) (now : Int)
    (after : AfterUpdate) : (afterUpdate intent now after).Held row := by
  cases after with
  | stop | clean => exact Progress.held_of_awaits h
  | deleteBackings | nextBacking => exact held_deleteFrom h _ _ _ now
  | rethrow => exact Progress.held_settles h

end

section

variable {s : AgentSessionLifecycleService} {session : SessionKey} {provider : String} {now : Int}
  {await : DeleteAwait} {answer : Answer} {p : Progress}

theorem answered_load (hload : await = .load)
    (h : await.answered s session provider now answer = some p) :
    s.loading = .loaded ∧ p = .awaits .get ∨ s.loading = .failed ∧ p = .settles := by
  revert hload h
  fun_cases DeleteAwait.answered s session provider now await answer
  case case2 hloaded => exact fun _ h => .inl ⟨hloaded, (Option.some.inj h).symm⟩
  case case3 hfailed => exact fun _ h => .inr ⟨hfailed, (Option.some.inj h).symm⟩
  all_goals
    intro hload h
    contradiction

theorem held_answered (hload : await ≠ .load) (hok : await.Ok (s.intents session) s.records session)
    (hheld : await.Held (s.intents session))
    (hfails : s.intents session = none → ¬await.Fails s session provider answer)
    (h : await.answered s session provider now answer = some p) : p.Held (s.intents session) := by
  -- A settled attempt that has not failed in the ways named has a row.
  have hsome : await.Fails s session provider answer → (s.intents session).isSome = true := by
    intro hfail
    cases hrow : s.intents session with
    | none => exact (hfails hrow hfail).elim
    | some row => rfl
  revert hload hok hheld hfails hsome h
  fun_cases DeleteAwait.answered s session provider now await answer
  all_goals
    intro hload hok hheld hfails h hsome
    first
    | contradiction
    | obtain rfl := Option.some.inj h
  -- A row that is read is there, readable or not.
  case case4 hrow | case6 hrow _ | case7 hrow _ =>
    have hthere : (s.intents session).isSome = true := by
      cases hnone : s.intents session with
      | some row => rfl
      | none =>
        rw [hnone] at hrow
        cases hrow
    first
    | exact Progress.held_settles hthere
    | exact held_beginAttempt hthere _ now
  case case5 => exact Progress.held_of_awaits trivial
  case case8 | case11 | case15 => exact Progress.held_settles (hsome trivial)
  case case9 error hvalid =>
    exact ⟨fun _ hnext => (by cases hnext), fun _ => .inr (hsome ⟨error, hvalid⟩),
      fun hremoved => (by cases hremoved)⟩
  case case10 =>
    refine ⟨?_, fun hnone => (by cases hnone), fun hremoved => (by cases hremoved)⟩
    intro next hnext
    cases hnext
    intro hinserted
    cases hinserted
  case case12 => exact held_beginAttempt (hheld rfl) _ now
  case case13 => exact Progress.held_settles (hheld rfl)
  case case16 | case18 | case21 | case22 => exact held_updateFailed hheld _ _ now _
  case case20 => exact held_afterUpdate hheld _ now _
  case case17 | case23 | case24 | case25 | case28 => exact Progress.held_of_awaits hheld
  case case26 => exact held_deleteFrom hheld _ _ _ now
  case case27 =>
    refine ⟨?_, fun hnone => (by cases hnone), fun hremoved => (by cases hremoved)⟩
    intro next hnext
    cases hnext
    exact fun _ => hheld
  -- The row is gone once it has been removed, and there until then.
  case case30 => exact Progress.held_of_awaits trivial
  case case31 => exact Progress.held_of_awaits (hheld (by decide))
  case case33 hremoved => exact Progress.held_of_awaits (hheld hremoved)
  case case34 =>
    exact ⟨fun _ hnext => (by cases hnext), fun _ => .inl rfl, fun _ => ⟨rfl, hok⟩⟩
  case case35 => exact (hfails hok trivial).elim

theorem held_takeEffect {intents intents' : DeleteIntents} {added : List LifecycleRecord}
    {await' : DeleteAwait} (hsession : ∀ intent inserted, await = .prepare intent inserted →
      intent.session = session) (hheld : await.Held (intents session))
    (h : await.takeEffect intents session = some (intents', added, await')) :
    await'.Held (intents' session) := by
  cases await with
  | prepare intent inserted =>
    cases inserted with
    | true => cases h
    | false =>
      obtain ⟨rfl, -, rfl⟩ := Prod.mk.inj (Option.some.inj h) |>.imp id Prod.mk.inj
      obtain rfl := hsession intent false rfl
      intro _
      unfold insertDeleteIntent
      split
      · next hsome => exact hsome
      · rw [update_self]
        rfl
  | write next changed after =>
    cases changed with
    | some changed => cases h
    | none =>
      obtain ⟨rfl, -, rfl⟩ := Prod.mk.inj (Option.some.inj h) |>.imp id Prod.mk.inj
      unfold updateDeleteIntent
      split
      · exact hheld
      · split
        · dsimp only
          rw [update_self]
          rfl
        · exact hheld
  | finalize intent removed =>
    cases removed with
    | some removed => cases h
    | none =>
      obtain ⟨rfl, -, rfl⟩ := Prod.mk.inj (Option.some.inj h) |>.imp id Prod.mk.inj
      intro hremoved
      unfold finalizeDeleteIntent at hremoved ⊢
      split
      · exact hheld (by decide)
      · next row hrow =>
        rw [hrow] at hremoved
        dsimp only at hremoved
        split
        · next hown =>
          rw [if_pos hown] at hremoved
          exact (hremoved rfl).elim
        · exact hheld (by decide)
  | load | get | capture | read | stop | deleteBacking | cleanup | finalized => cases h

end

/-! ## Runs -/

/-- What holds along runs in which no step leaves a marker. -/
structure Marked (s : AgentSessionLifecycleService) : Prop where
  consistent : Consistent s
  tracked : ∀ (i : Nat) (link : Link SessionKey Task) (provider : String) (await : DeleteAwait),
    s.chain.links[i]? = some link → link.phase ≠ .settled → link.task = .delete provider await →
      s.deletingSessions link.key = true ∧ s.deleteOperations link.key = some i
  begun : ∀ (i : Nat) (link : Link SessionKey Task) (provider : String) (await : DeleteAwait),
    s.chain.links[i]? = some link → link.phase ≠ .settled → link.task = .delete provider await →
      await ≠ .load → s.loading = .loaded
  held : ∀ (i : Nat) (link : Link SessionKey Task) (provider : String) (await : DeleteAwait),
    s.chain.links[i]? = some link → link.phase ≠ .settled → link.task = .delete provider await →
      await.Held (s.intents link.key)
  loaded : s.loading = .loaded → ∀ session, (s.intents session).isSome = true →
    s.deletingSessions session = true
  agree : s.loading ≠ .failed → ∀ session, s.deletingSessions session = true →
    (s.intents session).isSome = true ∨ DeleteInFlight s session

/-- The promise is that of a deletion which has not settled. -/
structure Flight (s : AgentSessionLifecycleService) (i : Nat) (link : Link SessionKey Task)
    (await : DeleteAwait) : Prop where
  lookup : s.chain.links[i]? = some link
  phase : link.phase ≠ .settled
  task : ∃ provider, link.task = .delete provider await

/-- What is known of a deletion in flight. -/
structure Followed (s : AgentSessionLifecycleService) (i : Nat) (link : Link SessionKey Task)
    (await : DeleteAwait) : Prop where
  marked : s.deletingSessions link.key = true
  operation : s.deleteOperations link.key = some i
  begun : await ≠ .load → s.loading = .loaded
  held : await.Held (s.intents link.key)

theorem Marked.followed {s : AgentSessionLifecycleService} (h : Marked s) {i : Nat}
    {link : Link SessionKey Task} {await : DeleteAwait} (hf : Flight s i link await) :
    Followed s i link await := by
  obtain ⟨provider, htask⟩ := hf.task
  obtain ⟨hmarked, hoperation⟩ := h.tracked i link provider await hf.lookup hf.phase htask
  exact ⟨hmarked, hoperation, h.begun i link provider await hf.lookup hf.phase htask,
    h.held i link provider await hf.lookup hf.phase htask⟩

theorem Marked.of_flights {s : AgentSessionLifecycleService} (hconsistent : Consistent s)
    (hflights : ∀ i link await, Flight s i link await → Followed s i link await)
    (hloaded : s.loading = .loaded → ∀ session, (s.intents session).isSome = true →
      s.deletingSessions session = true)
    (hagree : s.loading ≠ .failed → ∀ session, s.deletingSessions session = true →
      (s.intents session).isSome = true ∨ DeleteInFlight s session) : Marked s where
  consistent := hconsistent
  tracked i link provider await hlink hphase htask := by
    have h := hflights i link await ⟨hlink, hphase, provider, htask⟩
    exact ⟨h.marked, h.operation⟩
  begun i link provider await hlink hphase htask :=
    (hflights i link await ⟨hlink, hphase, provider, htask⟩).begun
  held i link provider await hlink hphase htask :=
    (hflights i link await ⟨hlink, hphase, provider, htask⟩).held
  loaded := hloaded
  agree := hagree

theorem marked_initial : Marked .initial := by
  refine .of_flights consistent_initial (fun i link await hf => ?_) (fun hloaded => ?_)
    fun _ session hmarked => ?_
  · have hlink := hf.lookup
    simp [AgentSessionLifecycleService.initial] at hlink
  · cases hloaded
  · cases hmarked

theorem Marked.markers_agree {s : AgentSessionLifecycleService} (h : Marked s) :
    MarkerAgrees s := by
  intro hready session hidle
  have hloaded : s.loading = .loaded := of_decide_eq_true hready
  constructor
  · intro hmarked
    exact (h.agree (by rw [hloaded]; decide) session hmarked).resolve_right hidle
  · exact h.loaded hloaded session

section

variable {s s' : AgentSessionLifecycleService} {i : Nat} {link link' : Link SessionKey Task}

theorem DeleteInFlight.setLink {session : SessionKey} (h : DeleteInFlight s session)
    (hlink : s.chain.links[i]? = some link) (hchain : s'.chain = s.chain.setLink i link')
    (hkey : link'.key = link.key)
    (hstay : session = link.key → ∀ provider await, link.task = .delete provider await →
      link'.phase ≠ .settled ∧ ∃ provider await, link'.task = .delete provider await) :
    DeleteInFlight s' session := by
  obtain ⟨j, found, provider, await, hfound, hfoundKey, hphase, htask⟩ := h
  by_cases hji : j = i
  · subst hji
    obtain rfl := Option.some.inj (hlink.symm.trans hfound)
    obtain ⟨hphase', provider', await', htask'⟩ := hstay hfoundKey.symm provider await htask
    refine ⟨j, link', provider', await', ?_, hkey.trans hfoundKey, hphase', htask'⟩
    rw [hchain, getElem?_setLink hlink, if_pos rfl]
  · refine ⟨j, found, provider, await, ?_, hfoundKey, hphase, htask⟩
    rw [hchain, getElem?_setLink hlink, if_neg hji, hfound]

theorem DeleteInFlight.request {session key : SessionKey} {task : Task}
    (h : DeleteInFlight s session) (hchain : s'.chain = s.chain.request key task) :
    DeleteInFlight s' session := by
  obtain ⟨j, found, provider, await, hfound, hfoundKey, hphase, htask⟩ := h
  have hj : j < s.chain.links.length := (List.getElem?_eq_some_iff.mp hfound).1
  refine ⟨j, found, provider, await, ?_, hfoundKey, hphase, htask⟩
  rw [hchain, getElem?_request, if_neg (by omega), hfound]

variable {found : Link SessionKey Task}

theorem Marked.eq_of_key (h : Marked s) {j : Nat} {await await' : DeleteAwait}
    (hf : Flight s i link await) (hg : Flight s j found await') (hkey : found.key = link.key) :
    j = i := by
  have hj := (h.followed hg).operation
  rw [hkey, (h.followed hf).operation] at hj
  exact (Option.some.inj hj).symm

theorem Marked.inFlight_cases (h : Marked s) {j : Nat} {provider : String}
    {await await' : DeleteAwait} {next : Option DeleteAwait} (hf : Flight s i link await)
    (hchain : s'.chain = s.chain.setLink i (stage link provider next))
    (hg : Flight s' j found await') :
    j = i ∧ found.key = link.key ∧ next = some await' ∨
      Flight s j found await' ∧ found.key ≠ link.key := by
  have hlookup := hg.lookup
  rw [hchain, getElem?_setLink hf.lookup] at hlookup
  split at hlookup
  · next hji =>
    cases hlookup
    cases next with
    | none => exact (hg.phase rfl).elim
    | some next =>
      obtain ⟨_, htask⟩ := hg.task
      obtain ⟨-, rfl⟩ := Task.delete.inj htask
      exact .inl ⟨hji, rfl, rfl⟩
  · next hji =>
    have hold : Flight s j found await' := ⟨hlookup, hg.phase, hg.task⟩
    exact .inr ⟨hold, fun hkey => hji (h.eq_of_key hf hold hkey)⟩

theorem Marked.deleteSession (h : Marked s) (session : SessionKey) (provider : String) :
    Marked (s.deleteSession session provider) := by
  have hconsistent := h.consistent.deleteSession session provider
  unfold AgentSessionLifecycleService.deleteSession at hconsistent ⊢
  cases hoperation : s.deleteOperations session with
  | some operation => exact h
  | none =>
    rw [hoperation] at hconsistent
    refine .of_flights hconsistent (fun j found await hf => ?_) ?_ ?_
    · have hfound : (s.chain.request session (.delete provider .load)).links[j]? = some found :=
        hf.lookup
      rw [getElem?_request] at hfound
      split at hfound
      · next hj =>
        cases hfound
        subst hj
        obtain ⟨_, htask⟩ := hf.task
        obtain ⟨-, rfl⟩ := Task.delete.inj htask
        exact ⟨update_self _ _ _, update_self _ _ _, fun hload => (hload rfl).elim, trivial⟩
      · have hold := h.followed ⟨hfound, hf.phase, hf.task⟩
        have hne : found.key ≠ session := by
          rintro rfl
          have htracked := hold.operation
          rw [hoperation] at htracked
          cases htracked
        exact ⟨(update_of_ne hne _ _).trans hold.marked,
          (update_of_ne hne _ _).trans hold.operation, hold.begun, hold.held⟩
    · intro hloaded key hrow
      show Function.update s.deletingSessions session true key = true
      rw [update_apply]
      split
      · rfl
      · exact h.loaded hloaded key hrow
    · intro hfailed key hmarked
      by_cases hkey : key = session
      · subst hkey
        refine .inr ⟨s.chain.links.length,
          { key, previous := s.chain.tail key, phase := .waiting, task := .delete provider .load },
          provider, .load, ?_, rfl, ?_, rfl⟩
        · exact (getElem?_request _ _ _ _).trans (if_pos rfl)
        · show LinkPhase.waiting ≠ .settled
          decide
      · have hold : s.deletingSessions key = true := by
          rw [← update_of_ne hkey true s.deletingSessions]
          exact hmarked
        exact (h.agree hfailed key hold).imp id fun hflight => hflight.request rfl

theorem Marked.resumePendingDeletes (h : Marked s) (provider : String)
    (listed : List SessionDeleteIntent) : Marked (s.resumePendingDeletes provider listed) := by
  unfold AgentSessionLifecycleService.resumePendingDeletes
  induction listed.filter (·.provider = provider) generalizing s with
  | nil => exact h
  | cons intent rest ih => exact ih (h.deleteSession intent.session provider)

theorem Marked.setLink (h : Marked s) (hconsistent : Consistent s')
    (hlink : s.chain.links[i]? = some link) (hchain : s'.chain = s.chain.setLink i link')
    (hkey : link'.key = link.key) (htask : link'.task = link.task)
    (hphase : ∀ provider await, link.task = .delete provider await →
      link'.phase ≠ .settled ∧ link.phase ≠ .settled)
    (hintents : s'.intents = s.intents) (hoperations : s'.deleteOperations = s.deleteOperations)
    (hdeleting : s'.deletingSessions = s.deletingSessions) (hloading : s'.loading = s.loading) :
    Marked s' := by
  refine .of_flights hconsistent (fun j found await hf => ?_) ?_ ?_
  · obtain ⟨old, hold, hkeys⟩ : ∃ old, Flight s j old await ∧ old.key = found.key := by
      have hfound := hf.lookup
      rw [hchain, getElem?_setLink hlink] at hfound
      split at hfound
      · next hji =>
        cases hfound
        subst hji
        obtain ⟨provider, htask'⟩ := hf.task
        rw [htask] at htask'
        exact ⟨link, ⟨hlink, (hphase provider await htask').2, provider, htask'⟩, hkey.symm⟩
      · exact ⟨found, ⟨hfound, hf.phase, hf.task⟩, rfl⟩
    obtain ⟨hmarked, hoperation, hbegun, hheld⟩ := h.followed hold
    rw [hkeys] at hmarked hoperation hheld
    exact ⟨by rw [hdeleting, hmarked], by rw [hoperations, hoperation],
      fun hload => hloading.trans (hbegun hload), by rw [hintents]; exact hheld⟩
  · rw [hloading, hintents, hdeleting]
    exact h.loaded
  · rw [hloading, hintents, hdeleting]
    intro hfailed session hmarked
    refine (h.agree hfailed session hmarked).imp id fun hflight => ?_
    refine hflight.setLink hlink hchain hkey ?_
    intro _ provider await hdelete
    exact ⟨(hphase provider await hdelete).1, provider, await, htask.trans hdelete⟩

theorem Marked.congr (h : Marked s) (hconsistent : Consistent s')
    (hlinks : s'.chain.links = s.chain.links) (hintents : s'.intents = s.intents)
    (hdeleting : s'.deletingSessions = s.deletingSessions) (hloading : s'.loading = s.loading)
    (hoperations : ∀ (j : Nat) (found : Link SessionKey Task), s.chain.links[j]? = some found →
      found.phase ≠ .settled → s.deleteOperations found.key = some j →
        s'.deleteOperations found.key = some j) : Marked s' := by
  refine .of_flights hconsistent (fun j found await hf => ?_) ?_ ?_
  · have hfound : s.chain.links[j]? = some found := hlinks ▸ hf.lookup
    obtain ⟨hmarked, hoperation, hbegun, hheld⟩ := h.followed ⟨hfound, hf.phase, hf.task⟩
    exact ⟨by rw [hdeleting, hmarked], hoperations j found hfound hf.phase hoperation,
      fun hload => hloading.trans (hbegun hload), by rw [hintents]; exact hheld⟩
  · rw [hloading, hintents, hdeleting]
    exact h.loaded
  · rw [hloading, hintents, hdeleting]
    intro hfailed session hmarked
    refine (h.agree hfailed session hmarked).imp id ?_
    rintro ⟨j, found, provider, await, hfound, hrest⟩
    exact ⟨j, found, provider, await, by rw [hlinks, hfound], hrest⟩

theorem Marked.load (h : Marked s) (hloading : s.loading = .loading) {succeeds : Bool}
    (hstep : s.step (.load succeeds) = some s') : Marked s' := by
  have hconsistent := h.consistent.step hstep
  unfold AgentSessionLifecycleService.step at hstep
  dsimp only at hstep
  rw [if_pos hloading] at hstep
  cases hstep
  -- Nothing but the loading itself has been awaited so far.
  have hload : ∀ j found await, Flight s j found await → await = .load := by
    intro j found await hf
    by_contra hne
    have hbegun := (h.followed hf).begun hne
    rw [hloading] at hbegun
    cases hbegun
  cases succeeds with
  | false =>
    refine .of_flights hconsistent (fun j found await hf => ?_) ?_ ?_
    · have hold : Flight s j found await := ⟨hf.lookup, hf.phase, hf.task⟩
      obtain ⟨hmarked, hoperation, -, hheld⟩ := h.followed hold
      exact ⟨hmarked, hoperation, fun hne => (hne (hload j found await hold)).elim, hheld⟩
    · exact nofun
    · intro hfailed
      exact (hfailed rfl).elim
  | true =>
    refine .of_flights hconsistent (fun j found await hf => ?_) ?_ ?_
    · obtain ⟨hmarked, hoperation, -, hheld⟩ := h.followed ⟨hf.lookup, hf.phase, hf.task⟩
      refine ⟨?_, hoperation, fun _ => rfl, hheld⟩
      show ((s.intents found.key).isSome || s.deletingSessions found.key) = true
      rw [hmarked, Bool.or_true]
    · intro _ session hrow
      show ((s.intents session).isSome || s.deletingSessions session) = true
      rw [show (s.intents session).isSome = true from hrow, Bool.true_or]
    · intro _ session hmarked
      obtain hrow | hold := Bool.or_eq_true_iff.mp hmarked
      · exact .inl hrow
      · exact h.agree (by rw [hloading]; decide) session hold

theorem Marked.answer (h : Marked s) {now : Int} {answer : Answer}
    (hgood : ¬LeavesMarker s (.answer i now answer))
    (hstep : s.step (.answer i now answer) = some s') : Marked s' := by
  have hconsistent := h.consistent.step hstep
  obtain ⟨link, hrunning, hstep⟩ := bind_eq_some_iff.mp hstep
  obtain ⟨hlink, hphase⟩ := running_eq hrunning
  have hunsettled : link.phase ≠ .settled := by
    rw [hphase]
    decide
  cases htask : link.task with
  | mutation =>
    rw [htask] at hstep
    cases hstep
  | delete provider await =>
    rw [htask] at hstep
    obtain ⟨p, hp, hstep⟩ := bind_eq_some_iff.mp hstep
    cases hstep
    have hok := (h.consistent.flight i link provider await hlink hunsettled htask).1
    have hf : Flight s i link await := ⟨hlink, hunsettled, provider, htask⟩
    obtain ⟨hmarked, hoperation, hbegun, hheldNow⟩ := h.followed hf
    -- A deletion that has waited for the loading goes on only where it has succeeded.
    have hgoes : (∀ next, p.next = some next → s.loading = .loaded ∧
          next.Held (s.intents link.key)) ∧
        (p.next = none → p.deleting = some false ∨ (s.intents link.key).isSome = true ∨
          s.loading = .failed) ∧
        (p.deleting = some false → p.next = none ∧ s.intents link.key = none) := by
      by_cases hload : await = .load
      · subst hload
        obtain ⟨hloaded, rfl⟩ | ⟨hfailed, rfl⟩ := answered_load rfl hp
        · refine ⟨?_, fun hnone => (by cases hnone), fun hremoved => (by cases hremoved)⟩
          intro next hnext
          cases hnext
          exact ⟨hloaded, trivial⟩
        · exact ⟨fun _ hnext => (by cases hnext), fun _ => .inr (.inr hfailed),
            fun hremoved => (by cases hremoved)⟩
      · have hheld := held_answered hload hok hheldNow (fun hrow hfails =>
            hgood ⟨i, now, answer, link, provider, await, rfl, hrunning, htask, hrow, hfails⟩) hp
        have hloaded := hbegun hload
        exact ⟨fun next hnext => ⟨hloaded, hheld.next next hnext⟩,
          fun hnone => (hheld.settled hnone).imp id .inl, hheld.removed⟩
    obtain ⟨hnext, hsettled, hremoved⟩ := hgoes
    have hmarkSelf : p.deleting ≠ some false →
        (s.progress i link provider p).deletingSessions link.key = true :=
      fun hne => Progress.mark_self hne hmarked
    have hmarkOf : ∀ session, session ≠ link.key →
        (s.progress i link provider p).deletingSessions session = s.deletingSessions session :=
      fun session hne => p.mark_of_ne hne _
    refine .of_flights hconsistent (fun j found await' hg => ?_) ?_ ?_
    · obtain ⟨rfl, hkey, hpnext⟩ | ⟨hold, hne⟩ := h.inFlight_cases hf rfl hg
      · refine ⟨?_, ?_, fun _ => (hnext await' hpnext).1, ?_⟩
        · rw [hkey]
          refine hmarkSelf fun hfalse => ?_
          rw [(hremoved hfalse).1] at hpnext
          cases hpnext
        · rw [hkey]
          exact hoperation
        · rw [hkey]
          exact (hnext await' hpnext).2
      · obtain ⟨hmarked', hoperation', hbegun', hheld'⟩ := h.followed hold
        exact ⟨(hmarkOf found.key hne).trans hmarked', hoperation', hbegun', hheld'⟩
    · intro hloaded session hrow
      by_cases hkey : session = link.key
      · subst hkey
        apply hmarkSelf
        intro hfalse
        have hnone : s.intents link.key = none := (hremoved hfalse).2
        have hsome : (s.intents link.key).isSome = true := hrow
        rw [hnone] at hsome
        cases hsome
      · rw [hmarkOf session hkey]
        exact h.loaded hloaded session hrow
    · intro hfailed session hmark
      by_cases hkey : session = link.key
      · subst hkey
        cases hpnext : p.next with
        | none =>
          obtain hfalse | hrow | hfail := hsettled hpnext
          · rw [show (s.progress i link provider p).deletingSessions link.key = false from
              Progress.mark_removed hfalse _ _] at hmark
            cases hmark
          · exact .inl hrow
          · exact (hfailed hfail).elim
        | some next =>
          refine .inr ⟨i, stage link provider (some next), provider, next, ?_, rfl, hunsettled, rfl⟩
          refine (getElem?_setLink hlink _ i).trans ?_
          rw [if_pos rfl, hpnext]
      · rw [hmarkOf session hkey] at hmark
        refine (h.agree hfailed session hmark).imp id fun hflight => ?_
        refine hflight.setLink hlink rfl (stage_key link provider p.next) ?_
        intro hsame
        exact (hkey hsame).elim

theorem Marked.takeEffect (h : Marked s) (hstep : s.step (.takeEffect i) = some s') :
    Marked s' := by
  have hconsistent := h.consistent.step hstep
  obtain ⟨link, hrunning, hstep⟩ := bind_eq_some_iff.mp hstep
  obtain ⟨hlink, hphase⟩ := running_eq hrunning
  have hunsettled : link.phase ≠ .settled := by
    rw [hphase]
    decide
  cases htask : link.task with
  | mutation =>
    rw [htask] at hstep
    cases hstep
  | delete provider await =>
    rw [htask] at hstep
    obtain ⟨⟨intents, added, next⟩, heffect, hstep⟩ := bind_eq_some_iff.mp hstep
    cases hstep
    have hok := (h.consistent.flight i link provider await hlink hunsettled htask).1
    obtain ⟨-, -, hrows, -⟩ := ok_takeEffect h.consistent.durable hok heffect
    have hf : Flight s i link await := ⟨hlink, hunsettled, provider, htask⟩
    obtain ⟨hmarked, hoperation, hbegun, hheldNow⟩ := h.followed hf
    have hheld : next.Held (intents link.key) := by
      refine held_takeEffect ?_ hheldNow heffect
      rintro intent inserted rfl
      exact hok.1
    have hloaded : s.loading = .loaded := by
      refine hbegun ?_
      rintro rfl
      cases heffect
    refine .of_flights hconsistent (fun j found await' hg => ?_) ?_ ?_
    · obtain ⟨rfl, hkey, hnext⟩ | ⟨hold, hne⟩ := @Marked.inFlight_cases s _ _ _ _ h _ provider _ _
        (some next) hf rfl hg
      · cases hnext
        refine ⟨?_, ?_, fun _ => hloaded, ?_⟩
        · rw [hkey]
          exact hmarked
        · rw [hkey]
          exact hoperation
        · rw [hkey]
          exact hheld
      · obtain ⟨hmarked', hoperation', hbegun', hheld'⟩ := h.followed hold
        refine ⟨hmarked', hoperation', hbegun', ?_⟩
        show await'.Held (intents found.key)
        rw [hrows found.key hne]
        exact hheld'
    · intro _ session hrow
      by_cases hkey : session = link.key
      · rw [hkey]
        exact hmarked
      · have hold : (s.intents session).isSome = true := by
          rw [← hrows session hkey]
          exact hrow
        exact h.loaded hloaded session hold
    · intro hfailed session hmark
      by_cases hkey : session = link.key
      · refine .inr ⟨i, { link with task := .delete provider next }, provider, next, ?_,
          hkey.symm, hunsettled, rfl⟩
        exact (getElem?_setLink hlink _ i).trans (if_pos rfl)
      · refine (h.agree hfailed session hmark).imp ?_ fun hflight => ?_
        · intro hrow
          show (intents session).isSome = true
          rw [hrows session hkey]
          exact hrow
        · refine hflight.setLink hlink rfl rfl ?_
          intro hsame
          exact (hkey hsame).elim

theorem Marked.step (h : Marked s) {event : LifecycleEvent} (hgood : ¬LeavesMarker s event)
    (hstep : s.step event = some s') : Marked s' := by
  have hconsistent := h.consistent.step hstep
  cases event with
  | deleteSession session provider =>
    cases hstep
    exact h.deleteSession session provider
  | runSessionMutation session =>
    cases hstep
    refine .of_flights hconsistent (fun j found await hf => ?_) h.loaded ?_
    · have hfound : (s.chain.request session .mutation).links[j]? = some found := hf.lookup
      rw [getElem?_request] at hfound
      split at hfound
      · cases hfound
        obtain ⟨_, htask⟩ := hf.task
        cases htask
      · obtain ⟨hmarked, hoperation, hbegun, hheld⟩ := h.followed ⟨hfound, hf.phase, hf.task⟩
        exact ⟨hmarked, hoperation, hbegun, hheld⟩
    · intro hfailed key hmarked
      exact (h.agree hfailed key hmarked).imp id fun hflight => hflight.request rfl
  | resumePendingDeletes provider listed =>
    unfold AgentSessionLifecycleService.step at hstep
    dsimp only at hstep
    split at hstep
    · cases hstep
      exact h.resumePendingDeletes provider listed
    · cases hstep
  | load succeeds =>
    have hloading : s.loading = .loading := by
      by_contra hne
      unfold AgentSessionLifecycleService.step at hstep
      dsimp only at hstep
      rw [if_neg hne] at hstep
      cases hstep
    exact h.load hloading hstep
  | start i =>
    obtain ⟨chain, hstart, rfl⟩ := map_eq_some_iff.mp hstep
    obtain ⟨link, hlink, hwaiting, -, rfl⟩ := start_eq hstart
    refine h.setLink hconsistent hlink rfl rfl rfl ?_ rfl rfl rfl rfl
    intro _ _ _
    have hrunning : LinkPhase.running ≠ .settled := by decide
    rw [hwaiting]
    exact ⟨hrunning, by decide⟩
  | settle i =>
    obtain ⟨link, hrunning, hstep⟩ := bind_eq_some_iff.mp hstep
    obtain ⟨hlink, hphase⟩ := running_eq hrunning
    cases htask : link.task with
    | delete provider await =>
      rw [htask] at hstep
      cases hstep
    | mutation =>
      rw [htask] at hstep
      cases hstep
      refine h.setLink hconsistent hlink rfl rfl htask.symm ?_ rfl rfl rfl rfl
      intro provider await hdelete
      rw [htask] at hdelete
      cases hdelete
  | takeEffect i => exact h.takeEffect hstep
  | answer i now answer => exact h.answer hgood hstep
  | cleanupTail i =>
    obtain ⟨chain, hcleanup, rfl⟩ := map_eq_some_iff.mp hstep
    obtain ⟨-, -, -, hlinks, -⟩ := cleanup_eq hcleanup
    exact h.congr hconsistent hlinks rfl rfl rfl fun _ _ _ _ htracked => htracked
  | cleanupOperation i =>
    obtain ⟨link, hlink, hstep⟩ := bind_eq_some_iff.mp hstep
    split at hstep
    · next hsettled =>
      cases hstep
      by_cases hoperation : s.deleteOperations link.key = some i
      · rw [if_pos hoperation] at hconsistent ⊢
        refine h.congr hconsistent rfl rfl rfl rfl ?_
        intro j found hfound hphase htracked
        have hne : found.key ≠ link.key := by
          intro hkey
          rw [hkey, hoperation] at htracked
          cases htracked
          obtain rfl := Option.some.inj (hlink.symm.trans hfound)
          exact hphase hsettled
        exact (update_of_ne hne _ _).trans htracked
      · rw [if_neg hoperation]
        exact h
    · cases hstep
  | crash =>
    cases hstep
    refine .of_flights hconsistent (fun j found await hf => ?_) ?_ ?_
    · have hfound := hf.lookup
      simp [AgentSessionLifecycleService.restart] at hfound
    · intro hloaded
      cases hloaded
    · intro _ session hmarked
      cases hmarked

end

theorem marked_reachable {s : AgentSessionLifecycleService}
    (hs : AgentSessionLifecycleService.system.ReachableVia
      (fun s event => ¬LeavesMarker s event) s) : Marked s := by
  refine System.ReachableVia.invariant ?_ (fun _ _ _ h hgood hstep => h.step hgood hstep) hs
  rintro _ rfl
  exact marked_initial

def cutOffDelete : List LifecycleEvent :=
  [.deleteSession "session" "codex", .load true, .start 0, .answer 0 1 .ok, .answer 0 2 .ok, .crash,
    .load true]

/-- A deletion whose targets cannot be captured. -/
def uncapturedDelete : List LifecycleEvent :=
  [.deleteSession "session" "codex", .load true, .start 0, .answer 0 1 .ok, .answer 0 2 .ok,
    .answer 0 3 (.failed "offline")]

end Lifecycle

end Fumie.AgentHost
