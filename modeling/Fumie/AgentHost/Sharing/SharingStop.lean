import Fumie.AgentHost.Sharing.TunnelHostMainService
import Fumie.Lib.Runs

/-!
# The last stop wins

A start of the mobile web server does not look at what happened while it waited. In runs
where no start is under way when another one begins or when the server is stopped, and
where no start begins for a request that was given up, there is never more than one
server, and nothing runs once sharing was stopped.
-/

namespace Fumie.AgentHost.Sharing

open Fumie.Lib List Option

namespace State

def HostingUnderWay (s : State) : Prop :=
  ∃ (call : Nat) (stage : HostingStage), s.calls[call]? = some (.hosting stage)

def Restarts (s : State) (call : Nat) : Prop :=
  ∃ request, s.calls[call]? = some (.rollRestarting request) ∧
    (request.isSome && s.statusActive) = true

def Begins (s : State) : Action → Prop
  | .settle call outcome _ =>
    outcome = .ok ∧ s.calls[call]? = some (.waiting true) ∨ s.Restarts call
  | _ => False

def Stops (s : State) : Action → Prop
  | .stopHosting => True
  | .settle call outcome _ =>
    outcome ≠ .ok ∧ s.request = some call ∧ ∃ ready, s.calls[call]? = some (.waiting ready)
  | _ => False

/-- Nothing is under way that the step would cross, and a start that begins is wanted. -/
structure Undisturbed (s : State) (a : Action) : Prop where
  alone : s.Begins a ∨ s.Stops a → ¬s.HostingUnderWay
  wanted : s.Begins a → s.request.isSome = true

/-! ## What settles -/

structure SameSharing (s t : State) : Prop where
  request : t.request = s.request
  agentHostSharing : t.agentHostSharing = s.agentHostSharing
  session : t.session = s.session
  active : t.active = s.active

theorem SameSharing.refl (s : State) : SameSharing s s := ⟨rfl, rfl, rfl, rfl⟩

inductive SettleEffect (s t : State) (call : Nat) (a : Action) : Prop
  | quiet (next : CallStage) (hcalls : t.calls = s.calls.set call next)
      (hnext : ∀ stage, next ≠ .hosting stage) (same : SameSharing s t)
  | begun (hbegins : s.Begins a) (hcalls : t.calls = s.calls.set call (.hosting .releasing))
      (hrequest : t.request = s.request) (hsharing : t.agentHostSharing = s.agentHostSharing)
      (hsession : t.session = none)
  | rolledBack (hstops : s.Stops a) (hcalls : t.calls = s.calls.set call .rollingBack)
      (hrequest : t.request = none) (hsharing : t.agentHostSharing = none)
      (hsession : t.session = none) (hactive : t.active = false)
  | hosted (stage next : HostingStage) (was : s.calls[call]? = some (.hosting stage))
      (hcalls : t.calls = s.calls.set call (.hosting next)) (same : SameSharing s t)
  | installed (stage : HostingStage) (was : s.calls[call]? = some (.hosting stage))
      (hcalls : t.calls = s.calls.set call .settled) (hrequest : t.request = s.request)
      (hsharing : t.agentHostSharing = s.agentHostSharing)

variable {s : State} {call : Nat} {a : Action}

theorem hosted_of {s' : State} {stage : HostingStage} (was : s.calls[call]? = some (.hosting stage))
    (same : SameSharing s s') (hcalls : s'.calls = s.calls) (next : HostingStage) :
    SettleEffect s (s'.setCall call (.hosting next)) call a := by
  refine .hosted stage next was ?_ ⟨same.request, same.agentHostSharing, same.session, same.active⟩
  rw [setCall, hcalls]

theorem hostingStep_effect {stage : HostingStage} (was : s.calls[call]? = some (.hosting stage))
    (outcome : Outcome) (random : Nat) :
    SettleEffect s (s.hostingStep call stage outcome random) call a := by
  have hsame := SameSharing.refl s
  have hdone : SettleEffect s (s.setCall call .settled) call a :=
    .quiet .settled rfl nofun ⟨rfl, rfl, rfl, rfl⟩
  cases stage with
  | releasing | listening _ =>
    cases outcome with
    | ok => exact hosted_of was hsame rfl _
    | other | failed => exact hdone
  | reading =>
    have hnew : SameSharing s { s with nextSecret := s.nextSecret + 1 } := ⟨rfl, rfl, rfl, rfl⟩
    cases outcome with
    | ok =>
      rw [hostingStep]
      split
      · exact hosted_of was hsame rfl _
      · exact hosted_of was hnew rfl _
    | other | failed => exact hosted_of was hnew rfl _
  | creating created =>
    cases outcome with
    | ok =>
      have hwritten : SameSharing s (s.writePairing created) := ⟨rfl, rfl, rfl, rfl⟩
      exact hosted_of was hwritten rfl _
    | other | failed => exact hosted_of was hsame rfl _
  | resolving pairing =>
    have hnew : SameSharing s { s with nextTunnel := s.nextTunnel + 1 } := ⟨rfl, rfl, rfl, rfl⟩
    rw [hostingStep, resolveTunnel.eq_def]
    split
    · exact hosted_of was hsame rfl _
    · exact hosted_of was hsame rfl _
    · exact hosted_of was hnew rfl _
  | remembering pairing tunnel =>
    cases outcome with
    | ok =>
      have hwritten : SameSharing s (s.writePairing { pairing with tunnel := some tunnel }) :=
        ⟨rfl, rfl, rfl, rfl⟩
      exact hosted_of was hwritten rfl _
    | other | failed => exact hosted_of was hsame rfl _
  | connecting _ _ _ | checking _ _ _ =>
    cases outcome with
    | ok | other | failed => exact hosted_of was hsame rfl _
  | forgetting pairing =>
    cases outcome with
    | ok =>
      have hwritten : SameSharing s (s.writePairing { pairing with tunnel := none }) :=
        ⟨rfl, rfl, rfl, rfl⟩
      exact hosted_of was hwritten rfl _
    | other | failed => exact hosted_of was hsame rfl _
  | installing pairing publicUrl =>
    rw [hostingStep]
    exact .installed _ was rfl rfl rfl

variable {next : CallStage}

theorem quiet_of {s' : State} (same : SameSharing s s') (hcalls : s'.calls = s.calls)
    (hnext : ∀ stage, next ≠ .hosting stage) : SettleEffect s (s'.setCall call next) call a := by
  refine .quiet next ?_ hnext ⟨same.request, same.agentHostSharing, same.session, same.active⟩
  rw [setCall, hcalls]

theorem settle_effect {s t : State} {call : Nat} {stage : CallStage} {outcome : Outcome}
    {random : Nat} (hcall : s.calls[call]? = some stage)
    (h : s.settle call stage outcome random = some t) :
    SettleEffect s t call (.settle call outcome random) := by
  have hsame := SameSharing.refl s
  revert hcall h
  fun_cases settle s call stage outcome random
  all_goals
    intro hcall h
    first
    | contradiction
    | obtain rfl := Option.some.inj h
  case case1 => exact .begun (.inl ⟨rfl, hcall⟩) rfl rfl rfl rfl
  case case3 ready hok =>
    rw [startFailed]
    split
    · next hrequest => exact .rolledBack ⟨hok, hrequest, ready, hcall⟩ rfl rfl rfl rfl rfl
    · exact quiet_of hsame rfl nofun
  case case4 => exact hostingStep_effect hcall outcome random
  case case9 request existing =>
    have hrolled : SameSharing s (s.rollPairing existing random) := ⟨rfl, rfl, rfl, rfl⟩
    refine quiet_of hrolled rfl (fun stage h => ?_)
    split at h
    · cases h
    · cases h
  case case13 request hrestarts =>
    exact .begun (.inr ⟨request, hcall, hrestarts⟩) rfl rfl rfl rfl
  -- The others change the stage of the call only.
  all_goals exact quiet_of hsame rfl nofun

/-! ## One server at most -/

def serverUp : HostingStage → Bool
  | .releasing => false
  | .reading => false
  | .creating _ => false
  | .listening _ => false
  | .resolving _ => true
  | .remembering _ _ => true
  | .connecting _ _ _ => true
  | .checking _ _ _ => true
  | .forgetting _ => true
  | .installing _ _ => true

def ServerAlive (s : State) (call : Nat) : Prop :=
  (∃ capability, s.session = some ⟨call, capability⟩) ∨
    ∃ stage, s.calls[call]? = some (.hosting stage) ∧ serverUp stage = true

/-- No more than one start is under way, none beside a session, and without a request
there is nothing at all. -/
structure OneServer (s : State) : Prop where
  off : s.request = none →
    s.session = none ∧ s.active = false ∧ s.agentHostSharing = none ∧ ¬s.HostingUnderWay
  one : ∀ (call call' : Nat) (stage stage' : HostingStage),
    s.calls[call]? = some (.hosting stage) → s.calls[call']? = some (.hosting stage') → call = call'
  alone : s.HostingUnderWay → s.session = none

theorem oneServer_initial (file : Option MobileWebPairing) : OneServer (initialState file) := by
  refine ⟨fun _ => ⟨rfl, rfl, rfl, ?_⟩, ?_, fun _ => rfl⟩
  · rintro ⟨call, stage, h⟩
    cases h
  · exact nofun

variable {t : State}

theorem oneServer_of_quiet (hquiet : ¬t.HostingUnderWay)
    (hoff : t.request = none → t.session = none ∧ t.active = false ∧ t.agentHostSharing = none) :
    OneServer t := by
  refine ⟨fun hnone => ?_, ?_, fun h => absurd h hquiet⟩
  · obtain ⟨hsession, hactive, hsharing⟩ := hoff hnone
    exact ⟨hsession, hactive, hsharing, hquiet⟩
  · intro call call' stage stage' h
    exact absurd ⟨call, stage, h⟩ hquiet

def KeepsHosting (s t : State) : Prop :=
  ∀ (call : Nat) (stage : HostingStage), t.calls[call]? = some (.hosting stage) →
    ∃ stage', s.calls[call]? = some (.hosting stage')

theorem oneServer_of_keeps (h : OneServer s) (hkeeps : KeepsHosting s t)
    (hsession : t.session = s.session)
    (hoff : t.request = none → s.request = none ∧ t.active = s.active ∧
      t.agentHostSharing = s.agentHostSharing) : OneServer t := by
  have hquiet : ¬s.HostingUnderWay → ¬t.HostingUnderWay := by
    rintro hnot ⟨call, stage, hcall⟩
    obtain ⟨stage', hcall'⟩ := hkeeps call stage hcall
    exact hnot ⟨call, stage', hcall'⟩
  refine ⟨?_, ?_, ?_⟩
  · intro hnone
    obtain ⟨hrequest, hactive, hsharing⟩ := hoff hnone
    obtain ⟨hs, ha, hg, hn⟩ := h.off hrequest
    exact ⟨hsession.trans hs, hactive.trans ha, hsharing.trans hg, hquiet hn⟩
  · intro call call' stage stage' hcall hcall'
    obtain ⟨was, hwas⟩ := hkeeps call stage hcall
    obtain ⟨was', hwas'⟩ := hkeeps call' stage' hcall'
    exact h.one call call' was was' hwas hwas'
  · rintro ⟨call, stage, hcall⟩
    obtain ⟨stage', hcall'⟩ := hkeeps call stage hcall
    rw [hsession]
    exact h.alone ⟨call, stage', hcall'⟩

theorem keepsHosting_add (hcalls : t.calls = s.calls ++ [next])
    (hnext : ∀ stage, next ≠ .hosting stage) : KeepsHosting s t := by
  intro call stage h
  rw [hcalls, getElem?_append] at h
  split at h
  · exact ⟨stage, h⟩
  · rw [getElem?_singleton] at h
    split at h
    · exact absurd (Option.some.inj h) (hnext stage)
    · cases h

theorem keepsHosting_set (hcalls : t.calls = s.calls.set call next)
    (hnext : ∀ stage, next = .hosting stage → ∃ was, s.calls[call]? = some (.hosting was)) :
    KeepsHosting s t := by
  intro c stage h
  rw [hcalls] at h
  rcases getElem?_set_cases h with ⟨rfl, heq⟩ | ⟨-, hold⟩
  · exact hnext stage heq
  · exact ⟨stage, hold⟩

theorem oneServer_settle {s t : State} {call : Nat} {a : Action} (h : OneServer s)
    (hok : Undisturbed s a) (heffect : SettleEffect s t call a) : OneServer t := by
  cases heffect with
  | quiet next hcalls hnext same =>
    refine oneServer_of_keeps h (keepsHosting_set hcalls fun stage heq => absurd heq (hnext stage))
      same.session fun hnone => ?_
    exact ⟨same.request ▸ hnone, same.active, same.agentHostSharing⟩
  | begun hbegins hcalls hrequest hsharing hsession =>
    -- it is the only one, for a request that is there
    have hquiet := hok.alone (.inl hbegins)
    have hwanted := hok.wanted hbegins
    have hat : ∀ (c : Nat) (stage : HostingStage), t.calls[c]? = some (.hosting stage) → c = call := by
      intro c stage hc
      rw [hcalls] at hc
      rcases getElem?_set_cases hc with ⟨hsame, -⟩ | ⟨-, hold⟩
      · exact hsame
      · exact absurd ⟨c, stage, hold⟩ hquiet
    refine ⟨fun hnone => ?_, ?_, fun _ => hsession⟩
    · rw [← hrequest, hnone] at hwanted
      cases hwanted
    · intro c c' stage stage' hc hc'
      rw [hat c stage hc, hat c' stage' hc']
  | rolledBack hstops hcalls hrequest hsharing hsession hactive =>
    have hquiet := hok.alone (.inr hstops)
    refine oneServer_of_quiet ?_ fun _ => ⟨hsession, hactive, hsharing⟩
    rintro ⟨c, stage, hc⟩
    obtain ⟨was, hwas⟩ := keepsHosting_set hcalls nofun c stage hc
    exact hquiet ⟨c, was, hwas⟩
  | hosted stage next was hcalls same =>
    refine oneServer_of_keeps h (keepsHosting_set hcalls fun _ _ => ⟨stage, was⟩) same.session
      fun hnone => ?_
    exact ⟨same.request ▸ hnone, same.active, same.agentHostSharing⟩
  | installed stage was hcalls hrequest hsharing =>
    -- the only start under way ends
    refine oneServer_of_quiet ?_ fun hnone => ?_
    · rintro ⟨c, stage', hc⟩
      rw [hcalls] at hc
      rcases getElem?_set_cases hc with ⟨-, heq⟩ | ⟨hne, hold⟩
      · cases heq
      · exact hne (h.one c call stage' stage hold was)
    · rw [hrequest] at hnone
      exact absurd ⟨call, stage, was⟩ (h.off hnone).2.2.2

theorem oneServer_step {s t : State} {a : Action} (h : OneServer s) (hok : Undisturbed s a)
    (hstep : s.step a = some t) : OneServer t := by
  cases a with
  | startHosting =>
    cases hstep
    exact oneServer_of_keeps h (keepsHosting_add rfl nofun) rfl nofun
  | stopHosting =>
    cases hstep
    have hquiet := hok.alone (.inr trivial)
    refine oneServer_of_quiet ?_ fun _ => ⟨rfl, rfl, rfl⟩
    rintro ⟨c, stage, hc⟩
    obtain ⟨was, hwas⟩ := keepsHosting_add (s := s) rfl (fun stage heq => by cases heq) c stage hc
    exact hquiet ⟨c, was, hwas⟩
  | rollMobileWebPairing =>
    cases hstep
    exact oneServer_of_keeps h (keepsHosting_add rfl nofun) rfl fun hnone => ⟨hnone, rfl, rfl⟩
  | status connected =>
    cases hstep
    refine oneServer_of_keeps h ?_ rfl fun hnone => ⟨hnone, rfl, rfl⟩
    intro call stage hc
    rw [getElem?_map, map_eq_some_iff] at hc
    obtain ⟨was, hwas, hseen⟩ := hc
    cases was with
    | hosting stage' => exact ⟨stage', hwas⟩
    | waiting _ | rollingBack | stopping | rollReading _ | rollWriting _ _ | rollDeleting _
    | rollRestarting _ | settled => cases hseen
  | settle call outcome random =>
    obtain ⟨stage, hcall, hsettle⟩ := bind_eq_some_iff.mp hstep
    exact oneServer_settle h hok (settle_effect hcall hsettle)

/-! ## After the last stop -/

theorem request_none_step {s t : State} {a : Action} (hnone : s.request = none)
    (ha : a.isCall = false) (hstep : s.step a = some t) : t.request = none := by
  cases a with
  | startHosting | stopHosting | rollMobileWebPairing => cases ha
  | status connected =>
    cases hstep
    exact hnone
  | settle call outcome random =>
    obtain ⟨stage, hcall, hsettle⟩ := bind_eq_some_iff.mp hstep
    cases settle_effect hcall hsettle with
    | quiet _ _ _ same | hosted _ _ _ _ same => exact same.request.trans hnone
    | begun _ _ hrequest _ _ | installed _ _ _ hrequest _ => exact hrequest.trans hnone
    | rolledBack hstops hcalls hrequest hsharing hsession hactive => exact hrequest

theorem lastCall_cons (a : Action) (rest : List Action) :
    lastCall (a :: rest) = (lastCall rest).or (if a.isCall then some a else none) := by
  rw [lastCall, lastCall]
  cases ha : a.isCall with
  | true =>
    rw [filter_cons_of_pos ha, getLast?_cons]
    cases (rest.filter Action.isCall).getLast? with
    | none | some _ => rfl
  | false =>
    rw [filter_cons_of_neg (by rw [ha]; decide)]
    cases (rest.filter Action.isCall).getLast? with
    | none | some _ => rfl

theorem request_none_run {ok : State → Action → Prop} {s t : State} {actions : List Action}
    (h : System.RunVia step ok s actions t)
    (hlast : lastCall actions = some .stopHosting ∨ lastCall actions = none ∧ s.request = none) :
    t.request = none := by
  induction actions generalizing s with
  | nil =>
    cases h
    rcases hlast with hstop | ⟨-, hnone⟩
    · cases hstop
    · exact hnone
  | cons a rest ih =>
    obtain ⟨m, -, hstep, hrest⟩ := h
    rw [lastCall_cons] at hlast
    refine ih hrest ?_
    cases hafter : lastCall rest with
    | some b =>
      rw [hafter, some_or] at hlast
      exact .inl (hlast.resolve_right fun hnone => by cases hnone.1)
    | none =>
      refine .inr ⟨rfl, ?_⟩
      rw [hafter, none_or] at hlast
      cases ha : a.isCall with
      | true =>
        rw [ha, if_pos rfl] at hlast
        have hstop : a = .stopHosting :=
          Option.some.inj (hlast.resolve_right fun hnone => by cases hnone.1)
        subst hstop
        cases hstep
        rfl
      | false =>
        rw [ha, if_neg Bool.false_ne_true] at hlast
        have hnone := hlast.resolve_left nofun
        exact request_none_step hnone.2 ha hstep

theorem serverAlive_unique (h : OneServer s) {call' : Nat} (hcall : s.ServerAlive call)
    (hcall' : s.ServerAlive call') : call = call' := by
  rcases hcall with ⟨capability, hs⟩ | ⟨stage, hstage, -⟩
  · rcases hcall' with ⟨capability', hs'⟩ | ⟨stage', hstage', -⟩
    · rw [hs] at hs'
      cases hs'
      rfl
    · rw [h.alone ⟨call', stage', hstage'⟩] at hs
      cases hs
  · rcases hcall' with ⟨capability', hs'⟩ | ⟨stage', hstage', -⟩
    · rw [h.alone ⟨call, stage, hstage⟩] at hs'
      cases hs'
    · exact h.one call call' stage stage' hstage hstage'

end State

open State

structure NothingShared (s : State) : Prop where
  session : s.session = none
  servers : ∀ call, ¬s.ServerAlive call
  inactive : s.active = false
  intent : s.agentHostSharing = none

/-- In every undisturbed run, at most one server is alive at any time, and nothing is shared
once the last call was a stop. -/
theorem sharingStop_wins {file : Option MobileWebPairing} {actions : List Action} {s : State}
    (h : System.RunVia step Undisturbed (initialState file) actions s) :
    (∀ call call', s.ServerAlive call → s.ServerAlive call' → call = call') ∧
    (lastCall actions = some .stopHosting → NothingShared s) := by
  have hone := h.invariant (fun s a t hs hok hstep => oneServer_step hs hok hstep)
    (oneServer_initial file)
  refine ⟨fun call call' => serverAlive_unique hone, fun hlast => ?_⟩
  obtain ⟨hsession, hactive, hsharing, hquiet⟩ := hone.off (request_none_run h (.inl hlast))
  refine ⟨hsession, ?_, hactive, hsharing⟩
  rintro call (⟨capability, hs⟩ | ⟨stage, hstage, -⟩)
  · rw [hsession] at hs
    cases hs
  · exact hquiet ⟨call, stage, hstage⟩

variable {s : State}

theorem undisturbed_of_neither {a : Action} (hbegins : ¬s.Begins a) (hstops : ¬s.Stops a) :
    s.Undisturbed a :=
  ⟨fun h => absurd h (not_or.mpr ⟨hbegins, hstops⟩), fun h => absurd h hbegins⟩

theorem undisturbed_of_quiet {a : Action} (hquiet : ¬s.HostingUnderWay)
    (hwanted : s.Begins a → s.request.isSome = true) : s.Undisturbed a :=
  ⟨fun _ => hquiet, hwanted⟩

theorem hostingUnderWay_single {stage : CallStage} (hcalls : s.calls = [stage])
    (hstage : ∀ hosting, stage ≠ .hosting hosting) : ¬s.HostingUnderWay := by
  rintro ⟨call, hosting, h⟩
  have hmem := mem_of_getElem? h
  rw [hcalls, mem_singleton] at hmem
  exact hstage hosting hmem.symm

/-- A start that finds no web bundle, and a stop after it. -/
theorem sharingStop_wins_sample : ∃ s, NothingShared s ∧ s.AllSettled := by
  have hrun : ∃ s, System.RunVia step Undisturbed (initialState none)
      [.startHosting, .status true, .settle 0 .ok 0, .settle 0 .other 0, .stopHosting,
        .settle 1 .ok 0] s ∧ s.AllSettled := by
    refine ⟨_, ⟨_, ?_, rfl, _, ?_, rfl, _, ?_, rfl, _, ?_, rfl, _, ?_, rfl, _, ?_, rfl, rfl⟩,
      by decide⟩
    · exact undisturbed_of_neither id id
    · exact undisturbed_of_neither id id
    · exact undisturbed_of_quiet (hostingUnderWay_single rfl nofun) fun _ => rfl
    · refine undisturbed_of_neither ?_ ?_
      · rintro (⟨h, -⟩ | ⟨request, h, -⟩)
        · cases h
        · cases h
      · rintro ⟨-, -, ready, h⟩
        cases h
    · exact undisturbed_of_quiet (hostingUnderWay_single rfl nofun) fun h => absurd h id
    · refine undisturbed_of_neither ?_ ?_
      · rintro (⟨-, h⟩ | ⟨request, h, -⟩)
        · cases h
        · cases h
      · rintro ⟨h, -⟩
        exact h rfl
  obtain ⟨s, hrun, hsettled⟩ := hrun
  exact ⟨s, (sharingStop_wins hrun).2 rfl, hsettled⟩

/-- A start that is under way installs its server after the stop. -/
theorem not_sharingStop_wins : ¬∀ file actions s, actions.foldlM step (initialState file) = some s →
      lastCall actions = some .stopHosting → s.AllSettled → NothingShared s := by
  intro h
  have hrun := h none [.startHosting, .status true, .settle 0 .ok 0, .stopHosting, .settle 1 .ok 0,
    .settle 0 .ok 0, .settle 0 .ok 0, .settle 0 .ok 0, .settle 0 .ok 0, .settle 0 .failed 0,
    .settle 0 .ok 0] _ rfl rfl (by decide)
  cases hrun.session

end Fumie.AgentHost.Sharing
