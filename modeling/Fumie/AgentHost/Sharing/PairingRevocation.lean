import Fumie.AgentHost.Sharing.TunnelHostMainService
import Fumie.Lib.Runs

/-!
# Revoked pairings

A start takes a copy of the pairing and writes it back when its tunnel is made or given
up, so a roll in between is undone. In runs where no start under way has such a copy when
a roll rewrites the file, and where a roll that does not restart hosting leaves no server
of a revoked capability, what was revoked stays revoked.
-/

namespace Fumie.AgentHost.Sharing

open Fumie.Lib List Option

def HostingStage.pairing : HostingStage → Option MobileWebPairing
  | releasing => none
  | reading => none
  | creating created => some created
  | listening pairing => pairing
  | resolving pairing => pairing
  | remembering pairing _ => some pairing
  | connecting pairing _ _ => pairing
  | checking pairing _ _ => pairing
  | forgetting pairing => some pairing
  | installing pairing _ => pairing

variable {t : State}

variable (file : Option MobileWebPairing)

namespace State

def RevokedServer (s : State) : Prop :=
  ∃ owner secret, s.session = some ⟨owner, some secret⟩ ∧ secret ∈ s.revokedSecrets

def RollEnds (s : State) : Action → Prop
  | .settle call outcome _ =>
    (outcome = .other ∧ ∃ request, s.calls[call]? = some (.rollDeleting request)) ∨
      ∃ request, s.calls[call]? = some (.rollRestarting request) ∧
        (request.isSome && s.statusActive) = false
  | _ => False

def RollWrites (s : State) : Action → Prop
  | .settle call outcome _ =>
    outcome = .ok ∧ ∃ request existing, s.calls[call]? = some (.rollWriting request existing)
  | _ => False

structure KeptApart (s : State) (a : Action) : Prop where
  copies : s.RollWrites a → ∀ (call : Nat) (stage : HostingStage) (pairing : MobileWebPairing),
    s.calls[call]? = some (.hosting stage) → stage.pairing = some pairing →
      pairing.secret ∉ s.heldSecrets
  servers : s.RollEnds a → ¬s.RevokedServer

/-! ## What is kept -/

structure Writable (s : State) (pairing : MobileWebPairing) : Prop where
  fresh : pairing.secret < s.nextSecret
  secret : pairing.secret ∉ s.revokedSecrets
  tunnel : ∀ tunnel, pairing.tunnel = some tunnel →
    tunnel < s.nextTunnel ∧ tunnel ∉ s.revokedTunnels

def newTunnel : HostingStage → Option Nat
  | .remembering _ tunnel => some tunnel
  | _ => none

/-- A start under way has only what may be written. All its copies but one that is still
being created come from the file. -/
structure StageKept (s : State) (stage : HostingStage) : Prop where
  writable : ∀ pairing, stage.pairing = some pairing → s.Writable pairing
  held : ∀ pairing, stage.pairing = some pairing → stage = .creating pairing ∧
    pairing.tunnel = none ∨ pairing.secret ∈ s.heldSecrets
  tunnel : ∀ tunnel, newTunnel stage = some tunnel →
    tunnel < s.nextTunnel ∧ tunnel ∉ s.revokedTunnels

structure FileKept (s : State) : Prop where
  secrets : ∀ secret ∈ s.revokedSecrets, secret ∈ s.heldSecrets
  tunnels : ∀ tunnel ∈ s.revokedTunnels, tunnel ∈ s.heldTunnels
  heldSecrets : ∀ secret ∈ s.heldSecrets, secret < s.nextSecret
  heldTunnels : ∀ tunnel ∈ s.heldTunnels, tunnel < s.nextTunnel
  file : ∀ pairing, s.file = some pairing → s.Writable pairing ∧ pairing.secret ∈ s.heldSecrets

def RollGoesOn (s : State) : Prop :=
  ∃ (call : Nat) (request : Option Nat), s.calls[call]? = some (.rollDeleting request) ∨
    s.calls[call]? = some (.rollRestarting request)

structure Kept (s : State) : Prop where
  file : FileKept s
  stages : ∀ (call : Nat) (stage : HostingStage), s.calls[call]? = some (.hosting stage) →
    s.StageKept stage
  session : s.RevokedServer → s.RollGoesOn

theorem fileKept_initial : FileKept (initialState file) := by
  refine ⟨nofun, nofun, ?_, ?_, ?_⟩
  · intro secret h
    cases file with
    | none => cases h
    | some pairing =>
      rw [mem_singleton.mp h]
      exact Nat.lt_succ_self _
  · intro tunnel h
    have hmem : tunnel ∈ (file.bind MobileWebPairing.tunnel).toList := h
    rw [initialState, mem_toList.mp hmem]
    exact Nat.lt_succ_self _
  · intro pairing h
    have hfile : file = some pairing := h
    subst hfile
    refine ⟨⟨Nat.lt_succ_self _, nofun, fun tunnel ht => ?_⟩, mem_cons_self⟩
    have hbind : (some pairing).bind MobileWebPairing.tunnel = some tunnel := ht
    rw [initialState, hbind]
    exact ⟨Nat.lt_succ_self _, nofun⟩

theorem kept_initial : Kept (initialState file) := by
  refine ⟨fileKept_initial file, ?_, ?_⟩
  · exact nofun
  · rintro ⟨owner, secret, h, -⟩
    cases h

/-! ## Growing states -/

/-- More was made and held, nothing was revoked. -/
structure Grows (s t : State) : Prop where
  nextSecret : s.nextSecret ≤ t.nextSecret
  nextTunnel : s.nextTunnel ≤ t.nextTunnel
  held : ∀ secret ∈ s.heldSecrets, secret ∈ t.heldSecrets
  revokedSecrets : t.revokedSecrets = s.revokedSecrets
  revokedTunnels : t.revokedTunnels = s.revokedTunnels

theorem Grows.refl (s : State) : Grows s s := ⟨Nat.le_refl _, Nat.le_refl _, fun _ h => h, rfl, rfl⟩

variable {s : State} {pairing : MobileWebPairing}

theorem Writable.grows (h : Grows s t) (hw : s.Writable pairing) : t.Writable pairing := by
  refine ⟨Nat.lt_of_lt_of_le hw.fresh h.nextSecret, ?_, fun tunnel ht => ?_⟩
  · rw [h.revokedSecrets]
    exact hw.secret
  · rw [h.revokedTunnels]
    exact ⟨Nat.lt_of_lt_of_le (hw.tunnel tunnel ht).1 h.nextTunnel, (hw.tunnel tunnel ht).2⟩

variable {stage : HostingStage}

theorem StageKept.grows (h : Grows s t) (hs : s.StageKept stage) : t.StageKept stage := by
  refine ⟨fun pairing hp => (hs.writable pairing hp).grows h, fun pairing hp => ?_,
    fun tunnel ht => ?_⟩
  · exact (hs.held pairing hp).imp id (h.held _)
  · rw [h.revokedTunnels]
    exact ⟨Nat.lt_of_lt_of_le (hs.tunnel tunnel ht).1 h.nextTunnel, (hs.tunnel tunnel ht).2⟩

theorem grows_write (s : State) (pairing : MobileWebPairing) : Grows s (s.writePairing pairing) :=
  ⟨Nat.le_refl _, Nat.le_refl _, fun _ h => mem_cons_of_mem _ h, rfl, rfl⟩

theorem fileKept_write {s : State} (h : FileKept s) {pairing : MobileWebPairing}
    (hw : s.Writable pairing) : FileKept (s.writePairing pairing) := by
  refine ⟨fun secret hs => mem_cons_of_mem _ (h.secrets secret hs),
    fun tunnel ht => mem_append_right _ (h.tunnels tunnel ht), ?_, ?_, ?_⟩
  · intro secret hs
    rcases mem_cons.mp hs with rfl | hs
    · exact hw.fresh
    · exact h.heldSecrets secret hs
  · intro tunnel ht
    rcases mem_append.mp ht with ht | ht
    · exact (hw.tunnel tunnel (mem_toList.mp ht)).1
    · exact h.heldTunnels tunnel ht
  · intro written heq
    cases heq
    exact ⟨hw.grows (grows_write s _), mem_cons_self⟩

theorem FileKept.nextSecret_notMem (h : FileKept s) :
    s.nextSecret ∉ s.heldSecrets ∧ s.nextSecret ∉ s.revokedSecrets :=
  ⟨fun hm => Nat.lt_irrefl _ (h.heldSecrets _ hm),
    fun hm => Nat.lt_irrefl _ (h.heldSecrets _ (h.secrets _ hm))⟩

theorem FileKept.nextTunnel_notMem (h : FileKept s) : s.nextTunnel ∉ s.revokedTunnels :=
  fun hm => Nat.lt_irrefl _ (h.heldTunnels _ (h.tunnels _ hm))

theorem grows_nextSecret (s : State) : Grows s { s with nextSecret := s.nextSecret + 1 } :=
  ⟨Nat.le_succ _, Nat.le_refl _, fun _ h => h, rfl, rfl⟩

theorem grows_nextTunnel (s : State) : Grows s { s with nextTunnel := s.nextTunnel + 1 } :=
  ⟨Nat.le_refl _, Nat.le_succ _, fun _ h => h, rfl, rfl⟩

theorem fileKept_of_grows (h : FileKept s) (hg : Grows s t)
    (hsecrets : t.heldSecrets = s.heldSecrets) (htunnels : t.heldTunnels = s.heldTunnels)
    (hfile : t.file = s.file) : FileKept t := by
  refine ⟨?_, ?_, ?_, ?_, ?_⟩
  · rw [hg.revokedSecrets, hsecrets]
    exact h.secrets
  · rw [hg.revokedTunnels, htunnels]
    exact h.tunnels
  · intro secret hs
    rw [hsecrets] at hs
    exact Nat.lt_of_lt_of_le (h.heldSecrets secret hs) hg.nextSecret
  · intro tunnel ht
    rw [htunnels] at ht
    exact Nat.lt_of_lt_of_le (h.heldTunnels tunnel ht) hg.nextTunnel
  · intro pairing hp
    rw [hfile] at hp
    obtain ⟨hw, hm⟩ := h.file pairing hp
    exact ⟨hw.grows hg, hg.held _ hm⟩

/-! ## One step of a start -/

/-- What one step of a start does to the pairing and to what may be written. -/
structure HostingProgress (s t : State) (call : Nat) : Prop where
  file : FileKept t
  grows : Grows s t
  calls : ∃ next, t.calls = s.calls.set call next ∧
    (∀ stage, next = .hosting stage → t.StageKept stage) ∧
    (∀ request, next ≠ .rollDeleting request) ∧ (∀ request, next ≠ .rollRestarting request)
  session : t.session = s.session ∨ ¬t.RevokedServer

theorem progress_of {s s' : State} {call : Nat} {next : HostingStage} (hfile : FileKept s')
    (hgrows : Grows s s') (hcalls : s'.calls = s.calls) (hsession : s'.session = s.session)
    (hnext : s'.StageKept next) : HostingProgress s (s'.setCall call (.hosting next)) call := by
  have hset : Grows s' (s'.setCall call (.hosting next)) :=
    ⟨Nat.le_refl _, Nat.le_refl _, fun _ h => h, rfl, rfl⟩
  refine ⟨fileKept_of_grows hfile hset rfl rfl rfl, ⟨hgrows.nextSecret, hgrows.nextTunnel,
    hgrows.held, hgrows.revokedSecrets, hgrows.revokedTunnels⟩, ⟨.hosting next, ?_, ?_, ?_, ?_⟩,
    .inl hsession⟩
  · rw [setCall, hcalls]
  · intro stage heq
    cases heq
    exact hnext.grows hset
  · exact nofun
  · exact nofun

theorem StageKept.later {next : HostingStage} (h : s.StageKept stage)
    (hpairing : next.pairing = stage.pairing) (hcreated : ∀ created, stage ≠ .creating created)
    (htunnel : newTunnel next = none) : s.StageKept next := by
  refine ⟨?_, ?_, ?_⟩
  · rw [hpairing]
    exact h.writable
  · intro pairing hp
    rw [hpairing] at hp
    exact .inr ((h.held pairing hp).resolve_left fun heq => hcreated _ heq.1)
  · intro tunnel ht
    rw [htunnel] at ht
    cases ht

theorem stageKept_none (h : stage.pairing = none) (htunnel : newTunnel stage = none) :
    s.StageKept stage := by
  refine ⟨fun pairing hp => ?_, fun pairing hp => ?_, fun tunnel ht => ?_⟩
  · rw [h] at hp
    cases hp
  · rw [h] at hp
    cases hp
  · rw [htunnel] at ht
    cases ht

theorem discardTunnel_pairing (pairing : Option MobileWebPairing) (reused : Bool) :
    (discardTunnel pairing reused).pairing = pairing ∧
      newTunnel (discardTunnel pairing reused) = none := by
  cases pairing with
  | none | some _ =>
    cases reused with
    | true | false => exact ⟨rfl, rfl⟩

theorem progress_settled (hfile : FileKept s) (call : Nat) :
    HostingProgress s (s.setCall call .settled) call := by
  have hset : Grows s (s.setCall call .settled) :=
    ⟨Nat.le_refl _, Nat.le_refl _, fun _ h => h, rfl, rfl⟩
  refine ⟨fileKept_of_grows hfile hset rfl rfl rfl, hset, ⟨.settled, rfl, ?_, ?_, ?_⟩, .inl rfl⟩
  · exact nofun
  · exact nofun
  · exact nofun

theorem created_kept (hfile : FileKept s) (random : Nat) :
    State.StageKept { s with nextSecret := s.nextSecret + 1 }
      (.creating (createMobileWebPairing s.nextSecret random)) := by
  refine ⟨fun pairing hp => ?_, fun pairing hp => ?_, nofun⟩
  · cases hp
    exact ⟨Nat.lt_succ_self _, hfile.nextSecret_notMem.2, nofun⟩
  · cases hp
    exact .inl ⟨rfl, rfl⟩

theorem read_kept (hfile : FileKept s) (h : s.file = some pairing) :
    s.StageKept (.listening (some pairing)) := by
  obtain ⟨hw, hm⟩ := hfile.file pairing h
  refine ⟨fun p hp => ?_, fun p hp => ?_, nofun⟩
  · cases hp
    exact hw
  · cases hp
    exact .inr hm

theorem written_kept (hw : s.Writable pairing) (written : MobileWebPairing)
    (hsame : written.secret = pairing.secret) (hstage : stage.pairing = some pairing)
    (htunnel : newTunnel stage = none) : (s.writePairing written).StageKept stage := by
  have hgrows := grows_write s written
  refine ⟨fun p hp => ?_, fun p hp => ?_, fun tunnel ht => ?_⟩
  · rw [hstage] at hp
    cases hp
    exact hw.grows hgrows
  · rw [hstage] at hp
    cases hp
    rw [← hsame]
    exact .inr mem_cons_self
  · rw [htunnel] at ht
    cases ht

theorem remembering_kept (hfile : FileKept s) (h : s.StageKept (.resolving (some pairing))) :
    State.StageKept { s with nextTunnel := s.nextTunnel + 1 }
      (.remembering pairing s.nextTunnel) := by
  have hgrown := h.grows (grows_nextTunnel s)
  refine ⟨hgrown.writable, fun p hp => ?_, fun tunnel ht => ?_⟩
  · exact .inr ((hgrown.held p hp).resolve_left fun heq => by cases heq.1)
  · cases ht
    exact ⟨Nat.lt_succ_self _, hfile.nextTunnel_notMem⟩

theorem hostingStep_progress {s : State} {call : Nat} {stage : HostingStage} (hfile : FileKept s)
    (hkept : s.StageKept stage) (outcome : Outcome) (random : Nat) :
    HostingProgress s (s.hostingStep call stage outcome random) call := by
  have hsame := Grows.refl s
  have hcreating := @progress_of s _ call _
    (fileKept_of_grows hfile (grows_nextSecret s) rfl rfl rfl) (grows_nextSecret s) rfl rfl
    (created_kept hfile random)
  cases stage with
  | releasing =>
    cases outcome with
    | ok => exact progress_of hfile hsame rfl rfl (stageKept_none rfl rfl)
    | other | failed => exact progress_settled hfile call
  | reading =>
    cases outcome with
    | ok =>
      rw [hostingStep]
      split
      · next pairing hread => exact progress_of hfile hsame rfl rfl (read_kept hfile hread)
      · exact hcreating
    | other | failed => exact hcreating
  | creating created =>
    have hnone : s.StageKept (.listening none) := stageKept_none rfl rfl
    cases outcome with
    | ok =>
      have hw := hkept.writable created rfl
      exact progress_of (fileKept_write hfile hw) (grows_write s created) rfl rfl
        (written_kept hw created rfl rfl rfl)
    | other | failed => exact progress_of hfile hsame rfl rfl hnone
  | listening pairing =>
    cases outcome with
    | ok =>
      exact progress_of hfile hsame rfl rfl (hkept.later rfl nofun rfl)
    | other | failed => exact progress_settled hfile call
  | resolving pairing =>
    have hlater : ∀ next : HostingStage, next.pairing = pairing → newTunnel next = none →
        s.StageKept next := fun next hp ht => hkept.later hp nofun ht
    rw [hostingStep, resolveTunnel.eq_def]
    split
    · exact progress_of hfile hsame rfl rfl (hlater _ rfl rfl)
    · exact progress_of hfile hsame rfl rfl (hlater _ rfl rfl)
    · have hgrown := fileKept_of_grows hfile (grows_nextTunnel s) rfl rfl rfl
      cases pairing with
      | none => exact progress_of hgrown (grows_nextTunnel s) rfl rfl (stageKept_none rfl rfl)
      | some pairing =>
        exact progress_of hgrown (grows_nextTunnel s) rfl rfl (remembering_kept hfile hkept)
  | remembering pairing tunnel =>
    have hlater : s.StageKept (.connecting (some pairing) tunnel false) := hkept.later rfl nofun rfl
    cases outcome with
    | ok =>
      have hw := hkept.writable pairing rfl
      have hwritten : s.Writable { pairing with tunnel := some tunnel } := by
        refine ⟨hw.fresh, hw.secret, fun t ht => ?_⟩
        cases ht
        exact hkept.tunnel tunnel rfl
      have hnext : (s.writePairing { pairing with tunnel := some tunnel }).StageKept
          (.connecting (some pairing) tunnel false) :=
        written_kept hw { pairing with tunnel := some tunnel } rfl rfl rfl
      exact progress_of (fileKept_write hfile hwritten) (grows_write s _) rfl rfl hnext
    | other | failed => exact progress_of hfile hsame rfl rfl hlater
  | connecting pairing tunnel reused =>
    have hlater : ∀ next : HostingStage, next.pairing = pairing → newTunnel next = none →
        s.StageKept next := fun next hp ht => hkept.later hp nofun ht
    obtain ⟨hpairing, htunnel⟩ := discardTunnel_pairing pairing reused
    cases outcome with
    | ok => exact progress_of hfile hsame rfl rfl (hlater _ rfl rfl)
    | other | failed => exact progress_of hfile hsame rfl rfl (hlater _ hpairing htunnel)
  | checking pairing tunnel reused =>
    have hlater : ∀ next : HostingStage, next.pairing = pairing → newTunnel next = none →
        s.StageKept next := fun next hp ht => hkept.later hp nofun ht
    obtain ⟨hpairing, htunnel⟩ := discardTunnel_pairing pairing reused
    cases outcome with
    | ok | failed => exact progress_of hfile hsame rfl rfl (hlater _ rfl rfl)
    | other => exact progress_of hfile hsame rfl rfl (hlater _ hpairing htunnel)
  | forgetting pairing =>
    have hlater : s.StageKept (.installing (some pairing) none) := hkept.later rfl nofun rfl
    cases outcome with
    | ok =>
      have hw := hkept.writable pairing rfl
      have hwritten : s.Writable { pairing with tunnel := none } := ⟨hw.fresh, hw.secret, nofun⟩
      have hnext : (s.writePairing { pairing with tunnel := none }).StageKept
          (.installing (some pairing) none) :=
        written_kept hw { pairing with tunnel := none } rfl rfl rfl
      exact progress_of (fileKept_write hfile hwritten) (grows_write s _) rfl rfl hnext
    | other | failed => exact progress_of hfile hsame rfl rfl hlater
  | installing pairing publicUrl =>
    rw [hostingStep]
    have hgrows : Grows s ({ s with
        session := some ⟨call, pairing.map MobileWebPairing.secret⟩
        active := true }.setCall call .settled) :=
      ⟨Nat.le_refl _, Nat.le_refl _, fun _ h => h, rfl, rfl⟩
    refine ⟨fileKept_of_grows hfile hgrows rfl rfl rfl, hgrows, ⟨.settled, rfl, ?_, ?_, ?_⟩,
      .inr ?_⟩
    · exact nofun
    · exact nofun
    · exact nofun
    · -- the server accepts the secret of a copy that was not revoked
      rintro ⟨owner, secret, hsession, hrevoked⟩
      cases pairing with
      | none => cases hsession
      | some pairing =>
        cases hsession
        exact (hkept.writable pairing rfl).secret hrevoked

/-! ## Every step -/

variable {call : Nat} {next : CallStage}

theorem rollGoesOn_set {stage : CallStage} (hcall : s.calls[call]? = some stage)
    (hcalls : t.calls = s.calls.set call next)
    (hdeleting : ∀ request, stage ≠ .rollDeleting request)
    (hrestarting : ∀ request, stage ≠ .rollRestarting request) (h : s.RollGoesOn) :
    t.RollGoesOn := by
  obtain ⟨c, request, hgoes⟩ := h
  have hother : call ≠ c := by
    rintro rfl
    rw [hcall] at hgoes
    rcases hgoes with heq | heq
    · exact hdeleting request (Option.some.inj heq)
    · exact hrestarting request (Option.some.inj heq)
  refine ⟨c, request, ?_⟩
  rw [hcalls, getElem?_set_ne hother]
  exact hgoes

theorem kept_set (h : Kept s) (hfile : FileKept t) (hgrows : Grows s t)
    (hcalls : t.calls = s.calls.set call next)
    (hnext : ∀ stage, next = .hosting stage → t.StageKept stage)
    (hsession : t.RevokedServer → t.RollGoesOn) : Kept t := by
  refine ⟨hfile, fun c stage hc => ?_, hsession⟩
  rw [hcalls] at hc
  rcases getElem?_set_cases hc with ⟨-, heq⟩ | ⟨-, hold⟩
  · exact hnext stage heq
  · exact (h.stages c stage hold).grows hgrows

theorem grows_setCall (s : State) (call : Nat) (next : CallStage) : Grows s (s.setCall call next) :=
  ⟨Nat.le_refl _, Nat.le_refl _, fun _ h => h, rfl, rfl⟩

theorem fileKept_setCall (h : FileKept s) (call : Nat) (next : CallStage) :
    FileKept (s.setCall call next) :=
  fileKept_of_grows h (grows_setCall s call next) rfl rfl rfl

theorem kept_quiet {stage : CallStage} (h : Kept s) (hcall : s.calls[call]? = some stage)
    (hnext : ∀ hosting, next ≠ .hosting hosting)
    (hdeleting : ∀ request, stage ≠ .rollDeleting request)
    (hrestarting : ∀ request, stage ≠ .rollRestarting request) : Kept (s.setCall call next) := by
  refine kept_set h (fileKept_setCall h.file call next) (grows_setCall s call next) rfl
    (fun hosting heq => absurd heq (hnext hosting)) fun hrevoked => ?_
  exact rollGoesOn_set hcall rfl hdeleting hrestarting (h.session hrevoked)

theorem not_revokedServer (h : s.session = none) : ¬s.RevokedServer := by
  rintro ⟨owner, secret, hsession, -⟩
  rw [h] at hsession
  cases hsession

theorem kept_begin (h : Kept s) (call : Nat) : Kept (s.beginHosting call) := by
  have hgrows : Grows s (s.beginHosting call) :=
    ⟨Nat.le_refl _, Nat.le_refl _, fun _ hm => hm, rfl, rfl⟩
  refine kept_set h (fileKept_of_grows h.file hgrows rfl rfl rfl) hgrows rfl ?_
    fun hrevoked => absurd hrevoked (not_revokedServer rfl)
  intro stage heq
  cases heq
  exact stageKept_none rfl rfl

theorem kept_startFailed (h : Kept s) {ready : Bool}
    (hcall : s.calls[call]? = some (.waiting ready)) : Kept (s.startFailed call) := by
  rw [startFailed]
  split
  · have hgrows : Grows s ({ s.stop with
        request := none
        agentHostSharing := none }.setCall call .rollingBack) :=
      ⟨Nat.le_refl _, Nat.le_refl _, fun _ hm => hm, rfl, rfl⟩
    exact kept_set h (fileKept_of_grows h.file hgrows rfl rfl rfl) hgrows rfl
      nofun fun hrevoked => absurd hrevoked (not_revokedServer rfl)
  · exact kept_quiet h hcall nofun nofun nofun

theorem fileKept_roll (h : FileKept s) (existing : Option MobileWebPairing) (random : Nat) :
    FileKept (s.rollPairing existing random) := by
  have hrevoked : FileKept { s with
      nextSecret := s.nextSecret + 1
      revokedSecrets := s.heldSecrets
      revokedTunnels := s.heldTunnels
      file := none } := by
    refine ⟨fun _ hm => hm, fun _ hm => hm, fun secret hm => ?_, h.heldTunnels, nofun⟩
    exact Nat.lt_succ_of_lt (h.heldSecrets secret hm)
  refine fileKept_write hrevoked ⟨Nat.lt_succ_self _, ?_, nofun⟩
  exact h.nextSecret_notMem.1

theorem stageKept_roll (h : s.StageKept stage)
    (hcopy : ∀ pairing, stage.pairing = some pairing → pairing.secret ∉ s.heldSecrets)
    (existing : Option MobileWebPairing) (random : Nat) :
    (s.rollPairing existing random).StageKept stage := by
  have hcreating : ∀ pairing, stage.pairing = some pairing →
      stage = .creating pairing ∧ pairing.tunnel = none :=
    fun pairing hp => (h.held pairing hp).resolve_right (hcopy pairing hp)
  refine ⟨fun pairing hp => ⟨?_, hcopy pairing hp, fun tunnel ht => ?_⟩,
    fun pairing hp => .inl (hcreating pairing hp), fun tunnel ht => ?_⟩
  · exact Nat.lt_succ_of_lt (h.writable pairing hp).fresh
  · rw [(hcreating pairing hp).2] at ht
    cases ht
  · cases stage with
    | remembering pairing t => cases (hcreating pairing rfl).1
    | releasing | reading | creating _ | listening _ | resolving _ | connecting _ _ _
    | checking _ _ _ | forgetting _ | installing _ _ => cases ht

theorem kept_rollWrites (h : Kept s) {request : Option Nat} {existing : Option MobileWebPairing}
    {random : Nat} (hcall : s.calls[call]? = some (.rollWriting request existing))
    (hok : s.KeptApart (.settle call .ok random))
    (hnext : next = .rollDeleting request ∨ next = .rollRestarting request) :
    Kept ((s.rollPairing existing random).setCall call next) := by
  have hset := grows_setCall (s.rollPairing existing random) call next
  have hlt := (List.getElem?_eq_some_iff.mp hcall).1
  refine ⟨fileKept_setCall (fileKept_roll h.file existing random) call next, fun c stage hc => ?_,
    fun _ => ⟨call, request, ?_⟩⟩
  · rcases getElem?_set_cases hc with ⟨-, heq⟩ | ⟨-, hold⟩
    · rcases hnext with rfl | rfl
      · cases heq
      · cases heq
    · refine (stageKept_roll (h.stages c stage hold) ?_ existing random).grows hset
      intro pairing hp
      exact hok.copies ⟨rfl, request, existing, hcall⟩ c stage pairing hold hp
  · have hself : ((s.rollPairing existing random).setCall call next).calls[call]? = some next :=
      getElem?_set_self hlt
    rw [hself]
    exact hnext.imp (congrArg some) (congrArg some)

theorem kept_settle {s : State} {call : Nat} {stage : CallStage} {outcome : Outcome}
    {random : Nat} (h : Kept s) (hok : s.KeptApart (.settle call outcome random))
    (hcall : s.calls[call]? = some stage) (hstep : s.settle call stage outcome random = some t) :
    Kept t := by
  -- A roll ends with a server only if that holds no revoked secret.
  have hsettled : ¬s.RevokedServer → Kept (s.setCall call .settled) := fun hnone =>
    kept_set h (fileKept_setCall h.file _ _) (grows_setCall s _ _) rfl
      nofun fun hrevoked => absurd hrevoked hnone
  cases stage with
  | waiting ready =>
    have hcases : t = s.beginHosting call ∨ t = s.startFailed call := by
      cases outcome with
      | ok =>
        rw [settle] at hstep
        split at hstep
        · exact .inl (Option.some.inj hstep).symm
        · cases hstep
      | other | failed => exact .inr (Option.some.inj hstep).symm
    rcases hcases with rfl | rfl
    · exact kept_begin h call
    · exact kept_startFailed h hcall
  | hosting stage =>
    rw [settle] at hstep
    cases hstep
    obtain ⟨hfile, hgrows, ⟨next, hcalls, hnext, -, -⟩, hsession⟩ :=
      @hostingStep_progress s call stage h.file (h.stages call stage hcall) outcome random
    refine kept_set h hfile hgrows hcalls hnext fun hrevoked => ?_
    have hsame := hsession.resolve_right fun hnot => hnot hrevoked
    have hbefore : s.RevokedServer := by
      obtain ⟨owner, secret, hs, hr⟩ := hrevoked
      rw [hgrows.revokedSecrets] at hr
      exact ⟨owner, secret, hsame ▸ hs, hr⟩
    exact rollGoesOn_set hcall hcalls nofun nofun (h.session hbefore)
  | rollingBack | stopping =>
    rw [settle] at hstep
    cases hstep
    exact kept_quiet h hcall nofun nofun nofun
  | rollReading request =>
    cases outcome with
    | ok | other | failed =>
      cases hstep
      exact kept_quiet h hcall nofun nofun nofun
  | rollWriting request existing =>
    cases outcome with
    | ok =>
      cases hstep
      refine kept_rollWrites h hcall hok ?_
      split
      · exact .inl rfl
      · exact .inr rfl
    | other | failed =>
      cases hstep
      exact kept_quiet h hcall nofun nofun nofun
  | rollDeleting request =>
    cases outcome with
    | ok | failed =>
      cases hstep
      refine kept_set h (fileKept_setCall h.file _ _) (grows_setCall s _ _) rfl
        nofun fun _ => ⟨call, request, .inr ?_⟩
      exact List.getElem?_set_self (List.getElem?_eq_some_iff.mp hcall).1
    | other =>
      cases hstep
      exact hsettled (hok.servers (.inl ⟨rfl, request, hcall⟩))
  | rollRestarting request =>
    rw [settle] at hstep
    split at hstep
    · cases hstep
      exact kept_begin h call
    · next hends =>
      cases hstep
      exact hsettled (hok.servers (.inr ⟨request, hcall, Bool.not_eq_true _ ▸ hends⟩))
  | settled =>
    rw [settle] at hstep
    cases hstep

theorem kept_add (h : Kept s) (hcalls : t.calls = s.calls ++ [next])
    (hnext : ∀ hosting, next ≠ .hosting hosting) (hgrows : Grows s t) (hfile : FileKept t)
    (hsession : t.RevokedServer → s.RevokedServer) : Kept t := by
  refine ⟨hfile, fun c stage hc => ?_, fun hrevoked => ?_⟩
  · rw [hcalls, getElem?_append] at hc
    split at hc
    · exact (h.stages c stage hc).grows hgrows
    · rw [getElem?_singleton] at hc
      split at hc
      · exact absurd (Option.some.inj hc) (hnext stage)
      · cases hc
  · obtain ⟨c, request, hgoes⟩ := h.session (hsession hrevoked)
    refine ⟨c, request, ?_⟩
    rw [hcalls]
    exact hgoes.imp (fun hc => (getElem?_append_left (getElem?_eq_some_iff.mp hc).1).trans hc)
      fun hc => (getElem?_append_left (getElem?_eq_some_iff.mp hc).1).trans hc

theorem kept_step {s : State} {a : Action} (h : Kept s) (hok : s.KeptApart a)
    (hstep : s.step a = some t) : Kept t := by
  cases a with
  | startHosting =>
    cases hstep
    have hgrows : Grows s { s with
        request := some s.calls.length
        agentHostSharing := some s.calls.length
        calls := s.calls ++ [.waiting s.connected] } :=
      ⟨Nat.le_refl _, Nat.le_refl _, fun _ hm => hm, rfl, rfl⟩
    exact kept_add h rfl nofun hgrows (fileKept_of_grows h.file hgrows rfl rfl rfl) id
  | stopHosting =>
    cases hstep
    have hgrows : Grows s { s.stop with
        request := none
        agentHostSharing := none
        calls := s.calls ++ [.stopping] } :=
      ⟨Nat.le_refl _, Nat.le_refl _, fun _ hm => hm, rfl, rfl⟩
    exact kept_add h rfl nofun hgrows (fileKept_of_grows h.file hgrows rfl rfl rfl)
      fun hrevoked => absurd hrevoked (not_revokedServer rfl)
  | rollMobileWebPairing =>
    cases hstep
    have hgrows : Grows s { s with calls := s.calls ++ [.rollReading s.request] } :=
      ⟨Nat.le_refl _, Nat.le_refl _, fun _ hm => hm, rfl, rfl⟩
    exact kept_add h rfl nofun hgrows (fileKept_of_grows h.file hgrows rfl rfl rfl) id
  | status connected =>
    cases hstep
    have hgrows : Grows s { s with
        connected := connected
        calls := s.calls.map (seeStatus (s.request.isSome && connected)) } :=
      ⟨Nat.le_refl _, Nat.le_refl _, fun _ hm => hm, rfl, rfl⟩
    refine ⟨fileKept_of_grows h.file hgrows rfl rfl rfl, fun c stage hc => ?_, fun hrevoked => ?_⟩
    · obtain ⟨was, hwas, hseen⟩ := map_eq_some_iff.mp (getElem?_map.symm.trans hc)
      have hsame : was = .hosting stage := by
        cases was with
        | waiting ready => cases hseen
        | hosting _ | rollingBack | stopping | rollReading _ | rollWriting _ _ | rollDeleting _
        | rollRestarting _ | settled => exact hseen
      rw [hsame] at hwas
      exact (h.stages c stage hwas).grows hgrows
    · obtain ⟨c, request, hgoes⟩ := h.session hrevoked
      refine ⟨c, request, ?_⟩
      exact hgoes.imp (fun hc => by rw [getElem?_map, hc]; rfl)
        fun hc => by rw [getElem?_map, hc]; rfl
  | settle call outcome random =>
    obtain ⟨stage, hcall, hsettle⟩ := bind_eq_some_iff.mp hstep
    exact kept_settle h hok hcall hsettle

end State

open State

theorem keptApart_of_neither {s : State} {a : Action} (hwrites : ¬s.RollWrites a)
    (hends : ¬s.RollEnds a) : s.KeptApart a :=
  ⟨fun h => absurd h hwrites, fun h => absurd h hends⟩

end Fumie.AgentHost.Sharing
