import Mathlib

/-!
# Sharing this machine with a phone

`startHosting`, `stopHosting` and `rollMobileWebPairing` run as calls that wait on files,
servers and tunnels, so their steps interleave. A state holds what the services hold and
how far each call is; a step is a new call, a change of the tunnel process, or the
settling of what one call waits for. Addresses, logs, the client list and the record of
left over tunnels decide nothing here and are left out.
-/

namespace Fumie.AgentHost.Sharing

def PAIRING_PORT_FIRST : Nat := 39000

def PAIRING_PORT_LAST : Nat := 45999

structure MobileWebPairing where
  secret : Nat
  port : Nat
  tunnel : Option Nat
  deriving DecidableEq, Repr

def createMobileWebPairing (secret random : Nat) : MobileWebPairing :=
  ⟨secret, PAIRING_PORT_FIRST + random % (PAIRING_PORT_LAST + 1 - PAIRING_PORT_FIRST), none⟩

/-- How far a start of the mobile web server is: what it waits for, and the copy of the
pairing it took from the file. -/
inductive HostingStage
  /-- The tunnel of the session before is being let go. -/
  | releasing
  | reading
  /-- A new pairing is being written. -/
  | creating (created : MobileWebPairing)
  /-- The server is starting. -/
  | listening (pairing : Option MobileWebPairing)
  /-- The server is up and a tunnel is looked up or created. -/
  | resolving (pairing : Option MobileWebPairing)
  | remembering (pairing : MobileWebPairing) (tunnel : Nat)
  | connecting (pairing : Option MobileWebPairing) (tunnel : Nat) (reused : Bool)
  /-- The forwarding address is asked for. -/
  | checking (pairing : Option MobileWebPairing) (tunnel : Nat) (reused : Bool)
  | forgetting (pairing : MobileWebPairing)
  | installing (pairing : Option MobileWebPairing) (publicUrl : Option Nat)
  deriving DecidableEq, Repr

inductive CallStage
  /-- `startHosting` waits for the tunnel; `ready` once it has been seen active. -/
  | waiting (ready : Bool)
  | hosting (stage : HostingStage)
  /-- `startHosting` waits for its own rollback. -/
  | rollingBack
  | stopping
  | rollReading (request : Option Nat)
  | rollWriting (request : Option Nat) (existing : Option MobileWebPairing)
  | rollDeleting (request : Option Nat)
  /-- The file is rewritten; hosting may have to be restarted. -/
  | rollRestarting (request : Option Nat)
  | settled
  deriving DecidableEq, Repr

structure Session where
  owner : Nat
  capability : Option Nat
  deriving DecidableEq, Repr

/-- The last four fields are not in the program: what the file has held, and what of it a
roll took back. -/
structure State where
  calls : List CallStage
  request : Option Nat
  agentHostSharing : Option Nat
  connected : Bool
  session : Option Session
  active : Bool
  file : Option MobileWebPairing
  nextSecret : Nat
  nextTunnel : Nat
  heldSecrets : List Nat
  heldTunnels : List Nat
  revokedSecrets : List Nat
  revokedTunnels : List Nat
  deriving DecidableEq, Repr

def initialState (file : Option MobileWebPairing) : State where
  calls := []
  request := none
  agentHostSharing := none
  connected := false
  session := none
  active := false
  file := file
  nextSecret := (file.map fun pairing => pairing.secret + 1).getD 0
  nextTunnel := ((file.bind MobileWebPairing.tunnel).map fun tunnel => tunnel + 1).getD 0
  heldSecrets := (file.map MobileWebPairing.secret).toList
  heldTunnels := (file.bind MobileWebPairing.tunnel).toList
  revokedSecrets := []
  revokedTunnels := []

inductive Outcome
  | ok
  | other
  | failed
  deriving DecidableEq, Repr

inductive Action
  | startHosting
  | stopHosting
  | rollMobileWebPairing
  /-- The tunnel process reports its status. -/
  | status (connected : Bool)
  | settle (call : Nat) (outcome : Outcome) (random : Nat)
  deriving DecidableEq, Repr

namespace State

variable (s : State)

section

variable (call : Nat)

variable (pairing : Option MobileWebPairing) (stage : CallStage) (outcome : Outcome) (random : Nat)

def setCall : State :=
  { s with calls := s.calls.set call stage }

def writePairing (pairing : MobileWebPairing) : State :=
  { s with
    file := some pairing
    heldSecrets := pairing.secret :: s.heldSecrets
    heldTunnels := pairing.tunnel.toList ++ s.heldTunnels }

/-- `_getStatus` of the coordinator's status. -/
def statusActive : Bool := s.request.isSome && s.connected

def stop : State := { s with session := none, active := false }

def beginHosting : State :=
  { s with session := none }.setCall call (.hosting .releasing)

def discardTunnel (reused : Bool) : HostingStage :=
  match pairing, reused with
  | some pairing, false => .forgetting pairing
  | pairing, _ => .installing pairing none

def resolveTunnel : State :=
  match outcome, pairing.bind MobileWebPairing.tunnel with
  | .failed, _ => s.setCall call (.hosting (.installing pairing none))
  | .ok, some tunnel => s.setCall call (.hosting (.connecting pairing tunnel true))
  | _, _ =>
    { s with nextTunnel := s.nextTunnel + 1 }.setCall call (.hosting (
      match pairing with
      | some pairing => .remembering pairing s.nextTunnel
      | none => .connecting none s.nextTunnel false))

def hostingStep (stage : HostingStage) (outcome : Outcome) (random : Nat) : State :=
  match stage, outcome with
  | .releasing, .ok => s.setCall call (.hosting .reading)
  -- no web bundle
  | .releasing, _ => s.setCall call .settled
  | .reading, .ok =>
    match s.file with
    | some pairing => s.setCall call (.hosting (.listening (some pairing)))
    | none =>
      { s with nextSecret := s.nextSecret + 1 }.setCall call
        (.hosting (.creating (createMobileWebPairing s.nextSecret random)))
  -- a file that cannot be read is no pairing yet
  | .reading, _ =>
    { s with nextSecret := s.nextSecret + 1 }.setCall call
      (.hosting (.creating (createMobileWebPairing s.nextSecret random)))
  | .creating created, .ok =>
    (s.writePairing created).setCall call (.hosting (.listening (some created)))
  | .creating _, _ => s.setCall call (.hosting (.listening none))
  | .listening pairing, .ok => s.setCall call (.hosting (.resolving pairing))
  -- the start throws
  | .listening _, _ => s.setCall call .settled
  | .resolving pairing, outcome => s.resolveTunnel call pairing outcome
  | .remembering pairing tunnel, .ok =>
    (s.writePairing { pairing with tunnel := some tunnel }).setCall call
      (.hosting (.connecting (some pairing) tunnel false))
  | .remembering pairing tunnel, _ =>
    s.setCall call (.hosting (.connecting (some pairing) tunnel false))
  | .connecting pairing tunnel reused, .ok =>
    s.setCall call (.hosting (.checking pairing tunnel reused))
  | .connecting pairing _ reused, _ => s.setCall call (.hosting (discardTunnel pairing reused))
  | .checking pairing tunnel _, .ok => s.setCall call (.hosting (.installing pairing (some tunnel)))
  -- no forwarding address
  | .checking pairing _ reused, .other => s.setCall call (.hosting (discardTunnel pairing reused))
  | .checking pairing _ _, .failed => s.setCall call (.hosting (.installing pairing none))
  | .forgetting pairing, .ok =>
    (s.writePairing { pairing with tunnel := none }).setCall call
      (.hosting (.installing (some pairing) none))
  | .forgetting pairing, _ => s.setCall call (.hosting (.installing (some pairing) none))
  | .installing pairing _, _ =>
    { s with session := some ⟨call, pairing.map MobileWebPairing.secret⟩, active := true }.setCall call .settled

def startFailed : State :=
  if s.request = some call then
    { s.stop with request := none, agentHostSharing := none }.setCall call .rollingBack
  else s.setCall call .settled

def rollPairing (existing : Option MobileWebPairing) (random : Nat) : State :=
  let rolled : MobileWebPairing :=
    { secret := s.nextSecret
      port := (existing.map MobileWebPairing.port).getD (createMobileWebPairing 0 random).port
      tunnel := none }
  { s with
    nextSecret := s.nextSecret + 1
    revokedSecrets := s.heldSecrets
    revokedTunnels := s.heldTunnels }.writePairing rolled

def settle : Option State :=
  match stage, outcome with
  | .waiting ready, .ok => if ready then some (s.beginHosting call) else none
  | .waiting _, _ => some (s.startFailed call)
  | .hosting stage, outcome => some (s.hostingStep call stage outcome random)
  | .rollingBack, _ => some (s.setCall call .settled)
  | .stopping, _ => some (s.setCall call .settled)
  | .rollReading request, .ok => some (s.setCall call (.rollWriting request s.file))
  | .rollReading request, _ => some (s.setCall call (.rollWriting request none))
  | .rollWriting request existing, .ok =>
    some ((s.rollPairing existing random).setCall call (
      if (existing.bind MobileWebPairing.tunnel).isSome && request.isSome then .rollDeleting request
      else .rollRestarting request))
  | .rollWriting _ _, _ => some (s.setCall call .settled)
  -- no management client to delete the tunnel with
  | .rollDeleting _, .other => some (s.setCall call .settled)
  | .rollDeleting request, _ => some (s.setCall call (.rollRestarting request))
  | .rollRestarting request, _ =>
    if request.isSome && s.statusActive then some (s.beginHosting call)
    else some (s.setCall call .settled)
  | .settled, _ => none

end

def seeStatus (active : Bool) : CallStage → CallStage
  | .waiting ready => .waiting (ready || active)
  | stage => stage

def step : Action → Option State
  | .startHosting =>
    some { s with
      request := some s.calls.length
      agentHostSharing := some s.calls.length
      calls := s.calls ++ [.waiting s.connected] }
  | .stopHosting =>
    some { s.stop with
      request := none
      agentHostSharing := none
      calls := s.calls ++ [.stopping] }
  | .rollMobileWebPairing => some { s with calls := s.calls ++ [.rollReading s.request] }
  | .status connected =>
    some { s with
      connected := connected
      calls := s.calls.map (seeStatus (s.request.isSome && connected)) }
  | .settle call outcome random =>
    s.calls[call]?.bind fun stage => s.settle call stage outcome random

end State

def Action.isCall : Action → Bool
  | startHosting => true
  | stopHosting => true
  | rollMobileWebPairing => true
  | status _ => false
  | settle .. => false

def lastCall (actions : List Action) : Option Action := (actions.filter Action.isCall).getLast?

def State.AllSettled (s : State) : Prop := ∀ stage ∈ s.calls, stage = .settled

instance (s : State) : Decidable s.AllSettled :=
  inferInstanceAs (Decidable (∀ stage ∈ s.calls, stage = .settled))

theorem getElem?_set_cases {calls : List CallStage} {call c : Nat} {next stage : CallStage}
    (h : (calls.set call next)[c]? = some stage) :
    (c = call ∧ next = stage) ∨ (c ≠ call ∧ calls[c]? = some stage) := by
  rw [List.getElem?_set] at h
  split at h
  · next hsame =>
    split at h
    · exact .inl ⟨hsame.symm, Option.some.inj h⟩
    · cases h
  · next hother => exact .inr ⟨fun hc => hother hc.symm, h⟩

end Fumie.AgentHost.Sharing
