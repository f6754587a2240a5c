import Fumie.Lib.PromiseChain

/-!
# The store of delete intents

`node/fumie/sessionLifecycleStore.ts` over the table `session_delete_intents` of
`node/agentHostDatabase.ts`: one row for each session that is being deleted. A row keeps
what `JSON.parse` gives back of its targets. The id of an operation is the number of the
uuid drawn for it.
-/

namespace Fumie.AgentHost

open Fumie.Lib List

namespace Lifecycle

abbrev SessionKey := String
abbrev OperationId := Nat

inductive SessionDeletePhase where
  | prepared
  | stopping
  | deletingBackings
  | cleaningFumie
  deriving DecidableEq

inductive SessionDeleteTargetStatus where
  | pending
  | deleted
  deriving DecidableEq

structure SessionBacking where
  chat : String
  providerData : Option String
  deriving DecidableEq

structure SessionDeleteTarget extends SessionBacking where
  status : SessionDeleteTargetStatus
  deriving DecidableEq

structure SessionDeleteIntent where
  operationId : OperationId
  session : SessionKey
  provider : String
  phase : SessionDeletePhase
  targets : List SessionDeleteTarget
  attempt : Nat
  createdAt : Int
  updatedAt : Int
  lastError : Option String
  deriving DecidableEq

/-- Absent fields are left as they are; `lastError := some none` clears an earlier error. -/
structure SessionDeleteIntentPatch where
  phase : Option SessionDeletePhase := none
  targets : Option (List SessionDeleteTarget) := none
  attempt : Option Nat := none
  lastError : Option (Option String) := none
  updatedAt : Int

/-! ## Validation -/

def validateTargets (chats : List String) : List SessionDeleteTarget → Except String Unit
  | [] => .ok ()
  | target :: rest =>
    if target.chat = "" then .error "Session delete target requires a chat URI"
    else if target.chat ∈ chats then
      .error ("Duplicate session delete target: " ++ target.chat)
    else validateTargets (chats ++ [target.chat]) rest

def validateDeleteIntent (intent : SessionDeleteIntent) : Except String Unit :=
  if intent.session = "" ∨ intent.provider = "" then
    .error "Session delete intent requires operationId, session, and provider"
  else validateTargets [] intent.targets

def fromDatabaseIntent (row : Option SessionDeleteIntent) :
    Except String (Option SessionDeleteIntent) :=
  match row with
  | none => .ok none
  | some intent => (validateDeleteIntent intent).map fun _ => some intent

def notOwned (session : SessionKey) (operationId : OperationId) : String :=
  s!"Session deletion is not owned by operation {operationId}: {session}"

def SessionDeleteIntentPatch.applyTo (patch : SessionDeleteIntentPatch)
    (current : SessionDeleteIntent) : SessionDeleteIntent :=
  { current with
    phase := patch.phase.getD current.phase
    targets := patch.targets.getD current.targets
    attempt := patch.attempt.getD current.attempt
    updatedAt := patch.updatedAt
    lastError := patch.lastError.getD current.lastError }

def nextIntent (session : SessionKey) (operationId : OperationId) (patch : SessionDeleteIntentPatch)
    (row : Option SessionDeleteIntent) : Except String SessionDeleteIntent := do
  match ← fromDatabaseIntent row with
  | none => .error (notOwned session operationId)
  | some current =>
    if current.operationId ≠ operationId then .error (notOwned session operationId)
    else
      let next := patch.applyTo current
      validateDeleteIntent next
      .ok next

/-! ## The table -/

abbrev DeleteIntents := SessionKey → Option SessionDeleteIntent

section

variable (intents : DeleteIntents)

/-- `INSERT … ON CONFLICT(session_uri) DO NOTHING`. -/
def insertDeleteIntent (intent : SessionDeleteIntent) : DeleteIntents :=
  if (intents intent.session).isSome then intents
  else Function.update intents intent.session (some intent)

/-- `UPDATE … WHERE session_uri = ? AND operation_id = ?`, with whether a row changed. -/
def updateDeleteIntent (session : SessionKey) (next : SessionDeleteIntent) : DeleteIntents × Bool :=
  match intents session with
  | none => (intents, false)
  | some row =>
    if row.operationId = next.operationId then
      (Function.update intents session (some { row with
        phase := next.phase
        targets := next.targets
        attempt := next.attempt
        updatedAt := next.updatedAt
        lastError := next.lastError }), true)
    else (intents, false)

def finalizeDeleteIntent (session : SessionKey)
    (operationId : OperationId) : DeleteIntents × Bool :=
  match intents session with
  | none => (intents, false)
  | some row =>
    if row.operationId = operationId then (Function.update intents session none, true)
    else (intents, false)

end

/-! ## Targets -/

def backings (targets : List SessionDeleteTarget) : List SessionBacking :=
  targets.map (·.toSessionBacking)

def Advances (targets targets' : List SessionDeleteTarget) : Prop :=
  List.Forall₂ (fun target target' => target.toSessionBacking = target'.toSessionBacking ∧
    (target.status = .deleted → target'.status = .deleted)) targets targets'

variable (targets : List SessionDeleteTarget)

theorem Advances.refl : Advances targets targets := forall₂_same.mpr fun _ _ => ⟨rfl, id⟩

theorem Advances.backings {targets targets' : List SessionDeleteTarget}
    (h : Advances targets targets') : backings targets' = backings targets := by
  unfold Lifecycle.backings
  induction h with
  | nil => rfl
  | cons hhead _ ih => rw [map_cons, map_cons, ih, hhead.1]

theorem chats_eq_backings : targets.map (·.chat) = (backings targets).map (·.chat) := by
  unfold backings
  rw [map_map]
  rfl

def markDeleted (targets : List SessionDeleteTarget) (index : Nat) : List SessionDeleteTarget :=
  targets.mapIdx fun candidate target =>
    if candidate = index then { target with status := .deleted } else target

theorem advances_markDeleted (index : Nat) : Advances targets (markDeleted targets index) := by
  refine forall₂_iff_get.mpr ⟨by simp [markDeleted], ?_⟩
  intro i hi hi'
  simp only [markDeleted, get_eq_getElem, getElem_mapIdx]
  split
  · exact ⟨rfl, fun _ => rfl⟩
  · exact ⟨rfl, id⟩

theorem getElem?_markDeleted (index i : Nat) : (markDeleted targets index)[i]? =
      (targets[i]?).map fun target =>
        if i = index then { target with status := .deleted } else target := by
  unfold markDeleted
  rw [getElem?_mapIdx]

theorem nodup_of_validateTargets {chats : List String} {targets : List SessionDeleteTarget}
    (hchats : chats.Nodup) (h : validateTargets chats targets = .ok ()) :
    (chats ++ targets.map (·.chat)).Nodup := by
  induction targets generalizing chats with
  | nil => simpa using hchats
  | cons target rest ih =>
    unfold validateTargets at h
    split at h
    · cases h
    · split at h
      · cases h
      · next hnew =>
        have hrest := ih (nodup_append.mpr ⟨hchats, nodup_singleton _, by
          intro a ha b hb heq
          rw [mem_singleton.mp hb] at heq
          exact hnew (heq ▸ ha)⟩) h
        rwa [append_assoc] at hrest

theorem nodup_of_validate {intent : SessionDeleteIntent}
    (h : validateDeleteIntent intent = .ok ()) : (intent.targets.map (·.chat)).Nodup := by
  unfold validateDeleteIntent at h
  split at h
  · cases h
  · exact nodup_of_validateTargets nodup_nil h

theorem nextIntent_ok {session : SessionKey} {operationId : OperationId}
    {patch : SessionDeleteIntentPatch} {row : Option SessionDeleteIntent}
    {next : SessionDeleteIntent} (h : nextIntent session operationId patch row = .ok next) :
    ∃ current, row = some current ∧ current.operationId = operationId ∧
      next = patch.applyTo current := by
  unfold nextIntent at h
  cases row with
  | none => cases h
  | some current =>
    unfold fromDatabaseIntent at h
    cases hvalid : validateDeleteIntent current with
    | error e =>
      dsimp only at h
      rw [hvalid] at h
      cases h
    | ok u =>
      dsimp only at h
      rw [hvalid] at h
      simp only [Except.map, bind, Except.bind] at h
      split at h
      · cases h
      · next hown =>
        cases hnext : validateDeleteIntent (patch.applyTo current) with
        | error e =>
          rw [hnext] at h
          cases h
        | ok u =>
          rw [hnext] at h
          exact ⟨current, rfl, not_not.mp hown, (Except.ok.inj h).symm⟩

end Lifecycle

end Fumie.AgentHost
