import Fumie.AgentHost.Lifecycle.SessionLifecycleStore
import Fumie.Lib.Runs

/-!
# Deleting a session

`node/fumie/agentSessionLifecycleService.ts`: the mutations of a session are chained one
to the other, and a deletion is driven through a durable intent. The state is the table
of intents, which outlives a crash, and the memory of the service, which does not. A
deletion that runs is at one of its awaits; a write takes effect on the table at any time
before it answers, and may fail with or without having taken effect. What the host
answers, and when, is up to the events. `records` keeps what has been done for each
operation.
-/

namespace Fumie.AgentHost

open Fumie.Lib Function

namespace Lifecycle

/-- What has been done for an operation. -/
inductive LifecycleRecord where
  | drawn (operationId : OperationId) (session : SessionKey)
  | prepared (operationId : OperationId) (session : SessionKey) (targets : List SessionBacking)
  | deleting (operationId : OperationId) (target : SessionBacking)
  | recorded (operationId : OperationId) (chat : String)
  | cleaned (operationId : OperationId)
  | finalized (operationId : OperationId)
  deriving DecidableEq

/-! ## The awaits of `_deleteSessionNow` -/

inductive AfterUpdate where
  | stop
  | deleteBackings
  | nextBacking (index : Nat) (firstDeleteError : Option String)
  | clean
  | rethrow

inductive DeleteAwait where
  | load
  | get
  | capture (now : Int)
  | prepare (intent : SessionDeleteIntent) (inserted : Bool)
  /-- The read that `update` begins with. -/
  | read (operationId : OperationId) (patch : SessionDeleteIntentPatch) (after : AfterUpdate)
  | write (next : SessionDeleteIntent) (changed : Option Bool) (after : AfterUpdate)
  | stop (intent : SessionDeleteIntent)
  | deleteBacking (intent : SessionDeleteIntent) (index : Nat) (firstDeleteError : Option String)
  | cleanup (intent : SessionDeleteIntent)
  | finalize (intent : SessionDeleteIntent) (removed : Option Bool)
  | finalized (intent : SessionDeleteIntent)

inductive Answer where
  | ok
  | captured (targets : List SessionBacking)
  | failed (error : String)

structure Progress where
  next : Option DeleteAwait
  records : List LifecycleRecord := []
  drawn : Nat := 0
  /-- The session is put among those being deleted, or taken out. -/
  deleting : Option Bool := none

namespace Progress

def awaits (await : DeleteAwait) : Progress := { next := some await }

def settles : Progress := { next := none }

end Progress

/-- The `catch` of `_deleteSessionNow`. -/
def catchError (operationId : OperationId) (error : String) (now : Int) : Progress :=
  .awaits (.read operationId { lastError := some (some error), updatedAt := now } .rethrow)

def updateFailed (operationId : OperationId) (error : String) (now : Int) : AfterUpdate → Progress
  | .rethrow => .settles
  | _ => catchError operationId error now

section

variable (intent : SessionDeleteIntent)

def beginAttempt (now : Int) : Progress :=
  { Progress.awaits (.read intent.operationId
      { phase := some .stopping, attempt := some (intent.attempt + 1), lastError := some none,
        updatedAt := now } .stop) with deleting := some true }

def nextPending (targets : List SessionDeleteTarget) (index : Nat) : Option Nat :=
  (List.range targets.length).find? fun i => index ≤ i && (targets[i]?).any (·.status = .pending)

def deleteFrom (index : Nat) (firstDeleteError : Option String) (now : Int) : Progress :=
  match nextPending intent.targets index with
  | some i =>
    { Progress.awaits (.deleteBacking intent i firstDeleteError) with
      records := ((intent.targets[i]?).map fun target =>
        LifecycleRecord.deleting intent.operationId target.toSessionBacking).toList }
  | none =>
    match firstDeleteError with
    | some error => catchError intent.operationId error now
    | none =>
      .awaits (.read intent.operationId { phase := some .cleaningFumie, updatedAt := now } .clean)

def afterUpdate (now : Int) : AfterUpdate → Progress
  | .stop => .awaits (.stop intent)
  | .deleteBackings => deleteFrom intent 0 none now
  | .nextBacking index firstDeleteError => deleteFrom intent (index + 1) firstDeleteError now
  | .clean => .awaits (.cleanup intent)
  | .rethrow => .settles

end

/-- The intent that `_deleteSessionNow` prepares. -/
def newIntent (operationId : OperationId) (session : SessionKey) (provider : String) (now : Int)
    (targets : List SessionBacking) : SessionDeleteIntent where
  operationId
  session
  provider
  phase := .prepared
  targets := targets.map fun target => { target with status := .pending }
  attempt := 0
  createdAt := now
  updatedAt := now
  lastError := none

/-! ## The service -/

/-- How far `_loadPendingDeletes` is. -/
inductive Loading where
  | loading
  | loaded
  | failed
  deriving DecidableEq

inductive Task where
  /-- A mutation of another kind. -/
  | mutation
  | delete (provider : String) (await : DeleteAwait)

/-- The promise of a deletion that goes on to its next await, or settles. -/
def stage (link : Link SessionKey Task) (provider : String) :
    Option DeleteAwait → Link SessionKey Task
  | none => { link with phase := .settled }
  | some await => { link with task := .delete provider await }

theorem stage_key (link : Link SessionKey Task) (provider : String) (next : Option DeleteAwait) :
    (stage link provider next).key = link.key := by
  cases next with
  | none | some _ => rfl

theorem stage_previous (link : Link SessionKey Task) (provider : String)
    (next : Option DeleteAwait) : (stage link provider next).previous = link.previous := by
  cases next with
  | none | some _ => rfl

def Progress.mark (p : Progress) (session : SessionKey) (marks : SessionKey → Bool) :
    SessionKey → Bool :=
  match p.deleting with
  | none => marks
  | some deleting => Function.update marks session deleting

theorem Progress.mark_of_ne (p : Progress) {session key : SessionKey} (hne : key ≠ session)
    (marks : SessionKey → Bool) : p.mark session marks key = marks key := by
  unfold Progress.mark
  cases p.deleting with
  | none => rfl
  | some deleting => exact update_of_ne hne _ _

theorem Progress.mark_self {p : Progress} {session : SessionKey} {marks : SessionKey → Bool}
    (hne : p.deleting ≠ some false) (hmarked : marks session = true) :
    p.mark session marks session = true := by
  unfold Progress.mark
  cases hdeleting : p.deleting with
  | none => exact hmarked
  | some deleting =>
    cases deleting with
    | true => exact update_self _ _ _
    | false => exact (hne hdeleting).elim

theorem Progress.mark_removed {p : Progress} (hremoved : p.deleting = some false)
    (session : SessionKey) (marks : SessionKey → Bool) : p.mark session marks session = false := by
  unfold Progress.mark
  rw [hremoved]
  exact update_self _ _ _

structure AgentSessionLifecycleService where
  intents : DeleteIntents
  /-- The uuids drawn so far. -/
  operations : Nat
  records : List LifecycleRecord
  chain : PromiseChain SessionKey Task
  deleteOperations : SessionKey → Option Nat
  deletingSessions : SessionKey → Bool
  loading : Loading

inductive LifecycleEvent where
  | deleteSession (session : SessionKey) (provider : String)
  | runSessionMutation (session : SessionKey)
  /-- The listing awaited by `resumePendingDeletes` has come. -/
  | resumePendingDeletes (provider : String) (listed : List SessionDeleteIntent)
  | load (succeeds : Bool)
  | start (i : Nat)
  /-- A mutation of another kind settles. -/
  | settle (i : Nat)
  /-- The write that a deletion awaits takes effect. -/
  | takeEffect (i : Nat)
  | answer (i : Nat) (now : Int) (answer : Answer)
  | cleanupTail (i : Nat)
  | cleanupOperation (i : Nat)
  | crash

/-- What `_deleteSessionNow` does when its await ends. -/
def DeleteAwait.answered (s : AgentSessionLifecycleService) (session : SessionKey)
    (provider : String) (now : Int) : DeleteAwait → Answer → Option Progress
  | .load, .ok =>
    match s.loading with
    | .loading => none
    | .loaded => some (.awaits .get)
    | .failed => some .settles
  | .get, .ok =>
    match fromDatabaseIntent (s.intents session) with
    | .error _ => some .settles
    | .ok none => some (.awaits (.capture now))
    | .ok (some intent) =>
      if intent.provider ≠ provider then some .settles else some (beginAttempt intent now)
  | .get, .failed _ => some .settles
  | .capture createdAt, .captured targets =>
    let intent := newIntent s.operations session provider createdAt targets
    let drawn := { drawn := 1
                   records := [.drawn s.operations session]
                   next := none : Progress }
    match validateDeleteIntent intent with
    | .error _ => some drawn
    | .ok _ => some { drawn with next := some (.prepare intent false) }
  | .capture _, .failed _ => some .settles
  | .prepare _ inserted, .ok =>
    if inserted then
      match fromDatabaseIntent (s.intents session) with
      | .ok (some intent) => some (beginAttempt intent now)
      | _ => some .settles
    else none
  | .prepare _ _, .failed _ => some .settles
  | .read operationId patch after, .ok =>
    match nextIntent session operationId patch (s.intents session) with
    | .error error => some (updateFailed operationId error now after)
    | .ok next => some (.awaits (.write next none after))
  | .read operationId _ after, .failed error => some (updateFailed operationId error now after)
  | .write next changed after, .ok =>
    match changed with
    | none => none
    | some true => some (afterUpdate next now after)
    | some false => some (updateFailed next.operationId
        s!"Session deletion changed while operation {next.operationId} was updating it: {session}"
        now after)
  | .write next _ after, .failed error => some (updateFailed next.operationId error now after)
  | .stop intent, .ok =>
    some (.awaits (.read intent.operationId { phase := some .deletingBackings, updatedAt := now }
      .deleteBackings))
  | .stop intent, .failed error => some (catchError intent.operationId error now)
  | .deleteBacking intent index firstDeleteError, .ok =>
    some (.awaits (.read intent.operationId
      { targets := some (markDeleted intent.targets index), updatedAt := now }
      (.nextBacking index firstDeleteError)))
  | .deleteBacking intent index firstDeleteError, .failed error =>
    some (deleteFrom intent (index + 1) (firstDeleteError.or (some error)) now)
  | .cleanup intent, .ok =>
    some { next := some (.finalize intent none)
           records := [.cleaned intent.operationId] }
  | .cleanup intent, .failed error => some (catchError intent.operationId error now)
  | .finalize intent removed, .ok =>
    match removed with
    | none => none
    | some true => some (.awaits (.finalized intent))
    | some false =>
      some (catchError intent.operationId (notOwned session intent.operationId) now)
  | .finalize intent removed, .failed error =>
    -- A transaction that fails has been rolled back.
    if removed = some true then none else some (catchError intent.operationId error now)
  | .finalized _, .ok =>
    some { next := none
           deleting := some false }
  | .finalized intent, .failed error => some (catchError intent.operationId error now)
  | _, _ => none

def newlyDeleted (operationId : OperationId) (targets targets' : List SessionDeleteTarget) :
    List LifecycleRecord :=
  (targets'.filter fun target => target.status = .deleted &&
    !targets.any fun old => old.chat = target.chat && old.status = .deleted).map
      fun target => .recorded operationId target.chat

def DeleteAwait.takeEffect (intents : DeleteIntents) (session : SessionKey) :
    DeleteAwait → Option (DeleteIntents × List LifecycleRecord × DeleteAwait)
  | .prepare intent false =>
    some (insertDeleteIntent intents intent,
      if (intents intent.session).isSome then []
      else [.prepared intent.operationId intent.session (backings intent.targets)],
      .prepare intent true)
  | .write next none after =>
    let update := updateDeleteIntent intents session next
    some (update.1,
      if update.2 then
        newlyDeleted next.operationId ((intents session).elim [] (·.targets)) next.targets
      else [],
      .write next (some update.2) after)
  | .finalize intent none =>
    let transaction := finalizeDeleteIntent intents session intent.operationId
    some (transaction.1, if transaction.2 then [.finalized intent.operationId] else [],
      .finalize intent (some transaction.2))
  | _ => none

namespace AgentSessionLifecycleService

section

variable (s : AgentSessionLifecycleService)

def isReady : Bool := s.loading = .loaded

section

variable (session : SessionKey)

def isDeleting : Bool := s.deletingSessions session

def assertMutable : Except String Unit :=
  if s.isDeleting session then .error s!"Session is being deleted: {session}" else .ok ()

def runSessionMutation (task : Task) : AgentSessionLifecycleService :=
  { s with chain := s.chain.request session task }

def deleteSession (provider : String) : AgentSessionLifecycleService :=
  match s.deleteOperations session with
  | some _ => s
  | none =>
    let operation := s.chain.links.length
    let s := { s with deletingSessions := Function.update s.deletingSessions session true }
    let s := s.runSessionMutation session (.delete provider .load)
    { s with deleteOperations := Function.update s.deleteOperations session (some operation) }

end

def resumePendingDeletes (provider : String)
    (listed : List SessionDeleteIntent) : AgentSessionLifecycleService :=
  (listed.filter (·.provider = provider)).foldl (fun s intent => s.deleteSession intent.session provider)
    s

def restart : AgentSessionLifecycleService where
  intents := s.intents
  operations := s.operations
  records := s.records
  chain := {}
  deleteOperations := fun _ => none
  deletingSessions := fun _ => false
  loading := .loading

def running (s : AgentSessionLifecycleService) (i : Nat) : Option (Link SessionKey Task) :=
  (s.chain.links[i]?).filter (·.phase = .running)

def setTask (i : Nat) (link : Link SessionKey Task)
    (provider : String) (next : Option DeleteAwait) : AgentSessionLifecycleService :=
  { s with chain := s.chain.setLink i (stage link provider next) }

def progress (i : Nat) (link : Link SessionKey Task)
    (provider : String) (p : Progress) : AgentSessionLifecycleService :=
  { s.setTask i link provider p.next with
    operations := s.operations + p.drawn
    records := s.records ++ p.records
    deletingSessions := p.mark link.key s.deletingSessions }

def step : LifecycleEvent → Option AgentSessionLifecycleService
  | .deleteSession session provider => some (s.deleteSession session provider)
  | .runSessionMutation session => some (s.runSessionMutation session .mutation)
  | .resumePendingDeletes provider listed =>
    if s.loading = .loaded then some (s.resumePendingDeletes provider listed) else none
  | .load succeeds =>
    if s.loading = .loading then
      some (if succeeds then
          { s with
            deletingSessions := fun session =>
              (s.intents session).isSome || s.deletingSessions session
            loading := .loaded }
        else { s with loading := .failed })
    else none
  | .start i => (s.chain.start i).map fun chain => { s with chain }
  | .settle i => do
    let link ← s.running i
    match link.task with
    | .mutation => some { s with chain := s.chain.setLink i { link with phase := .settled } }
    | .delete _ _ => none
  | .takeEffect i => do
    let link ← s.running i
    match link.task with
    | .mutation => none
    | .delete provider await =>
      let (intents, records, await) ← await.takeEffect s.intents link.key
      some { s.setTask i link provider (some await) with
        intents
        records := s.records ++ records }
  | .answer i now answer => do
    let link ← s.running i
    match link.task with
    | .mutation => none
    | .delete provider await =>
      let p ← await.answered s link.key provider now answer
      some (s.progress i link provider p)
  | .cleanupTail i => (s.chain.cleanup i).map fun chain => { s with chain }
  | .cleanupOperation i => do
    let link ← s.chain.links[i]?
    if link.phase = .settled then
      some (if s.deleteOperations link.key = some i then
          { s with deleteOperations := Function.update s.deleteOperations link.key none }
        else s)
    else none
  | .crash => some s.restart

end

def initial : AgentSessionLifecycleService where
  intents := fun _ => none
  operations := 0
  records := []
  chain := {}
  deleteOperations := fun _ => none
  deletingSessions := fun _ => false
  loading := .loading

def system : System AgentSessionLifecycleService LifecycleEvent := .ofStep (· = initial) step

end AgentSessionLifecycleService

end Lifecycle

end Fumie.AgentHost
