import Fumie.AgentHost.Attribution.TrackedResources
import Fumie.Lib.Runs

/-!
# The edit attribution service

What runs between two awaits is one section. Sections that hold a file's sequencer slot
belong to a task; the tasks of one file run one after the other in the order they were
queued, and the first of them holds the slot. What awaits outside the slots (the callers
of `prepareFlush`, `commitFlush` and `cancelFlush`, the timers) is an event that may
come at any time.
-/

namespace Fumie.AgentHost.EditAttribution

open Fumie.Lib

structure Edit where
  sessionUri : String
  fileKey : FileKey
  isFileTooLarge : Bool
deriving DecidableEq

def Edit.key (e : Edit) : ResourceKey := ⟨e.sessionUri, e.fileKey⟩

structure PrepareParams where
  fileKey : FileKey
  flushToken : String
  isDirty : Bool
deriving DecidableEq

/-- Where `_recordEdit` and `_recordSkippedEdit` are: at the capacity test, awaiting the
flush of a resource of their own file or of another one, past the test, awaiting the
repository, awaiting the diff to the edit's text, awaiting the flush that closes the
resource. -/
inductive EditPhase
  | checkingCapacity
  | evicting (resource : TrackedResource)
  | waitingForSlot (other : FileKey) (task : Nat)
  | finding
  | locating (found : Option TrackedResource)
  | bridging (resource : TrackedResource)
  | closing (resource : TrackedResource)
deriving DecidableEq

/-- Where `_prepareFlushLocked` is: before its first step, about to take the next of the
listed resources, or awaiting the reconciliation of one. -/
inductive PreparePhase
  | queued
  | looping (acks : List (ResourceKey × StandaloneAcknowledgement))
      (done rest : List TrackedResource)
  | reconciling (acks : List (ResourceKey × StandaloneAcknowledgement))
      (done : List TrackedResource) (resource : TrackedResource) (rest : List TrackedResource)
deriving DecidableEq

inductive Work
  | recordEdit (edit : Edit) (phase : EditPhase)
  | flushStandalone (resource : TrackedResource) (claimed : Bool)
  | prepareFlush (params : PrepareParams) (phase : PreparePhase)
  | commitFlush (token : Token)
  | cancelFlush (token : Token)
  | expirePreparedFlush (token : Token) (prepared : PreparedFlush) (now : Nat)
deriving DecidableEq

structure Task where
  fileKey : FileKey
  work : Work
deriving DecidableEq

/-- The resources a task took out of the live ones and has not passed on. -/
def Work.held : Work → List TrackedResource
  | .recordEdit _ (.evicting r) => [r]
  | .recordEdit _ (.closing r) => [r]
  | .flushStandalone r true => [r]
  | .prepareFlush _ (.looping _ done _) => done
  | .prepareFlush _ (.reconciling _ done r _) => done ++ [r]
  | _ => []

def Work.acks : Work → List (ResourceKey × StandaloneAcknowledgement)
  | .prepareFlush _ (.looping acks _ _) => acks
  | .prepareFlush _ (.reconciling acks _ _ _) => acks
  | _ => []

/-- What a section finds out about the texts and from the promise it awaited. -/
structure Outcome where
  fulfilled : Bool
  textFits : Bool
  differs : Bool
  manyIntervals : Bool
deriving DecidableEq

/-- How a section leaves its task. -/
inductive Next
  | goOn (work : Work)
  | ended (fulfilled : Bool)
  /-- The edit queues a standalone flush on the slot of another file and awaits it. -/
  | await (edit : Edit) (resource : TrackedResource)

namespace Store

variable (s : Store)

/-- The resource that `_ensureCapacity` flushes next, `none` when it returns. -/
def ensureCapacity (edit : Edit) (textFits : Bool) : Option TrackedResource :=
  if s.resources.entries.length < maxTrackedResources ∧ textFits = true then none
  else
    (s.resources.get edit.key).orElse fun _ =>
      ((s.resources.entries.map Prod.snd).find? (·.key.fileKey = edit.fileKey)).orElse fun _ =>
        (s.resources.entries.map Prod.snd).head?

def reconciled (r : TrackedResource) (o : Outcome) : Bool :=
  o.fulfilled || !(s.fieldsOf r).hasContent

/-- `_flushStandalone` of a resource of the file whose slot is held, up to its await. -/
def beginClosing (edit : Edit) (r : TrackedResource) : Store × Next :=
  match s.prepareResourceNow r with
  | some claimed => (claimed, .goOn (.recordEdit edit (.closing r)))
  | none => (s, .ended true)

def trackEdit (r : TrackedResource) : Store :=
  ({ s with sequence := s.sequence + 1 }).updateFields r fun f =>
    { f with
      hasContent := true
      trackedEditCount := f.trackedEditCount + 1
      lastSequence := s.sequence + 1 }

def skipEdit (r : TrackedResource) : Store :=
  ({ s with
    sequence := s.sequence + 1
    skipped := s.skipped ++ [(r.key.fileKey, s.sequence + 1)] }).updateFields r fun f =>
    { hasContent := false
      coverageGap := some (f.coverageGap.getD 0 + (f.trackedEditCount + 1))
      coverageGapSequences := f.coverageGapSequences ++ [s.sequence + 1]
      trackedEditCount := 0
      lastSequence := s.sequence + 1 }

/-- The end of `_recordEdit`, from the change of the tracked text on. -/
def finishEdit (edit : Edit) (r : TrackedResource) (o : Outcome) : Store × Next :=
  if o.manyIntervals then (s.trackEdit r).beginClosing edit r else (s.trackEdit r, .ended true)

/-- The end of `_recordSkippedEdit`. -/
def finishSkipped (edit : Edit) (r : TrackedResource) : Store × Next :=
  if ((s.skipEdit r).fieldsOf r).coverageGapSequences.length ≥ maxCoverageGapSequences then
    (s.skipEdit r).beginClosing edit r
  else (s.skipEdit r, .ended true)

def applyEdit (edit : Edit) (r : TrackedResource) (o : Outcome) : Store × Next :=
  if edit.isFileTooLarge then s.finishSkipped edit r
  else if (s.fieldsOf r).hasContent = true ∧ o.differs = true then
    (s, .goOn (.recordEdit edit (.bridging r)))
  else s.finishEdit edit r o

variable (finished : Nat → Option Bool)

def recordEditSection (edit : Edit) (o : Outcome) : EditPhase → Option (Store × Next)
  | .checkingCapacity =>
    match s.ensureCapacity edit o.textFits with
    | none => some (s, .goOn (.recordEdit edit .finding))
    | some r =>
      if r.key.fileKey = edit.fileKey then
        match s.prepareResourceNow r with
        | some claimed => some (claimed, .goOn (.recordEdit edit (.evicting r)))
        | none => some (s, .goOn (.recordEdit edit .checkingCapacity))
      else some (s, .await edit r)
  | .evicting r =>
    if s.reconciled r o then
      some (s.finishStandalone r, .goOn (.recordEdit edit .checkingCapacity))
    else some (s.restoreResource r, .ended false)
  | .waitingForSlot _ task =>
    match finished task with
    | none => none
    | some true => some (s, .goOn (.recordEdit edit .checkingCapacity))
    | some false => some (s, .ended false)
  | .finding => some (s, .goOn (.recordEdit edit (.locating (s.resources.get edit.key))))
  | .locating found =>
    if o.fulfilled then
      match found with
      | none =>
        let r : TrackedResource := ⟨s.fields.length, edit.key⟩
        some ((s.createResource edit.key false).applyEdit edit r o)
      | some r => some ((s.touchResource edit.key r).applyEdit edit r o)
    else some (s, .ended false)
  | .bridging r =>
    if o.fulfilled then some (s.finishEdit edit r o) else some (s, .ended false)
  | .closing r =>
    if s.reconciled r o then some (s.finishStandalone r, .ended true)
    else some (s.restoreResource r, .ended false)

def flushStandaloneSection (r : TrackedResource) (o : Outcome) : Bool → Store × Next
  | false =>
    match s.prepareResourceNow r with
    | some claimed => (claimed, .goOn (.flushStandalone r true))
    | none => (s, .ended true)
  | true =>
    if s.reconciled r o then (s.finishStandalone r, .ended true)
    else (s.restoreResource r, .ended false)

def withTaken (t : Taking) : Store := { s with standaloneAcknowledgements := t.pending }

def resourcesOf (fileKey : FileKey) : List TrackedResource :=
  (s.resources.entries.map Prod.snd).filter (·.key.fileKey = fileKey)

/-- What the second call of `_takeStandaloneAcknowledgements` finds. -/
def secondTake (params : PrepareParams)
    (acks : List (ResourceKey × StandaloneAcknowledgement)) : Taking :=
  s.takeStandaloneAcknowledgements params.fileKey
    (maxCoverageGapAcknowledgementsPerFlush - countCoverageGapAcknowledgements acks)

/-- The flush that `_prepareFlushLocked` comes to from the resources it prepared and the
acknowledgements it took, the second time included. -/
def preparedFlush (identity : Nat) (params : PrepareParams)
    (acks : List (ResourceKey × StandaloneAcknowledgement)) (done : List TrackedResource) :
    PreparedFlush :=
  s.combinePreparedFlushes identity done params.fileKey (.client params.flushToken) acks
    (s.coverageGapCutoffCeiling params.fileKey)

/-- The last section of `_prepareFlushLocked`, once every listed resource is prepared. -/
def finishPrepare (identity : Nat) (params : PrepareParams)
    (acks : List (ResourceKey × StandaloneAcknowledgement)) (done : List TrackedResource) : Store :=
  let t := s.secondTake params acks
  let taken := s.withTaken t
  if done = [] ∧ acks ++ t.taken = [] then taken
  else if (taken.settledFlushes.get (.client params.flushToken)).isSome then
    (taken.restoreResources done).restoreStandaloneAcknowledgements (acks ++ t.taken)
  else taken.setPrepared (taken.preparedFlush identity params (acks ++ t.taken) done)

def prepareFlushSection (identity : Nat) (params : PrepareParams) (o : Outcome) :
    PreparePhase → Store × Next
  | .queued =>
    let t := s.takeStandaloneAcknowledgements params.fileKey maxCoverageGapAcknowledgementsPerFlush
    let resources := s.resourcesOf params.fileKey
    if resources = [] ∧ t.taken = [] then (s.withTaken t, .ended true)
    else (s.withTaken t, .goOn (.prepareFlush params (.looping t.taken [] resources)))
  | .looping acks done [] => (s.finishPrepare identity params acks done, .ended true)
  | .looping acks done (r :: rest) =>
    match s.prepareResourceNow r with
    | some claimed => (claimed, .goOn (.prepareFlush params (.reconciling acks done r rest)))
    | none => (s, .goOn (.prepareFlush params (.looping acks done rest)))
  | .reconciling acks done r rest =>
    if s.reconciled r o then
      (s, .goOn (.prepareFlush params (.looping acks (done ++ [r]) rest)))
    else
      (((s.restoreResource r).restoreResources done).restoreStandaloneAcknowledgements acks,
        .ended false)

/-- Settled flushes and acknowledgements that are too old are given up. -/
def forget (now : Nat) : Store :=
  { s with
    settledFlushes := s.settledFlushes.filter fun _ e => now ≤ e.2 + settledFlushTtl
    standaloneAcknowledgements := s.standaloneAcknowledgements.filter fun _ ack =>
      now ≤ ack.timestamp + standaloneAcknowledgementTtl
    dropped := s.dropped ++ s.standaloneAcknowledgements.entries.filter fun e =>
      !decide (now ≤ e.2.timestamp + standaloneAcknowledgementTtl) }

def runSection (id : Nat) (o : Outcome) : Work → Option (Store × Next)
  | .recordEdit edit phase => s.recordEditSection finished edit o phase
  | .flushStandalone r claimed => some (s.flushStandaloneSection r o claimed)
  | .prepareFlush params phase => some (s.prepareFlushSection id params o phase)
  | .commitFlush token => some ((s.commitFlushNow token).1, .ended true)
  | .cancelFlush token => some ((s.cancelFlushNow token).1, .ended true)
  | .expirePreparedFlush token p now => some (s.expirePreparedFlush token p now, .ended true)

end Store

/-! ## The system -/

/-- The collections, the queued tasks by number, and the tasks that ended. -/
structure State where
  store : Store
  tasks : Record Nat Task
  nextTask : Nat
  finished : Record Nat Bool

namespace State

def initial : State := ⟨Store.empty, Record.empty, 0, Record.empty⟩

section

variable (s : State)

variable (fileKey : FileKey)

def head : Option (Nat × Task) :=
  s.tasks.entries.find? fun e => e.2.fileKey = fileKey

/-- `this._fileSequencer.queue`. -/
def queue (work : Work) : State :=
  { s with tasks := s.tasks.set s.nextTask ⟨fileKey, work⟩, nextTask := s.nextTask + 1 }

def advance (id : Nat) (task : Task) (store : Store) : Next → State
  | .goOn work => { s with store := store, tasks := s.tasks.set id { task with work := work } }
  | .ended fulfilled =>
    { s with
      store := store
      tasks := s.tasks.delete id
      finished := s.finished.set id fulfilled }
  | .await edit r =>
    { s with
      store := store
      tasks := s.tasks.set id
        { task with work := .recordEdit edit (.waitingForSlot r.key.fileKey s.nextTask) } }.queue
      r.key.fileKey (.flushStandalone r false)

def runSlot (o : Outcome) : Option State :=
  match s.head fileKey with
  | none => none
  | some (id, task) =>
    (s.store.runSection s.finished.get id o task.work).map fun (store, next) =>
      s.advance id task store next

def recordEdit (s : State) (edit : Edit) : State :=
  s.queue edit.fileKey (.recordEdit edit .checkingCapacity)

def flushResources (rs : List TrackedResource) : State :=
  rs.foldl (fun s r => s.queue r.key.fileKey (.flushStandalone r false)) s

def liveResources : List TrackedResource := s.store.resources.entries.map Prod.snd

def flushSession (sessionUri : String) : State :=
  s.flushResources (s.liveResources.filter (·.key.sessionUri = sessionUri))

def flushAll : State := s.flushResources s.liveResources

def checkGitState (inRepository : TrackedResource → Bool) : State :=
  s.flushResources (s.liveResources.filter inRepository)

end

inductive PrepareReply
  | nothing
  | joined (call : Nat)
  | existing (prepared : PreparedFlush)
  | started (call : Nat)

def prepareFlush (s : State) (params : PrepareParams) : State × PrepareReply :=
  let token : Token := .client params.flushToken
  if params.isDirty then (s, .nothing)
  else
    match s.store.preparingFlushes.get token with
    | some call => (s, .joined call)
    | none =>
      match s.store.preparedFlushes.get token with
      | some p => (s, .existing p)
      | none =>
        if (s.store.settledFlushes.get token).isSome then (s, .nothing)
        else
          let store :=
            { s.store with preparingFlushes := s.store.preparingFlushes.set token s.nextTask }
          (({ s with store := store }).queue params.fileKey (.prepareFlush params .queued),
            .started s.nextTask)

def prepareSettles (s : State) (token : Token) (call : Nat) : State :=
  if s.store.preparingFlushes.get token = some call then
    { s with store :=
      { s.store with preparingFlushes := s.store.preparingFlushes.delete token } }
  else s

def commitFlush (s : State) (flushToken : String) : State × Option FlushResult :=
  match s.store.preparedFlushes.get (.client flushToken) with
  | none => (s, some (s.store.settledResult (.client flushToken)))
  | some p => (s.queue p.fileKey (.commitFlush (.client flushToken)), none)

def cancelFlush (s : State) (flushToken : String) : State × Option FlushResult :=
  match s.store.settledFlushes.get (.client flushToken) with
  | some settled => (s, some settled.1)
  | none =>
    match s.store.preparedFlushes.get (.client flushToken) with
    | none =>
      ({ s with store := s.store.recordSettledFlush (.client flushToken) .cancelled },
        some .cancelled)
    | some p => (s.queue p.fileKey (.cancelFlush (.client flushToken)), none)

/-- `_expireFlushState` up to its await. -/
def expireFlushState (s : State) : State :=
  (s.store.preparedFlushes.entries.filter fun e =>
      e.2.timestamp + preparedFlushTtl < s.store.now).foldl
    (fun t e => t.queue e.2.fileKey (.expirePreparedFlush e.1 e.2 s.store.now)) s

/-- The rest of `_expireFlushState`, with the time it began at. -/
def forget (s : State) (now : Nat) : State := { s with store := s.store.forget now }

def elapse (s : State) (milliseconds : Nat) : State :=
  { s with store := { s.store with now := s.store.now + milliseconds } }

end State

inductive Event
  | recordEdit (edit : Edit)
  | flushSession (sessionUri : String)
  | flushAll
  | checkGitState (inRepository : TrackedResource → Bool)
  | prepareFlush (params : PrepareParams)
  | prepareSettles (flushToken : String) (call : Nat)
  | commitFlush (flushToken : String)
  | cancelFlush (flushToken : String)
  | expireFlushState
  | forget (now : Nat)
  | elapse (milliseconds : Nat)
  | runSlot (fileKey : FileKey) (outcome : Outcome)

def State.step (s : State) : Event → Option State
  | .recordEdit edit => some (s.recordEdit edit)
  | .flushSession sessionUri => some (s.flushSession sessionUri)
  | .flushAll => some s.flushAll
  | .checkGitState inRepository => some (s.checkGitState inRepository)
  | .prepareFlush params => some (s.prepareFlush params).1
  | .prepareSettles flushToken call => some (s.prepareSettles (.client flushToken) call)
  | .commitFlush flushToken => some (s.commitFlush flushToken).1
  | .cancelFlush flushToken => some (s.cancelFlush flushToken).1
  | .expireFlushState => some s.expireFlushState
  | .forget now => if now ≤ s.store.now then some (s.forget now) else none
  | .elapse milliseconds => some (s.elapse milliseconds)
  | .runSlot fileKey o => s.runSlot fileKey o

def system : System State Event := .ofStep (· = State.initial) State.step

end Fumie.AgentHost.EditAttribution
