import Fumie.Lib.RecordSum

/-!
# Tracked resources and prepared flushes

The maps of the edit attribution service and the operations on them that run without an
await. A tracked resource is a reference: its number and its key never change, what the
service writes into it lives in `fields`. Texts, intervals and the counts taken from them
are left out: which texts fit, differ or can be read is part of a step's event.

`created` lists every resource that was ever made, `emitted` every flush whose telemetry was
sent, `skipped` every skipped edit by its file, `acknowledged` the coverage gaps that
standalone flushes left to be acknowledged, and `dropped` the acknowledgements given up; the
service itself never reads them.
-/

namespace Fumie.AgentHost.EditAttribution

open Fumie.Lib

abbrev FileKey := String

/-- `resourceKey(sessionUri, fileKey)`. -/
structure ResourceKey where
  sessionUri : String
  fileKey : FileKey
deriving DecidableEq

structure TrackedResource where
  id : Nat
  key : ResourceKey
deriving DecidableEq

structure ResourceFields where
  hasContent : Bool
  coverageGap : Option Nat
  coverageGapSequences : List Nat
  trackedEditCount : Nat
  lastSequence : Nat
deriving DecidableEq

inductive Token
  | client (token : String)
  | uuid (n : Nat)
deriving DecidableEq

structure CoverageGapAcknowledgement where
  id : Nat
  sequences : List Nat
  editCount : Nat
deriving DecidableEq

structure StandaloneAcknowledgement where
  timestamp : Nat
  fileKey : FileKey
  lastSequence : Nat
  coverageGapAcknowledgements : List CoverageGapAcknowledgement
deriving DecidableEq

structure PreparedFlush where
  identity : Nat
  token : Token
  fileKey : FileKey
  coverageGapCutoffCeiling : Option Nat
  lastSequence : Nat
  resources : List TrackedResource
  standaloneAcknowledgements : List (ResourceKey × StandaloneAcknowledgement)
  timestamp : Nat
deriving DecidableEq

inductive FlushOutcome
  | committed
  | cancelled
  | missing
deriving DecidableEq

structure FlushResult where
  outcome : FlushOutcome
  lastSequence : Option Nat
  coverageGapThroughSequence : Option Nat
  standaloneCoverageGapAcknowledgements : List CoverageGapAcknowledgement
deriving DecidableEq

def FlushResult.missing : FlushResult := ⟨.missing, none, none, []⟩

def FlushResult.cancelled : FlushResult := ⟨.cancelled, none, none, []⟩

def maxTrackedResources : Nat := 100
def maxCoverageGapSequences : Nat := 128
def maxCoverageGapAcknowledgementsPerFlush : Nat := 128
def maxSettledFlushes : Nat := 1000
def maxStandaloneAcknowledgements : Nat := 1000
def preparedFlushTtl : Nat := 5 * 60 * 1000
def settledFlushTtl : Nat := 10 * 60 * 1000
def standaloneAcknowledgementTtl : Nat := 10 * 60 * 60 * 1000

/-- The collections of the service. -/
structure Store where
  created : List TrackedResource
  fields : List ResourceFields
  resources : Record ResourceKey TrackedResource
  claimedResources : List TrackedResource
  preparedFlushes : Record Token PreparedFlush
  preparingFlushes : Record Token Nat
  settledFlushes : Record Token (FlushResult × Nat)
  standaloneAcknowledgements : Record ResourceKey StandaloneAcknowledgement
  sequence : Nat
  uuid : Nat
  now : Nat
  emitted : List (PreparedFlush × FlushResult)
  skipped : List (FileKey × Nat)
  acknowledged : List (FileKey × CoverageGapAcknowledgement)
  dropped : List (ResourceKey × StandaloneAcknowledgement)

namespace Store

def empty : Store where
  created := []
  fields := []
  resources := Record.empty
  claimedResources := []
  preparedFlushes := Record.empty
  preparingFlushes := Record.empty
  settledFlushes := Record.empty
  standaloneAcknowledgements := Record.empty
  sequence := 0
  uuid := 0
  now := 0
  emitted := []
  skipped := []
  acknowledged := []
  dropped := []

def evictOldest {κ α : Type} (limit : Nat) (r : Record κ α) : Record κ α :=
  ⟨r.entries.drop (r.entries.length - limit),
    r.nodup.sublist ((List.drop_sublist _ _).map Prod.fst)⟩

/-! ## Tracked resources -/

section

variable (s : Store)

section

variable (r : TrackedResource)

def fieldsOf : ResourceFields := s.fields.getD r.id ⟨false, none, [], 0, 0⟩

def updateFields (f : ResourceFields → ResourceFields) : Store :=
  { s with fields := s.fields.modify r.id f }

def createResource (key : ResourceKey) (hasContent : Bool) : Store :=
  { s with
    created := s.created ++ [⟨s.fields.length, key⟩]
    fields := s.fields ++ [⟨hasContent, none, [], 0, 0⟩]
    resources := s.resources.set key ⟨s.fields.length, key⟩ }

/-- `this._resources.delete(key); this._resources.set(key, resource)`. -/
def touchResource (key : ResourceKey) (r : TrackedResource) : Store :=
  { s with resources := (s.resources.delete key).set key r }

/-- Up to its first await `_prepareResourceNow` takes a resource that is still live out of
the live ones and claims it. -/
def prepareResourceNow : Option Store :=
  if s.resources.get r.key = some r then
    some { s with
      resources := s.resources.delete r.key
      claimedResources :=
        if r ∈ s.claimedResources then s.claimedResources else s.claimedResources ++ [r] }
  else none

def restoreResource : Store :=
  { s with
    claimedResources := s.claimedResources.filter (· ≠ r)
    resources := if (s.resources.get r.key).isSome then s.resources else s.resources.set r.key r }

end

def restoreResources (rs : List TrackedResource) : Store := rs.foldl restoreResource s

def releaseResourceClaims (rs : List TrackedResource) : Store :=
  { s with claimedResources := s.claimedResources.filter (· ∉ rs) }

/-! ## Standalone acknowledgements -/

def setGapAcknowledgement (acks : List CoverageGapAcknowledgement)
    (ack : CoverageGapAcknowledgement) : List CoverageGapAcknowledgement :=
  if acks.any (·.id = ack.id) then acks.map fun a => if a.id = ack.id then ack else a
  else acks ++ [ack]

def gapAcknowledgementsById (acks : List CoverageGapAcknowledgement) :
    List CoverageGapAcknowledgement :=
  acks.foldl setGapAcknowledgement []

def mergeStandalone (existing : Option StandaloneAcknowledgement)
    (value : StandaloneAcknowledgement) : StandaloneAcknowledgement where
  timestamp := max ((existing.map (·.timestamp)).getD 0) value.timestamp
  fileKey := value.fileKey
  lastSequence := max ((existing.map (·.lastSequence)).getD 0) value.lastSequence
  coverageGapAcknowledgements := gapAcknowledgementsById
    (((existing.map (·.coverageGapAcknowledgements)).getD []) ++ value.coverageGapAcknowledgements)

def restoreStandalone (acks : Record ResourceKey StandaloneAcknowledgement)
    (e : ResourceKey × StandaloneAcknowledgement) :
    Record ResourceKey StandaloneAcknowledgement :=
  (acks.delete e.1).set e.1 (mergeStandalone (acks.get e.1) e.2)

section

variable (acks : List (ResourceKey × StandaloneAcknowledgement))

def restoredAcknowledgements : Record ResourceKey StandaloneAcknowledgement :=
  acks.foldl restoreStandalone s.standaloneAcknowledgements

def restoreStandaloneAcknowledgements : Store :=
  { s with
    standaloneAcknowledgements :=
      evictOldest maxStandaloneAcknowledgements (s.restoredAcknowledgements acks)
    dropped := s.dropped ++ (s.restoredAcknowledgements acks).entries.take
      ((s.restoredAcknowledgements acks).entries.length - maxStandaloneAcknowledgements) }

end

end

/-- The gap acknowledgements that one call has taken so far, and the room that is left. -/
structure Taking where
  pending : Record ResourceKey StandaloneAcknowledgement
  remaining : Nat
  taken : List (ResourceKey × StandaloneAcknowledgement)

/-- One turn of the loop of `_takeStandaloneAcknowledgements`. What is put back under its
key is visited once more at the end of the loop, when there is no room left for it. -/
def takeStandalone (fileKey : FileKey) (t : Taking)
    (e : ResourceKey × StandaloneAcknowledgement) : Taking :=
  if e.2.fileKey ≠ fileKey then t
  else
    let gaps := e.2.coverageGapAcknowledgements.take t.remaining
    if e.2.coverageGapAcknowledgements ≠ [] ∧ gaps = [] then t
    else
      let rest := e.2.coverageGapAcknowledgements.drop gaps.length
      { pending :=
          if rest = [] then t.pending.delete e.1
          else (t.pending.delete e.1).set e.1 { e.2 with coverageGapAcknowledgements := rest }
        remaining := t.remaining - gaps.length
        taken := t.taken ++ [(e.1, { e.2 with coverageGapAcknowledgements := gaps })] }

variable (s : Store)

def takeStandaloneAcknowledgements (fileKey : FileKey) (limit : Nat) : Taking :=
  s.standaloneAcknowledgements.entries.foldl (takeStandalone fileKey)
    ⟨s.standaloneAcknowledgements, limit, []⟩

section

variable (acks : List (ResourceKey × StandaloneAcknowledgement))

def countCoverageGapAcknowledgements : Nat :=
  (acks.map fun e => e.2.coverageGapAcknowledgements.length).sum

def gapSequences : List Nat :=
  acks.flatMap fun e => e.2.coverageGapAcknowledgements.flatMap (·.sequences)

end

def coverageGapCutoffCeiling (fileKey : FileKey) : Option Nat :=
  ((gapSequences (s.standaloneAcknowledgements.entries.filter
    fun e => e.2.fileKey = fileKey)).min?).map (· - 1)

/-! ## Prepared flushes -/

section

variable (p : PreparedFlush)

def coverageGapThroughSequence : Option Nat :=
  ((p.resources.map fun r => (s.fieldsOf r).lastSequence) ++
      gapSequences p.standaloneAcknowledgements).max?.map fun cutoff =>
    match p.coverageGapCutoffCeiling with
    | none => cutoff
    | some ceiling => min cutoff ceiling

def standaloneAcknowledgementData : List CoverageGapAcknowledgement :=
  gapAcknowledgementsById
    (p.standaloneAcknowledgements.flatMap fun e => e.2.coverageGapAcknowledgements)

def combinePreparedFlushes (identity : Nat) (rs : List TrackedResource)
    (fileKey : FileKey) (token : Token)
    (acks : List (ResourceKey × StandaloneAcknowledgement)) (ceiling : Option Nat) :
    PreparedFlush where
  identity := identity
  token := token
  fileKey := fileKey
  coverageGapCutoffCeiling := ceiling
  lastSequence := (rs.map (fun r => (s.fieldsOf r).lastSequence) ++
    acks.map (fun e => e.2.lastSequence)).foldl max 0
  resources := rs
  standaloneAcknowledgements := acks
  timestamp := s.now

def committedResult : FlushResult where
  outcome := .committed
  lastSequence := some p.lastSequence
  coverageGapThroughSequence := s.coverageGapThroughSequence p
  standaloneCoverageGapAcknowledgements := standaloneAcknowledgementData p

def emitTelemetry : Store :=
  { s with emitted := s.emitted ++ [(p, s.committedResult p)] }

def deletePrepared (token : Token) : Store :=
  { s with preparedFlushes := s.preparedFlushes.delete token }

def setPrepared : Store :=
  { s with preparedFlushes := s.preparedFlushes.set p.token p }

end

section

variable (token : Token)

def recordSettledFlush (result : FlushResult) : Store :=
  { s with
    settledFlushes := evictOldest maxSettledFlushes
      ((s.settledFlushes.delete token).set token (result, s.now)) }

/-- The common end of a commit, and of a cancel or an expiry that may not put back. -/
def settleCommitted (p : PreparedFlush) : Store :=
  ((((s.deletePrepared token).releaseResourceClaims p.resources).emitTelemetry p).recordSettledFlush
    token (s.committedResult p))

def settleCancelled (p : PreparedFlush) : Store :=
  ((((s.deletePrepared token).restoreResources p.resources).restoreStandaloneAcknowledgements
    p.standaloneAcknowledgements).recordSettledFlush token .cancelled)

def settledResult : FlushResult := ((s.settledFlushes.get token).map Prod.fst).getD .missing

def commitFlushNow : Store × FlushResult :=
  match s.preparedFlushes.get token with
  | none => (s, s.settledResult token)
  | some p => (s.settleCommitted token p, s.committedResult p)

def anyLive (p : PreparedFlush) : Bool := p.resources.any fun r => (s.resources.get r.key).isSome

def cancelFlushNow : Store × FlushResult :=
  match s.settledFlushes.get token with
  | some settled => (s, settled.1)
  | none =>
    match s.preparedFlushes.get token with
    | none => (s.recordSettledFlush token .cancelled, .cancelled)
    | some p =>
      if s.anyLive p then (s.settleCommitted token p, s.committedResult p)
      else (s.settleCancelled token p, .cancelled)

def expirePreparedFlush (p : PreparedFlush) (now : Nat) : Store :=
  if s.preparedFlushes.get token ≠ some p ∨ p.timestamp + preparedFlushTtl ≥ now then s
  else if s.anyLive p then s.settleCommitted token p
  else s.settleCancelled token p

end

/-! ## Standalone flushes -/

variable (r : TrackedResource)

def standaloneFlush : PreparedFlush where
  identity := s.uuid
  token := .uuid s.uuid
  fileKey := r.key.fileKey
  coverageGapCutoffCeiling := none
  lastSequence := (s.fieldsOf r).lastSequence
  resources := [r]
  standaloneAcknowledgements := []
  timestamp := s.now

def gapAcknowledgementsOf : List CoverageGapAcknowledgement :=
  match (s.fieldsOf r).coverageGap with
  | some editCount =>
    if (s.fieldsOf r).coverageGapSequences ≠ [] then
      [⟨s.uuid, (s.fieldsOf r).coverageGapSequences, editCount⟩]
    else []
  | none => []

def recordStandaloneAcknowledgement (lastSequence : Nat) : Store :=
  let gaps := s.gapAcknowledgementsOf r
  ({ s with
    uuid := s.uuid + 1
    acknowledged := s.acknowledged ++ gaps.map (Prod.mk r.key.fileKey) }).restoreStandaloneAcknowledgements [(r.key, {
      timestamp := s.now
      fileKey := r.key.fileKey
      lastSequence := lastSequence
      coverageGapAcknowledgements := gaps })]

/-- `_flushStandalone` after its resource was prepared: commit at once, then leave an
acknowledgement for the next flush of the file. -/
def finishStandalone : Store :=
  let p := s.standaloneFlush r
  let committed := (({ s with uuid := s.uuid + 1 }).setPrepared p).commitFlushNow p.token
  committed.1.recordStandaloneAcknowledgement r p.lastSequence

end Store

end Fumie.AgentHost.EditAttribution
