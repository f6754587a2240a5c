import Fumie.Lib.Property
import Fumie.AgentHost.Server.StateManager

/-!
# Session summaries on the root channel

`CatalogSummary` is a session summary with the fields only the catalog has. A root client
keeps the summary of each `root/sessionAdded` and merges each `root/sessionSummaryChanged`
into it. `merge_summaryChanges` is the round trip of one delta: what `flush` writes, once
it went over the wire and was normalized, turns the last notified summary into the current
one, for the fields that a delta compares.
-/

namespace Fumie.AgentHost

open Fumie.Lib List Record

structure CatalogSummary extends SessionSummary where
  createdAt : Timestamp
  changes : Option Payload
  deriving DecidableEq, Inhabited

structure SessionSummaryChanges where
  title : Option String
  status : Option SessionStatus
  modifiedAt : Option Timestamp
  activity : Property String
  origin : Property Payload
  project : Property Payload
  workingDirectories : Property (List Uri)
  annotations : Property Payload
  changes : Property Payload
  _meta : Property Json
  deriving DecidableEq

structure PartialSummary where
  title : Option String
  status : Option SessionStatus
  modifiedAt : Option Timestamp
  activity : Option (Option String)
  origin : Option (Option Payload)
  project : Option (Option Payload)
  workingDirectories : Option (Option (List Uri))
  annotations : Option (Option Payload)
  changes : Option (Option Payload)
  _meta : Option (Option Json)

namespace SessionSummaryChanges

def none : SessionSummaryChanges where
  title := .none
  status := .none
  modifiedAt := .none
  activity := .absent
  origin := .absent
  project := .absent
  workingDirectories := .absent
  annotations := .absent
  changes := .absent
  _meta := .absent

def overJson (changes : SessionSummaryChanges) : SessionSummaryChanges :=
  { changes with
    activity := changes.activity.overJson
    origin := changes.origin.overJson
    project := changes.project.overJson
    workingDirectories := changes.workingDirectories.overJson
    annotations := changes.annotations.overJson
    changes := changes.changes.overJson
    _meta := changes._meta.overJson }

end SessionSummaryChanges

def normalizeSessionSummaryChanges (changes : SessionSummaryChanges) : PartialSummary where
  title := changes.title
  status := changes.status
  modifiedAt := changes.modifiedAt
  activity := changes.activity.carried
  origin := changes.origin.carried
  project := changes.project.carried
  workingDirectories := changes.workingDirectories.carried
  annotations := changes.annotations.carried
  changes := changes.changes.carried
  _meta := changes._meta.carried

variable (client : RootClient) (notifications : List RootNotification) (summary : CatalogSummary)

namespace CatalogSummary

def merge (summary : CatalogSummary) (changes : PartialSummary) : CatalogSummary :=
  { summary with
    title := changes.title.getD summary.title
    status := changes.status.getD summary.status
    modifiedAt := changes.modifiedAt.getD summary.modifiedAt
    activity := changes.activity.getD summary.activity
    origin := changes.origin.getD summary.origin
    project := changes.project.getD summary.project
    workingDirectories := changes.workingDirectories.getD summary.workingDirectories
    annotations := changes.annotations.getD summary.annotations
    changes := changes.changes.getD summary.changes
    _meta := changes._meta.getD summary._meta }

def summaryChanges (current lastNotified : CatalogSummary) : SessionSummaryChanges :=
  { SessionSummaryChanges.none with
    title := Property.changed current.title lastNotified.title
    status := Property.changed current.status lastNotified.status
    activity := .clearing current.activity lastNotified.activity
    modifiedAt := Property.changed current.modifiedAt lastNotified.modifiedAt
    project := .clearing current.project lastNotified.project
    changes := .clearing current.changes lastNotified.changes
    workingDirectories := .clearing current.workingDirectories lastNotified.workingDirectories
    _meta := .clearing current._meta lastNotified._meta }

def seeded (summary : CatalogSummary) : CatalogSummary := { summary with origin := none }

theorem seeded_eq_self {summary : CatalogSummary} (h : summary.origin = none) :
    summary.seeded = summary := by
  unfold seeded
  rw [← h]

/-- The fields no delta carries. -/
structure SameFixed (a b : CatalogSummary) : Prop where
  resource : a.resource = b.resource
  provider : a.provider = b.provider
  createdAt : a.createdAt = b.createdAt
  origin : a.origin = b.origin
  annotations : a.annotations = b.annotations

theorem SameFixed.refl (a : CatalogSummary) : SameFixed a a := ⟨rfl, rfl, rfl, rfl, rfl⟩

theorem SameFixed.trans {a b c : CatalogSummary} (h : SameFixed a b) (h' : SameFixed b c) :
    SameFixed a c :=
  ⟨h.resource.trans h'.resource, h.provider.trans h'.provider,
    h.createdAt.trans h'.createdAt, h.origin.trans h'.origin,
    h.annotations.trans h'.annotations⟩

def receive (summary : CatalogSummary) (changes : SessionSummaryChanges) : CatalogSummary :=
  summary.merge (normalizeSessionSummaryChanges changes.overJson)

theorem receive_summaryChanges {current lastNotified : CatalogSummary}
    (h : SameFixed lastNotified current) :
    lastNotified.receive (summaryChanges current lastNotified) = current := by
  obtain ⟨⟨⟨provider, title, status, activity, origin, project, directories, annotations⟩,
    resource, modifiedAt, metadata⟩, createdAt, changes⟩ := current
  obtain ⟨hresource, hprovider, hcreatedAt, horigin, hannotations⟩ := h
  subst hresource hprovider hcreatedAt horigin hannotations
  simp [receive, merge, normalizeSessionSummaryChanges, SessionSummaryChanges.overJson,
    summaryChanges, SessionSummaryChanges.none]

theorem receive_none : summary.receive SessionSummaryChanges.none = summary := rfl

end CatalogSummary

/-! ## The client -/

inductive RootNotification where
  | sessionAdded (summary : CatalogSummary)
  | sessionRemoved (session : Uri)
  | sessionSummaryChanged (session : Uri) (changes : SessionSummaryChanges)
  deriving DecidableEq

abbrev RootClient := Record Uri CatalogSummary

namespace RootClient

def receive (client : RootClient) : RootNotification → RootClient
  | .sessionAdded summary => client.set summary.resource summary
  | .sessionRemoved session => client.delete session
  | .sessionSummaryChanged session changes =>
    match client.get session with
    | none => client
    | some summary => client.set session (summary.receive changes)

def listen (notifications : List RootNotification) : RootClient :=
  notifications.foldl receive .empty

theorem listen_append (n : RootNotification) :
    listen (notifications ++ [n]) = (listen notifications).receive n := by
  simp [listen]

theorem get_added (session : Uri) :
    (client.receive (.sessionAdded summary)).get session =
      if summary.resource = session then some summary else client.get session :=
  get_set _ _ _ _

theorem get_removed (removed session : Uri) :
    (client.receive (.sessionRemoved removed)).get session =
      if removed = session then none else client.get session :=
  get_delete _ _ _

theorem get_changed (changed session : Uri) (changes : SessionSummaryChanges) :
    (client.receive (.sessionSummaryChanged changed changes)).get session =
      if changed = session then (client.get session).map (·.receive changes)
      else client.get session := by
  unfold receive
  dsimp only
  by_cases h : changed = session
  · subst h
    rw [if_pos rfl]
    split
    · rename_i hnone
      rw [hnone]
      rfl
    · rename_i summary hsome
      rw [hsome, get_set, if_pos rfl]
      rfl
  · rw [if_neg h]
    split
    · rfl
    · rw [get_set, if_neg h]

def Within (client earlier : RootClient) : Prop :=
  ∀ session summary, client.get session = some summary → earlier.get session = some summary

theorem Within.receive {client earlier : RootClient} (h : client.Within earlier)
    (n : RootNotification) : (client.receive n).Within (earlier.receive n) := by
  intro session summary hget
  cases n with
  | sessionAdded added =>
    rw [get_added] at hget ⊢
    split at hget
    · rename_i heq
      rw [if_pos heq]
      exact hget
    · rename_i hne
      rw [if_neg hne]
      exact h session summary hget
  | sessionRemoved removed =>
    rw [get_removed] at hget ⊢
    split at hget
    · cases hget
    · rename_i hne
      rw [if_neg hne]
      exact h session summary hget
  | sessionSummaryChanged changed changes =>
    rw [get_changed] at hget ⊢
    split at hget
    · rename_i heq
      obtain ⟨cached, hcached, hsummary⟩ := Option.map_eq_some_iff.mp hget
      rw [if_pos heq, h session cached hcached]
      exact congrArg some hsummary
    · rename_i hne
      rw [if_neg hne]
      exact h session summary hget

theorem Within.foldl {client earlier : RootClient} (h : client.Within earlier)
    (notifications : List RootNotification) :
    Within (notifications.foldl RootClient.receive client)
      (notifications.foldl RootClient.receive earlier) := by
  induction notifications generalizing client earlier with
  | nil => exact h
  | cons n rest ih => exact ih (h.receive n)

theorem listen_drop (n : Nat) : (listen (notifications.drop n)).Within (listen notifications) := by
  have hsplit : listen notifications =
      (notifications.drop n).foldl receive (listen (notifications.take n)) := by
    unfold listen
    rw [← foldl_append, take_append_drop]
  rw [hsplit]
  apply Within.foldl
  intro session summary hget
  cases hget

end RootClient

end Fumie.AgentHost
