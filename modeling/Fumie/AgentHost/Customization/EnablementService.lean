import Fumie.AgentHost.Customization.CustomizationEnablement
import Fumie.Lib.Runs

/-!
# Customization enablement service

Global and workspace decisions are kept for the whole host and bounded by the order in
which they were last written; session decisions belong to their session and are read
from its database once. A write of one scope is carried out by applying the whole list
of resolved decisions again with that scope replaced, and a write to a session that is
not resolved yet waits in `pendingReplacements`.

Listeners, the log and the copies written to disk are not modelled. A working directory
is the canonical URI of the first effective directory.
-/

namespace Fumie.AgentHost

open Fumie.Lib

/-! ## Targets and answers -/

structure CustomizationEnablementTarget where
  id : String
  type : CustomizationType
  name : String
  /-- `source.toString()`. -/
  source : String
  owningPluginSource : Option String
  /-- Whether the client supplied this customization and owns its global decision. -/
  isClientBundled : Bool
  deriving DecidableEq

def CustomizationType.text : CustomizationType → String
  | .plugin => "plugin"
  | .directory => "directory"
  | .agent => "agent"
  | .skill => "skill"
  | .prompt => "prompt"
  | .rule => "rule"
  | .hook => "hook"
  | .mcpServer => "mcpServer"

def getCustomizationEnablementKey (target : CustomizationEnablementTarget)
    (kind : CustomizationEnablementKind) : Except String String :=
  if kind = .session then .ok target.id
  else
    match target.type with
    | .plugin => .ok target.source
    | .mcpServer =>
      match target.owningPluginSource with
      | some owner => .ok s!"{owner}#mcp={target.name}"
      | none => .ok s!"mcpServers#{target.name}"
    | other =>
      .error s!"Enablement is only supported for plugins and MCP servers, not {other.text}"

inductive WorkingDirectory where
  | directory (uri : Uri)
  | workspaceless
  deriving DecidableEq

abbrev WorkingDirectoryState := Option WorkingDirectory

inductive PendingReason where
  | session | workingDirectory
  deriving DecidableEq

inductive CustomizationEnablementResolution where
  | resolved (enablement : List CustomizationEnablement) (enabled : Bool)
      (workingDirectory : WorkingDirectory)
  | pending (reason : PendingReason)
  deriving DecidableEq

/-! ## The store of durable decisions -/

/-- A stored decision, by scope. `_reconcileLru` keeps no entry of another shape. -/
inductive LruEntry where
  | global (key : String)
  | workspace (key : String) (workingDirectory : Uri)
  deriving DecidableEq

structure PersistedEnablement where
  global : Record String Bool
  workingDirectories : Record Uri (Record String Bool)

structure SessionInfo where
  workspaceless : Bool
  worktreePending : Bool
  effectiveWorkingDirectories : Option (List Uri)

inductive EnablementReplacement where
  | full (enablement : List CustomizationEnablement)
  | scopedTo (scope : CustomizationEnablementKind) (enabled : Bool)

structure PendingReplacement where
  target : CustomizationEnablementTarget
  enablement : Option (List CustomizationEnablement)
  /-- The scoped replacements, by scope, in the order they are applied. -/
  scopedReplacements : List (CustomizationEnablementKind × Bool)

structure CustomizationEnablementService where
  persistent : PersistedEnablement
  lru : List LruEntry
  clientGlobalEnablement : Record Uri (Record String Bool)
  sessionEnablement : Record Uri (Record String Bool)
  /-- The sessions whose load was started. -/
  sessionLoads : List Uri
  /-- By session and persistent key, which the source joins with a NUL. -/
  pendingReplacements : Record (Uri × String) PendingReplacement
  sessions : Uri → SessionInfo
  /-- The decisions that were ever evicted, in order. No operation reads it. -/
  evicted : List LruEntry

def MAX_PERSISTED_DECISIONS : Nat := 512

namespace PersistedEnablement

section

variable (p : PersistedEnablement)

def decision : LruEntry → Option Bool
  | .global key => p.global.get key
  | .workspace key workingDirectory =>
    (p.workingDirectories.get workingDirectory).bind fun values => values.get key

def drop : LruEntry → PersistedEnablement
  | .global key => { p with global := p.global.delete key }
  | .workspace key workingDirectory =>
    match p.workingDirectories.get workingDirectory with
    | none => p
    | some values =>
      { p with workingDirectories :=
          p.workingDirectories.set workingDirectory (values.delete key) }

/-- Directories without a decision are left out. -/
def dropEmpty : PersistedEnablement :=
  { p with workingDirectories := p.workingDirectories.filter fun _ values => !values.isEmpty }

def redundantWorkspaceDecisions (key : String) : List LruEntry :=
  match p.global.get key with
  | none => []
  | some inherited =>
    (p.workingDirectories.entries.filter fun (_, values) => values.get key = some inherited).map
      fun (directory, _) => .workspace key directory

end

def entries (p : PersistedEnablement) : List LruEntry :=
  (p.global.keys.insertionSort (· ≤ ·)).map .global ++
    p.workingDirectories.entries.flatMap fun (directory, values) =>
      (values.keys.insertionSort (· ≤ ·)).map fun key => .workspace key directory

end PersistedEnablement

def removeLru (lru : List LruEntry) (entry : LruEntry) : List LruEntry :=
  lru.filter fun other => other ≠ entry

def touchLru (lru : List LruEntry) (entry : LruEntry) : List LruEntry :=
  removeLru lru entry ++ [entry]

def setPersistentDecision (entry : LruEntry) (decisions : Record String Bool)
    (lru : List LruEntry) (key : String) (enabled : Option Bool) (inherited : Bool) :
    Record String Bool × List LruEntry :=
  match enabled with
  | none => (decisions.delete key, removeLru lru entry)
  | some enabled =>
    if enabled = inherited then (decisions.delete key, removeLru lru entry)
    else (decisions.set key enabled, touchLru lru entry)

def evictLru (p : PersistedEnablement) : List LruEntry →
    PersistedEnablement × List LruEntry × List LruEntry
  | [] => (p, [], [])
  | entry :: rest =>
    if MAX_PERSISTED_DECISIONS < (entry :: rest).length then
      let (p, lru, evicted) := evictLru (p.drop entry) rest
      (p, lru, entry :: evicted)
    else (p, entry :: rest, [])

namespace CustomizationEnablementService

section

variable (s : CustomizationEnablementService)

def persist : CustomizationEnablementService :=
  let (persistent, lru, evicted) := evictLru s.persistent s.lru
  { s with persistent := persistent.dropEmpty, lru, evicted := s.evicted ++ evicted }

/-! ## Resolution -/

def getWorkingDirectoryState (session : Uri) : WorkingDirectoryState :=
  if (s.sessions session).workspaceless then some .workspaceless
  else if (s.sessions session).worktreePending then none
  else
    match ((s.sessions session).effectiveWorkingDirectories).bind List.head? with
    | none => none
    | some directory => some (.directory directory)

def clientGlobal (session : Uri) (key : String) : Option Bool :=
  (s.clientGlobalEnablement.get session).bind fun decisions => decisions.get key

def workspaceDecision (key : String) : WorkingDirectory → Option (Uri × Bool)
  | .directory uri => (s.persistent.decision (.workspace key uri)).map fun enabled => (uri, enabled)
  | .workspaceless => none

section

variable (session : Uri)

section

variable (key : String)

def globalDecision : Option Bool :=
  match s.persistent.global.get key with
  | some enabled => some enabled
  | none => s.clientGlobal session key

def globalEnablement : Bool := (s.globalDecision session key).getD defaultCustomizationEnabled

def workspaceInheritedEnablement (workingDirectory : Uri) : Bool :=
  (s.persistent.decision (.workspace key workingDirectory)).getD (s.globalEnablement session key)

def resolve
    (target : CustomizationEnablementTarget) : Except String CustomizationEnablementResolution :=
  match s.sessionEnablement.get session with
  | none => .ok (.pending .session)
  | some sessionEnablement =>
    match s.getWorkingDirectoryState session with
    | none => .ok (.pending .workingDirectory)
    | some workingDirectory => do
      let persistentKey ← getCustomizationEnablementKey target .global
      let enablement := sortCustomizationEnablement
        (decisionsOf (sessionEnablement.get target.id)
          (s.workspaceDecision persistentKey workingDirectory)
          (s.globalDecision session persistentKey))
      return .resolved enablement (isCustomizationEnabled enablement) workingDirectory

/-! ## Writes of one scope -/

def clientBase : Bool := (s.clientGlobal session key).getD defaultCustomizationEnabled

def setClientGlobal (enabled : Bool) : CustomizationEnablementService :=
  let decisions := (s.clientGlobalEnablement.get session).getD .empty
  { s with clientGlobalEnablement :=
      s.clientGlobalEnablement.set session (decisions.set key enabled) }

def removeRedundantWorkspaceDecisions : CustomizationEnablementService :=
  let redundant := s.persistent.redundantWorkspaceDecisions key
  { s with
    persistent := redundant.foldl PersistedEnablement.drop s.persistent
    lru := redundant.foldl removeLru s.lru }

section

variable (enabled : Option Bool)

def putGlobal : CustomizationEnablementService :=
  let (global, lru) := setPersistentDecision (.global key) s.persistent.global s.lru key enabled
    (s.clientBase session key)
  { s with persistent := { s.persistent with global }, lru }

/-- `_setGlobal` before the store is persisted. -/
def writeGlobal : CustomizationEnablementService :=
  (s.putGlobal session key enabled).removeRedundantWorkspaceDecisions key

def setGlobal : CustomizationEnablementService := (s.writeGlobal session key enabled).persist

end

/-- `_setWorkspace` before the store is persisted. -/
def writeWorkspace
    (workingDirectory : Uri) (enabled : Option Bool) : CustomizationEnablementService :=
  let workspace := (s.persistent.workingDirectories.get workingDirectory).getD .empty
  let (workspace, lru) := setPersistentDecision (.workspace key workingDirectory) workspace s.lru
    key enabled (s.globalEnablement session key)
  { s with
    persistent := { s.persistent with
      workingDirectories := s.persistent.workingDirectories.set workingDirectory workspace }
    lru }

def setWorkspace
    (workingDirectory : Uri) (enabled : Option Bool) : CustomizationEnablementService :=
  (s.writeWorkspace session key workingDirectory enabled).persist

def sessionInherited : WorkingDirectory → Bool
  | .directory uri => s.workspaceInheritedEnablement session key uri
  | .workspaceless => s.globalEnablement session key

end

def setSession
    (target : CustomizationEnablementTarget) (key : String) (workingDirectory : WorkingDirectory)
    (enabled : Option Bool) : CustomizationEnablementService :=
  match s.sessionEnablement.get session with
  | none => s
  | some enablement =>
    let enablement :=
      match enabled with
      | none => enablement.delete target.id
      | some enabled =>
        if enabled = s.sessionInherited session key workingDirectory then
          enablement.delete target.id
        else enablement.set target.id enabled
    { s with sessionEnablement := s.sessionEnablement.set session enablement }

end

/-! ## Replacements -/

/-- `new Map(enablement.map(entry => [entry.kind, entry])).get(kind)?.enabled`. -/
def byKind (enablement : List CustomizationEnablement) (kind : CustomizationEnablementKind) :
    Option Bool :=
  (enablement.reverse.find? fun entry => entry.kind = kind).map (·.enabled)

def getGlobalReplacement (enablement : List CustomizationEnablement) : Option Bool :=
  (enablement.find? fun entry => entry.kind = .global).map (·.enabled)

def enablementEntry (scope : CustomizationEnablementKind) (enabled : Bool)
    (workingDirectory : WorkingDirectory) : Except String CustomizationEnablement :=
  match scope with
  | .global => .ok (.global enabled)
  | .workspace =>
    match workingDirectory with
    | .directory uri => .ok (.workspace uri enabled)
    | .workspaceless => .error "Cannot record workspace enablement for a workspace-less session"
  | .session => .ok (.session enabled)

def replacementEnablement (current : List CustomizationEnablement)
    (workingDirectory : WorkingDirectory) :
    EnablementReplacement → Except String (List CustomizationEnablement)
  | .full enablement => .ok enablement
  | .scopedTo scope enabled => do
    let entry ← enablementEntry scope enabled workingDirectory
    return withCustomizationEnablement current scope entry

section

variable (session : Uri)

section

variable (target : CustomizationEnablementTarget)

def replaceNonGlobalEnablement (key : String)
    (enablement : List CustomizationEnablement) (workingDirectory : WorkingDirectory) :
    CustomizationEnablementService :=
  let s :=
    match workingDirectory with
    | .directory uri => s.setWorkspace session key uri (byKind enablement .workspace)
    | .workspaceless => s
  s.setSession session target key workingDirectory (byKind enablement .session)

/-- The global decision goes first, so that the other scopes inherit the new value. -/
def applyReplacement (key : String)
    (enablement : List CustomizationEnablement) (workingDirectory : WorkingDirectory) :
    CustomizationEnablementService :=
  (s.setGlobal session key (getGlobalReplacement enablement)).replaceNonGlobalEnablement session
    target key enablement workingDirectory

def queueReplacement (key : String) (replacement : EnablementReplacement) :
    CustomizationEnablementService :=
  let pending : PendingReplacement :=
    match replacement with
    | .full enablement => { target, enablement := some enablement, scopedReplacements := [] }
    | .scopedTo scope enabled =>
      let existing := s.pendingReplacements.get (session, key)
      { target
        enablement := existing.bind (·.enablement)
        scopedReplacements := (((existing.map (·.scopedReplacements)).getD []).filter
          fun entry => entry.1 ≠ scope) ++ [(scope, enabled)] }
  { s with pendingReplacements := s.pendingReplacements.set (session, key) pending }

/-- A write to a session that is not resolved: global decisions take effect at once. -/
def deferReplacement (key : String) : EnablementReplacement → CustomizationEnablementService
  | .full enablement =>
    (s.setGlobal session key (getGlobalReplacement enablement)).queueReplacement session target key
      (.full enablement)
  | .scopedTo scope enabled =>
    if scope = .global then
      let s := s.setGlobal session key (some enabled)
      if (s.pendingReplacements.get (session, key)).isSome then
        s.queueReplacement session target key (.scopedTo scope enabled)
      else s
    else s.queueReplacement session target key (.scopedTo scope enabled)

/-- `_replaceEnablement`. The callers have computed the persistent key before, for their
snapshot of the decisions, so a target without one changes nothing. -/
def replace (replacement : EnablementReplacement) :
    CustomizationEnablementService × Except String CustomizationEnablementResolution :=
  match getCustomizationEnablementKey target .global with
  | .error e => (s, .error e)
  | .ok key =>
    match s.resolve session target with
    | .error e => (s, .error e)
    | .ok (.pending reason) =>
      (s.deferReplacement session target key replacement, .ok (.pending reason))
    | .ok (.resolved enablement _ workingDirectory) =>
      match replacementEnablement enablement workingDirectory replacement with
      | .error e => (s, .error e)
      | .ok enablement =>
        let s := s.applyReplacement session target key enablement workingDirectory
        (s, s.resolve session target)

def setEnablement (kind : CustomizationEnablementKind) (enabled : Bool) :
    CustomizationEnablementService × Except String CustomizationEnablementResolution :=
  s.replace session target (.scopedTo kind enabled)

variable (enablement : List CustomizationEnablement)

def replaceEnablement :
    CustomizationEnablementService × Except String CustomizationEnablementResolution :=
  s.replace session target (.full enablement)

def applyClientGlobalEnablement :
    CustomizationEnablementService × Except String CustomizationEnablementResolution :=
  match getGlobalReplacement enablement with
  | none =>
    (s, .error s!"Client customization {target.source} is missing its required global enablement entry")
  | some enabled =>
    if target.isClientBundled then
      match getCustomizationEnablementKey target .global with
      | .error e => (s, .error e)
      | .ok key =>
        let s := s.setClientGlobal session key enabled
        (s, s.resolve session target)
    else (s, s.resolve session target)

end

/-! ## Replay of deferred writes -/

def replayScoped (workingDirectory : WorkingDirectory) (enablement : List CustomizationEnablement)
    (replacements : List (CustomizationEnablementKind × Bool)) :
    Except String (List CustomizationEnablement) :=
  replacements.foldlM (fun enablement entry =>
    replacementEnablement enablement workingDirectory (.scopedTo entry.1 entry.2)) enablement

/-- One turn of `_applyPendingReplacements`; `none` when the session is not resolved. -/
def applyPending (key : String) (replacement : PendingReplacement) :
    Except String (Option CustomizationEnablementService) := do
  match ← s.resolve session replacement.target with
  | .pending _ => return none
  | .resolved enablement _ workingDirectory =>
    let enablement ← replayScoped workingDirectory (replacement.enablement.getD enablement)
      replacement.scopedReplacements
    let s := s.applyReplacement session replacement.target key enablement workingDirectory
    return some { s with pendingReplacements := s.pendingReplacements.delete (session, key) }

def applyPendings (s : CustomizationEnablementService) (session : Uri) :
    List ((Uri × String) × PendingReplacement) → CustomizationEnablementService
  | [] => s
  | ((owner, key), replacement) :: rest =>
    if owner = session then
      match s.applyPending session key replacement with
      | .error _ => s
      | .ok none => s.applyPendings session rest
      | .ok (some s) => s.applyPendings session rest
    else s.applyPendings session rest

def applyPendingReplacements : CustomizationEnablementService :=
  s.applyPendings session s.pendingReplacements.entries

/-! ## Loading -/

def initializeSession : CustomizationEnablementService :=
  if session ∈ s.sessionLoads then s
  else { s with sessionLoads := s.sessionLoads ++ [session] }

/-- The end of `_loadSessionEnablement`: `read` are the decisions of the session's
database, none of them where it cannot be read. A session is loaded once. -/
def finishLoad (read : Record String Bool) : Option CustomizationEnablementService :=
  if session ∈ s.sessionLoads ∧ s.sessionEnablement.get session = none then
    some ({ s with sessionEnablement :=
      s.sessionEnablement.set session read }.applyPendingReplacements session)
  else none

end

end

/-- `_reconcileLru` before it evicts: the entries of stored decisions in the order of the
list, then the stored decisions it leaves out. -/
def reconcile (p : PersistedEnablement) (lru : List LruEntry) : List LruEntry :=
  let valid := lru.filter fun entry => entry ∈ p.entries
  valid ++ p.entries.filter fun entry => entry ∉ valid

def create (stored : PersistedEnablement) (storedLru : List LruEntry)
    (sessions : Uri → SessionInfo) : CustomizationEnablementService :=
  let (persistent, lru, evicted) := evictLru stored.dropEmpty (reconcile stored.dropEmpty storedLru)
  { persistent, lru, clientGlobalEnablement := .empty, sessionEnablement := .empty,
    sessionLoads := [], pendingReplacements := .empty, sessions, evicted }

/-! ## Runs -/

inductive EnablementEvent where
  | initializeSession (session : Uri)
  | finishLoad (session : Uri) (read : Record String Bool)
  /-- The state manager or the worktree has other answers about a session. -/
  | sessionChanged (session : Uri) (info : SessionInfo)
  /-- An envelope of the session that set or removed a working directory. -/
  | workingDirectoryEnvelope (session : Uri)
  | applyClientGlobalEnablement (session : Uri) (target : CustomizationEnablementTarget)
      (enablement : List CustomizationEnablement)
  | setEnablement (session : Uri) (target : CustomizationEnablementTarget)
      (kind : CustomizationEnablementKind) (enabled : Bool)
  | replaceEnablement (session : Uri) (target : CustomizationEnablementTarget)
      (enablement : List CustomizationEnablement)

def step (s : CustomizationEnablementService) :
    EnablementEvent → Option CustomizationEnablementService
  | .initializeSession session => some (s.initializeSession session)
  | .finishLoad session read => s.finishLoad session read
  | .sessionChanged session info =>
    some { s with sessions := Function.update s.sessions session info }
  | .workingDirectoryEnvelope session =>
    some ((s.initializeSession session).applyPendingReplacements session)
  | .applyClientGlobalEnablement session target enablement =>
    some (s.applyClientGlobalEnablement session target enablement).1
  | .setEnablement session target kind enabled =>
    some (s.setEnablement session target kind enabled).1
  | .replaceEnablement session target enablement =>
    some (s.replaceEnablement session target enablement).1

def system : System CustomizationEnablementService EnablementEvent :=
  .ofStep (fun s => ∃ stored storedLru sessions, s = create stored storedLru sessions) step

end CustomizationEnablementService

end Fumie.AgentHost
