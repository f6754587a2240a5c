import Fumie.Base.Buffer
import Fumie.Base.Strings
import Fumie.Lib.KeyedFold

/-!
# Session diffs

`node/sessionDiffAggregator.ts` over the file edits of `node/sessionDatabase.ts`: the edits
of a session, of a turn, or of the databases of several chats are gathered by file, and of
every file the content before its first edit is compared with the content after its last.

The text decoder, the line counts and `URI.file` are parameters, and so is the containment
test of a folder scope. A content URI is kept as the fields it encodes.
-/

namespace Fumie.AgentHost

open Fumie.Lib Fumie.Base

namespace Diffs

inductive FileEditKind where
  | edit
  | create
  | delete
  | rename
  deriving DecidableEq

/-- A row of `file_edits`. -/
structure FileEdit where
  turnId : JsString
  toolCallId : JsString
  filePath : JsString
  kind : FileEditKind
  originalPath : Option JsString
  beforeContent : Option Bytes
  afterContent : Option Bytes
  deriving DecidableEq

/-- The rows of `file_edits` in the order of their row ids. -/
structure SessionDatabase where
  rows : List FileEdit
  primaryKey : (rows.map fun row => (row.toolCallId, row.filePath)).Nodup

namespace SessionDatabase

variable (db : SessionDatabase)

def getAllFileEdits : List FileEdit := db.rows

def getFileEditsByTurn (turnId : JsString) : List FileEdit :=
  db.rows.filter fun row => row.turnId = turnId

def readFileEditContent (toolCallId filePath : JsString) : Option FileEdit :=
  db.rows.find? fun row => row.toolCallId = toolCallId ∧ row.filePath = filePath

end SessionDatabase

structure DiffCountResult where
  added : Nat
  removed : Nat
  deriving DecidableEq

/-- What the aggregator calls. -/
structure DiffServices where
  /-- `new TextDecoder().decode`. -/
  decode : Bytes → JsString
  decode_nil : decode [] = []
  computeDiffCounts : (original modified : JsString) → DiffCountResult
  /-- `URI.file(path).toString()`. -/
  fileUri : JsString → JsString

inductive ContentPart where
  | before
  | after
  deriving DecidableEq

structure SessionDbUriFields where
  sessionUri : JsString
  toolCallId : JsString
  filePath : JsString
  part : ContentPart
  deriving DecidableEq

structure FileSide where
  uri : JsString
  content : SessionDbUriFields
  deriving DecidableEq

structure SessionFileDiff where
  before : Option FileSide
  after : Option FileSide
  diff : DiffCountResult
  deriving DecidableEq

def getFileEditUri (diff : SessionFileDiff) : Option JsString :=
  (diff.after.map FileSide.uri).or (diff.before.map FileSide.uri)

structure FileIdentity where
  terminalPath : JsString
  firstToolCallId : JsString
  firstFilePath : JsString
  firstKind : FileEditKind
  firstSourceIdx : Nat
  lastToolCallId : JsString
  lastFilePath : JsString
  lastKind : FileEditKind
  lastSourceIdx : Nat

def createSessionFileDiff (services : DiffServices) (beforeSessionUri afterSessionUri : JsString)
    (identity : FileIdentity) (diff : DiffCountResult) : SessionFileDiff where
  before :=
    if identity.firstKind ≠ .create then
      some
        { uri := services.fileUri identity.firstFilePath
          content :=
            { sessionUri := beforeSessionUri
              toolCallId := identity.firstToolCallId
              filePath := identity.firstFilePath
              part := .before } }
    else none
  after :=
    if identity.lastKind ≠ .delete then
      some
        { uri := services.fileUri identity.terminalPath
          content :=
            { sessionUri := afterSessionUri
              toolCallId := identity.lastToolCallId
              filePath := identity.lastFilePath
              part := .after } }
    else none
  diff

structure SessionDiffSource where
  sessionUri : JsString
  db : SessionDatabase

/-! ## The identity graph -/

def renamedFrom (edit : FileEdit) : Option JsString :=
  if edit.kind = .rename then edit.originalPath.filter (· ≠ []) else none

def startPath (edit : FileEdit) : JsString := (renamedFrom edit).getD edit.filePath

def FileIdentity.new (edit : FileEdit) (sourceIdx : Nat) : FileIdentity where
  terminalPath := edit.filePath
  firstToolCallId := edit.toolCallId
  firstFilePath := startPath edit
  firstKind := edit.kind
  firstSourceIdx := sourceIdx
  lastToolCallId := edit.toolCallId
  lastFilePath := edit.filePath
  lastKind := edit.kind
  lastSourceIdx := sourceIdx

def FileIdentity.update (identity : FileIdentity) (edit : FileEdit) (sourceIdx : Nat) :
    FileIdentity :=
  { identity with
    terminalPath := edit.filePath
    lastToolCallId := edit.toolCallId
    lastFilePath := edit.filePath
    lastKind := edit.kind
    lastSourceIdx := sourceIdx }

/-- The maps that the loops over the edits fill. The three loops differ in how they make the
key of a file they have not seen. -/
structure IdentityGraph (κ : Type) where
  pathToIdentityKey : Record JsString κ
  identities : Record κ FileIdentity
  nextIdentitySeq : Nat

namespace IdentityGraph

variable {κ : Type} [DecidableEq κ]

def empty : IdentityGraph κ := ⟨.empty, .empty, 0⟩

variable (mint : Nat → JsString → κ)

section

variable (graph : IdentityGraph κ)

variable (edit : FileEdit)

def keyOf : κ :=
  (graph.pathToIdentityKey.get (startPath edit)).getD (mint graph.nextIdentitySeq (startPath edit))

def paths (key : κ) : Record JsString κ :=
  match renamedFrom edit with
  | some originalPath => (graph.pathToIdentityKey.set edit.filePath key).delete originalPath
  | none => graph.pathToIdentityKey.set edit.filePath key

def addEdit (edit : FileEdit × Nat) : IdentityGraph κ :=
  let key := graph.keyOf mint edit.1
  { pathToIdentityKey := graph.paths edit.1 key
    identities :=
      match graph.identities.get key with
      | none => graph.identities.set key (.new edit.1 edit.2)
      | some existing => graph.identities.set key (existing.update edit.1 edit.2)
    nextIdentitySeq :=
      if (graph.pathToIdentityKey.get (startPath edit.1)).isSome then graph.nextIdentitySeq
      else graph.nextIdentitySeq + 1 }

end

def build (edits : List (FileEdit × Nat)) : IdentityGraph κ := edits.foldl (addEdit mint) empty

end IdentityGraph

def pathKey (_ : Nat) (path : JsString) : JsString := path

def mintedKey (seq : Nat) (_ : JsString) : Nat := seq

/-! ## Diffs -/

section

variable (services : DiffServices)

def textOf (content : Option Bytes) : JsString :=
  match content with
  | some bytes => services.decode bytes
  | none => []

def identityDiff (firstSource lastSource : SessionDiffSource) (identity : FileIdentity) :
    Option SessionFileDiff :=
  let beforeText :=
    if identity.firstKind = .create then []
    else textOf services ((firstSource.db.readFileEditContent identity.firstToolCallId
      identity.firstFilePath).bind FileEdit.beforeContent)
  let afterText :=
    if identity.lastKind = .delete then []
    else textOf services ((lastSource.db.readFileEditContent identity.lastToolCallId
      identity.lastFilePath).bind FileEdit.afterContent)
  if beforeText = afterText then none
  else
    some (createSessionFileDiff services firstSource.sessionUri lastSource.sessionUri identity
      (services.computeDiffCounts beforeText afterText))

/-- `!folderScope || isPathWithinFolderScope(identity.terminalPath, folderScope)`. -/
def inScope (folderScope : Option (JsString → Bool)) (identity : FileIdentity) : Bool :=
  match folderScope with
  | some isPathWithinFolderScope => isPathWithinFolderScope identity.terminalPath
  | none => true

variable (previousDiffs : List SessionFileDiff) (source : SessionDiffSource)
  (sources : List SessionDiffSource)

def unionedEdits : List (FileEdit × Nat) :=
  sources.zipIdx.flatMap fun source => source.1.db.getAllFileEdits.map fun edit => (edit, source.2)

def computeUnionedDiffs (folderScope : Option (JsString → Bool)) : List SessionFileDiff :=
  (IdentityGraph.build pathKey (unionedEdits sources)).identities.entries.filterMap fun entry => do
    guard (inScope folderScope entry.2)
    let firstSource ← sources[entry.2.firstSourceIdx]?
    let lastSource ← sources[entry.2.lastSourceIdx]?
    identityDiff services firstSource lastSource entry.2

def computeTurnDiffs (turnId : JsString) (folderScope : Option (JsString → Bool)) :
    List SessionFileDiff :=
  let turnEdits := source.db.getFileEditsByTurn turnId
  (IdentityGraph.build mintedKey (turnEdits.map fun edit => (edit, 0))).identities.entries.filterMap
    fun entry => do
      guard (inScope folderScope entry.2)
      identityDiff services source source entry.2

/-! ## Incremental diffs -/

structure IncrementalDiffOptions where
  changedTurnId : JsString
  previousDiffs : List SessionFileDiff

def needsFullHistory (turnEdits : List FileEdit) : Bool :=
  turnEdits.any fun edit =>
    edit.kind = .rename ||
      (previousDiffs.map getFileEditUri).contains (some (services.fileUri edit.filePath))

def touchedIdentityKeys (changedTurnId : JsString) : IdentityGraph JsString →
    List (FileEdit × Nat) → List JsString
  | _, [] => []
  | graph, edit :: rest =>
    let touched := touchedIdentityKeys changedTurnId (graph.addEdit pathKey edit) rest
    if edit.1.turnId = changedTurnId then graph.keyOf pathKey edit.1 :: touched else touched

/-- `new Map(previousDiffs.map(d => [getFileEditUri(d), d])).get(uri)`. -/
def previousDiff? (uri : JsString) : Option SessionFileDiff :=
  previousDiffs.reverse.find? fun diff => getFileEditUri diff = some uri

def computeIncrementalDiffs (incremental : IncrementalDiffOptions) : List SessionFileDiff :=
  let turnEdits := source.db.getFileEditsByTurn incremental.changedTurnId
  if turnEdits.isEmpty then incremental.previousDiffs
  else if needsFullHistory services incremental.previousDiffs turnEdits then
    let edits := source.db.getAllFileEdits.map fun edit => (edit, 0)
    let touched := touchedIdentityKeys incremental.changedTurnId .empty edits
    (IdentityGraph.build pathKey edits).identities.entries.filterMap fun entry =>
      if entry.1 ∈ touched then identityDiff services source source entry.2
      else previousDiff? incremental.previousDiffs (services.fileUri entry.2.terminalPath)
  else
    let edits := turnEdits.map fun edit => (edit, 0)
    ((IdentityGraph.build pathKey edits).identities.entries.filterMap fun entry =>
      identityDiff services source source entry.2) ++ incremental.previousDiffs

inductive SessionDiffsError where
  | folderScopeInIncrementalMode

def computeSessionDiffs (incremental : Option IncrementalDiffOptions)
    (folderScope : Option (JsString → Bool)) : Except SessionDiffsError (List SessionFileDiff) :=
  match incremental, folderScope with
  | some _, some _ => .error .folderScopeInIncrementalMode
  | none, folderScope => .ok (computeUnionedDiffs services [source] folderScope)
  | some incremental, none => .ok (computeIncrementalDiffs services source incremental)

end

end Diffs

end Fumie.AgentHost
