import Fumie.AgentHost.Diffs.VirtualFiles

/-!
# Incremental diffs

The diffs of a session after one more turn, from those before it. With the full history
the identities are those of a full pass, and a file that the turn did not touch has the
diff it had; the diff is found again only under the URI of the file's last path. With the
edits of the turn alone the identities are those of a session that begins with the turn,
which are those of the full pass only where the turn's paths have no history.
-/

namespace Fumie.AgentHost

open Fumie.Lib Fumie.Base List Record JsString

variable {edits : List (FileEdit × Nat)} {key : JsString}

namespace Diffs

/-! ## Graphs -/

section

variable {κ : Type} [DecidableEq κ] {mint : Nat → JsString → κ} {graph : IdentityGraph κ}
  {edit : FileEdit × Nat}

theorem get_addEdit_ne {key : κ} (h : key ≠ graph.keyOf mint edit.1) :
    (graph.addEdit mint edit).identities.get key = graph.identities.get key := by
  unfold IdentityGraph.addEdit
  dsimp only
  split <;> rw [get_set, if_neg (Ne.symm h)]

theorem get_addEdit_self : (graph.addEdit mint edit).identities.get (graph.keyOf mint edit.1) =
      some (((graph.identities.get (graph.keyOf mint edit.1)).map fun identity =>
        identity.update edit.1 edit.2).getD (.new edit.1 edit.2)) := by
  unfold IdentityGraph.addEdit
  dsimp only
  cases hget : graph.identities.get (graph.keyOf mint edit.1) <;>
    exact (get_set _ _ _ _).trans (if_pos rfl)

structure Snapshots (edits : List (FileEdit × Nat)) (identity : FileIdentity) : Prop where
  first : ∃ edit ∈ edits, identity.firstToolCallId = edit.1.toolCallId ∧
    identity.firstSourceIdx = edit.2
  last : ∃ edit ∈ edits, identity.lastToolCallId = edit.1.toolCallId ∧
    identity.lastSourceIdx = edit.2

theorem snapshots_build (mint : Nat → JsString → κ) (edits : List (FileEdit × Nat)) (key : κ)
    (identity : FileIdentity) (h : (IdentityGraph.build mint edits).identities.get key = some identity) :
    Snapshots edits identity := by
  induction edits using reverseRecOn generalizing key identity with
  | nil => cases h
  | append_singleton edits edit ih =>
    have hedit : edit ∈ edits ++ [edit] := mem_append_right _ (mem_singleton_self _)
    have hmore : ∀ {identity}, Snapshots edits identity →
        ∃ e ∈ edits ++ [edit], identity.firstToolCallId = e.1.toolCallId ∧
          identity.firstSourceIdx = e.2 := by
      rintro identity ⟨⟨e, he, hfirst⟩, -⟩
      exact ⟨e, mem_append_left _ he, hfirst⟩
    rw [build_append] at h
    by_cases hkey : key = (IdentityGraph.build mint edits).keyOf mint edit.1
    · rw [hkey, get_addEdit_self] at h
      cases h
      cases hget : (IdentityGraph.build mint edits).identities.get
          ((IdentityGraph.build mint edits).keyOf mint edit.1) with
      | none => exact ⟨⟨edit, hedit, rfl, rfl⟩, ⟨edit, hedit, rfl, rfl⟩⟩
      | some existing =>
        have hfirst := hmore (ih _ existing hget)
        exact ⟨hfirst, ⟨edit, hedit, rfl, rfl⟩⟩
    · rw [get_addEdit_ne hkey] at h
      obtain ⟨e, he, hlast⟩ := (ih key identity h).last
      exact ⟨hmore (ih key identity h), ⟨e, mem_append_left _ he, hlast⟩⟩

end

/-! ## The last turn -/

structure LastTurn (source earlier : SessionDiffSource) (turnId : JsString)
    (turnRows : List FileEdit) : Prop where
  sessionUri : earlier.sessionUri = source.sessionUri
  rows : source.db.rows = earlier.db.rows ++ turnRows
  turn : ∀ row ∈ turnRows, row.turnId = turnId
  earlierTurns : ∀ row ∈ earlier.db.rows, row.turnId ≠ turnId
  toolCalls : ∀ row ∈ earlier.db.rows, ∀ row' ∈ turnRows, row.toolCallId ≠ row'.toolCallId

def sourced (rows : List FileEdit) : List (FileEdit × Nat) := rows.map fun row => (row, 0)

def graphOf (source : SessionDiffSource) : IdentityGraph JsString :=
  IdentityGraph.build pathKey (sourced source.db.rows)

variable {services : DiffServices} {source earlier : SessionDiffSource} {turnId : JsString}
  {turnRows : List FileEdit}

theorem LastTurn.getFileEditsByTurn (h : LastTurn source earlier turnId turnRows) :
    source.db.getFileEditsByTurn turnId = turnRows := by
  unfold SessionDatabase.getFileEditsByTurn
  rw [h.rows, filter_append]
  have hearlier : earlier.db.rows.filter (fun row => decide (row.turnId = turnId)) = [] :=
    filter_eq_nil_iff.mpr fun row hrow => by simpa using h.earlierTurns row hrow
  have hturn : turnRows.filter (fun row => decide (row.turnId = turnId)) = turnRows :=
    filter_eq_self.mpr fun row hrow => by simpa using h.turn row hrow
  rw [hearlier, hturn, nil_append]

theorem computeUnionedDiffs_one (source : SessionDiffSource) :
    computeUnionedDiffs services [source] none =
      (graphOf source).identities.entries.filterMap fun entry =>
        identityDiff services source source entry.2 := by
  have hedits : unionedEdits [source] = sourced source.db.rows := by
    unfold unionedEdits sourced SessionDatabase.getAllFileEdits
    simp
  unfold computeUnionedDiffs graphOf
  rw [hedits]
  refine filterMap_congr fun entry hentry => ?_
  obtain ⟨⟨e, he, -, hfirst⟩, ⟨e', he', -, hlast⟩⟩ :=
    snapshots_build pathKey _ entry.1 entry.2 (Record.get_of_mem hentry)
  have hzero : ∀ {e : FileEdit × Nat}, e ∈ sourced source.db.rows → e.2 = 0 := by
    intro e he
    obtain ⟨row, -, rfl⟩ := mem_map.mp he
    rfl
  rw [hfirst, hlast, hzero he, hzero he']
  rfl

theorem LastTurn.readFileEditContent (h : LastTurn source earlier turnId turnRows)
    {toolCallId : JsString} (htoolCall : ∃ row ∈ earlier.db.rows, toolCallId = row.toolCallId)
    (filePath : JsString) :
    source.db.readFileEditContent toolCallId filePath =
      earlier.db.readFileEditContent toolCallId filePath := by
  obtain ⟨row, hrow, rfl⟩ := htoolCall
  unfold SessionDatabase.readFileEditContent
  rw [h.rows, find?_append]
  have hnone : turnRows.find? (fun row' =>
      decide (row'.toolCallId = row.toolCallId ∧ row'.filePath = filePath)) = none := by
    refine find?_eq_none.mpr fun row' hrow' hfound => ?_
    exact h.toolCalls row hrow row' hrow' (of_decide_eq_true hfound).1.symm
  rw [hnone, Option.or_none]

theorem LastTurn.identityDiff (h : LastTurn source earlier turnId turnRows) {key : JsString}
    {identity : FileIdentity} (hget : (graphOf earlier).identities.get key = some identity) :
    identityDiff services source source identity =
      identityDiff services earlier earlier identity := by
  obtain ⟨⟨e, he, hfirst, -⟩, ⟨e', he', hlast, -⟩⟩ := snapshots_build pathKey _ key identity hget
  have hrow : ∀ {e : FileEdit × Nat}, e ∈ sourced earlier.db.rows → e.1 ∈ earlier.db.rows := by
    intro e he
    obtain ⟨row, hrow, rfl⟩ := mem_map.mp he
    exact hrow
  unfold Diffs.identityDiff
  rw [h.readFileEditContent ⟨e.1, hrow he, hfirst⟩, h.readFileEditContent ⟨e'.1, hrow he', hlast⟩,
    h.sessionUri]

/-! ## With the full history -/

theorem touchedIdentityKeys_append {more : List (FileEdit × Nat)}
    (h : ∀ edit ∈ edits, edit.1.turnId ≠ turnId) (graph : IdentityGraph JsString) :
    touchedIdentityKeys turnId graph (edits ++ more) =
      touchedIdentityKeys turnId (edits.foldl (IdentityGraph.addEdit pathKey) graph) more := by
  induction edits generalizing graph with
  | nil => rfl
  | cons edit rest ih =>
    have hcons : touchedIdentityKeys turnId graph (edit :: rest ++ more) =
        touchedIdentityKeys turnId (graph.addEdit pathKey edit) (rest ++ more) :=
      if_neg (h edit mem_cons_self)
    rw [hcons, ih fun e he => h e (mem_cons_of_mem _ he)]
    rfl

theorem get_of_not_touched (h : ∀ edit ∈ edits, edit.1.turnId = turnId)
    {graph : IdentityGraph JsString} (hkey : key ∉ touchedIdentityKeys turnId graph edits) :
    (edits.foldl (IdentityGraph.addEdit pathKey) graph).identities.get key =
      graph.identities.get key := by
  induction edits generalizing graph with
  | nil => rfl
  | cons edit rest ih =>
    have hcons : touchedIdentityKeys turnId graph (edit :: rest) = graph.keyOf pathKey edit.1 ::
          touchedIdentityKeys turnId (graph.addEdit pathKey edit) rest :=
      if_pos (h edit mem_cons_self)
    rw [hcons, mem_cons, not_or] at hkey
    rw [foldl_cons, ih (fun e he => h e (mem_cons_of_mem _ he)) hkey.2, get_addEdit_ne hkey.1]

def touchedKeys (earlier : SessionDiffSource) (turnId : JsString) (turnRows : List FileEdit) :
    List JsString := touchedIdentityKeys turnId (graphOf earlier) (sourced turnRows)

theorem LastTurn.graphOf (h : LastTurn source earlier turnId turnRows) : graphOf source =
      (sourced turnRows).foldl (IdentityGraph.addEdit pathKey) (graphOf earlier) := by
  unfold Diffs.graphOf sourced IdentityGraph.build
  rw [h.rows, map_append, foldl_append]

theorem LastTurn.touched (h : LastTurn source earlier turnId turnRows) :
    touchedIdentityKeys turnId .empty (sourced source.db.rows) =
      touchedKeys earlier turnId turnRows := by
  unfold sourced
  rw [h.rows, map_append]
  refine touchedIdentityKeys_append (fun edit hedit => ?_) _
  obtain ⟨row, hrow, rfl⟩ := mem_map.mp hedit
  exact h.earlierTurns row hrow

def FoundAgain (services : DiffServices) (earlier : SessionDiffSource) (turnId : JsString)
    (turnRows : List FileEdit) : Prop :=
  ∀ entry ∈ (graphOf earlier).identities.entries, entry.1 ∉ touchedKeys earlier turnId turnRows →
    previousDiff? (computeUnionedDiffs services [earlier] none)
      (services.fileUri entry.2.terminalPath) = identityDiff services earlier earlier entry.2

theorem incremental_of_foundAgain (h : LastTurn source earlier turnId turnRows)
    (hfound : FoundAgain services earlier turnId turnRows) :
    ((graphOf source).identities.entries.filterMap fun entry =>
        if entry.1 ∈ touchedKeys earlier turnId turnRows then
          identityDiff services source source entry.2
        else previousDiff? (computeUnionedDiffs services [earlier] none)
          (services.fileUri entry.2.terminalPath)) =
      computeUnionedDiffs services [source] none := by
  rw [computeUnionedDiffs_one source]
  refine filterMap_congr fun entry hentry => ?_
  split_ifs with htouched
  · rfl
  · have hturn : ∀ edit ∈ sourced turnRows, edit.1.turnId = turnId := by
      intro edit hedit
      obtain ⟨row, hrow, rfl⟩ := mem_map.mp hedit
      exact h.turn row hrow
    have hget : (graphOf earlier).identities.get entry.1 = some entry.2 := by
      rw [← get_of_not_touched hturn htouched, ← h.graphOf]
      exact Record.get_of_mem hentry
    rw [hfound entry (mem_of_get hget) htouched, h.identityDiff hget]

/-! ## With the edits of the turn -/

def NoHistory (earlier : SessionDiffSource) (turnRows : List FileEdit) : Prop :=
  ∀ row ∈ turnRows, (graphOf earlier).pathToIdentityKey.get row.filePath = none ∧
    (graphOf earlier).identities.get row.filePath = none

structure Beside (turnPaths : List JsString) (earlier graph turn : IdentityGraph JsString) :
    Prop where
  identities : graph.identities.entries = earlier.identities.entries ++ turn.identities.entries
  agree : ∀ path ∈ turnPaths, graph.pathToIdentityKey.get path = turn.pathToIdentityKey.get path
  own : ∀ path key, turn.pathToIdentityKey.get path = some key → key ∈ turnPaths

theorem setEntries_append {α : Type} (a : α) {before : List (JsString × α)}
    (h : key ∉ before.map Prod.fst) (after : List (JsString × α)) :
    setEntries key a (before ++ after) = before ++ setEntries key a after := by
  induction before with
  | nil => rfl
  | cons entry rest ih =>
    rw [map_cons, mem_cons, not_or] at h
    show (if entry.1 = key then _ else _) = _
    rw [if_neg (Ne.symm h.1), append_eq, ih h.2]
    rfl

variable {turnPaths : List JsString}

theorem Beside.get {earlier graph turn : IdentityGraph JsString}
    (h : Beside turnPaths earlier graph turn) (hkey : key ∉ earlier.identities.keys) :
    graph.identities.get key = turn.identities.get key := by
  unfold Record.get
  rw [h.identities, find?_append]
  have hnone : earlier.identities.entries.find? (fun entry => decide (entry.1 = key)) = none := by
    refine find?_eq_none.mpr fun entry hentry hfound => hkey ?_
    exact of_decide_eq_true hfound ▸ mem_map_of_mem hentry
  rw [hnone, Option.none_or]

theorem Beside.addEdit {earlier graph turn : IdentityGraph JsString}
    (h : Beside turnPaths earlier graph turn)
    (hpaths : ∀ path ∈ turnPaths, path ∉ earlier.identities.keys) {edit : FileEdit × Nat}
    (hrename : renamedFrom edit.1 = none) (hpath : edit.1.filePath ∈ turnPaths) :
    Beside turnPaths earlier (graph.addEdit pathKey edit) (turn.addEdit pathKey edit) := by
  have hstart := startPath_of_none hrename
  have hkeyOf : graph.keyOf pathKey edit.1 = turn.keyOf pathKey edit.1 := by
    unfold IdentityGraph.keyOf
    rw [hstart, h.agree _ hpath]
    rfl
  have hown : turn.keyOf pathKey edit.1 ∈ turnPaths := by
    unfold IdentityGraph.keyOf
    rw [hstart]
    cases hget : turn.pathToIdentityKey.get edit.1.filePath with
    | none => exact hpath
    | some key => exact h.own _ key hget
  have hmoves : renamedFrom edit.1 ≠ some edit.1.filePath := by
    rw [hrename]
    exact (Option.some_ne_none _).symm
  have hget := h.get (hpaths _ hown)
  refine ⟨?_, fun path hmem => ?_, fun path key hmapped => ?_⟩
  · unfold IdentityGraph.addEdit
    dsimp only
    rw [hkeyOf, hget]
    cases turn.identities.get (turn.keyOf pathKey edit.1) <;>
    · show setEntries _ _ graph.identities.entries = _
      rw [h.identities]
      exact setEntries_append _ (hpaths _ hown) _
  · have hgraph : (graph.addEdit pathKey edit).pathToIdentityKey.get path = _ :=
      get_paths hmoves (graph.keyOf pathKey edit.1) path
    have hturn : (turn.addEdit pathKey edit).pathToIdentityKey.get path = _ :=
      get_paths hmoves (turn.keyOf pathKey edit.1) path
    rw [hgraph, hturn, hkeyOf, h.agree path hmem]
  · have hturn : (turn.addEdit pathKey edit).pathToIdentityKey.get path = _ :=
      get_paths hmoves (turn.keyOf pathKey edit.1) path
    rw [hturn] at hmapped
    split_ifs at hmapped with hfile
    · cases hmapped
      exact hown
    · exact h.own path key hmapped

theorem Beside.addEdits {turnPaths : List JsString} {earlier graph turn : IdentityGraph JsString}
    (h : Beside turnPaths earlier graph turn)
    (hpaths : ∀ path ∈ turnPaths, path ∉ earlier.identities.keys)
    (hedits : ∀ edit ∈ edits, renamedFrom edit.1 = none ∧ edit.1.filePath ∈ turnPaths) :
    Beside turnPaths earlier (edits.foldl (IdentityGraph.addEdit pathKey) graph)
      (edits.foldl (IdentityGraph.addEdit pathKey) turn) := by
  induction edits generalizing graph turn with
  | nil => exact h
  | cons edit rest ih =>
    obtain ⟨hrename, hpath⟩ := hedits edit mem_cons_self
    exact ih (h.addEdit hpaths hrename hpath) fun e he => hedits e (mem_cons_of_mem _ he)

theorem beside_turn (hnew : NoHistory earlier turnRows)
    (hrename : ∀ row ∈ turnRows, renamedFrom row = none) :
    Beside (turnRows.map FileEdit.filePath) (graphOf earlier)
      ((sourced turnRows).foldl (IdentityGraph.addEdit pathKey) (graphOf earlier))
      (IdentityGraph.build pathKey (sourced turnRows)) := by
  have hempty : Beside (turnRows.map FileEdit.filePath) (graphOf earlier) (graphOf earlier) .empty := by
    refine ⟨(append_nil _).symm, fun path hpath => ?_, fun path key hget => ?_⟩
    · obtain ⟨row, hrow, rfl⟩ := mem_map.mp hpath
      exact (hnew row hrow).1
    · cases hget
  refine hempty.addEdits (fun path hpath => ?_) fun edit hedit => ?_
  · obtain ⟨row, hrow, rfl⟩ := mem_map.mp hpath
    exact get_eq_none_iff.mp (hnew row hrow).2
  · obtain ⟨row, hrow, rfl⟩ := mem_map.mp hedit
    exact ⟨hrename row hrow, mem_map_of_mem hrow⟩

theorem incremental_of_noHistory (h : LastTurn source earlier turnId turnRows)
    (hnew : NoHistory earlier turnRows) (hrename : ∀ row ∈ turnRows, renamedFrom row = none) :
    (((IdentityGraph.build pathKey (sourced turnRows)).identities.entries.filterMap fun entry =>
        identityDiff services source source entry.2) ++
      computeUnionedDiffs services [earlier] none).Perm
        (computeUnionedDiffs services [source] none) := by
  have hbeside := beside_turn hnew hrename
  have hearlier : ((graphOf earlier).identities.entries.filterMap fun entry =>
      identityDiff services source source entry.2) = computeUnionedDiffs services [earlier] none := by
    rw [computeUnionedDiffs_one earlier]
    exact filterMap_congr fun entry hentry => h.identityDiff (Record.get_of_mem hentry)
  rw [computeUnionedDiffs_one source, h.graphOf, hbeside.identities, filterMap_append, hearlier]
  exact perm_append_comm

/-! ## One turn more -/

structure DiffSummary where
  before : Option JsString
  after : Option JsString
  diff : DiffCountResult
  deriving DecidableEq

def summary (diff : SessionFileDiff) : DiffSummary :=
  ⟨diff.before.map FileSide.uri, diff.after.map FileSide.uri, diff.diff⟩

def SameDiffs (diffs diffs' : List SessionFileDiff) : Prop :=
  (diffs.map summary).Perm (diffs'.map summary)

def IncrementalExact (services : DiffServices) (earlier : SessionDiffSource) (turnId : JsString)
    (turnRows : List FileEdit) : Prop :=
  turnRows ≠ [] →
    if needsFullHistory services (computeUnionedDiffs services [earlier] none) turnRows then
      FoundAgain services earlier turnId turnRows
    else NoHistory earlier turnRows

def IncrementalSame (services : DiffServices) (source earlier : SessionDiffSource)
    (turnId : JsString) : Prop :=
  ∃ previousDiffs diffs full, computeSessionDiffs services earlier none none = .ok previousDiffs ∧
    computeSessionDiffs services source (some ⟨turnId, previousDiffs⟩) none = .ok diffs ∧
    computeSessionDiffs services source none none = .ok full ∧ SameDiffs diffs full

def deleteB : FileEdit := ⟨TURN, ofString "3", PATH_B, .delete, none, some [121], none⟩

def PATH_C : JsString := ofString "/c"

def editC : FileEdit := ⟨TURN, ofString "4", PATH_C, .edit, none, some [120], some [121]⟩

def NEXT_TURN : JsString := ofString "u"

def editCAgain : FileEdit := ⟨NEXT_TURN, ofString "5", PATH_C, .edit, none, some [121], some [122]⟩

def deletedEarlier : SessionDiffSource := ⟨SESSION, [editA, renameAToB, deleteB, editC], by decide⟩

def deletedSource : SessionDiffSource :=
  ⟨SESSION, [editA, renameAToB, deleteB, editC, editCAgain], by decide⟩

def createEmptyC : FileEdit := ⟨TURN, ofString "4", PATH_C, .create, none, none, some []⟩

def fillC : FileEdit := ⟨NEXT_TURN, ofString "5", PATH_C, .edit, none, some [], some [122]⟩

def emptyEarlier : SessionDiffSource := ⟨SESSION, [createEmptyC], by decide⟩

def emptySource : SessionDiffSource := ⟨SESSION, [createEmptyC, fillC], by decide⟩

theorem lastTurn_deleted : LastTurn deletedSource deletedEarlier NEXT_TURN [editCAgain] :=
  ⟨rfl, rfl, by decide, by decide, by decide⟩

theorem lastTurn_empty : LastTurn emptySource emptyEarlier NEXT_TURN [fillC] :=
  ⟨rfl, rfl, by decide, by decide, by decide⟩

def plainEarlier : SessionDiffSource := ⟨SESSION, [editC], by decide⟩

def plainSource : SessionDiffSource := ⟨SESSION, [editC, editCAgain], by decide⟩

theorem consistent_deleted : Consistent deletedSource.db.rows :=
  ⟨fun path => if path = PATH_A ∨ path = PATH_C then some [120] else none,
    ⟨by decide, by decide, by decide⟩,
    ⟨PATH_A, by decide, by decide, by decide, by decide, by decide, by decide⟩,
    ⟨by decide, by decide, by decide⟩, ⟨by decide, by decide, by decide⟩,
    ⟨by decide, by decide, by decide⟩, trivial⟩

theorem consistent_empty : Consistent emptySource.db.rows :=
  ⟨fun _ => none, ⟨by decide, by decide, by decide⟩, ⟨by decide, by decide, by decide⟩, trivial⟩

theorem not_same (h : ¬SameDiffs
      (computeIncrementalDiffs services source
        ⟨turnId, computeUnionedDiffs services [earlier] none⟩)
      (computeUnionedDiffs services [source] none)) :
    ¬IncrementalSame services source earlier turnId := by
  rintro ⟨previousDiffs, diffs, full, hprevious, hdiffs, hfull, hsame⟩
  obtain rfl := Except.ok.inj hprevious
  obtain rfl := Except.ok.inj hdiffs
  obtain rfl := Except.ok.inj hfull
  exact h hsame

end Diffs

end Fumie.AgentHost
