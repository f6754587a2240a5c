import Fumie.AgentHost.Diffs.Lineages

/-!
# Diffs against a virtual file system

Edits that some initial files admit are aggregated into one entry for each lineage with a
net change: the content before its first edit and after its last. The content before the
first edit is read back under the path at which the lineage begins, where the row of a
rename is not: its row has the path that the rename leads to.
-/

namespace Fumie.AgentHost

open Fumie.Lib Fumie.Base List JsString

variable {α β : Type} {ls : List Lineage} {path : JsString} {found : Option ReviewEntry}

namespace Diffs

abbrev FileSystem := JsString → Option Bytes

def EditApplies (files : FileSystem) (edit : FileEdit) : Prop :=
  match edit.kind with
  | .create =>
    files edit.filePath = none ∧ edit.beforeContent.getD [] = [] ∧ edit.afterContent.isSome
  | .edit =>
    files edit.filePath = edit.beforeContent ∧ edit.beforeContent.isSome ∧ edit.afterContent.isSome
  | .delete =>
    files edit.filePath = edit.beforeContent ∧ edit.beforeContent.isSome ∧
      edit.afterContent.getD [] = []
  | .rename =>
    ∃ originalPath, edit.originalPath = some originalPath ∧ originalPath ≠ [] ∧
      originalPath ≠ edit.filePath ∧ files originalPath = edit.beforeContent ∧
      edit.beforeContent.isSome ∧ edit.afterContent.isSome

def filesAfter (files : FileSystem) (edit : FileEdit) : FileSystem := fun path =>
  if edit.filePath = path then if edit.kind = .delete then none else edit.afterContent
  else if startPath edit = path then none
  else files path

def ConsistentFrom : FileSystem → List FileEdit → Prop
  | _, [] => True
  | files, edit :: rest => EditApplies files edit ∧ ConsistentFrom (filesAfter files edit) rest

def Consistent (edits : List FileEdit) : Prop := ∃ files, ConsistentFrom files edits

theorem ConsistentFrom.applies {files : FileSystem} {edits : List FileEdit}
    (h : ConsistentFrom files edits) : ∀ edit ∈ edits, ∃ files, EditApplies files edit := by
  induction edits generalizing files with
  | nil => simp
  | cons edit rest ih =>
    intro e he
    cases mem_cons.mp he with
    | inl heq => exact ⟨files, heq ▸ h.1⟩
    | inr hrest => exact ih h.2 e hrest

/-! ## What the aggregation should return -/

structure ReviewSide where
  uri : JsString
  content : Option Bytes
  deriving DecidableEq

structure ReviewEntry where
  before : Option ReviewSide
  after : Option ReviewSide
  diff : DiffCountResult
  deriving DecidableEq

section

variable (services : DiffServices) (sources : List SessionDiffSource)

/-- `_fetchSessionDbContent`: the content of a row of the database of the session. -/
def contentAt (fields : SessionDbUriFields) : Option Bytes := do
  let source ← sources.find? fun source => source.sessionUri = fields.sessionUri
  let row ← source.db.readFileEditContent fields.toolCallId fields.filePath
  match fields.part with
  | .before => row.beforeContent
  | .after => row.afterContent

def reviewSide (side : FileSide) : ReviewSide := ⟨side.uri, contentAt sources side.content⟩

def reviewEntry (diff : SessionFileDiff) : ReviewEntry :=
  ⟨diff.before.map (reviewSide sources), diff.after.map (reviewSide sources), diff.diff⟩

def expectedEntry (l : Lineage) : Option ReviewEntry :=
  let first := l.first.1
  let last := l.last.1
  let beforeText := textOf services first.beforeContent
  let afterText := textOf services last.afterContent
  if beforeText = afterText then none
  else
    some
      { before :=
          if first.kind ≠ .create then
            some ⟨services.fileUri (startPath first), first.beforeContent⟩
          else none
        after :=
          if last.kind ≠ .delete then some ⟨services.fileUri last.filePath, last.afterContent⟩
          else none
        diff := services.computeDiffCounts beforeText afterText }

def Reports (diffs : List SessionFileDiff) (ls : List Lineage) : Prop :=
  (diffs.map (reviewEntry sources)).Perm (ls.filterMap (expectedEntry services))

def readBefore (l : Lineage) : Option Bytes := do
  let source ← sources[l.first.2]?
  let row ← source.db.readFileEditContent l.first.1.toolCallId (startPath l.first.1)
  row.beforeContent

def computedEntry (l : Lineage) : Option ReviewEntry :=
  let first := l.first.1
  let last := l.last.1
  let beforeText := if first.kind = .create then [] else textOf services (readBefore sources l)
  let afterText := textOf services last.afterContent
  if beforeText = afterText then none
  else
    some
      { before :=
          if first.kind ≠ .create then
            some ⟨services.fileUri (startPath first), readBefore sources l⟩
          else none
        after :=
          if last.kind ≠ .delete then some ⟨services.fileUri last.filePath, last.afterContent⟩
          else none
        diff := services.computeDiffCounts beforeText afterText }

def ReadsBack (l : Lineage) : Prop :=
  readBefore sources l = l.first.1.beforeContent ∨
    (textOf services l.first.1.beforeContent = textOf services l.last.1.afterContent ∧
      textOf services (readBefore sources l) = textOf services l.last.1.afterContent)

end

/-! ## Rows -/

theorem find?_key [DecidableEq β] {key : α → β} {xs : List α} (h : (xs.map key).Nodup) {x : α}
    (hx : x ∈ xs) : xs.find? (fun y => key y = key x) = some x := by
  cases hfind : xs.find? fun y => decide (key y = key x) with
  | none =>
    have hnone := find?_eq_none.mp hfind x hx
    simp at hnone
  | some y =>
    have hkey : key y = key x := by simpa using find?_some hfind
    rw [inj_on_of_nodup_map h (mem_of_find?_eq_some hfind) hx hkey]

theorem readFileEditContent_row {db : SessionDatabase} {row : FileEdit} (h : row ∈ db.rows) :
    db.readFileEditContent row.toolCallId row.filePath = some row := by
  have hfind := find?_key db.primaryKey h
  unfold SessionDatabase.readFileEditContent
  simpa only [Prod.mk.injEq] using hfind

def Owned (sources : List SessionDiffSource) (edit : FileEdit × Nat) : Prop :=
  ∃ source, sources[edit.2]? = some source ∧ edit.1 ∈ source.db.rows

variable {services : DiffServices} {sources : List SessionDiffSource} {source : SessionDiffSource}

theorem contentAt_row (huris : (sources.map SessionDiffSource.sessionUri).Nodup)
    {edit : FileEdit × Nat} (hsource : sources[edit.2]? = some source)
    (toolCallId filePath : JsString) (part : ContentPart) :
    contentAt sources ⟨source.sessionUri, toolCallId, filePath, part⟩ =
      (source.db.readFileEditContent toolCallId filePath).bind fun row =>
        match part with
        | .before => row.beforeContent
        | .after => row.afterContent := by
  unfold contentAt
  simp only [find?_key huris (mem_of_getElem? hsource)]
  rfl

/-- What a row that applies says of its texts and paths. -/
structure WellFormed (services : DiffServices) (edit : FileEdit) : Prop where
  create : edit.kind = .create → textOf services edit.beforeContent = []
  delete : edit.kind = .delete → textOf services edit.afterContent = []
  moves : renamedFrom edit ≠ some edit.filePath

theorem textOf_eq_nil {content : Option Bytes} (h : content.getD [] = []) :
    textOf services content = [] := by
  cases content with
  | none => rfl
  | some bytes =>
    obtain rfl : bytes = [] := h
    exact services.decode_nil

variable {edit : FileEdit}

theorem renamedFrom_of_ne (h : edit.kind ≠ .rename) : renamedFrom edit = none := if_neg h

theorem renamedFrom_rename {originalPath : JsString} (hkind : edit.kind = .rename)
    (horiginal : edit.originalPath = some originalPath) (hne : originalPath ≠ []) :
    renamedFrom edit = some originalPath := by
  unfold renamedFrom
  rw [if_pos hkind, horiginal]
  simpa [Option.filter] using hne

theorem EditApplies.moves {files : FileSystem} (h : EditApplies files edit) :
    renamedFrom edit ≠ some edit.filePath := by
  unfold EditApplies at h
  by_cases hrename : edit.kind = .rename
  · rw [hrename] at h
    obtain ⟨originalPath, horiginal, hne, hmoves, -⟩ := h
    rw [renamedFrom_rename hrename horiginal hne]
    exact fun heq => hmoves (Option.some.inj heq)
  · rw [renamedFrom_of_ne hrename]
    exact (Option.some_ne_none _).symm

theorem EditApplies.wellFormed {files : FileSystem} (h : EditApplies files edit) :
    WellFormed services edit := by
  have hmoves := h.moves
  unfold EditApplies at h
  refine ⟨fun hcreate => ?_, fun hdelete => ?_, hmoves⟩
  · rw [hcreate] at h
    exact textOf_eq_nil h.2.1
  · rw [hdelete] at h
    exact textOf_eq_nil h.2.2

theorem reviewEntry_createSessionFileDiff (beforeSessionUri afterSessionUri : JsString)
    (identity : FileIdentity) (diff : DiffCountResult) :
    reviewEntry sources
      (createSessionFileDiff services beforeSessionUri afterSessionUri identity diff) =
      { before :=
          if identity.firstKind ≠ .create then
            some ⟨services.fileUri identity.firstFilePath, contentAt sources
              ⟨beforeSessionUri, identity.firstToolCallId, identity.firstFilePath, .before⟩⟩
          else none
        after :=
          if identity.lastKind ≠ .delete then
            some ⟨services.fileUri identity.terminalPath, contentAt sources
              ⟨afterSessionUri, identity.lastToolCallId, identity.lastFilePath, .after⟩⟩
          else none
        diff } := by
  unfold reviewEntry createSessionFileDiff
  split_ifs <;> rfl

variable {l : Lineage}

theorem identityDiff_computed (huris : (sources.map SessionDiffSource.sessionUri).Nodup)
    {firstSource lastSource : SessionDiffSource}
    (hfirstSource : sources[l.first.2]? = some firstSource)
    (hlastSource : sources[l.last.2]? = some lastSource) (hlast : l.last.1 ∈ lastSource.db.rows)
    (hlastForm : WellFormed services l.last.1) :
    (identityDiff services firstSource lastSource l.identity).map (reviewEntry sources) =
      computedEntry services sources l := by
  have hrow := readFileEditContent_row hlast
  have hread : readBefore sources l =
      (firstSource.db.readFileEditContent l.first.1.toolCallId (startPath l.first.1)).bind
        FileEdit.beforeContent := by
    unfold readBefore
    rw [hfirstSource]
    rfl
  have hbefore : (if l.identity.firstKind = .create then []
      else textOf services ((firstSource.db.readFileEditContent l.identity.firstToolCallId
        l.identity.firstFilePath).bind FileEdit.beforeContent)) =
      if l.first.1.kind = .create then [] else textOf services (readBefore sources l) := by
    rw [hread]
    rfl
  have hafter : (if l.identity.lastKind = .delete then []
      else textOf services ((lastSource.db.readFileEditContent l.identity.lastToolCallId
        l.identity.lastFilePath).bind FileEdit.afterContent)) =
      textOf services l.last.1.afterContent := by
    show (if l.last.1.kind = .delete then []
      else textOf services ((lastSource.db.readFileEditContent l.last.1.toolCallId
        l.last.1.filePath).bind FileEdit.afterContent)) = _
    rw [hrow]
    split_ifs with hdelete
    · exact (hlastForm.delete hdelete).symm
    · rfl
  have hbeforeContent : contentAt sources ⟨firstSource.sessionUri, l.first.1.toolCallId,
      startPath l.first.1, .before⟩ = readBefore sources l := by
    rw [contentAt_row huris hfirstSource, hread]
  have hafterContent : contentAt sources ⟨lastSource.sessionUri, l.last.1.toolCallId,
      l.last.1.filePath, .after⟩ = l.last.1.afterContent := by
    rw [contentAt_row huris hlastSource, hrow]
    rfl
  have hsides : l.identity.firstKind = l.first.1.kind ∧ l.identity.lastKind = l.last.1.kind ∧
      l.identity.firstFilePath = startPath l.first.1 ∧
      l.identity.firstToolCallId = l.first.1.toolCallId ∧
      l.identity.terminalPath = l.last.1.filePath ∧ l.identity.lastFilePath = l.last.1.filePath ∧
      l.identity.lastToolCallId = l.last.1.toolCallId := ⟨rfl, rfl, rfl, rfl, rfl, rfl, rfl⟩
  obtain ⟨hfirstKind, hlastKind, hfirstPath, hfirstCall, hterminal, hlastPath, hlastCall⟩ := hsides
  unfold identityDiff computedEntry
  rw [hbefore, hafter]
  dsimp only
  generalize (if l.first.1.kind = .create then [] else textOf services (readBefore sources l)) =
    beforeText
  split
  · rfl
  · rw [Option.map_some, reviewEntry_createSessionFileDiff, hfirstKind, hlastKind, hfirstPath,
      hfirstCall, hterminal, hlastPath, hlastCall, hbeforeContent, hafterContent]

theorem computedEntry_eq_iff (hform : WellFormed services l.first.1)
    (hcreate : l.first.1.kind = .create → readBefore sources l = l.first.1.beforeContent) :
    computedEntry services sources l = expectedEntry services l ↔ ReadsBack services sources l := by
  unfold computedEntry expectedEntry ReadsBack
  dsimp only
  by_cases hkind : l.first.1.kind = .create
  · rw [hcreate hkind, if_pos hkind, hform.create hkind]
    exact ⟨fun _ => .inl rfl, fun _ => rfl⟩
  · simp only [hkind, if_false, ne_eq, not_false_eq_true, if_true]
    constructor
    · intro h
      by_cases hread : textOf services (readBefore sources l) =
          textOf services l.last.1.afterContent
      · rw [if_pos hread] at h
        by_cases hequal : textOf services l.first.1.beforeContent =
            textOf services l.last.1.afterContent
        · exact .inr ⟨hequal, hread⟩
        · rw [if_neg hequal] at h
          cases h
      · rw [if_neg hread] at h
        by_cases hequal : textOf services l.first.1.beforeContent =
            textOf services l.last.1.afterContent
        · rw [if_pos hequal] at h
          cases h
        · rw [if_neg hequal] at h
          have hside := congrArg ReviewEntry.before (Option.some.inj h)
          exact .inl (congrArg ReviewSide.content (Option.some.inj hside))
    · rintro (hsame | ⟨hequal, hread⟩)
      · rw [hsame]
      · rw [if_pos hread, if_pos hequal]

/-! ## All lineages -/

theorem mem_unionedEdits {edit : FileEdit × Nat} :
    edit ∈ unionedEdits sources ↔ Owned sources edit := by
  unfold unionedEdits Owned SessionDatabase.getAllFileEdits
  rw [mem_flatMap]
  constructor
  · rintro ⟨source, hsource, hedit⟩
    obtain ⟨row, hrow, rfl⟩ := mem_map.mp hedit
    exact ⟨source.1, mem_zipIdx_iff_getElem?.mp hsource, hrow⟩
  · rintro ⟨source, hsource, hrow⟩
    exact ⟨(source, edit.2), mem_zipIdx_iff_getElem?.mpr hsource, mem_map.mpr ⟨edit.1, hrow, rfl⟩⟩

theorem SessionDatabase.nodup (db : SessionDatabase) : db.rows.Nodup := .of_map _ db.primaryKey

theorem nodup_map_source {edits : List FileEdit} (h : edits.Nodup) (i : Nat) :
    (edits.map fun edit => (edit, i)).Nodup :=
  h.map fun _ _ heq => congrArg Prod.fst heq

theorem nodup_unionedEdits (sources : List SessionDiffSource) : (unionedEdits sources).Nodup := by
  unfold unionedEdits
  rw [nodup_flatMap]
  refine ⟨fun source _ => nodup_map_source source.1.db.nodup source.2, ?_⟩
  have hindices : (sources.zipIdx.map Prod.snd).Nodup := by
    rw [zipIdx_map_snd]
    exact nodup_range'
  have hpairwise := pairwise_map.mp hindices
  refine hpairwise.imp fun hne edit h h' => ?_
  obtain ⟨row, -, rfl⟩ := mem_map.mp h
  obtain ⟨row', -, heq⟩ := mem_map.mp h'
  exact hne (congrArg Prod.snd heq).symm

variable {κ : Type} {graph : IdentityGraph κ} {known : List (κ × Lineage)}

variable {done : List (FileEdit × Nat)}

theorem filterMap_identities [DecidableEq κ] (h : Tracks done graph known)
    (f : FileIdentity → Option α) :
    (graph.identities.entries.filterMap fun entry => f entry.2) =
      (lineages done).filterMap fun l => f l.identity := by
  rw [h.identities, h.lineages, filterMap_map, filterMap_map]
  rfl

theorem lineages_edits [DecidableEq κ] (h : Tracks done graph known) (hl : l ∈ lineages done) :
    ∀ edit ∈ l.edits, edit ∈ done := by
  rw [h.lineages] at hl
  obtain ⟨k, hk, rfl⟩ := mem_map.mp hl
  exact h.edits k hk

theorem readBefore_of_none (howned : Owned sources l.first) (h : renamedFrom l.first.1 = none) :
    readBefore sources l = l.first.1.beforeContent := by
  obtain ⟨source, hsource, hrow⟩ := howned
  unfold readBefore
  rw [hsource, startPath_of_none h]
  show (source.db.readFileEditContent l.first.1.toolCallId l.first.1.filePath).bind _ = _
  rw [readFileEditContent_row hrow]
  rfl

structure Computes (services : DiffServices) (sources : List SessionDiffSource)
    (ls : List Lineage) (diffs : List SessionFileDiff) : Prop where
  entries : diffs.map (reviewEntry sources) = ls.filterMap (computedEntry services sources)
  readBack : ∀ l ∈ ls, computedEntry services sources l = expectedEntry services l ↔
    ReadsBack services sources l
  renamed : ∀ l ∈ ls, ¬ReadsBack services sources l → l.first.1.kind ≠ .create
  nodup : ls.Nodup

variable {diffs : List SessionFileDiff}

theorem Computes.reports (h : Computes services sources ls diffs)
    (hreads : ∀ l ∈ ls, ReadsBack services sources l) : Reports services sources diffs ls := by
  unfold Reports
  rw [h.entries]
  exact List.Perm.of_eq (filterMap_congr fun l hl => (h.readBack l hl).mpr (hreads l hl))

theorem filterMap_alone {f : α → Option β} {xs : List α} (hnodup : xs.Nodup) {x : α} (hx : x ∈ xs)
    (hf : ∀ y ∈ xs, y ≠ x → f y = none) : xs.filterMap f = (f x).toList := by
  obtain ⟨pre, post, rfl⟩ := append_of_mem hx
  have hsplit := nodup_append.mp hnodup
  have hpre : pre.filterMap f = [] := by
    refine filterMap_eq_nil_iff.mpr fun y hy => hf y (mem_append_left _ hy) ?_
    rintro rfl
    exact hsplit.2.2 y hy y mem_cons_self rfl
  have hpost : post.filterMap f = [] := by
    refine filterMap_eq_nil_iff.mpr fun y hy => hf y (mem_append_right _ (mem_cons_of_mem _ hy)) ?_
    rintro rfl
    exact (nodup_cons.mp hsplit.2.1).1 hy
  rw [filterMap_append, hpre, filterMap_cons, hpost, nil_append]
  cases f x <;> rfl

def isBefore (services : DiffServices) (path : JsString) (entry : ReviewEntry) : Bool :=
  entry.before.map ReviewSide.uri = some (services.fileUri path)

def BeginsAt (services : DiffServices) (l : Lineage) (entry : ReviewEntry) : Prop :=
  entry.before.map ReviewSide.uri =
    if l.first.1.kind = .create then none else some (services.fileUri (startPath l.first.1))

theorem beginsAt_computedEntry {l : Lineage} {entry : ReviewEntry}
    (h : computedEntry services sources l = some entry) : BeginsAt services l entry := by
  unfold computedEntry at h
  dsimp only at h
  generalize (if l.first.1.kind = .create then [] else textOf services (readBefore sources l)) =
    beforeText at h
  split at h
  · cases h
  · cases h
    unfold BeginsAt
    by_cases hkind : l.first.1.kind = .create <;> simp [hkind]

theorem beginsAt_expectedEntry {l : Lineage} {entry : ReviewEntry}
    (h : expectedEntry services l = some entry) : BeginsAt services l entry := by
  unfold expectedEntry at h
  dsimp only at h
  split at h
  · cases h
  · cases h
    unfold BeginsAt
    by_cases hkind : l.first.1.kind = .create <;> simp [hkind]

theorem filter_beginsAt_other {l : Lineage}
    (hbegins : ∀ entry, found = some entry → BeginsAt services l entry)
    (h : l.first.1.kind = .create ∨
      services.fileUri (startPath l.first.1) ≠ services.fileUri path) :
    found.filter (isBefore services path) = none := by
  cases found with
  | none => rfl
  | some entry =>
    have hbefore := hbegins entry rfl
    have hnot : isBefore services path entry = false := by
      unfold isBefore
      rw [hbefore]
      rcases h with hkind | hother
      · rw [if_pos hkind]
        rfl
      · split_ifs
        · rfl
        · simpa using hother
    exact if_neg (by simp [hnot])

theorem filter_beginsAt_own {l : Lineage}
    (hbegins : ∀ entry, found = some entry → BeginsAt services l entry)
    (h : l.first.1.kind ≠ .create) :
    found.filter (isBefore services (startPath l.first.1)) = found := by
  cases found with
  | none => rfl
  | some entry =>
    have hbefore := hbegins entry rfl
    unfold BeginsAt at hbefore
    rw [if_neg h] at hbefore
    have hown : isBefore services (startPath l.first.1) entry = true := decide_eq_true hbefore
    exact if_pos hown

theorem eq_of_perm_toList {a b : Option α} (h : a.toList.Perm b.toList) : a = b := by
  cases a with
  | none =>
    cases b with
    | none => rfl
    | some b => exact absurd h.length_eq (by simp)
  | some a =>
    cases b with
    | none => exact absurd h.length_eq (by simp)
    | some b => exact congrArg some (singleton_inj.mp (singleton_perm.mp h))

theorem Computes.readsBack (h : Computes services sources ls diffs)
    (hreports : Reports services sources diffs ls)
    (hapart : ∀ l ∈ ls, l.first.1.kind ≠ .create → ¬ReadsBack services sources l →
      ∀ l' ∈ ls, l' ≠ l → l'.first.1.kind = .create ∨
        services.fileUri (startPath l'.first.1) ≠ services.fileUri (startPath l.first.1)) :
    ∀ l ∈ ls, ReadsBack services sources l := by
  intro l hl
  by_contra hnot
  have hkind := h.renamed l hl hnot
  unfold Reports at hreports
  rw [h.entries] at hreports
  have hfiltered := hreports.filter (isBefore services (startPath l.first.1))
  rw [filter_filterMap, filter_filterMap] at hfiltered
  have hothers := hapart l hl hkind hnot
  have hcomputed := filterMap_alone h.nodup hl fun l' hl' hne =>
    filter_beginsAt_other (fun _ => @beginsAt_computedEntry services sources l' _)
      (hothers l' hl' hne)
  have hexpected := filterMap_alone h.nodup hl fun l' hl' hne =>
    filter_beginsAt_other (fun _ => @beginsAt_expectedEntry services l' _) (hothers l' hl' hne)
  rw [hcomputed, hexpected, filter_beginsAt_own (fun _ => beginsAt_computedEntry) hkind,
    filter_beginsAt_own (fun _ => beginsAt_expectedEntry) hkind] at hfiltered
  exact hnot ((h.readBack l hl).mp (eq_of_perm_toList hfiltered))

/-! ## Paths at which lineages begin -/

def filesAfterAll (files : FileSystem) (edits : List (FileEdit × Nat)) : FileSystem :=
  edits.foldl (fun files edit => filesAfter files edit.1) files

theorem consistentFrom_append {files : FileSystem} {edits : List (FileEdit × Nat)}
    {edit : FileEdit × Nat} (h : ConsistentFrom files ((edits ++ [edit]).map Prod.fst)) :
    ConsistentFrom files (edits.map Prod.fst) ∧ EditApplies (filesAfterAll files edits) edit.1 := by
  induction edits generalizing files with
  | nil => exact ⟨trivial, h.1⟩
  | cons first rest ih =>
    obtain ⟨hrest, hedit⟩ := ih h.2
    exact ⟨⟨h.1, hrest⟩, hedit⟩

variable {files : FileSystem}

theorem EditApplies.isSome (h : EditApplies files edit) (hkind : edit.kind ≠ .create) :
    files (startPath edit) ≠ none := by
  have hsome : ∀ {content : Option Bytes}, content.isSome → content ≠ none := by
    rintro content hcontent rfl
    cases hcontent
  unfold EditApplies at h
  cases hcases : edit.kind with
  | create => exact absurd hcases hkind
  | edit | delete =>
    rw [hcases] at h
    rw [startPath_of_none (renamedFrom_of_ne (by rw [hcases]; decide)), h.1]
    exact hsome h.2.1
  | rename =>
    rw [hcases] at h
    obtain ⟨originalPath, horiginal, hne, -, hfiles, hbefore, -⟩ := h
    rw [startPath_of_renamedFrom (renamedFrom_rename hcases horiginal hne), hfiles]
    exact hsome hbefore

def Touched (edits : List (FileEdit × Nat)) (path : JsString) : Prop :=
  ∃ edit ∈ edits, edit.1.filePath = path ∨ startPath edit.1 = path

theorem files_of_lineageAt {files : FileSystem} {edits : List (FileEdit × Nat)}
    (htouched : Touched edits path) (hnone : lineageAt edits.reverse path = none) :
    filesAfterAll files edits path = none := by
  induction edits using reverseRecOn with
  | nil =>
    obtain ⟨edit, hedit, -⟩ := htouched
    cases hedit
  | append_singleton edits edit ih =>
    rw [reverse_append, reverse_cons, reverse_nil, nil_append,
      singleton_append, lineageAt_cons] at hnone
    have hafter : filesAfterAll files (edits ++ [edit]) path =
        filesAfter (filesAfterAll files edits) edit.1 path := by
      unfold filesAfterAll
      rw [foldl_append]
      rfl
    rw [hafter]
    unfold filesAfter
    split_ifs at hnone with hfile hstart
    · rw [if_neg hfile, if_pos hstart]
    · rw [if_neg hfile, if_neg hstart]
      refine ih ?_ hnone
      obtain ⟨e, he, hpath⟩ := htouched
      cases mem_append.mp he with
      | inl hold => exact ⟨e, hold, hpath⟩
      | inr hlast =>
        obtain rfl := mem_singleton.mp hlast
        exact absurd hpath (not_or.mpr ⟨hfile, hstart⟩)

/-- The paths at which the lineages begin that a create does not begin. -/
def foundAt (ls : List Lineage) : List JsString :=
  (ls.filter fun l => l.first.1.kind ≠ .create).map fun l => startPath l.first.1

theorem nodup_foundAt {files : FileSystem} {edits : List (FileEdit × Nat)} (hrecorded : Recorded edits)
    (h : ConsistentFrom files (edits.map Prod.fst)) : (foundAt (lineagesOf edits)).Nodup := by
  unfold lineagesOf
  induction edits using reverseRecOn with
  | nil => exact nodup_nil
  | append_singleton edits edit ih =>
    obtain ⟨hbefore, happlies⟩ := consistentFrom_append h
    have hearlier := hrecorded.of_append.1
    have hold := ih hearlier hbefore
    obtain ⟨known, htracks, -⟩ := tracks_mintedKey hearlier
    rw [reverse_append, reverse_cons, reverse_nil, nil_append, singleton_append]
    cases hpast : lineageAt edits.reverse (startPath edit.1) with
    | none =>
      rw [lineages_cons_none hpast]
      unfold foundAt at hold ⊢
      rw [filter_append, map_append]
      by_cases hkind : edit.1.kind = .create
      · have hnew : [Lineage.start edit].filter (fun l => l.first.1.kind ≠ .create) = [] := by
          simp [hkind]
        rw [hnew, map_nil, append_nil]
        exact hold
      · have hnew : [Lineage.start edit].filter (fun l => l.first.1.kind ≠ .create) =
            [Lineage.start edit] := by
          simp [hkind]
        rw [hnew, nodup_append]
        refine ⟨hold, nodup_singleton _, fun path hpath path' hpath' heq => ?_⟩
        obtain rfl : path' = startPath edit.1 := mem_singleton.mp hpath'
        obtain ⟨l, hl, rfl⟩ := mem_map.mp hpath
        have hmem := lineages_edits htracks (mem_of_mem_filter hl) _ l.first_mem
        refine happlies.isSome hkind (files_of_lineageAt ?_ hpast)
        exact ⟨l.first, mem_reverse.mp hmem, .inr heq⟩
    | some past =>
      have hsame : foundAt (lineages (edit :: edits.reverse)) =
          foundAt (lineages edits.reverse) := by
        rw [lineages_cons_some hpast]
        unfold foundAt
        rw [filter_map, map_map]
        have hfirst : ∀ l : Lineage, (if l = past then past.extend edit else l).first = l.first := by
          intro l
          split_ifs with heq
          · rw [Lineage.first_extend, heq]
          · rfl
        simp only [Function.comp_def, hfirst]
      rw [hsame]
      exact hold

variable {edits : List (FileEdit × Nat)}

theorem create_of_same_start (hrecorded : Recorded edits)
    (h : ConsistentFrom files (edits.map Prod.fst)) {l' : Lineage} (hl : l ∈ lineagesOf edits)
    (hl' : l' ∈ lineagesOf edits) (hne : l' ≠ l)
    (hstart : startPath l'.first.1 = startPath l.first.1) (hkind : l.first.1.kind ≠ .create) :
    l'.first.1.kind = .create := by
  by_contra hkind'
  have hnodup := nodup_foundAt hrecorded h
  exact hne (inj_on_of_nodup_map hnodup (mem_filter.mpr ⟨hl', decide_eq_true hkind'⟩)
    (mem_filter.mpr ⟨hl, decide_eq_true hkind⟩) hstart)

/-! ## Both aggregations -/

theorem computes_of_tracks [DecidableEq κ] (h : Tracks edits.reverse graph known)
    (howned : ∀ edit ∈ edits, Owned sources edit)
    (hform : ∀ edit ∈ edits, WellFormed services edit.1) {diff : Lineage → Option SessionFileDiff}
    (hdiffs : diffs = (lineagesOf edits).filterMap diff) (hdiff : ∀ l ∈ lineagesOf edits,
      (diff l).map (reviewEntry sources) = computedEntry services sources l) :
    Computes services sources (lineagesOf edits) diffs := by
  have hfirst : ∀ l ∈ lineagesOf edits, l.first ∈ edits := fun l hl =>
    mem_reverse.mp (lineages_edits h hl _ l.first_mem)
  have hcreate : ∀ l ∈ lineagesOf edits, l.first.1.kind = .create →
      readBefore sources l = l.first.1.beforeContent := by
    intro l hl hkind
    refine readBefore_of_none (howned _ (hfirst l hl)) (renamedFrom_of_ne ?_)
    rw [hkind]
    decide
  refine ⟨?_, fun l hl => ?_, fun l hl hnot hkind => ?_, ?_⟩
  · rw [hdiffs, map_filterMap]
    exact filterMap_congr hdiff
  · exact computedEntry_eq_iff (hform _ (hfirst l hl)) (hcreate l hl)
  · exact hnot (.inl (hcreate l hl hkind))
  · have hdistinct := h.distinct
    rw [← h.lineages] at hdistinct
    exact hdistinct

theorem wellFormed_of_consistent {edits : List FileEdit} (h : Consistent edits) :
    ∀ edit ∈ edits, WellFormed services edit := by
  obtain ⟨files, hfiles⟩ := h
  intro edit hedit
  obtain ⟨_, happlies⟩ := hfiles.applies edit hedit
  exact happlies.wellFormed

theorem computes_unionedDiffs (huris : (sources.map SessionDiffSource.sessionUri).Nodup)
    (hconsistent : Consistent ((unionedEdits sources).map Prod.fst))
    (hapart : BeginsApart (lineagesOf (unionedEdits sources))) :
    Computes services sources (lineagesOf (unionedEdits sources))
      (computeUnionedDiffs services sources none) := by
  have hform : ∀ edit ∈ unionedEdits sources, WellFormed services edit.1 := fun edit hedit =>
    wellFormed_of_consistent hconsistent _ (mem_map_of_mem hedit)
  have howned : ∀ edit ∈ unionedEdits sources, Owned sources edit := fun _ => mem_unionedEdits.mp
  obtain ⟨known, htracks, -⟩ := tracks_pathKey
    ⟨nodup_unionedEdits sources, fun edit hedit => (hform edit hedit).moves⟩ hapart
  have hdiffs : computeUnionedDiffs services sources none =
      (lineagesOf (unionedEdits sources)).filterMap fun l =>
        (sources[l.first.2]?).bind fun firstSource => (sources[l.last.2]?).bind fun lastSource =>
          identityDiff services firstSource lastSource l.identity :=
    filterMap_identities htracks fun identity => do
      guard (inScope none identity)
      let firstSource ← sources[identity.firstSourceIdx]?
      let lastSource ← sources[identity.lastSourceIdx]?
      identityDiff services firstSource lastSource identity
  refine computes_of_tracks htracks howned hform hdiffs fun l hl => ?_
  have hedits := fun edit hedit => mem_reverse.mp (lineages_edits htracks hl edit hedit)
  obtain ⟨firstSource, hfirst, -⟩ := howned _ (hedits _ l.first_mem)
  obtain ⟨lastSource, hlast, hrow⟩ := howned _ (hedits _ l.last_mem)
  rw [hfirst, hlast]
  exact identityDiff_computed huris hfirst hlast hrow (hform _ (hedits _ l.last_mem))

def turnEdits (source : SessionDiffSource) (turnId : JsString) : List (FileEdit × Nat) :=
  (source.db.getFileEditsByTurn turnId).map fun edit => (edit, 0)

theorem recorded_turnEdits {turnId : JsString}
    (hconsistent : Consistent (source.db.getFileEditsByTurn turnId)) :
    Recorded (turnEdits source turnId) where
  nodup := nodup_map_source (source.db.nodup.filter _) 0
  moves edit hedit := by
    obtain ⟨row, hrow, rfl⟩ := mem_map.mp hedit
    obtain ⟨files, hfiles⟩ := hconsistent
    obtain ⟨_, happlies⟩ := hfiles.applies row hrow
    exact happlies.moves

theorem computes_turnDiffs {source : SessionDiffSource} {turnId : JsString}
    (hconsistent : Consistent (source.db.getFileEditsByTurn turnId)) :
    Computes services [source] (lineagesOf (turnEdits source turnId))
      (computeTurnDiffs services source turnId none) := by
  have hrow : ∀ edit ∈ turnEdits source turnId, edit.2 = 0 ∧
      edit.1 ∈ source.db.getFileEditsByTurn turnId := by
    intro edit hedit
    obtain ⟨row, hmem, rfl⟩ := mem_map.mp hedit
    exact ⟨rfl, hmem⟩
  have howned : ∀ edit ∈ turnEdits source turnId, Owned [source] edit := by
    intro edit hedit
    obtain ⟨hzero, hmem⟩ := hrow edit hedit
    exact ⟨source, (by rw [hzero]; rfl), mem_of_mem_filter hmem⟩
  have hform : ∀ edit ∈ turnEdits source turnId, WellFormed services edit.1 := fun edit hedit =>
    wellFormed_of_consistent hconsistent _ (hrow edit hedit).2
  obtain ⟨known, htracks, -⟩ := tracks_mintedKey (recorded_turnEdits hconsistent)
  have hdiffs : computeTurnDiffs services source turnId none =
      (lineagesOf (turnEdits source turnId)).filterMap fun l =>
        identityDiff services source source l.identity :=
    filterMap_identities htracks fun identity => do
      guard (inScope none identity)
      identityDiff services source source identity
  refine computes_of_tracks htracks howned hform hdiffs fun l hl => ?_
  have hedits := fun edit hedit => mem_reverse.mp (lineages_edits htracks hl edit hedit)
  have hsource : ∀ edit ∈ l.edits, [source][edit.2]? = some source := by
    intro edit hedit
    rw [(hrow edit (hedits edit hedit)).1]
    rfl
  have huris : ([source].map SessionDiffSource.sessionUri).Nodup := nodup_singleton _
  exact identityDiff_computed huris (hsource _ l.first_mem) (hsource _ l.last_mem)
    (mem_of_mem_filter (hrow _ (hedits _ l.last_mem)).2) (hform _ (hedits _ l.last_mem))

def DistinctUris (services : DiffServices) (ls : List Lineage) : Prop :=
  ∀ l ∈ ls, ∀ l' ∈ ls,
    services.fileUri (startPath l.first.1) = services.fileUri (startPath l'.first.1) →
      startPath l.first.1 = startPath l'.first.1

/-- A turn's diffs report its lineages exactly where every first content is read back, and
so do those of the whole session where no two lineages begin at one path. -/
theorem reports_iff (huris : (sources.map SessionDiffSource.sessionUri).Nodup) :
    (Consistent ((unionedEdits sources).map Prod.fst) →
        DistinctUris services (lineagesOf (unionedEdits sources)) →
        BeginsApart (lineagesOf (unionedEdits sources)) →
        (Reports services sources (computeUnionedDiffs services sources none)
            (lineagesOf (unionedEdits sources)) ↔
          ∀ l ∈ lineagesOf (unionedEdits sources), ReadsBack services sources l)) ∧
      ∀ source ∈ sources, ∀ turnId, Consistent (source.db.getFileEditsByTurn turnId) →
        DistinctUris services (lineagesOf (turnEdits source turnId)) →
        (Reports services [source] (computeTurnDiffs services source turnId none)
            (lineagesOf (turnEdits source turnId)) ↔
          ∀ l ∈ lineagesOf (turnEdits source turnId), ReadsBack services [source] l) := by
  constructor
  · intro hconsistent hdistinct hapart
    have hcomputes := @computes_unionedDiffs services _ huris hconsistent hapart
    refine ⟨fun hreports => ?_, hcomputes.reports⟩
    refine hcomputes.readsBack hreports fun l hl _ _ l' hl' hne => .inr fun huri => ?_
    exact hne (inj_on_of_nodup_map hapart hl' hl (hdistinct l' hl' l hl huri))
  · intro source _ turnId hconsistent hdistinct
    have hcomputes := @computes_turnDiffs services _ _ hconsistent
    refine ⟨fun hreports => ?_, hcomputes.reports⟩
    refine hcomputes.readsBack hreports fun l hl hkind _ l' hl' hne => ?_
    by_cases hstart : startPath l'.first.1 = startPath l.first.1
    · obtain ⟨files, hfiles⟩ := hconsistent
      have hmap : (turnEdits source turnId).map Prod.fst = source.db.getFileEditsByTurn turnId := by
        unfold turnEdits
        rw [map_map]
        exact map_id _
      exact .inl (create_of_same_start (recorded_turnEdits ⟨files, hfiles⟩) (hmap ▸ hfiles) hl hl'
        hne hstart hkind)
    · exact .inr fun huri => hstart (hdistinct l' hl' l hl huri)

/-! ## A path used again -/

def plainServices : DiffServices where
  decode bytes := bytes.map fun byte => Fin.ofNat 0x10000 byte.toNat
  decode_nil := rfl
  computeDiffCounts original modified :=
    ⟨if modified.isEmpty then 0 else 1, if original.isEmpty then 0 else 1⟩
  fileUri path := ofString "file://" ++ path

def PATH_A : JsString := ofString "/a"

def PATH_B : JsString := ofString "/b"

def SESSION : JsString := ofString "session:/s"

def TURN : JsString := ofString "t"

def editA : FileEdit := ⟨TURN, ofString "1", PATH_A, .edit, none, some [120], some [121]⟩

def renameAToB : FileEdit :=
  ⟨TURN, ofString "2", PATH_B, .rename, some PATH_A, some [121], some [121]⟩

def createA : FileEdit := ⟨TURN, ofString "3", PATH_A, .create, none, none, some [122]⟩

def movedSource : SessionDiffSource := ⟨SESSION, [editA, renameAToB], by decide⟩

def reusedSource : SessionDiffSource := ⟨SESSION, [editA, renameAToB, createA], by decide⟩

def renamedSource : SessionDiffSource := ⟨SESSION, [renameAToB], by decide⟩

def onlyA (content : Bytes) : FileSystem := fun path => if path = PATH_A then some content else none

theorem consistent_reused : Consistent [editA, renameAToB, createA] :=
  ⟨onlyA [120], ⟨by decide, by decide, by decide⟩,
    ⟨PATH_A, by decide, by decide, by decide, by decide, by decide, by decide⟩,
    ⟨by decide, by decide, by decide⟩, trivial⟩

theorem consistent_moved : Consistent [editA, renameAToB] :=
  ⟨onlyA [120], ⟨by decide, by decide, by decide⟩,
    ⟨PATH_A, by decide, by decide, by decide, by decide, by decide, by decide⟩, trivial⟩

theorem consistent_renamed : Consistent [renameAToB] :=
  ⟨onlyA [121], ⟨PATH_A, by decide, by decide, by decide, by decide, by decide, by decide⟩, trivial⟩

theorem reports_iff_moved :
    Reports plainServices [movedSource] (computeUnionedDiffs plainServices [movedSource] none)
        (lineagesOf (unionedEdits [movedSource])) ∧
      Reports plainServices [movedSource] (computeTurnDiffs plainServices movedSource TURN none)
        (lineagesOf (turnEdits movedSource TURN)) := by
  have huris : ([movedSource].map SessionDiffSource.sessionUri).Nodup := nodup_singleton _
  have hiff := @reports_iff plainServices _ huris
  have hlineages : lineagesOf (unionedEdits [movedSource]) =
      [⟨(renameAToB, 0), [(editA, 0)]⟩] := by decide
  have hturn : lineagesOf (turnEdits movedSource TURN) =
      [⟨(renameAToB, 0), [(editA, 0)]⟩] := by decide
  have hreads : ReadsBack plainServices [movedSource] ⟨(renameAToB, 0), [(editA, 0)]⟩ :=
    .inl (by decide)
  rw [hlineages] at hiff
  rw [hlineages, hturn]
  constructor
  · refine (hiff.1 consistent_moved ?_ (nodup_singleton _)).mpr ?_
    · intro l hl l' hl' _
      rw [mem_singleton.mp hl, mem_singleton.mp hl']
    · intro l hl
      exact mem_singleton.mp hl ▸ hreads
  · have hturnIff := hiff.2 movedSource (mem_singleton_self _) TURN consistent_moved
    rw [hturn] at hturnIff
    refine (hturnIff ?_).mpr ?_
    · intro l hl l' hl' _
      rw [mem_singleton.mp hl, mem_singleton.mp hl']
    · intro l hl
      exact mem_singleton.mp hl ▸ hreads

/-- The file that was moved away is lost where its path is used again; a file that was only
renamed shows up as changed. -/
theorem not_always_reports :
    (Consistent ((unionedEdits [reusedSource]).map Prod.fst) ∧ ¬Reports plainServices [reusedSource]
          (computeUnionedDiffs plainServices [reusedSource] none)
          (lineagesOf (unionedEdits [reusedSource]))) ∧
      Consistent (renamedSource.db.getFileEditsByTurn TURN) ∧ ¬Reports plainServices [renamedSource]
          (computeTurnDiffs plainServices renamedSource TURN none)
          (lineagesOf (turnEdits renamedSource TURN)) := by
  refine ⟨⟨consistent_reused, fun h => absurd h.length_eq (by decide)⟩, ?_,
    fun h => absurd h.length_eq (by decide)⟩
  exact consistent_renamed

end Diffs

end Fumie.AgentHost
