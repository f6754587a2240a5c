import Fumie.UserDataSync.Comparison

/-!
# Merging snippets

The three-way merge of snippet files: six walks over what was added, updated and removed on
either side since the last sync. Where one key ends up depends on its own three values, so
the walks are read off key by key.
-/

namespace Fumie.UserDataSync

open Fumie.Lib

variable {step : Changes String → String → Changes String}

namespace SnippetsMerge

structure MergeResult where
  localChanges : Changes String
  remoteChanges : Changes String
  conflicts : OrderedSet String

def unmerged : MergeResult := ⟨.empty, .empty, .empty⟩

/-! ## The walks -/

section

variable (s : MergeResult) (key : String) (baseToLocal baseToRemote localToRemote : Comparison)

def addConflict : MergeResult := { s with conflicts := s.conflicts.insert key }

variable (localSnippets remote : Record String String)

def onRemovedInLocal : MergeResult :=
  if key ∈ baseToRemote.updated then { s with localChanges := s.localChanges.add remote key }
  else { s with remoteChanges := s.remoteChanges.remove key }

def onRemovedInRemote : MergeResult :=
  if key ∈ s.conflicts then s
  else if key ∈ baseToLocal.updated then addConflict s key
  else { s with localChanges := s.localChanges.remove key }

def onUpdatedInLocal : MergeResult :=
  if key ∈ s.conflicts then s
  else if key ∈ baseToRemote.updated then
    if key ∈ localToRemote.updated then addConflict s key else s
  else { s with remoteChanges := s.remoteChanges.update localSnippets key }

def onUpdatedInRemote : MergeResult :=
  if key ∈ s.conflicts then s
  else if key ∈ baseToLocal.updated then
    if key ∈ localToRemote.updated then addConflict s key else s
  else if localSnippets.get key ≠ none then
    { s with localChanges := s.localChanges.update remote key }
  else s

def onAddedInLocal : MergeResult :=
  if key ∈ s.conflicts then s
  else if key ∈ baseToRemote.added then
    if key ∈ localToRemote.updated then addConflict s key else s
  else { s with remoteChanges := s.remoteChanges.add localSnippets key }

def onAddedInRemote : MergeResult :=
  if key ∈ s.conflicts then s
  else if key ∈ baseToLocal.added then
    if key ∈ localToRemote.updated then addConflict s key else s
  else { s with localChanges := s.localChanges.add remote key }

end

def mergeKeys (localSnippets remote : Record String String)
    (baseToLocal baseToRemote localToRemote : Comparison) : MergeResult :=
  let s := baseToLocal.removed.elems.foldl
    (fun s key => onRemovedInLocal s key baseToRemote remote) unmerged
  let s := baseToRemote.removed.elems.foldl (fun s key => onRemovedInRemote s key baseToLocal) s
  let s := baseToLocal.updated.elems.foldl
    (fun s key => onUpdatedInLocal s key baseToRemote localToRemote localSnippets) s
  let s := baseToRemote.updated.elems.foldl
    (fun s key => onUpdatedInRemote s key baseToLocal localToRemote localSnippets remote) s
  let s := baseToLocal.added.elems.foldl
    (fun s key => onAddedInLocal s key baseToRemote localToRemote localSnippets) s
  baseToRemote.added.elems.foldl
    (fun s key => onAddedInRemote s key baseToLocal localToRemote remote) s

def merge (localSnippets : Record String String) (remote base : Option (Record String String)) :
    MergeResult :=
  match remote with
  | none => { unmerged with remoteChanges.added := localSnippets }
  | some remote =>
    if (compare localSnippets remote).unchanged then unmerged
    else
      mergeKeys localSnippets remote (compare (base.getD .empty) localSnippets)
        (compare (base.getD .empty) remote) (compare localSnippets remote)

/-! ## One key -/

/-- What a merge says about one key. -/
structure Row where
  localRow : ChangeRow String
  remoteRow : ChangeRow String
  conflict : Bool

def row (s : MergeResult) (key : String) : Row :=
  ⟨s.localChanges.row key, s.remoteChanges.row key, key ∈ s.conflicts⟩

def Row.meet (row : Row) (both apart : Prop) [Decidable both] [Decidable apart] (alone : Row) : Row :=
  if row.conflict then row
  else if both then if apart then { row with conflict := true } else row
  else alone

/-- The six walks at a key with these three values. -/
def rowOf (b l r : Option String) : Row :=
  let row : Row := ⟨.empty, .empty, false⟩
  let row := if b ≠ none ∧ l = none then
      if b ≠ none ∧ r ≠ none ∧ b ≠ r then
        { row with localRow := row.localRow.add r }
      else { row with remoteRow := row.remoteRow.remove }
    else row
  let row := if b ≠ none ∧ r = none then
      row.meet (b ≠ none ∧ l ≠ none ∧ b ≠ l) True { row with localRow := row.localRow.remove }
    else row
  let row := if b ≠ none ∧ l ≠ none ∧ b ≠ l then
      row.meet (b ≠ none ∧ r ≠ none ∧ b ≠ r) (l ≠ none ∧ r ≠ none ∧ l ≠ r)
        { row with remoteRow := row.remoteRow.update l }
    else row
  let row := if b ≠ none ∧ r ≠ none ∧ b ≠ r then
      row.meet (b ≠ none ∧ l ≠ none ∧ b ≠ l) (l ≠ none ∧ r ≠ none ∧ l ≠ r)
        (if l ≠ none then { row with localRow := row.localRow.update r } else row)
    else row
  let row := if b = none ∧ l ≠ none then
      row.meet (b = none ∧ r ≠ none) (l ≠ none ∧ r ≠ none ∧ l ≠ r)
        { row with remoteRow := row.remoteRow.add l }
    else row
  if b = none ∧ r ≠ none then
    row.meet (b = none ∧ l ≠ none) (l ≠ none ∧ r ≠ none ∧ l ≠ r)
      { row with localRow := row.localRow.add r }
  else row

theorem row_onLocal (g : String → ChangeRow String → ChangeRow String)
    (hstep : ∀ c key other,
      (step c key).row other = if key = other then g other (c.row other) else c.row other)
    (s : MergeResult) (key other : String) :
    row { s with localChanges := step s.localChanges key } other = if key = other then
      { row s other with localRow := g other (row s other).localRow } else row s other := by
  unfold row
  rw [hstep]
  split <;> rfl

theorem row_onRemote (g : String → ChangeRow String → ChangeRow String)
    (hstep : ∀ c key other,
      (step c key).row other = if key = other then g other (c.row other) else c.row other)
    (s : MergeResult) (key other : String) :
    row { s with remoteChanges := step s.remoteChanges key } other = if key = other then
      { row s other with remoteRow := g other (row s other).remoteRow } else row s other := by
  unfold row
  rw [hstep]
  split <;> rfl

theorem row_addConflict (s : MergeResult) (key other : String) : row (addConflict s key) other =
    if key = other then { row s other with conflict := true } else row s other := by
  unfold row addConflict
  by_cases h : key = other
  · simp [h]
  · simp [h, Ne.symm h]

section

variable (keys : OrderedSet String) (s : MergeResult) (d : Record String String) (key : String)
  (baseToLocal baseToRemote : Comparison)

theorem row_removedInLocal :
    row (keys.elems.foldl (fun s key => onRemovedInLocal s key baseToRemote d) s) key =
      if key ∈ keys then
        if key ∈ baseToRemote.updated then
          { row s key with localRow := (row s key).localRow.add (d.get key) }
        else { row s key with remoteRow := (row s key).remoteRow.remove }
      else row s key :=
  foldl_row row (fun key (r : Row) => if key ∈ baseToRemote.updated then
      { r with localRow := r.localRow.add (d.get key) }
    else { r with remoteRow := r.remoteRow.remove }) (fun s key other => by
    unfold onRemovedInLocal
    rw [apply_ite (row · other), row_onLocal (fun key row => row.add (d.get key)) (row_add · d),
      row_onRemote (fun _ => ChangeRow.remove) row_remove]
    by_cases heq : key = other
    · subst heq
      simp only [if_true]
    · simp only [if_neg heq, ite_self]) keys.nodup s key

theorem conflict_iff : (row s key).conflict = true ↔ key ∈ s.conflicts := decide_eq_true_iff

theorem row_meet (both apart : String → Prop) [DecidablePred both] [DecidablePred apart]
    {alone : MergeResult → String → MergeResult} (g : String → Row → Row)
    (halone : ∀ s key other, row (alone s key) other =
      if key = other then g other (row s other) else row s other) :
    row (keys.elems.foldl (fun s key => if key ∈ s.conflicts then s
      else if both key then if apart key then addConflict s key else s else alone s key) s) key =
      if key ∈ keys then (row s key).meet (both key) (apart key) (g key (row s key))
      else row s key :=
  foldl_row row (fun key (r : Row) => r.meet (both key) (apart key) (g key r))
    (fun s key other => by
      unfold Row.meet
      rw [apply_ite (row · other), apply_ite (row · other), apply_ite (row · other),
        row_addConflict, halone]
      by_cases heq : key = other
      · subst heq
        simp only [if_true, conflict_iff]
      · simp only [if_neg heq, ite_self]) keys.nodup s key

theorem row_removedInRemote :
    row (keys.elems.foldl (fun s key => onRemovedInRemote s key baseToLocal) s) key =
      if key ∈ keys then (row s key).meet (key ∈ baseToLocal.updated) True
        { row s key with localRow.removed := true } else row s key := by
  have h := row_meet keys s key (· ∈ baseToLocal.updated) (fun _ => True)
    (fun _ row => { row with localRow := row.localRow.remove })
    (row_onLocal (fun _ => ChangeRow.remove) row_remove)
  simp only [if_true] at h
  exact h

end

variable {l r : Record String String}

theorem row_mergeKeys (b : Record String String) (key : String) :
    row (mergeKeys l r (compare b l) (compare b r) (compare l r)) key =
      rowOf (b.get key) (l.get key) (r.get key) := by
  have hupdate : ∀ s key other,
      row (if l.get key ≠ none then { s with localChanges := s.localChanges.update r key } else s)
        other = if key = other then if l.get other ≠ none then
            { row s other with localRow := (row s other).localRow.update (r.get other) }
          else row s other
        else row s other := by
    intro s key other
    rw [apply_ite (row · other),
      row_onLocal (fun key row => row.update (r.get key)) (row_update · r)]
    by_cases heq : key = other
    · subst heq
      simp only [if_true]
    · simp only [if_neg heq, ite_self]
  unfold mergeKeys onAddedInRemote onAddedInLocal onUpdatedInRemote onUpdatedInLocal
  rw [row_meet _ _ _ _ _ (fun key row => { row with localRow := row.localRow.add (r.get key) })
      (row_onLocal (fun key row => row.add (r.get key)) (row_add · r)),
    row_meet _ _ _ _ _ (fun key row => { row with remoteRow := row.remoteRow.add (l.get key) })
      (row_onRemote (fun key row => row.add (l.get key)) (row_add · l)),
    row_meet _ _ _ _ _ (fun key row => if l.get key ≠ none then
      { row with localRow := row.localRow.update (r.get key) } else row) hupdate,
    row_meet _ _ _ _ _ (fun key row =>
        { row with remoteRow := row.remoteRow.update (l.get key) })
      (row_onRemote (fun key row => row.update (l.get key)) (row_update · l)),
    row_removedInRemote, row_removedInLocal]
  simp only [mem_compare_added, mem_compare_removed, mem_compare_updated]
  rfl

/-! ## What a merge settles -/

structure Merges (l r b : Record String String) (m : MergeResult) : Prop where
  agree : ∀ key, key ∉ m.conflicts →
    (m.localChanges.apply l).get key = (m.remoteChanges.apply r).get key
  /-- A side that is as it was takes over the other; the result is always from one of them. -/
  value : ∀ key, key ∉ m.conflicts →
    (l.get key = b.get key → (m.localChanges.apply l).get key = r.get key) ∧
      (r.get key = b.get key → (m.localChanges.apply l).get key = l.get key) ∧
      ((m.localChanges.apply l).get key = l.get key ∨ (m.localChanges.apply l).get key = r.get key)
  conflict : ∀ key, key ∈ m.conflicts ↔ l.get key ≠ b.get key ∧ r.get key ≠ b.get key ∧
    l.get key ≠ r.get key ∧ l.get key ≠ none
  localFits : m.localChanges.Fits l
  remoteFits : m.remoteChanges.Fits r

def Row.Merges (row : Row) (b l r : Option String) : Prop :=
  (row.conflict = false → row.localRow.value l = row.remoteRow.value r ∧
    (l = b → row.localRow.value l = r) ∧ (r = b → row.localRow.value l = l) ∧
      (row.localRow.value l = l ∨ row.localRow.value l = r)) ∧
    (row.conflict = true ↔ l ≠ b ∧ r ≠ b ∧ l ≠ r ∧ l ≠ none)

theorem merges_iff_rows {b : Record String String} {m : MergeResult} : Merges l r b m ↔
    ∀ key, (row m key).Merges (b.get key) (l.get key) (r.get key) ∧
      (row m key).localRow.Fits (l.get key) ∧ (row m key).remoteRow.Fits (r.get key) := by
  have hl : ∀ key, (row m key).localRow.value (l.get key) = (m.localChanges.apply l).get key :=
    fun key => (get_apply _ _ _).symm
  have hr : ∀ key, (row m key).remoteRow.value (r.get key) = (m.remoteChanges.apply r).get key :=
    fun key => (get_apply _ _ _).symm
  have hc : ∀ key, (row m key).conflict = false ↔ key ∉ m.conflicts :=
    fun _ => decide_eq_false_iff_not
  unfold Row.Merges
  simp only [hl, hr, hc, conflict_iff]
  constructor
  · intro h key
    exact ⟨⟨fun hkey => ⟨h.agree key hkey, h.value key hkey⟩, h.conflict key⟩, h.localFits key,
      h.remoteFits key⟩
  · intro h
    exact ⟨fun key hkey => ((h key).1.1 hkey).1, fun key hkey => ((h key).1.1 hkey).2,
      fun key => (h key).1.2, fun key => (h key).2.1, fun key => (h key).2.2⟩

theorem rowOf_spec (b l r : Option String) : (rowOf b l r).Merges b l r ∧
    ((rowOf b l r).localRow.Fits l ∧ (rowOf b l r).remoteRow.Fits r ↔
      (b ≠ none → l ≠ none ∨ r ≠ none)) := by
  unfold rowOf Row.meet Row.Merges ChangeRow.Fits ChangeRow.value ChangeRow.add ChangeRow.update
    ChangeRow.remove ChangeRow.empty
  cases b with
  | none =>
    cases l with
    | none => cases r <;> simp
    | some x =>
      cases r with
      | none => simp
      | some y =>
        by_cases hxy : x = y
        · simp [hxy]
        · simp [hxy]
  | some z =>
    cases l with
    | none =>
      cases r with
      | none => simp
      | some y =>
        by_cases hzy : z = y
        · simp [hzy]
        · simp [hzy, Ne.symm hzy]
    | some x =>
      by_cases hzx : z = x
      · subst hzx
        cases r with
        | none => simp
        | some y =>
          by_cases hzy : z = y
          · simp [hzy]
          · simp [hzy, Ne.symm hzy]
      · cases r with
        | none => simp [hzx, Ne.symm hzx]
        | some y =>
          by_cases hzy : z = y
          · subst hzy
            simp [hzx, Ne.symm hzx]
          · by_cases hxy : x = y
            · subst hxy
              simp [hzx, Ne.symm hzx]
            · simp [hzx, hzy, hxy, Ne.symm hzx, Ne.symm hzy]

def single (key value : String) : Record String String := Record.empty.set key value

end SnippetsMerge

end Fumie.UserDataSync
