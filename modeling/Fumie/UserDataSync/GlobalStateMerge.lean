import Fumie.UserDataSync.Comparison

/-!
# Merging the global state

The three-way merge of synced storage keys. The remote storage is rewritten in three walks
over what changed locally, and three walks over what changed remotely collect the local
changes; machine-scoped keys stay out of the latter, unregistered keys are not removed.
-/

namespace Fumie.UserDataSync

open Fumie.Lib List Record

namespace GlobalStateMerge

structure StorageValue where
  version : Int
  value : String
  scope : Option Int
  deriving DecidableEq

abbrev Storage := Record String StorageValue

structure StorageKeys where
  machine : List String
  unregistered : List String

structure RemoteChanges where
  added : List String
  removed : List String
  updated : List String
  all : Option Storage

structure MergeResult where
  localChanges : Changes StorageValue
  remoteChanges : RemoteChanges

def SYNC_SERVICE_URL_TYPE : String := "sync.store.url.type"

/-- `localValue && localValue.value === remoteValue.value`. -/
def sameValue : Option StorageValue → Option StorageValue → Bool
  | some localValue, some remoteValue => localValue.value = remoteValue.value
  | _, _ => false

def everythingAdded (d : Storage) : Comparison := ⟨keysWhere d fun _ => true, .empty, .empty⟩

section

variable (localStorage remoteStorage : Storage) (baseStorage : Option Storage) (keys : StorageKeys)
  (baseToLocal baseToRemote : Comparison)

/-! ## What the remote storage becomes -/

variable (c : Changes StorageValue) (remote : Storage)

def onAddedInLocal (key : String) : Storage :=
  if key ≠ SYNC_SERVICE_URL_TYPE ∧ baseStorage.isNone ∧ key ∈ baseToRemote.added then remote
  else copyEntry remote localStorage key

def onRemovedInLocal (key : String) : Storage :=
  if key ∈ keys.unregistered then remote else remote.delete key

def remoteWalks : Storage :=
  let remote := baseToLocal.added.elems.foldl
    (onAddedInLocal localStorage baseStorage baseToRemote) remoteStorage
  let remote := baseToLocal.updated.elems.foldl
    (fun remote key => copyEntry remote localStorage key) remote
  baseToLocal.removed.elems.foldl (onRemovedInLocal keys) remote

/-! ## What changes locally -/

def onAddedInRemote (key : String) : Changes StorageValue :=
  if key ∈ keys.machine then c
  else if baseStorage.isSome ∧ key ∈ baseToLocal.added then c
  else if sameValue (localStorage.get key) (remoteStorage.get key) then c
  else if key = SYNC_SERVICE_URL_TYPE ∧ baseStorage.isNone ∧ key ∈ baseToLocal.added then c
  else if localStorage.get key ≠ none then c.update remoteStorage key
  else c.add remoteStorage key

def onUpdatedInRemote (key : String) : Changes StorageValue :=
  if key ∈ keys.machine then c
  else if key ∈ baseToLocal.updated ∨ key ∈ baseToLocal.removed then c
  else if sameValue (localStorage.get key) (remoteStorage.get key) then c
  else c.update remoteStorage key

def onRemovedInRemote (key : String) : Changes StorageValue :=
  if key ∈ keys.machine then c
  else if key ∈ baseToLocal.updated ∨ key ∈ baseToLocal.removed then c
  else c.remove key

def localWalks : Changes StorageValue :=
  let c := baseToRemote.added.elems.foldl
    (onAddedInRemote localStorage remoteStorage baseStorage keys baseToLocal) .empty
  let c := baseToRemote.updated.elems.foldl
    (onUpdatedInRemote localStorage remoteStorage keys baseToLocal) c
  baseToRemote.removed.elems.foldl (onRemovedInRemote keys baseToLocal) c

def reportRemote : RemoteChanges :=
  let result := compare remoteStorage remote
  { added := result.added.elems
    updated := result.updated.elems
    removed := result.removed.elems
    all := if result.unchanged then none else some remote }

def merge (localStorage : Storage) (remoteStorage baseStorage : Option Storage)
    (keys : StorageKeys) : MergeResult :=
  match remoteStorage with
  | none =>
    ⟨.empty, localStorage.keys, [], [],
      if localStorage.isEmpty then none else some localStorage⟩
  | some remoteStorage =>
    if (compare localStorage remoteStorage).unchanged then ⟨.empty, [], [], [], none⟩
    else
      let compareBase := fun d => match baseStorage with
        | some base => compare base d
        | none => everythingAdded d
      let baseToRemote := compareBase remoteStorage
      let baseToLocal := compareBase localStorage
      ⟨localWalks localStorage remoteStorage baseStorage keys baseToLocal baseToRemote,
        reportRemote remoteStorage
          (remoteWalks localStorage remoteStorage baseStorage keys baseToLocal baseToRemote)⟩

end

/-! ## One key -/

theorem everythingAdded_eq (d : Storage) : everythingAdded d = compare .empty d := by
  unfold everythingAdded compare keysWhere
  simp [Record.empty, Record.keys, OrderedSet.empty]

def remoteOf (first : Bool) (keys : StorageKeys) (key : String) (b l r : Option StorageValue) :
    Option StorageValue :=
  let v := if b = none ∧ l ≠ none then
      if key ≠ SYNC_SERVICE_URL_TYPE ∧ first ∧ b = none ∧ r ≠ none then r else l.or r
    else r
  let v := if b ≠ none ∧ l ≠ none ∧ b ≠ l then l.or v else v
  if b ≠ none ∧ l = none then if key ∈ keys.unregistered then v else none else v

variable {l r : Storage} {b : Option Storage} {keys : StorageKeys}

theorem get_remoteWalks (key : String) :
    (remoteWalks l r b keys (compare (b.getD .empty) l) (compare (b.getD .empty) r)).get key =
      remoteOf b.isNone keys key ((b.getD .empty).get key) (l.get key) (r.get key) := by
  have hadded : ∀ (d : Storage) key other,
      (onAddedInLocal l b (compare (b.getD .empty) r) d key).get other = if key = other then
        if other ≠ SYNC_SERVICE_URL_TYPE ∧ b.isNone ∧ other ∈ (compare (b.getD .empty) r).added
          then d.get other else (l.get other).or (d.get other)
      else d.get other := by
    intro d key other
    unfold onAddedInLocal
    rw [apply_ite (get · other), get_copyEntry]
    grind
  have hremoved : ∀ (d : Storage) key other, (onRemovedInLocal keys d key).get other =
      if key = other then if other ∈ keys.unregistered then d.get other else none
      else d.get other := by
    intro d key other
    unfold onRemovedInLocal
    rw [apply_ite (get · other), get_delete]
    grind
  unfold remoteWalks
  rw [foldl_row get (fun key v => if key ∈ keys.unregistered then v else none)
      hremoved (OrderedSet.nodup _),
    foldl_row get (fun key v => (l.get key).or v)
      (fun d key other => get_copyEntry l key other d) (OrderedSet.nodup _),
    foldl_row get (fun key v => if key ≠ SYNC_SERVICE_URL_TYPE ∧ b.isNone ∧
        key ∈ (compare (b.getD .empty) r).added then v else (l.get key).or v)
      hadded (OrderedSet.nodup _)]
  simp only [← OrderedSet.mem_def, mem_compare_added, mem_compare_removed, mem_compare_updated]
  rfl

def localOf (first : Bool) (keys : StorageKeys) (key : String) (b l r : Option StorageValue) :
    ChangeRow StorageValue :=
  let row := if b = none ∧ r ≠ none then
      if key ∈ keys.machine then .empty
      else if !first ∧ b = none ∧ l ≠ none then .empty
      else if sameValue l r then .empty
      else if key = SYNC_SERVICE_URL_TYPE ∧ first ∧ b = none ∧ l ≠ none then .empty
      else if l ≠ none then ChangeRow.empty.update r else ChangeRow.empty.add r
    else .empty
  let row := if b ≠ none ∧ r ≠ none ∧ b ≠ r then
      if key ∈ keys.machine then row
      else if (b ≠ none ∧ l ≠ none ∧ b ≠ l) ∨ (b ≠ none ∧ l = none) then row
      else if sameValue l r then row else row.update r
    else row
  if b ≠ none ∧ r = none then
    if key ∈ keys.machine then row
    else if (b ≠ none ∧ l ≠ none ∧ b ≠ l) ∨ (b ≠ none ∧ l = none) then row else row.remove
  else row

theorem row_localWalks (key : String) :
    (localWalks l r b keys (compare (b.getD .empty) l) (compare (b.getD .empty) r)).row key =
      localOf b.isNone keys key ((b.getD .empty).get key) (l.get key) (r.get key) := by
  have hadded := @foldl_row _ _ _ _ Changes.row
    (onAddedInRemote l r b keys (compare (b.getD .empty) l)) (fun key row =>
      if key ∈ keys.machine then row
      else if b.isSome ∧ key ∈ (compare (b.getD .empty) l).added then row
      else if sameValue (l.get key) (r.get key) then row
      else if key = SYNC_SERVICE_URL_TYPE ∧ b.isNone ∧ key ∈ (compare (b.getD .empty) l).added
        then row
      else if l.get key ≠ none then row.update (r.get key) else row.add (r.get key))
    (fun c key other => by
      unfold onAddedInRemote
      by_cases heq : key = other
      · subst heq
        simp only [if_true, apply_ite (Changes.row · key), row_update, row_add]
      · simp only [if_neg heq, apply_ite (Changes.row · other), row_update, row_add, ite_self])
    _ (OrderedSet.nodup (compare (b.getD .empty) r).added)
  have hupdated := @foldl_row _ _ _ _ Changes.row
    (onUpdatedInRemote l r keys (compare (b.getD .empty) l)) (fun key row =>
      if key ∈ keys.machine then row
      else if key ∈ (compare (b.getD .empty) l).updated ∨ key ∈ (compare (b.getD .empty) l).removed
        then row
      else if sameValue (l.get key) (r.get key) then row else row.update (r.get key))
    (fun c key other => by
      unfold onUpdatedInRemote
      by_cases heq : key = other
      · subst heq
        simp only [if_true, apply_ite (Changes.row · key), row_update]
      · simp only [if_neg heq, apply_ite (Changes.row · other), row_update, ite_self])
    _ (OrderedSet.nodup (compare (b.getD .empty) r).updated)
  have hremoved := @foldl_row _ _ _ _ Changes.row
    (onRemovedInRemote keys (compare (b.getD .empty) l)) (fun key row =>
      if key ∈ keys.machine then row
      else if key ∈ (compare (b.getD .empty) l).updated ∨ key ∈ (compare (b.getD .empty) l).removed
        then row else row.remove)
    (fun c key other => by
      unfold onRemovedInRemote
      by_cases heq : key = other
      · subst heq
        simp only [if_true, apply_ite (Changes.row · key), row_remove]
      · simp only [if_neg heq, apply_ite (Changes.row · other), row_remove, ite_self])
    _ (OrderedSet.nodup (compare (b.getD .empty) r).removed)
  unfold localWalks
  rw [hremoved, hupdated, hadded]
  simp only [← OrderedSet.mem_def, mem_compare_added, mem_compare_removed, mem_compare_updated]
  have hempty : (Changes.empty : Changes StorageValue).row key = .empty := rfl
  rw [hempty]
  cases b with
  | none => rfl
  | some base => rfl

/-! ## Both storages after a merge -/

section

variable (l r : Storage) (b : Option Storage) (keys : StorageKeys)

def localAfter : Storage := (merge l (some r) b keys).localChanges.apply l

def remoteAfter : Storage := (merge l (some r) b keys).remoteChanges.all.getD r

end

theorem merge_of_unchanged (h : (compare l r).unchanged = true) :
    merge l (some r) b keys = ⟨.empty, [], [], [], none⟩ := if_pos h

theorem merge_of_changed (h : (compare l r).unchanged ≠ true) : merge l (some r) b keys =
    ⟨localWalks l r b keys (compare (b.getD .empty) l) (compare (b.getD .empty) r), reportRemote r
        (remoteWalks l r b keys (compare (b.getD .empty) l) (compare (b.getD .empty) r))⟩ := by
  unfold merge
  dsimp only
  rw [if_neg h]
  cases b with
  | none => simp only [everythingAdded_eq, Option.getD_none]
  | some base => rfl

theorem get_localAfter (h : (compare l r).unchanged ≠ true) (key : String) :
    (localAfter l r b keys).get key =
      (localOf b.isNone keys key ((b.getD .empty).get key) (l.get key) (r.get key)).value
        (l.get key) := by
  unfold localAfter
  rw [merge_of_changed h, get_apply, row_localWalks]

theorem get_remoteAfter (h : (compare l r).unchanged ≠ true) (key : String) :
    (remoteAfter l r b keys).get key =
      remoteOf b.isNone keys key ((b.getD .empty).get key) (l.get key) (r.get key) := by
  unfold remoteAfter
  rw [merge_of_changed h, ← get_remoteWalks]
  unfold reportRemote
  dsimp only
  split
  · rename_i hsame
    exact unchanged_compare_iff.mp hsame key
  · rfl

def Quiet (m : MergeResult) (key : String) : Prop :=
  m.localChanges.row key = .empty ∧ key ∉ m.remoteChanges.added ∧ key ∉ m.remoteChanges.removed ∧
    key ∉ m.remoteChanges.updated

theorem not_reported_iff (remote : Storage) (key : String) :
    (key ∉ (reportRemote r remote).added ∧ key ∉ (reportRemote r remote).removed ∧
      key ∉ (reportRemote r remote).updated) ↔ r.get key = remote.get key := by
  show (¬key ∈ (compare r remote).added ∧ ¬key ∈ (compare r remote).removed ∧
    ¬key ∈ (compare r remote).updated) ↔ _
  rw [mem_compare_added, mem_compare_removed, mem_compare_updated]
  grind

theorem quiet_iff {key : String} (hkey : key ∉ keys.unregistered) :
    Quiet (merge l (some r) (some r) keys) key ↔ l.get key = r.get key := by
  by_cases h : (compare l r).unchanged = true
  · rw [merge_of_unchanged h]
    exact iff_of_true ⟨rfl, not_mem_nil, not_mem_nil, not_mem_nil⟩
      (unchanged_compare_iff.mp h key)
  · have hrow : localOf false keys key (r.get key) (l.get key) (r.get key) = .empty := by
      unfold localOf
      cases r.get key with
      | none => simp
      | some y => simp
    have hremote : remoteOf false keys key (r.get key) (l.get key) (r.get key) = l.get key := by
      unfold remoteOf
      cases r.get key with
      | none => cases l.get key <;> simp
      | some y =>
        cases l.get key with
        | none => simp [hkey]
        | some x => by_cases hxy : y = x <;> simp [hxy]
    have hwalks := @get_remoteWalks l r (some r) keys key
    have hlocal := @row_localWalks l r (some r) keys key
    rw [show (some r).isNone = false from rfl, Option.getD_some] at hwalks hlocal
    rw [hrow] at hlocal
    rw [hremote] at hwalks
    unfold Quiet
    rw [merge_of_changed h, Option.getD_some, not_reported_iff, hlocal, hwalks]
    exact ⟨fun hq => hq.2.symm, fun heq => ⟨rfl, heq.symm⟩⟩

/-! ## What a merge settles -/

def expected (first : Bool) (key : String) (b l r : Option StorageValue) : Option StorageValue :=
  if l = b then r else if r = b then l else if first ∧ key ≠ SYNC_SERVICE_URL_TYPE then r else l

structure Merges (l r : Storage) (b : Option Storage) (keys : StorageKeys) : Prop where
  agree : ∀ key, key ∉ keys.machine → key ∉ keys.unregistered →
    (localAfter l r b keys).get key = (remoteAfter l r b keys).get key
  value : ∀ key, key ∉ keys.machine → key ∉ keys.unregistered → (localAfter l r b keys).get key =
    expected b.isNone key ((b.getD .empty).get key) (l.get key) (r.get key)
  machine : ∀ key ∈ keys.machine, (localAfter l r b keys).get key = l.get key
  again : ∀ key, key ∉ keys.machine → key ∉ keys.unregistered →
    Quiet (merge (localAfter l r b keys) (some (remoteAfter l r b keys))
      (some (remoteAfter l r b keys)) keys) key

def SameTextOnly (first : Bool) (key : String) (b l r : Option StorageValue) : Prop :=
  sameValue l r = true ∧ l ≠ r ∧ if first then key ≠ SYNC_SERVICE_URL_TYPE else l = b

variable {key : String}

def Settled (first : Bool) (keys : StorageKeys) (key : String) (b x y : Option StorageValue) : Prop :=
  (SameTextOnly first key b x y →
    (localOf first keys key b x y).value x ≠ remoteOf first keys key b x y) ∧
  (¬SameTextOnly first key b x y →
    (localOf first keys key b x y).value x = expected first key b x y ∧
      remoteOf first keys key b x y = expected first key b x y)

theorem settled_first {x y : Option StorageValue} (hm : key ∉ keys.machine) :
    Settled true keys key none x y := by
  unfold Settled SameTextOnly localOf remoteOf expected ChangeRow.value ChangeRow.add
    ChangeRow.update ChangeRow.remove ChangeRow.empty
  cases x with
  | none => cases y <;> simp [sameValue, hm]
  | some x =>
    cases y with
    | none => simp [sameValue]
    | some y =>
      by_cases hsync : key = SYNC_SERVICE_URL_TYPE
      · simp [sameValue, hsync]
      · by_cases hvalue : x.value = y.value
        · by_cases hxy : x = y
          · simp [sameValue, hsync, hxy]
          · simp [sameValue, hm, hsync, hxy, hvalue]
        · simp [sameValue, hm, hsync, hvalue]

theorem settled_later {b x y : Option StorageValue} (hm : key ∉ keys.machine)
    (hu : key ∉ keys.unregistered) : Settled false keys key b x y := by
  unfold Settled SameTextOnly localOf remoteOf expected ChangeRow.value ChangeRow.add
    ChangeRow.update ChangeRow.remove ChangeRow.empty
  cases b with
  | none =>
    cases x with
    | none => cases y <;> simp [sameValue, hm]
    | some x => cases y <;> simp [sameValue, hm]
  | some z =>
    cases x with
    | none => cases y <;> simp [sameValue, hm, hu]
    | some x =>
      by_cases hzx : z = x
      · subst hzx
        cases y with
        | none => simp [sameValue, hm]
        | some y =>
          by_cases hzy : z = y
          · simp [sameValue, hzy]
          · by_cases hvalue : z.value = y.value
            · simp [sameValue, hm, hzy, hvalue]
            · simp [sameValue, hm, hzy, hvalue]
      · cases y with
        | none => simp [sameValue, hm, hzx, Ne.symm hzx]
        | some y => simp [sameValue, hm, hzx, Ne.symm hzx]

theorem settled (l r : Storage) (b : Option Storage) (hm : key ∉ keys.machine)
    (hu : key ∉ keys.unregistered) :
    Settled b.isNone keys key ((b.getD .empty).get key) (l.get key) (r.get key) := by
  cases b with
  | none => exact settled_first hm
  | some base => exact settled_later hm hu

theorem merges_iff (l r : Storage) (b : Option Storage) (keys : StorageKeys) :
    Merges l r b keys ↔ ∀ key, key ∉ keys.machine → key ∉ keys.unregistered →
      ¬SameTextOnly b.isNone key ((b.getD .empty).get key) (l.get key) (r.get key) := by
  by_cases h : (compare l r).unchanged = true
  · have hsame := unchanged_compare_iff.mp h
    have hl : ∀ key, (localAfter l r b keys).get key = l.get key := by
      intro key
      unfold localAfter
      rw [merge_of_unchanged h]
      rfl
    have hr : ∀ key, (remoteAfter l r b keys).get key = r.get key := by
      intro key
      unfold remoteAfter
      rw [merge_of_unchanged h]
      rfl
    refine iff_of_true ⟨fun key _ _ => ?_, fun key _ _ => ?_, fun key _ => hl key,
      fun key _ hu => ?_⟩ fun key _ _ hkey => hkey.2.1 (hsame key)
    · rw [hl, hr, hsame]
    · rw [hl, hsame]
      unfold expected
      grind
    · rw [quiet_iff hu, hl, hr, hsame]
  · constructor
    · intro hmerges key hm hu hkey
      have hagree := hmerges.agree key hm hu
      rw [get_localAfter h, get_remoteAfter h] at hagree
      exact (settled l r b hm hu).1 hkey hagree
    · intro hnot
      have hset : ∀ key, key ∉ keys.machine → key ∉ keys.unregistered →
          (localAfter l r b keys).get key =
            expected b.isNone key ((b.getD .empty).get key) (l.get key) (r.get key) ∧
          (remoteAfter l r b keys).get key =
            expected b.isNone key ((b.getD .empty).get key) (l.get key) (r.get key) := by
        intro key hm hu
        rw [get_localAfter h, get_remoteAfter h]
        exact (settled l r b hm hu).2 (hnot key hm hu)
      have hagree : ∀ key, key ∉ keys.machine → key ∉ keys.unregistered →
          (localAfter l r b keys).get key = (remoteAfter l r b keys).get key :=
        fun key hm hu => (hset key hm hu).1.trans (hset key hm hu).2.symm
      refine ⟨hagree, fun key hm hu => (hset key hm hu).1, fun key hm => ?_,
        fun key hm hu => (quiet_iff hu).mpr (hagree key hm hu)⟩
      rw [get_localAfter h]
      unfold localOf
      simp [hm, ChangeRow.value, ChangeRow.empty]

/-! ## A version that only one side moved on -/

def theme (version : Int) : Storage := Record.empty.set "theme" ⟨version, "dark", none⟩

theorem not_always_synced : ¬ ∀ (l r : Storage) (b : Option Storage) (keys : StorageKeys),
    Merges l r b keys := by
  intro h
  have hagree := (h (theme 1) (theme 2) (some (theme 1)) ⟨[], []⟩).agree "theme"
    not_mem_nil not_mem_nil
  exact absurd hagree (by decide)

end GlobalStateMerge

end Fumie.UserDataSync
