import Fumie.AgentHost.Diffs.SessionDiffAggregator

/-!
# File lineages

The edits of one file form a lineage: the file keeps it while its path is edited, deleted
and created again, and takes it along when it is renamed; a path that a file was renamed
away from starts a new one. The identity graph keeps one identity for each lineage as long
as the key of a lineage that begins is none that another has.
-/

namespace Fumie.AgentHost

open Fumie.Lib Fumie.Base List Record

namespace Diffs

/-- The edits of one file: the last of them, and those before it, newest first. -/
structure Lineage where
  last : FileEdit × Nat
  earlier : List (FileEdit × Nat)
  deriving DecidableEq

namespace Lineage

variable (l : Lineage)

def edits : List (FileEdit × Nat) := l.last :: l.earlier

def first : FileEdit × Nat := l.earlier.getLast?.getD l.last

def start (edit : FileEdit × Nat) : Lineage := ⟨edit, []⟩

def extend (edit : FileEdit × Nat) : Lineage := ⟨edit, l.edits⟩

def identity : FileIdentity :=
  (FileIdentity.new l.first.1 l.first.2).update l.last.1 l.last.2

@[simp] theorem last_start (edit : FileEdit × Nat) : (start edit).last = edit := rfl

@[simp] theorem last_extend (edit : FileEdit × Nat) : (l.extend edit).last = edit :=
  rfl

@[simp] theorem first_start (edit : FileEdit × Nat) : (start edit).first = edit := rfl

@[simp] theorem first_extend (edit : FileEdit × Nat) : (l.extend edit).first = l.first := by
  unfold first extend edits
  rw [getLast?_cons]
  rfl

@[simp] theorem identity_start (edit : FileEdit × Nat) :
    (start edit).identity = .new edit.1 edit.2 := rfl

@[simp] theorem identity_extend (edit : FileEdit × Nat) :
    (l.extend edit).identity = l.identity.update edit.1 edit.2 := by
  unfold identity
  rw [first_extend]
  rfl

theorem first_mem : l.first ∈ l.edits := by
  unfold first edits
  cases hlast : l.earlier.getLast? with
  | none => exact mem_cons_self
  | some edit => exact mem_cons_of_mem _ (mem_of_getLast? hlast)

theorem last_mem : l.last ∈ l.edits := List.mem_cons_self

end Lineage

def lineageAt : List (FileEdit × Nat) → JsString → Option Lineage
  | [], _ => none
  | edit :: older, path =>
    if edit.1.filePath = path then
      some ((lineageAt older (startPath edit.1)).elim (.start edit) fun past => past.extend edit)
    else if startPath edit.1 = path then none
    else lineageAt older path

def lineages : List (FileEdit × Nat) → List Lineage
  | [] => []
  | edit :: older =>
    match lineageAt older (startPath edit.1) with
    | none => lineages older ++ [.start edit]
    | some past => (lineages older).map fun l => if l = past then past.extend edit else l

def lineagesOf (edits : List (FileEdit × Nat)) : List Lineage := lineages edits.reverse

def BeginsApart (ls : List Lineage) : Prop := (ls.map fun l => startPath l.first.1).Nodup

theorem filePath_of_lineageAt {edits : List (FileEdit × Nat)} {path : JsString} {l : Lineage}
    (h : lineageAt edits path = some l) : l.last.1.filePath = path := by
  induction edits with
  | nil => cases h
  | cons edit older ih =>
    unfold lineageAt at h
    split_ifs at h with hfile hstart
    · obtain rfl := Option.some.inj h
      cases lineageAt older (startPath edit.1) with
      | none | some _ => exact hfile
    · exact ih h

theorem lineages_cons_none {edit : FileEdit × Nat} {older : List (FileEdit × Nat)}
    (h : lineageAt older (startPath edit.1) = none) :
    lineages (edit :: older) = lineages older ++ [.start edit] := by
  rw [lineages, h]

theorem lineages_cons_some {edit : FileEdit × Nat} {older : List (FileEdit × Nat)} {past : Lineage}
    (h : lineageAt older (startPath edit.1) = some past) :
    lineages (edit :: older) =
      (lineages older).map fun l => if l = past then past.extend edit else l := by
  rw [lineages, h]

theorem BeginsApart.older {edit : FileEdit × Nat} {older : List (FileEdit × Nat)}
    (h : BeginsApart (lineages (edit :: older))) :
    BeginsApart (lineages older) ∧ (lineageAt older (startPath edit.1) = none →
      startPath edit.1 ∉ (lineages older).map fun l => startPath l.first.1) := by
  unfold BeginsApart at *
  cases hpast : lineageAt older (startPath edit.1) with
  | none =>
    rw [lineages_cons_none hpast, map_append, map_cons, map_nil] at h
    have hsplit := nodup_append.mp h
    refine ⟨hsplit.1, fun _ hmem => hsplit.2.2 _ hmem _ (mem_singleton_self _) rfl⟩
  | some past =>
    rw [lineages_cons_some hpast, map_map] at h
    have hsame : ((fun l => startPath l.first.1) ∘
        fun l => if l = past then past.extend edit else l) = fun l : Lineage =>
          startPath l.first.1 := by
      funext l
      show startPath (if l = past then past.extend edit else l).first.1 = _
      split_ifs with heq
      · rw [Lineage.first_extend, heq]
      · rfl
    rw [hsame] at h
    refine ⟨h, fun hnone => ?_⟩
    cases hnone

/-! ## The identity graph keeps the lineages -/

section

variable {κ : Type} [DecidableEq κ] {mint : Nat → JsString → κ} {done : List (FileEdit × Nat)}
  {graph : IdentityGraph κ} {known : List (κ × Lineage)} {edit : FileEdit × Nat}

structure Tracks (done : List (FileEdit × Nat)) (graph : IdentityGraph κ)
    (known : List (κ × Lineage)) : Prop where
  lineages : lineages done = known.map Prod.snd
  identities : graph.identities.entries = known.map fun k => (k.1, k.2.identity)
  distinct : (known.map Prod.snd).Nodup
  edits : ∀ k ∈ known, ∀ e ∈ k.2.edits, e ∈ done
  paths : ∀ path, (lineageAt done path = none ∧ graph.pathToIdentityKey.get path = none) ∨
    ∃ k ∈ known, lineageAt done path = some k.2 ∧ graph.pathToIdentityKey.get path = some k.1

omit [DecidableEq κ] in
theorem tracks_empty : Tracks [] (IdentityGraph.empty (κ := κ)) [] where
  lineages := rfl
  identities := rfl
  distinct := nodup_nil
  edits := by simp
  paths _ := .inl ⟨rfl, rfl⟩

def advance (known : List (κ × Lineage)) (past : Option Lineage) (key : κ)
    (edit : FileEdit × Nat) : List (κ × Lineage) :=
  match past with
  | none => known ++ [(key, .start edit)]
  | some past => known.map fun k => if k.2 = past then (k.1, past.extend edit) else k

theorem startPath_of_renamedFrom {edit : FileEdit} {originalPath : JsString}
    (h : renamedFrom edit = some originalPath) : startPath edit = originalPath := by
  unfold startPath
  rw [h]
  rfl

theorem startPath_of_none {edit : FileEdit} (h : renamedFrom edit = none) :
    startPath edit = edit.filePath := by
  unfold startPath
  rw [h]
  rfl

omit [DecidableEq κ] in
theorem get_paths {edit : FileEdit} (hmoves : renamedFrom edit ≠ some edit.filePath) (key : κ)
    (path : JsString) :
    (graph.paths edit key).get path =
      if edit.filePath = path then some key
      else if startPath edit = path then none else graph.pathToIdentityKey.get path := by
  unfold IdentityGraph.paths
  cases hrenamed : renamedFrom edit with
  | none =>
    rw [get_set, startPath_of_none hrenamed]
    split_ifs <;> rfl
  | some originalPath =>
    rw [get_delete, get_set, startPath_of_renamedFrom hrenamed]
    rw [hrenamed] at hmoves
    by_cases hfile : edit.filePath = path
    · have hother : originalPath ≠ path := by
        rintro rfl
        exact hmoves (congrArg some hfile.symm)
      rw [if_pos hfile, if_pos hfile, if_neg hother]
    · rw [if_neg hfile, if_neg hfile]

theorem Tracks.get (h : Tracks done graph known) {key : κ} {l : Lineage} (hmem : (key, l) ∈ known) :
    graph.identities.get key = some l.identity := by
  apply Record.get_of_mem
  rw [h.identities]
  exact mem_map.mpr ⟨_, hmem, rfl⟩

omit [DecidableEq κ] in
theorem Tracks.keys (h : Tracks done graph known) : graph.identities.keys = known.map Prod.fst := by
  unfold Record.keys
  rw [h.identities, map_map]
  rfl

omit [DecidableEq κ] in
theorem Tracks.last_ne (h : Tracks done graph known) (hedit : edit ∉ done) {l : Lineage}
    (hmem : l ∈ known.map Prod.snd) : l.last ≠ edit := by
  rintro rfl
  obtain ⟨k, hk, rfl⟩ := mem_map.mp hmem
  exact hedit (h.edits k hk _ k.2.last_mem)

omit [DecidableEq κ] in
theorem advance_distinct (h : Tracks done graph known) (hedit : edit ∉ done)
    (past : Option Lineage) (key : κ) : ((advance known past key edit).map Prod.snd).Nodup := by
  cases past with
  | none =>
    show ((known ++ [(key, Lineage.start edit)]).map Prod.snd).Nodup
    rw [map_append, nodup_append]
    refine ⟨h.distinct, nodup_singleton _, fun l hl l' hl' heq => ?_⟩
    obtain rfl := mem_singleton.mp hl'
    exact h.last_ne hedit hl (heq ▸ rfl)
  | some past =>
    have hmap : (advance known (some past) key edit).map Prod.snd =
        (known.map Prod.snd).map fun l => if l = past then past.extend edit else l := by
      show (known.map _).map Prod.snd = _
      rw [map_map, map_map]
      congr 1
      funext k
      show Prod.snd (if k.2 = past then (k.1, past.extend edit) else k) = if k.2 = past then _ else _
      split_ifs <;> rfl
    rw [hmap]
    refine List.Nodup.map_on (fun l hl l' hl' heq => ?_) h.distinct
    split_ifs at heq with hsame hsame' hsame'
    · rw [hsame, hsame']
    · exact absurd (heq ▸ rfl) (h.last_ne hedit hl')
    · exact absurd (heq ▸ rfl) (h.last_ne hedit hl)
    · exact heq

omit [DecidableEq κ] in
theorem lineageAt_cons (path : JsString) : lineageAt (edit :: done) path =
      if edit.1.filePath = path then
        some ((lineageAt done (startPath edit.1)).elim (.start edit) fun past => past.extend edit)
      else if startPath edit.1 = path then none
      else lineageAt done path := rfl

theorem Tracks.begin (h : Tracks done graph known) (hedit : edit ∉ done)
    (hmoves : renamedFrom edit.1 ≠ some edit.1.filePath)
    (hpast : lineageAt done (startPath edit.1) = none)
    (hfresh : graph.keyOf mint edit.1 ∉ graph.identities.keys) :
    Tracks (edit :: done) (graph.addEdit mint edit)
      (advance known none (graph.keyOf mint edit.1) edit) := by
  have hnone := get_of_notMem_keys hfresh
  have hidentities : (graph.addEdit mint edit).identities =
      graph.identities.set (graph.keyOf mint edit.1) (.new edit.1 edit.2) := by
    unfold IdentityGraph.addEdit
    dsimp only
    rw [hnone]
  refine ⟨?_, ?_, advance_distinct h hedit none _, ?_, fun path => ?_⟩
  · rw [lineages_cons_none hpast, h.lineages]
    unfold advance
    rw [map_append]
    rfl
  · rw [hidentities, entries_set_of_none _ hnone, h.identities]
    unfold advance
    rw [map_append]
    rfl
  · intro k hk e he
    cases mem_append.mp hk with
    | inl hold => exact mem_cons_of_mem _ (h.edits k hold e he)
    | inr hnew =>
      obtain rfl := mem_singleton.mp hnew
      obtain rfl := mem_singleton.mp he
      exact mem_cons_self
  · have hget : (graph.addEdit mint edit).pathToIdentityKey.get path = _ :=
      get_paths hmoves (graph.keyOf mint edit.1) path
    rw [hget, lineageAt_cons, hpast]
    by_cases hfile : edit.1.filePath = path
    · rw [if_pos hfile, if_pos hfile]
      exact .inr ⟨_, mem_append_right _ (mem_singleton_self _), rfl, rfl⟩
    · rw [if_neg hfile, if_neg hfile]
      by_cases hstart : startPath edit.1 = path
      · rw [if_pos hstart, if_pos hstart]
        exact .inl ⟨rfl, rfl⟩
      · rw [if_neg hstart, if_neg hstart]
        refine (h.paths path).imp_right ?_
        rintro ⟨k, hk, hat, hkey⟩
        exact ⟨k, mem_append_left _ hk, hat, hkey⟩

theorem Tracks.continue (h : Tracks done graph known) (hedit : edit ∉ done)
    (hmoves : renamedFrom edit.1 ≠ some edit.1.filePath) {past : Lineage}
    (hpast : lineageAt done (startPath edit.1) = some past) :
    Tracks (edit :: done) (graph.addEdit mint edit)
      (advance known (some past) (graph.keyOf mint edit.1) edit) := by
  obtain ⟨hnone, -⟩ | ⟨⟨key, l⟩, hmem, hat, hkey⟩ := h.paths (startPath edit.1)
  · rw [hpast] at hnone
    cases hnone
  rw [hpast] at hat
  obtain rfl := Option.some.inj hat
  have hkeyOf : graph.keyOf mint edit.1 = key := by
    unfold IdentityGraph.keyOf
    rw [hkey]
    rfl
  have hfound := h.get hmem
  have hidentities : (graph.addEdit mint edit).identities =
      graph.identities.set key (past.identity.update edit.1 edit.2) := by
    unfold IdentityGraph.addEdit
    dsimp only
    rw [hkeyOf, hfound]
  have hsame : ∀ k ∈ known, k.1 = key ↔ k.2 = past := by
    intro k hk
    constructor
    · rintro rfl
      have hkeys := graph.identities.nodup
      rw [h.identities, map_map] at hkeys
      exact congrArg Prod.snd (inj_on_of_nodup_map hkeys hk hmem rfl)
    · rintro rfl
      exact congrArg Prod.fst (inj_on_of_nodup_map h.distinct hk hmem rfl)
  refine ⟨?_, ?_, advance_distinct h hedit (some past) _, ?_, fun path => ?_⟩
  · rw [lineages_cons_some hpast, h.lineages]
    unfold advance
    rw [map_map, map_map]
    congr 1
    funext k
    show (if k.2 = past then _ else _) = Prod.snd (if k.2 = past then (k.1, past.extend edit) else k)
    split_ifs <;> rfl
  · rw [hidentities, entries_set _ hfound, h.identities]
    unfold advance
    rw [map_map, map_map]
    refine map_congr_left fun k hk => ?_
    show (if k.1 = key then (key, past.identity.update edit.1 edit.2) else (k.1, k.2.identity)) =
      ((if k.2 = past then (k.1, past.extend edit) else k).1,
        (if k.2 = past then (k.1, past.extend edit) else k).2.identity)
    by_cases hk' : k.1 = key
    · rw [if_pos hk', if_pos ((hsame k hk).mp hk'), Lineage.identity_extend, hk']
    · rw [if_neg hk', if_neg (fun heq => hk' ((hsame k hk).mpr heq))]
  · intro k hk e he
    obtain ⟨k', hk', rfl⟩ := mem_map.mp hk
    split_ifs at he with heq
    · cases mem_cons.mp he with
      | inl hnew => exact hnew ▸ mem_cons_self
      | inr hold => exact mem_cons_of_mem _ (h.edits k' hk' e (heq ▸ hold))
    · exact mem_cons_of_mem _ (h.edits k' hk' e he)
  · have hget : (graph.addEdit mint edit).pathToIdentityKey.get path = _ :=
      get_paths hmoves (graph.keyOf mint edit.1) path
    rw [hget, lineageAt_cons, hpast, hkeyOf]
    by_cases hfile : edit.1.filePath = path
    · rw [if_pos hfile, if_pos hfile]
      refine .inr ⟨(key, past.extend edit), ?_, rfl, rfl⟩
      exact mem_map.mpr ⟨(key, past), hmem, if_pos rfl⟩
    · rw [if_neg hfile, if_neg hfile]
      by_cases hstart : startPath edit.1 = path
      · rw [if_pos hstart, if_pos hstart]
        exact .inl ⟨rfl, rfl⟩
      · rw [if_neg hstart, if_neg hstart]
        refine (h.paths path).imp_right ?_
        rintro ⟨k, hk, hat', hkey'⟩
        refine ⟨k, mem_map.mpr ⟨k, hk, if_neg ?_⟩, hat', hkey'⟩
        -- A lineage is at the path of its last edit only.
        rintro rfl
        have hlast := filePath_of_lineageAt hat'
        rw [filePath_of_lineageAt hpast] at hlast
        exact hstart hlast

omit [DecidableEq κ] in
theorem keyOf_of_none (h : Tracks done graph known) (hpast : lineageAt done (startPath edit.1) = none) :
    graph.pathToIdentityKey.get (startPath edit.1) = none := by
  obtain ⟨-, hnone⟩ | ⟨k, -, hat, -⟩ := h.paths (startPath edit.1)
  · exact hnone
  · rw [hpast] at hat
    cases hat

end

structure Recorded (edits : List (FileEdit × Nat)) : Prop where
  nodup : edits.Nodup
  moves : ∀ edit ∈ edits, renamedFrom edit.1 ≠ some edit.1.filePath

theorem Recorded.of_append {edits : List (FileEdit × Nat)} {edit : FileEdit × Nat}
    (h : Recorded (edits ++ [edit])) : Recorded edits ∧ edit ∉ edits.reverse := by
  have hnodup := nodup_append.mp h.nodup
  refine ⟨⟨hnodup.1, fun e he => h.moves e (mem_append_left _ he)⟩, fun hmem => ?_⟩
  exact hnodup.2.2 edit (mem_reverse.mp hmem) edit (mem_singleton_self _) rfl

theorem build_append {κ : Type} [DecidableEq κ] (mint : Nat → JsString → κ)
    (edits : List (FileEdit × Nat)) (edit : FileEdit × Nat) :
    IdentityGraph.build mint (edits ++ [edit]) = (IdentityGraph.build mint edits).addEdit mint edit := by
  unfold IdentityGraph.build
  rw [foldl_append]
  rfl

theorem tracks_mintedKey {edits : List (FileEdit × Nat)} (h : Recorded edits) :
    ∃ known, Tracks edits.reverse (IdentityGraph.build mintedKey edits) known ∧
      ∀ k ∈ known, k.1 < (IdentityGraph.build mintedKey edits).nextIdentitySeq := by
  induction edits using reverseRecOn with
  | nil => exact ⟨[], tracks_empty, by simp⟩
  | append_singleton edits edit ih =>
    obtain ⟨hrecorded, hedit⟩ := h.of_append
    obtain ⟨known, htracks, hbelow⟩ := ih hrecorded
    have hmoves := h.moves edit (mem_append_right _ (mem_singleton_self _))
    rw [reverse_append, reverse_cons, reverse_nil, nil_append, build_append]
    cases hpast : lineageAt edits.reverse (startPath edit.1) with
    | none =>
      have hnone := keyOf_of_none htracks hpast
      have hkey : (IdentityGraph.build mintedKey edits).keyOf mintedKey edit.1 =
          (IdentityGraph.build mintedKey edits).nextIdentitySeq := by
        unfold IdentityGraph.keyOf
        rw [hnone]
        rfl
      have hfresh : (IdentityGraph.build mintedKey edits).keyOf mintedKey edit.1 ∉
          (IdentityGraph.build mintedKey edits).identities.keys := by
        rw [hkey, htracks.keys]
        intro hmem
        obtain ⟨k, hk, heq⟩ := mem_map.mp hmem
        exact absurd heq (Nat.ne_of_lt (hbelow k hk))
      refine ⟨_, htracks.begin hedit hmoves hpast hfresh, fun k hk => ?_⟩
      have hnext : ((IdentityGraph.build mintedKey edits).addEdit mintedKey edit).nextIdentitySeq =
          (IdentityGraph.build mintedKey edits).nextIdentitySeq + 1 := by
        unfold IdentityGraph.addEdit
        rw [hnone]
        rfl
      rw [hnext]
      cases mem_append.mp hk with
      | inl hold => exact Nat.lt_succ_of_lt (hbelow k hold)
      | inr hnew =>
        obtain rfl := mem_singleton.mp hnew
        rw [hkey]
        exact Nat.lt_succ_self _
    | some past =>
      refine ⟨_, htracks.continue hedit hmoves hpast, fun k hk => ?_⟩
      obtain ⟨k', hk', rfl⟩ := mem_map.mp hk
      have hle : (IdentityGraph.build mintedKey edits).nextIdentitySeq ≤
          ((IdentityGraph.build mintedKey edits).addEdit mintedKey edit).nextIdentitySeq := by
        unfold IdentityGraph.addEdit
        dsimp only
        split <;> omega
      have hlt := Nat.lt_of_lt_of_le (hbelow k' hk') hle
      split_ifs <;> exact hlt

theorem tracks_pathKey {edits : List (FileEdit × Nat)} (h : Recorded edits)
    (hapart : BeginsApart (lineagesOf edits)) :
    ∃ known, Tracks edits.reverse (IdentityGraph.build pathKey edits) known ∧
      ∀ k ∈ known, k.1 = startPath k.2.first.1 := by
  unfold lineagesOf at hapart
  induction edits using reverseRecOn with
  | nil => exact ⟨[], tracks_empty, by simp⟩
  | append_singleton edits edit ih =>
    rw [reverse_append, reverse_cons, reverse_nil, nil_append,
      singleton_append] at hapart
    obtain ⟨hapart', hother⟩ := hapart.older
    obtain ⟨hrecorded, hedit⟩ := h.of_append
    obtain ⟨known, htracks, hkeys⟩ := ih hrecorded hapart'
    have hmoves := h.moves edit (mem_append_right _ (mem_singleton_self _))
    rw [reverse_append, reverse_cons, reverse_nil, nil_append, build_append]
    cases hpast : lineageAt edits.reverse (startPath edit.1) with
    | none =>
      have hkey : (IdentityGraph.build pathKey edits).keyOf pathKey edit.1 = startPath edit.1 := by
        unfold IdentityGraph.keyOf
        rw [keyOf_of_none htracks hpast]
        rfl
      have hfresh : (IdentityGraph.build pathKey edits).keyOf pathKey edit.1 ∉
          (IdentityGraph.build pathKey edits).identities.keys := by
        rw [hkey, htracks.keys]
        intro hmem
        obtain ⟨k, hk, heq⟩ := mem_map.mp hmem
        refine hother hpast ?_
        rw [htracks.lineages, map_map, ← heq, hkeys k hk]
        exact mem_map.mpr ⟨k, hk, rfl⟩
      refine ⟨_, htracks.begin hedit hmoves hpast hfresh, fun k hk => ?_⟩
      cases mem_append.mp hk with
      | inl hold => exact hkeys k hold
      | inr hnew =>
        obtain rfl := mem_singleton.mp hnew
        exact hkey
    | some past =>
      refine ⟨_, htracks.continue hedit hmoves hpast, fun k hk => ?_⟩
      obtain ⟨k', hk', rfl⟩ := mem_map.mp hk
      split_ifs with heq
      · rw [Lineage.first_extend, ← heq]
        exact hkeys k' hk'
      · exact hkeys k' hk'

end Diffs

end Fumie.AgentHost
