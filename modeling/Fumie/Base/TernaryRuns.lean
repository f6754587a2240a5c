import Fumie.Base.TernaryMap
import Fumie.Lib.Runs

/-!
# Ternary search trees refine maps

Every node with a value has the key it was written under, so the entries are the stored
values with their keys. Over runs of operations that take out nothing but what they are
asked to, the tree stores what a plain map of segment lists holds.
-/

namespace Fumie.Base

open Fumie.Lib List Option

namespace TernaryNode

variable {S K V : Type} [LinearOrder S] (segmentsOf : K → List S)

/-! ## Keys -/

def Keyed (start : List S) : TernaryNode S K V → Prop
  | undefined => True
  | node _ s v k l m r =>
    (v ≠ none → ∃ key, k = some key ∧ segmentsOf key = start ++ [s]) ∧ l.Keyed start ∧
      m.Keyed (start ++ [s]) ∧ r.Keyed start

def ItemKeyed (start : List S) (i : Item S K V) : Prop :=
  (i.value ≠ none → ∃ key, i.key = some key ∧ segmentsOf key = start ++ [i.segment]) ∧
    i.mid.Keyed segmentsOf (start ++ [i.segment])

variable {segmentsOf}

variable {start segments path : List S} {element : Option V} {truthy : V → Bool} {superStr : Bool}

omit [LinearOrder S] in
theorem keyed_iff_items (t : TernaryNode S K V) :
    t.Keyed segmentsOf start ↔ ∀ i ∈ t.items, ItemKeyed segmentsOf start i := by
  induction t with
  | undefined => exact ⟨nofun, fun _ => trivial⟩
  | node h s v k l m r ihl ihm ihr =>
    rw [items_node]
    constructor
    · rintro ⟨hkey, hl, hm, hr⟩ i hi
      rcases mem_append.mp hi with hi | hi
      · exact ihl.mp hl i hi
      · rcases mem_cons.mp hi with rfl | hi
        · exact ⟨hkey, hm⟩
        · exact ihr.mp hr i hi
    · intro hall
      obtain ⟨hkey, hm⟩ := hall ⟨s, v, k, m⟩ (mem_append_right _ mem_cons_self)
      exact ⟨hkey, ihl.mpr fun i hi => hall i (mem_append_left _ hi), hm,
        ihr.mpr fun i hi => hall i (mem_append_right _ (mem_cons_of_mem _ hi))⟩

omit [LinearOrder S] in
theorem Keyed.of_items {t t' : TernaryNode S K V} (h : t.Keyed segmentsOf start)
    (hitems : ∀ i ∈ t'.items, i ∈ t.items) : t'.Keyed segmentsOf start :=
  (keyed_iff_items t').mpr fun i hi => (keyed_iff_items t).mp h i (hitems i hi)

omit [LinearOrder S] in
theorem newNodes_keyed {key : K} (hkey : segmentsOf key = start ++ segments) :
    (newNodes key element segments).Keyed segmentsOf start := by
  induction segments generalizing start with
  | nil => trivial
  | cons segment rest ih =>
    cases rest with
    | nil => exact ⟨fun _ => ⟨key, rfl, hkey⟩, trivial, trivial, trivial⟩
    | cons next rest =>
      refine ⟨fun h => absurd rfl h, trivial, ih ?_, trivial⟩
      rw [hkey, append_assoc]
      rfl

theorem set_keyed {key : K} {t t' : TernaryNode S K V} {d : Option Dir}
    (ht : t.Keyed segmentsOf start) (hkey : segmentsOf key = start ++ segments)
    (hset : t.set key element segments = some (t', d)) : t'.Keyed segmentsOf start := by
  induction t generalizing segments start t' d with
  | undefined =>
    cases hset
    exact newNodes_keyed hkey
  | node h s v k l m r ihl ihm ihr =>
    obtain ⟨hown, hl, hm, hr⟩ := id ht
    cases segments with
    | nil =>
      cases hset
      exact ht
    | cons a rest =>
      unfold TernaryNode.set at hset
      dsimp only at hset
      have hsame : ∀ {u u' : TernaryNode S K V} {d1 : Dir} {d2 : Option Dir},
          rebalanceAfterSet d1 d2 u = some u' → u.Keyed segmentsOf start →
          u'.Keyed segmentsOf start := fun hbalance hu => hu.of_items fun i hi => by
        rw [items_rebalanceAfterSet hbalance] at hi
        exact hi
      split at hset
      · obtain ⟨⟨l', d'⟩, hl', hset⟩ := bind_eq_some_iff.mp hset
        obtain ⟨t'', hbalance, heq⟩ := map_eq_some_iff.mp hset
        cases heq
        exact hsame hbalance ⟨hown, ihl hl hkey hl', hm, hr⟩
      · next hge =>
        split at hset
        · obtain ⟨⟨r', d'⟩, hr', hset⟩ := bind_eq_some_iff.mp hset
          obtain ⟨t'', hbalance, heq⟩ := map_eq_some_iff.mp hset
          cases heq
          exact hsame hbalance ⟨hown, hl, hm, ihr hr hkey hr'⟩
        · next hle =>
          obtain rfl : a = s := le_antisymm (not_lt.mp hle) (not_lt.mp hge)
          split at hset
          · next hrest =>
            subst hrest
            cases hset
            exact ⟨fun _ => ⟨key, rfl, hkey⟩, hl, hm, hr⟩
          · obtain ⟨⟨m', d'⟩, hm', hset⟩ := bind_eq_some_iff.mp hset
            obtain ⟨t'', hbalance, heq⟩ := map_eq_some_iff.mp hset
            cases heq
            refine hsame hbalance ⟨hown, hl, ihm hm ?_ hm', hr⟩
            rw [hkey, append_assoc]
            rfl

omit [LinearOrder S] in
theorem Keyed.balance {t : TernaryNode S K V} (h : t.Keyed segmentsOf start) :
    t.balance.Keyed segmentsOf start := h.of_items fun i hi => by
  rw [items_balance] at hi
  exact hi

theorem deleteNode_keyed {t t' : TernaryNode S K V} (ht : t.Keyed segmentsOf start)
    (hcan : (t.getNode segments).CanDelete truthy superStr)
    (hdelete : t.deleteNode truthy superStr segments = some t') : t'.Keyed segmentsOf start := by
  induction t generalizing segments start t' with
  | undefined => cases hdelete
  | node h s v k l m r ihl ihm ihr =>
    obtain ⟨hown, hl, hm, hr⟩ := id ht
    cases segments with
    | nil => cases hdelete
    | cons a rest =>
      unfold deleteNode at hdelete
      unfold getNode at hcan
      dsimp only at hdelete hcan
      split at hdelete
      · next hlt =>
        rw [if_pos hlt] at hcan
        obtain ⟨l', hl', rfl⟩ := map_eq_some_iff.mp hdelete
        exact Keyed.balance ⟨hown, ihl hl hcan hl', hm, hr⟩
      · next hge =>
        rw [if_neg hge] at hcan
        split at hdelete
        · next hgt =>
          rw [if_pos hgt] at hcan
          obtain ⟨r', hr', rfl⟩ := map_eq_some_iff.mp hdelete
          exact Keyed.balance ⟨hown, hl, hm, ihr hr hcan hr'⟩
        · next hle =>
          rw [if_neg hle] at hcan
          split at hdelete
          · next hrest =>
            rw [if_pos hrest] at hcan
            cases hdelete
            cases superStr with
            | true =>
              have hleaf : deleteFound truthy true (node h s v k l m r) =
                  if isFalsy truthy v then undefined
                  else node 1 s v k undefined undefined undefined := rfl
              rw [hleaf]
              split
              · trivial
              · exact ⟨hown, trivial, trivial, trivial⟩
            | false =>
              have hcleared :
                  (node h s none none l m r : TernaryNode S K V).Keyed segmentsOf start :=
                ⟨fun h => absurd rfl h, hl, hm, hr⟩
              refine hcleared.of_items fun i hi => ?_
              have hi' : i ∈ (removeNode truthy (node h s none none l m r)).items := hi
              rcases items_removeNode truthy (h := h) (s := s) (k := none) hcan with
                hsame | ⟨-, hgone⟩
              · rw [hsame] at hi'
                exact hi'
              · rw [hgone] at hi'
                rw [items_node]
                rcases mem_append.mp hi' with hi | hi
                · exact mem_append_left _ hi
                · exact mem_append_right _ (mem_cons_of_mem _ hi)
          · next hrest =>
            rw [if_neg hrest] at hcan
            obtain ⟨m', hm', rfl⟩ := map_eq_some_iff.mp hdelete
            exact Keyed.balance ⟨hown, hl, ihm hm hcan hm', hr⟩

/-! ## Entries -/

/-- The stored values with their paths, in the order of `_dfsEntries`. -/
def pathEntries (start : List S) : TernaryNode S K V → List (List S × Option V)
  | undefined => []
  | node _ s v _ l m r =>
    l.pathEntries start ++ (v.map fun element => (start ++ [s], element)).toList ++
      m.pathEntries (start ++ [s]) ++ r.pathEntries start

omit [LinearOrder S] in
theorem entries_eq {t : TernaryNode S K V} (ht : t.Keyed segmentsOf start) :
    t.entries.map (fun e => (e.1.map segmentsOf, e.2)) =
      (t.pathEntries start).map fun e => (some e.1, e.2) := by
  induction t generalizing start with
  | undefined => rfl
  | node h s v k l m r ihl ihm ihr =>
    obtain ⟨hkey, hl, hm, hr⟩ := ht
    unfold entries pathEntries
    simp only [map_append]
    rw [ihl hl, ihm hm, ihr hr]
    congr 3
    cases v with
    | none => rfl
    | some element =>
      obtain ⟨key, rfl, hpath⟩ := hkey (some_ne_none _)
      show [(some (segmentsOf key), element)] = [(some (start ++ [s]), element)]
      rw [hpath]

theorem mem_pathEntries {t : TernaryNode S K V} (ht : t.Ordered) :
    (path, element) ∈ t.pathEntries start ↔
      ∃ below, path = start ++ below ∧ t.valueAt below = some element := by
  induction t generalizing start path with
  | undefined => exact ⟨nofun, fun ⟨_, _, h⟩ => by cases h⟩
  | node h s v k l m r ihl ihm ihr =>
    obtain ⟨hless, hmore, hl, hm, hr⟩ := id ht
    unfold pathEntries
    rw [mem_append, mem_append, mem_append, ihl hl, ihm hm, ihr hr]
    constructor
    · rintro (((⟨below, rfl, hbelow⟩ | hown) | ⟨below, rfl, hbelow⟩) | ⟨below, rfl, hbelow⟩)
      · refine ⟨below, rfl, ?_⟩
        cases below with
        | nil =>
          rw [valueAt_nil] at hbelow
          cases hbelow
        | cons a below =>
          obtain ⟨i, hi, rfl⟩ := item_of_valueAt hl hbelow
          rw [valueAt_node, if_pos (hless i hi)]
          exact hbelow
      · cases v with
        | none => exact absurd hown not_mem_nil
        | some element' =>
          cases mem_singleton.mp hown
          refine ⟨[s], rfl, ?_⟩
          rw [valueAt_node, if_neg (lt_irrefl _), if_neg (lt_irrefl _), if_pos rfl]
      · refine ⟨s :: below, by rw [append_assoc]; rfl, ?_⟩
        rw [valueAt_node, if_neg (lt_irrefl _), if_neg (lt_irrefl _), if_neg]
        · exact hbelow
        · rintro rfl
          rw [valueAt_nil] at hbelow
          cases hbelow
      · refine ⟨below, rfl, ?_⟩
        cases below with
        | nil =>
          rw [valueAt_nil] at hbelow
          cases hbelow
        | cons a below =>
          obtain ⟨i, hi, rfl⟩ := item_of_valueAt hr hbelow
          rw [valueAt_node, if_neg (not_lt_of_gt (hmore i hi)), if_pos (hmore i hi)]
          exact hbelow
    · rintro ⟨below, rfl, hbelow⟩
      cases below with
      | nil =>
        rw [valueAt_nil] at hbelow
        cases hbelow
      | cons a below =>
        rw [valueAt_node] at hbelow
        split at hbelow
        · exact .inl (.inl (.inl ⟨a :: below, rfl, hbelow⟩))
        · next hge =>
          split at hbelow
          · exact .inr ⟨a :: below, rfl, hbelow⟩
          · next hle =>
            obtain rfl : a = s := le_antisymm (not_lt.mp hle) (not_lt.mp hge)
            split at hbelow
            · next hnil =>
              subst hnil
              subst hbelow
              exact .inl (.inl (.inr mem_cons_self))
            · refine .inl (.inr ⟨below, ?_, hbelow⟩)
              rw [append_assoc]
              rfl

theorem head_of_pathEntries {t : TernaryNode S K V} (ht : t.Ordered)
    (h : path ∈ (t.pathEntries start).map Prod.fst) :
    ∃ i ∈ t.items, ∃ below, path = start ++ i.segment :: below := by
  obtain ⟨⟨path, element⟩, hmem, rfl⟩ := mem_map.mp h
  obtain ⟨below, rfl, hbelow⟩ := (mem_pathEntries ht).mp hmem
  cases below with
  | nil =>
    rw [valueAt_nil] at hbelow
    cases hbelow
  | cons a below =>
    obtain ⟨i, hi, rfl⟩ := item_of_valueAt ht hbelow
    exact ⟨i, hi, below, rfl⟩

theorem pathEntries_nodup {t : TernaryNode S K V} (ht : t.Ordered) :
    ((t.pathEntries start).map Prod.fst).Nodup := by
  induction t generalizing start with
  | undefined => exact nodup_nil
  | node h s v k l m r ihl ihm ihr =>
    obtain ⟨hless, hmore, hl, hm, hr⟩ := id ht
    have hown : ∀ path ∈ ((v.map fun element => (start ++ [s], element)).toList).map Prod.fst,
        path = start ++ [s] := by
      intro path hpath
      cases v with
      | none => exact absurd hpath not_mem_nil
      | some element => exact mem_singleton.mp hpath
    have hmid : ∀ path ∈ (m.pathEntries (start ++ [s])).map Prod.fst,
        ∃ a below, path = start ++ s :: a :: below := by
      intro path hpath
      obtain ⟨i, -, below, rfl⟩ := head_of_pathEntries hm hpath
      refine ⟨i.segment, below, ?_⟩
      rw [append_assoc]
      rfl
    unfold pathEntries
    rw [map_append, map_append, map_append, nodup_append, nodup_append, nodup_append]
    refine ⟨⟨⟨ihl hl, ?_, fun p hp q hq heq => ?_⟩, ihm hm, fun p hp q hq heq => ?_⟩, ihr hr,
      fun p hp q hq heq => ?_⟩
    · cases v with
      | none => exact nodup_nil
      | some element => exact nodup_singleton _
    · obtain ⟨i, hi, below, rfl⟩ := head_of_pathEntries hl hp
      rw [hown q hq] at heq
      exact ne_of_lt (hless i hi) (cons.inj (append_cancel_left heq)).1
    · obtain ⟨a, below, rfl⟩ := hmid q hq
      rcases mem_append.mp hp with hp | hp
      · obtain ⟨i, hi, below', rfl⟩ := head_of_pathEntries hl hp
        exact ne_of_lt (hless i hi) (cons.inj (append_cancel_left heq)).1
      · rw [hown p hp] at heq
        cases (cons.inj (append_cancel_left heq)).2
    · obtain ⟨i, hi, below, rfl⟩ := head_of_pathEntries hr hq
      rcases mem_append.mp hp with hp | hp
      · rcases mem_append.mp hp with hp | hp
        · obtain ⟨j, hj, below', rfl⟩ := head_of_pathEntries hl hp
          exact ne_of_lt (lt_trans (hless j hj) (hmore i hi)) (cons.inj (append_cancel_left heq)).1
        · rw [hown p hp] at heq
          exact ne_of_lt (hmore i hi) (cons.inj (append_cancel_left heq)).1
      · obtain ⟨a, below', rfl⟩ := hmid p hp
        exact ne_of_lt (hmore i hi) (cons.inj (append_cancel_left heq)).1

theorem valueAt_below (hne : segments ≠ []) {t : TernaryNode S K V} (ht : t.Ordered)
    (hkeyed : t.Keyed segmentsOf start) :
    match t.getNode segments with
    | undefined => ∀ below, t.valueAt (segments ++ below) = none
    | node _ _ _ _ _ m _ => m.Ordered ∧ m.Keyed segmentsOf (start ++ segments) ∧
        ∀ below, below ≠ [] → t.valueAt (segments ++ below) = m.valueAt below := by
  induction t generalizing segments start with
  | undefined => exact fun below => valueAt_undefined _
  | node h s v k l m r ihl ihm ihr =>
    obtain ⟨-, -, hl, hm, hr⟩ := ht
    obtain ⟨-, hkl, hkm, hkr⟩ := hkeyed
    cases segments with
    | nil => exact absurd rfl hne
    | cons a rest =>
      have hvalue : ∀ below, (node h s v k l m r).valueAt (a :: rest ++ below) = _ :=
        fun below => valueAt_node h s v k l m r a (rest ++ below)
      unfold getNode
      simp only [hvalue]
      by_cases hlt : a < s
      · simp only [if_pos hlt]
        exact ihl hne hl hkl
      · simp only [if_neg hlt]
        by_cases hgt : s < a
        · simp only [if_pos hgt]
          exact ihr hne hr hkr
        · simp only [if_neg hgt]
          obtain rfl : a = s := le_antisymm (not_lt.mp hgt) (not_lt.mp hlt)
          by_cases hrest : rest = []
          · subst hrest
            simp only [if_pos]
            refine ⟨hm, hkm, fun below hbelow => ?_⟩
            rw [nil_append, if_neg hbelow]
          · simp only [if_neg hrest]
            have hbelow := ihm hrest hm hkm
            have hnil : ∀ below, rest ++ below ≠ [] := fun below heq =>
              hrest (append_eq_nil_iff.mp heq).1
            simp only [if_neg (hnil _)]
            split at hbelow
            · exact hbelow
            · obtain ⟨hordered, hkeyed, hsame⟩ := hbelow
              rw [append_assoc] at hkeyed
              exact ⟨hordered, hkeyed, hsame⟩

/-! ## The longest prefix -/

def storedPrefixes (stored : List S → Option (Option V)) (path : List S) : List (Option V) :=
  path.inits.filterMap stored

omit [LinearOrder S] in
theorem storedPrefixes_nil (stored : List S → Option (Option V)) (hnil : stored [] = none) :
    storedPrefixes stored [] = [] := by
  show [[]].filterMap stored = []
  rw [filterMap_cons_none hnil]
  rfl

omit [LinearOrder S] in
theorem storedPrefixes_cons (stored : List S → Option (Option V)) (hnil : stored [] = none) (a : S)
    (rest : List S) :
    storedPrefixes stored (a :: rest) = rest.inits.filterMap fun path => stored (a :: path) := by
  unfold storedPrefixes
  rw [inits_cons, filterMap_cons_none hnil, filterMap_map]
  rfl

theorem filterMap_inits (v : Option (Option V)) (m : TernaryNode S K V) (rest : List S) :
    (rest.inits.filterMap fun path => if path = [] then v else m.valueAt path) =
      v.toList ++ storedPrefixes m.valueAt rest := by
  have hfirst : (fun path : List S => if path = [] then v else m.valueAt path) [] = v := if_pos rfl
  have hafter : rest.inits.tail.filterMap (fun path => if path = [] then v else m.valueAt path) =
      storedPrefixes m.valueAt rest := by
    cases rest with
    | nil => rw [storedPrefixes_nil _ (valueAt_nil m)]; rfl
    | cons b rest =>
      rw [storedPrefixes_cons _ (valueAt_nil _), inits_cons, tail_cons, filterMap_map]
      rfl
  have hinits : rest.inits = [] :: rest.inits.tail := by
    cases rest with
    | nil => rfl
    | cons b rest => rw [inits_cons, tail_cons]
  rw [hinits, ← hafter]
  cases v with
  | none => exact filterMap_cons_none hfirst
  | some element => exact filterMap_cons_some hfirst

theorem findSubstr_eq (truthy : V → Bool) (segments : List S) (candidate : Option V)
    (t : TernaryNode S K V) : t.findSubstr truthy segments candidate =
      (storedPrefixes t.valueAt segments).foldl
        (fun candidate element => orCandidate truthy candidate (some element)) candidate := by
  induction t generalizing segments candidate with
  | undefined =>
    have hnone : storedPrefixes (undefined : TernaryNode S K V).valueAt segments = [] :=
      filterMap_eq_nil_iff.mpr fun path _ => valueAt_undefined path
    rw [hnone]
    rfl
  | node h s v k l m r ihl ihm ihr =>
    cases segments with
    | nil =>
      have hnone : storedPrefixes (node h s v k l m r).valueAt [] = [] := rfl
      rw [hnone]
      rfl
    | cons a rest =>
      rw [storedPrefixes_cons _ (valueAt_nil _)]
      simp only [valueAt_node]
      unfold findSubstr
      by_cases hlt : a < s
      · simp only [if_pos hlt]
        rw [ihl, storedPrefixes_cons _ (valueAt_nil _)]
      · simp only [if_neg hlt]
        by_cases hgt : s < a
        · simp only [if_pos hgt]
          rw [ihr, storedPrefixes_cons _ (valueAt_nil _)]
        · simp only [if_neg hgt]
          rw [filterMap_inits, foldl_append]
          have hstep : (v.toList.foldl (fun candidate element =>
              orCandidate truthy candidate (some element)) candidate) =
                orCandidate truthy candidate v := by
            cases v <;> rfl
          rw [hstep]
          by_cases hrest : rest = []
          · subst hrest
            rw [if_pos rfl, storedPrefixes_nil _ (valueAt_nil m)]
            rfl
          · rw [if_neg hrest, ihm]

/-! ## Runs -/

inductive Operation (K V : Type) where
  | set (key : K) (element : Option V)
  | delete (key : K)
  | deleteSuperstr (key : K)
  | clear

variable (segmentsOf)

def run (truthy : V → Bool) (t : TernaryNode S K V) : Operation K V → Option (TernaryNode S K V)
  | .set key element => (t.set key element (segmentsOf key)).map Prod.fst
  | .delete key => some ((t.deleteNode truthy false (segmentsOf key)).getD t)
  | .deleteSuperstr key => some ((t.deleteNode truthy true (segmentsOf key)).getD t)
  | .clear => some undefined

def runMap (stored : List S → Option (Option V)) : Operation K V → List S → Option (Option V)
  | .set key element => fun path => if path = segmentsOf key then some element else stored path
  | .delete key => fun path => if path = segmentsOf key then none else stored path
  | .deleteSuperstr key => fun path =>
    if segmentsOf key <+: path ∧ path ≠ segmentsOf key then none else stored path
  | .clear => fun _ => none

def Safe (truthy : V → Bool) (t : TernaryNode S K V) : Operation K V → Prop
  | .set key _ => segmentsOf key ≠ []
  | .delete key => segmentsOf key ≠ [] ∧ (t.getNode (segmentsOf key)).CanDelete truthy false
  | .deleteSuperstr key => segmentsOf key ≠ [] ∧ (t.getNode (segmentsOf key)).CanDelete truthy true
  | .clear => True

structure Sound (t : TernaryNode S K V) (stored : List S → Option (Option V)) : Prop where
  balanced : t.Balanced
  ordered : t.Ordered
  keyed : t.Keyed segmentsOf []
  stores : ∀ path, t.valueAt path = stored path

variable {segmentsOf} {t : TernaryNode S K V} {stored : List S → Option (Option V)}

theorem Sound.delete (h : t.Sound segmentsOf stored) (hne : segments ≠ [])
    (hcan : (t.getNode segments).CanDelete truthy superStr) {stored' : List S → Option (Option V)}
    (hgone : ∀ path, Gone superStr segments path → stored' path = none)
    (hkept : ∀ path, ¬Gone superStr segments path → stored' path = stored path) :
    ((t.deleteNode truthy superStr segments).getD t).Sound segmentsOf stored' := by
  cases hdelete : t.deleteNode truthy superStr segments with
  | none =>
    refine ⟨h.balanced, h.ordered, h.keyed, fun path => ?_⟩
    by_cases hpath : Gone superStr segments path
    · exact (deleteNode_none hne hdelete path hpath).trans (hgone path hpath).symm
    · exact (h.stores path).trans (hkept path hpath).symm
  | some t' =>
    have hremoves := deleteNode_removes hne h.ordered hcan hdelete
    refine ⟨(deleteNode_balanced h.balanced hcan hdelete).balanced, hremoves.ordered,
      deleteNode_keyed h.keyed hcan hdelete, fun path => ?_⟩
    by_cases hpath : Gone superStr segments path
    · exact (hremoves.gone path hpath).trans (hgone path hpath).symm
    · exact (hremoves.kept path hpath).trans ((h.stores path).trans (hkept path hpath).symm)

theorem Sound.run (h : t.Sound segmentsOf stored) {o : Operation K V}
    (hsafe : t.Safe segmentsOf truthy o) :
    ∃ t', t.run segmentsOf truthy o = some t' ∧
      t'.Sound segmentsOf (runMap segmentsOf stored o) := by
  cases o with
  | set key element =>
    obtain ⟨t', d, hset, hafter⟩ := set_balanced key element hsafe h.balanced
    have hstores := set_stores hsafe h.ordered hset
    refine ⟨t', ?_, hafter.balanced, hstores.ordered,
      set_keyed h.keyed (nil_append _).symm hset, fun path => ?_⟩
    · show (t.set key element (segmentsOf key)).map Prod.fst = some t'
      rw [hset]
      rfl
    · rw [hstores.stored, h.stores]
      rfl
  | delete _ | deleteSuperstr _ =>
    refine ⟨_, rfl, h.delete hsafe.1 hsafe.2 (fun path hpath => ?_) fun path hpath => ?_⟩
    · exact if_pos hpath
    · exact if_neg hpath
  | clear => exact ⟨undefined, rfl, trivial, trivial, trivial, fun path => rfl⟩

def Lists (segmentsOf : K → List S) (entries : List (Option K × Option V))
    (listed : List S → Option V → Prop) : Prop :=
  ∃ l : List (List S × Option V),
    entries.map (fun e => (e.1.map segmentsOf, e.2)) = l.map (fun e => (some e.1, e.2)) ∧
      (l.map Prod.fst).Nodup ∧ ∀ path element, (path, element) ∈ l ↔ listed path element

/-- The queries of a tree answer from the map, for keys that are not empty. A prefix is found
where the value of the longest one counts as one. -/
structure Refines (segmentsOf : K → List S) (truthy : V → Bool) (t : TernaryNode S K V)
    (stored : List S → Option (Option V)) : Prop where
  get : ∀ key, segmentsOf key ≠ [] → t.get (segmentsOf key) = (stored (segmentsOf key)).join
  findSubstr : ∀ key v, segmentsOf key ≠ [] →
    (storedPrefixes stored (segmentsOf key)).getLast? = some (some v) → truthy v = true →
    t.findSubstr truthy (segmentsOf key) none = some v
  findSubstr_none : ∀ key, segmentsOf key ≠ [] → storedPrefixes stored (segmentsOf key) = [] →
    t.findSubstr truthy (segmentsOf key) none = none
  findSuperstr : ∀ key, segmentsOf key ≠ [] →
    Lists segmentsOf (t.findSuperstr (segmentsOf key)) fun path element =>
      segmentsOf key <+: path ∧ path ≠ segmentsOf key ∧ stored path = some element
  entries : Lists segmentsOf t.entries fun path element => stored path = some element
  balanced : t.isBalanced = true

theorem Sound.refines (truthy : V → Bool) (h : t.Sound segmentsOf stored) :
    t.Refines segmentsOf truthy stored := by
  have hstored : t.valueAt = stored := funext h.stores
  refine ⟨fun key _ => congrArg Option.join (h.stores (segmentsOf key)),
    fun key v _ hlast htruthy => ?_, fun key _ hnone => ?_, fun key hne => ?_, ?_,
    h.balanced.isBalanced⟩
  · rw [findSubstr_eq, hstored]
    obtain ⟨shorter, heq⟩ := getLast?_eq_some_iff.mp hlast
    rw [heq, foldl_append]
    show (if truthy v then some v else _) = some v
    rw [if_pos htruthy]
  · rw [findSubstr_eq, hstored, hnone]
    rfl
  · have hbelow := valueAt_below hne h.ordered h.keyed
    unfold TernaryNode.findSuperstr
    cases hnode : t.getNode (segmentsOf key) with
    | undefined =>
      rw [hnode] at hbelow
      refine ⟨[], rfl, nodup_nil, fun path element => ?_⟩
      refine ⟨nofun, ?_⟩
      rintro ⟨⟨below, rfl⟩, -, hpath⟩
      have hnone := (h.stores _).symm.trans (hbelow below)
      cases hnone.symm.trans hpath
    | node h' s v k l m r =>
      rw [hnode] at hbelow
      obtain ⟨hordered, hkeyed, hsame⟩ := hbelow
      refine ⟨m.pathEntries ([] ++ segmentsOf key), entries_eq hkeyed, pathEntries_nodup hordered,
        fun path element => ?_⟩
      rw [mem_pathEntries hordered]
      constructor
      · rintro ⟨below, rfl, hvalue⟩
        have hbelow : below ≠ [] := by
          rintro rfl
          rw [valueAt_nil] at hvalue
          cases hvalue
        refine ⟨⟨below, rfl⟩, fun heq => hbelow ?_, ?_⟩
        · exact append_cancel_left (heq.trans (append_nil _).symm)
        · exact (h.stores _).symm.trans ((hsame below hbelow).trans hvalue)
      · rintro ⟨⟨below, rfl⟩, hne', hpath⟩
        have hbelow : below ≠ [] := by
          rintro rfl
          exact hne' (append_nil _)
        exact ⟨below, rfl, (hsame below hbelow).symm.trans ((h.stores _).trans hpath)⟩
  · refine ⟨t.pathEntries [], entries_eq h.keyed, pathEntries_nodup h.ordered,
      fun path element => ?_⟩
    rw [mem_pathEntries h.ordered]
    constructor
    · rintro ⟨below, rfl, hvalue⟩
      exact (h.stores _).symm.trans hvalue
    · intro hpath
      exact ⟨path, rfl, (h.stores path).trans hpath⟩

end TernaryNode

namespace TernarySearchTree

open TernaryNode

/-- A tree and the plain map that the same operations build. -/
abbrev State (V : Type) := TernaryNode JsString JsString V × (List JsString → Option (Option V))

variable {V : Type} (kind : KeyKind)

def step (truthy : V → Bool) (s : State V) (o : Operation JsString V) : Option (State V) :=
  (s.1.run kind.segments truthy o).map fun t => (t, runMap kind.segments s.2 o)

def system (truthy : V → Bool) : System (State V) (Operation JsString V) :=
  .ofStep (· = (undefined, fun _ => none)) (step kind truthy)

def Safe (truthy : V → Bool) (s : State V) (o : Operation JsString V) : Prop :=
  s.1.Safe kind.segments truthy o

def State.Sound (s : State V) : Prop := s.1.Sound kind.segments s.2

theorem reachable_sound {kind : KeyKind} {truthy : V → Bool} {s : State V}
    (h : (system kind truthy).ReachableVia (Safe kind truthy) s) : State.Sound kind s := by
  refine h.invariant ?_ fun s o s' hs hsafe hstep => ?_
  · rintro s rfl
    exact ⟨trivial, trivial, trivial, fun path => rfl⟩
  · obtain ⟨t', hrun, hsound⟩ := hs.run hsafe
    have hstep' : (s.1.run kind.segments truthy o).map
        (fun t => (t, runMap kind.segments s.2 o)) = some s' := hstep
    rw [hrun] at hstep'
    cases hstep'
    exact hsound

theorem refines_map (kind : KeyKind) (truthy : V → Bool) {s : State V}
    (h : (system kind truthy).ReachableVia (Safe kind truthy) s) :
    s.1.Refines kind.segments truthy s.2 ∧
      ∀ o, Safe kind truthy s o → step kind truthy s o ≠ none := by
  have hsound : s.1.Sound kind.segments s.2 := reachable_sound h
  refine ⟨hsound.refines truthy, fun o hsafe hnone => ?_⟩
  obtain ⟨t', hrun, -⟩ := hsound.run hsafe
  unfold step at hnone
  rw [hrun] at hnone
  cases hnone

/-- `ab`, `a` and `c` are set, and `a` is deleted. -/
theorem refines_map_sample : ∃ s : State Bool, s.1.get (stringSegments [97, 98]) = some true ∧
    s.1.Refines KeyKind.strings.segments id s.2 ∧
      ∀ o, Safe .strings id s o → step .strings id s o ≠ none := by
  have hrun : ∃ s, System.RunVia (step .strings id) (Safe .strings id)
      ((undefined, fun _ => none) : State Bool)
      [.set [97, 98] (some true), .set [97] (some true), .set [99] (some false), .delete [97]] s ∧
        s.1.get (stringSegments [97, 98]) = some true := by
    refine ⟨_, ⟨_, cons_ne_nil _ _, rfl, _, cons_ne_nil _ _, rfl, _,
      cons_ne_nil _ _, rfl, _, ⟨cons_ne_nil _ _, fun hmid => ?_⟩, rfl, rfl⟩, rfl⟩
    cases hmid
  obtain ⟨s, hrun, hget⟩ := hrun
  exact ⟨s, hget, refines_map .strings id (.of_runVia (.init rfl) hrun)⟩

/-- After `b`, `a` and `c` are set, `deleteSuperstr` of `b` takes `a` and `c` along. -/
theorem siblings_lost : ∃ s : State Bool, (system .strings id).Reachable s ∧
    ¬s.1.Refines KeyKind.strings.segments id s.2 := by
  refine ⟨_, System.Reachable.run (.init rfl)
    [.set [98] (some true), .set [97] (some true), .set [99] (some true), .deleteSuperstr [98]]
    rfl, fun h => ?_⟩
  have hget := h.get [97] (by decide)
  cases hget

end TernarySearchTree

end Fumie.Base
