import Fumie.Base.TernaryShape

/-!
# What a ternary search tree stores

A tree whose levels are ordered stores a value for each list of segments. The items of a
tree decide what it stores, so the rotations do not matter.
-/

namespace Fumie.Base

open List Option

namespace TernaryNode

variable {S K V : Type} [LinearOrder S]

/-! ## Stored values -/

def valueAt (t : TernaryNode S K V) (path : List S) : Option (Option V) := (t.getNode path).value

def Ordered : TernaryNode S K V → Prop
  | undefined => True
  | node _ s _ _ l m r =>
    (∀ i ∈ l.items, i.segment < s) ∧ (∀ i ∈ r.items, s < i.segment) ∧ l.Ordered ∧ m.Ordered ∧
      r.Ordered

theorem ordered_node (h : Nat) (s : S) (v : Option (Option V)) (k : Option K)
    (l m r : TernaryNode S K V) : (node h s v k l m r).Ordered ↔
      (∀ i ∈ l.items, i.segment < s) ∧ (∀ i ∈ r.items, s < i.segment) ∧ l.Ordered ∧ m.Ordered ∧
        r.Ordered := Iff.rfl

theorem ordered_iff_items (t : TernaryNode S K V) : t.Ordered ↔
    (t.items.map (·.segment)).Pairwise (· < ·) ∧ ∀ i ∈ t.items, i.mid.Ordered := by
  induction t with
  | undefined => exact ⟨fun _ => ⟨List.Pairwise.nil, nofun⟩, fun _ => trivial⟩
  | node h s v k l m r ihl ihm ihr =>
    rw [ordered_node, items_node, ihl, ihr, map_append, map_cons, pairwise_append, pairwise_cons]
    constructor
    · rintro ⟨hless, hmore, ⟨hl, hlm⟩, hm, hr, hrm⟩
      refine ⟨⟨hl, ⟨fun b hb => ?_, hr⟩, fun a ha b hb => ?_⟩, fun i hi => ?_⟩
      · obtain ⟨i, hi, rfl⟩ := mem_map.mp hb
        exact hmore i hi
      · obtain ⟨i, hi, rfl⟩ := mem_map.mp ha
        rcases mem_cons.mp hb with rfl | hb
        · exact hless i hi
        · obtain ⟨j, hj, rfl⟩ := mem_map.mp hb
          exact lt_trans (hless i hi) (hmore j hj)
      · rcases mem_append.mp hi with hi | hi
        · exact hlm i hi
        · rcases mem_cons.mp hi with rfl | hi
          · exact hm
          · exact hrm i hi
    · rintro ⟨⟨hl, ⟨hmore, hr⟩, hless⟩, hmids⟩
      refine ⟨fun i hi => ?_, fun i hi => hmore _ (mem_map_of_mem hi),
        ⟨hl, fun i hi => hmids i (mem_append_left _ hi)⟩, ?_, hr, fun i hi => ?_⟩
      · exact hless _ (mem_map_of_mem hi) _ mem_cons_self
      · exact hmids _ (mem_append_right _ mem_cons_self)
      · exact hmids i (mem_append_right _ (mem_cons_of_mem _ hi))

theorem valueAt_nil (t : TernaryNode S K V) : t.valueAt [] = none := by
  cases t with
  | undefined | node _ _ _ _ _ _ _ => rfl

theorem valueAt_undefined (path : List S) :
    (undefined : TernaryNode S K V).valueAt path = none := rfl

theorem valueAt_node (h : Nat) (s : S) (v : Option (Option V)) (k : Option K)
    (l m r : TernaryNode S K V) (a : S) (path : List S) :
    (node h s v k l m r).valueAt (a :: path) =
      if a < s then l.valueAt (a :: path)
      else if s < a then r.valueAt (a :: path)
      else if path = [] then v
      else m.valueAt path := by
  unfold valueAt
  conv => lhs; unfold getNode
  dsimp only
  split
  · rfl
  · split
    · rfl
    · split
      · rfl
      · rfl

theorem valueAt_node_self (h : Nat) (s : S) (v : Option (Option V)) (k : Option K)
    (l m r : TernaryNode S K V) (path : List S) :
    (node h s v k l m r).valueAt (s :: path) = if path = [] then v else m.valueAt path := by
  rw [valueAt_node, if_neg (lt_irrefl _), if_neg (lt_irrefl _)]

section OtherSegment

variable {a s : S} {path : List S} {h h' : Nat} {v v' : Option (Option V)} {k k' : Option K}
  {l m m' r : TernaryNode S K V}

theorem valueAt_node_congr (hne : a ≠ s) : (node h s v k l m r).valueAt (a :: path) =
    (node h' s v' k' l m' r).valueAt (a :: path) := by
  rw [valueAt_node, valueAt_node]
  rcases lt_or_gt_of_ne hne with hlt | hgt
  · rw [if_pos hlt, if_pos hlt]
  · rw [if_neg (not_lt_of_gt hgt), if_neg (not_lt_of_gt hgt), if_pos hgt, if_pos hgt]

theorem valueAt_leaf (hne : a ≠ s) :
    (node h s v k undefined m undefined).valueAt (a :: path) = none := by
  rw [valueAt_node]
  rcases lt_or_gt_of_ne hne with hlt | hgt
  · exact if_pos hlt
  · rw [if_neg (not_lt_of_gt hgt)]
    exact if_pos hgt

end OtherSegment

def found (items : List (Item S K V)) (a : S) (path : List S) : Option (Option V) :=
  (items.find? fun i => decide (i.segment = a)).bind fun i =>
    if path = [] then i.value else i.mid.valueAt path

variable {a : S}

theorem find_none {items : List (Item S K V)} (h : ∀ i ∈ items, i.segment ≠ a) :
    items.find? (fun i => decide (i.segment = a)) = none := by
  rw [find?_eq_none]
  exact fun i hi => by simpa using h i hi

variable {t t' t'' l' r' : TernaryNode S K V} {segments : List S} {truthy : V → Bool}

theorem valueAt_items (ht : t.Ordered) (a : S) (path : List S) :
    t.valueAt (a :: path) = found t.items a path := by
  induction t with
  | undefined => rfl
  | node h s v k l m r ihl ihm ihr =>
    obtain ⟨hless, hmore, hl, hm, hr⟩ := ht
    rw [valueAt_node, ihl hl, ihr hr, items_node]
    unfold found
    rw [find?_append]
    split
    · next hlt =>
      have hnone : (⟨s, v, k, m⟩ :: r.items : List (Item S K V)).find?
          (fun i => decide (i.segment = a)) = none := by
        refine find_none fun i hi => ?_
        rcases mem_cons.mp hi with rfl | hi
        · exact ne_of_gt hlt
        · exact ne_of_gt (lt_trans hlt (hmore i hi))
      rw [hnone, or_none]
    · next hge =>
      split
      · next hgt =>
        have hnone : l.items.find? (fun i => decide (i.segment = a)) = none :=
          find_none fun i hi => ne_of_lt (lt_trans (hless i hi) hgt)
        rw [hnone, none_or, find?_cons_of_neg]
        simpa using ne_of_lt hgt
      · next hle =>
        obtain rfl : a = s := le_antisymm (not_lt.mp hle) (not_lt.mp hge)
        have hnone : l.items.find? (fun i => decide (i.segment = a)) = none :=
          find_none fun i hi => ne_of_lt (hless i hi)
        rw [hnone, none_or, find?_cons_of_pos (by simp)]
        rfl

theorem same_items (ht : t.Ordered) (h : t'.items = t.items) :
    t'.Ordered ∧ ∀ path, t'.valueAt path = t.valueAt path := by
  have ht' : t'.Ordered := by
    rw [ordered_iff_items, h, ← ordered_iff_items]
    exact ht
  refine ⟨ht', fun path => ?_⟩
  cases path with
  | nil => rw [valueAt_nil, valueAt_nil]
  | cons a path => rw [valueAt_items ht', valueAt_items ht, h]

variable {element : Option V}

theorem item_of_valueAt (ht : t.Ordered) {path : List S}
    (h : t.valueAt (a :: path) = some element) : ∃ i ∈ t.items, i.segment = a := by
  rw [valueAt_items ht] at h
  obtain ⟨i, hi, -⟩ := bind_eq_some_iff.mp h
  exact ⟨i, mem_of_find?_eq_some hi, by simpa using find?_some hi⟩

/-! ## Setting -/

theorem newNodes_stored (key : K) (element : Option V) (segments : List S) :
    (newNodes key element segments).Ordered ∧
      (∀ i ∈ (newNodes key element segments).items, some i.segment = segments.head?) ∧
      ∀ path, segments ≠ [] → (newNodes key element segments).valueAt path =
        if path = segments then some element else none := by
  induction segments with
  | nil => exact ⟨trivial, nofun, fun _ h => absurd rfl h⟩
  | cons segment rest ih =>
    have hsides : ∀ {v : Option (Option V)} {k : Option K} {m : TernaryNode S K V}, m.Ordered →
        (node 1 segment v k undefined m undefined).Ordered := fun hm =>
      ⟨nofun, nofun, trivial, hm, trivial⟩
    have hitems : ∀ {v : Option (Option V)} {k : Option K} {m : TernaryNode S K V},
        ∀ i ∈ (node 1 segment v k undefined m undefined).items,
          some i.segment = (segment :: rest).head? := by
      intro v k m i hi
      rw [mem_singleton.mp hi]
      rfl
    cases rest with
    | nil =>
      refine ⟨hsides trivial, hitems, fun path _ => ?_⟩
      cases path with
      | nil => exact valueAt_nil _
      | cons a path =>
        show (node 1 segment (some element) (some key) undefined undefined undefined :
          TernaryNode S K V).valueAt (a :: path) = _
        rcases eq_or_ne a segment with rfl | hne
        · rw [valueAt_node_self, valueAt_undefined]
          by_cases hpath : path = []
          · subst hpath
            rw [if_pos rfl, if_pos rfl]
          · rw [if_neg hpath, if_neg]
            exact fun h => hpath (cons.inj h).2
        · rw [valueAt_leaf hne, if_neg fun heq => hne (cons.inj heq).1]
    | cons next rest =>
      obtain ⟨hordered, -, hstored⟩ := ih
      refine ⟨hsides hordered, hitems, fun path _ => ?_⟩
      cases path with
      | nil => exact valueAt_nil _
      | cons a path =>
        show (node 1 segment none none undefined (newNodes key element (next :: rest)) undefined :
          TernaryNode S K V).valueAt (a :: path) = _
        rcases eq_or_ne a segment with rfl | hne
        · rw [valueAt_node_self]
          by_cases hpath : path = []
          · subst hpath
            rw [if_pos rfl, if_neg]
            exact fun h => by cases (cons.inj h).2
          · rw [if_neg hpath, hstored path (cons_ne_nil _ _)]
            by_cases hsame : path = next :: rest
            · rw [if_pos hsame, hsame, if_pos rfl]
            · rw [if_neg hsame, if_neg]
              exact fun h => hsame (cons.inj h).2
        · rw [valueAt_leaf hne, if_neg fun heq => hne (cons.inj heq).1]

structure Stores (t t' : TernaryNode S K V) (segments : List S) (element : Option V) : Prop where
  ordered : t'.Ordered
  items : ∀ i ∈ t'.items, some i.segment = segments.head? ∨ ∃ j ∈ t.items, j.segment = i.segment
  stored : ∀ path, t'.valueAt path = if path = segments then some element else t.valueAt path

theorem Stores.of_items (h : Stores t t' segments element) (hitems : t''.items = t'.items) :
    Stores t t'' segments element := by
  obtain ⟨hordered, hsame⟩ := same_items h.ordered hitems
  refine ⟨hordered, fun i hi => ?_, fun path => (hsame path).trans (h.stored path)⟩
  rw [hitems] at hi
  exact h.items i hi

variable {rest : List S} {v : Option (Option V)}

theorem stores_left {h : Nat} {s : S} {k : Option K} {l m r : TernaryNode S K V}
    (ht : (node h s v k l m r).Ordered) (hlt : a < s) (hl : Stores l l' (a :: rest) element) :
    Stores (node h s v k l m r) (node h s v k l' m r) (a :: rest) element := by
  obtain ⟨hless, hmore, -, hm, hr⟩ := ht
  refine ⟨⟨fun i hi => ?_, hmore, hl.ordered, hm, hr⟩, fun i hi => ?_, fun path => ?_⟩
  · rcases hl.items i hi with heq | ⟨j, hj, heq⟩
    · rw [Option.some.inj heq]
      exact hlt
    · rw [← heq]
      exact hless j hj
  · rw [items_node] at hi ⊢
    rcases mem_append.mp hi with hi | hi
    · rcases hl.items i hi with heq | ⟨j, hj, heq⟩
      · exact .inl heq
      · exact .inr ⟨j, mem_append_left _ hj, heq⟩
    · exact .inr ⟨i, mem_append_right _ hi, rfl⟩
  · cases path with
    | nil => exact valueAt_nil _
    | cons b path =>
      rw [valueAt_node, valueAt_node, hl.stored]
      by_cases hb : b < s
      · rw [if_pos hb, if_pos hb]
      · have hne : ¬(b :: path = a :: rest) := by
          intro heq
          rw [(cons.inj heq).1] at hb
          exact hb hlt
        rw [if_neg hb, if_neg hne, if_neg hb]

theorem stores_right {h : Nat} {s : S} {k : Option K} {l m r : TernaryNode S K V}
    (ht : (node h s v k l m r).Ordered) (hgt : s < a) (hr : Stores r r' (a :: rest) element) :
    Stores (node h s v k l m r) (node h s v k l m r') (a :: rest) element := by
  obtain ⟨hless, hmore, hl, hm, -⟩ := ht
  refine ⟨⟨hless, fun i hi => ?_, hl, hm, hr.ordered⟩, fun i hi => ?_, fun path => ?_⟩
  · rcases hr.items i hi with heq | ⟨j, hj, heq⟩
    · rw [Option.some.inj heq]
      exact hgt
    · rw [← heq]
      exact hmore j hj
  · rw [items_node] at hi ⊢
    rcases mem_append.mp hi with hi | hi
    · exact .inr ⟨i, mem_append_left _ hi, rfl⟩
    · rcases mem_cons.mp hi with rfl | hi
      · exact .inr ⟨⟨s, v, k, m⟩, mem_append_right _ mem_cons_self, rfl⟩
      · rcases hr.items i hi with heq | ⟨j, hj, heq⟩
        · exact .inl heq
        · exact .inr ⟨j, mem_append_right _ (mem_cons_of_mem _ hj), heq⟩
  · cases path with
    | nil => exact valueAt_nil _
    | cons b path =>
      rw [valueAt_node, valueAt_node, hr.stored]
      by_cases hb : s < b
      · rw [if_neg (not_lt_of_gt hb), if_neg (not_lt_of_gt hb), if_pos hb, if_pos hb]
      · have hne : ¬(b :: path = a :: rest) := by
          intro heq
          rw [(cons.inj heq).1] at hb
          exact hb hgt
        rw [if_neg hb, if_neg hne, if_neg hb]

theorem set_stores {key : K} {element : Option V} (hne : segments ≠ []) {d : Option Dir}
    (ht : t.Ordered) (hset : t.set key element segments = some (t', d)) :
    Stores t t' segments element := by
  induction t generalizing segments t' d with
  | undefined =>
    cases hset
    obtain ⟨hordered, hitems, hstored⟩ := newNodes_stored key element segments
    exact ⟨hordered, fun i hi => .inl (hitems i hi), fun path => hstored path hne⟩
  | node h s v k l m r ihl ihm ihr =>
    obtain ⟨hless, hmore, hl, hm, hr⟩ := id ht
    cases segments with
    | nil => exact absurd rfl hne
    | cons a rest =>
      unfold TernaryNode.set at hset
      dsimp only at hset
      split at hset
      · next hlt =>
        obtain ⟨⟨l', d'⟩, hl', hset⟩ := bind_eq_some_iff.mp hset
        obtain ⟨t'', hbalance, heq⟩ := map_eq_some_iff.mp hset
        cases heq
        exact (stores_left ht hlt (ihl hne hl hl')).of_items (items_rebalanceAfterSet hbalance)
      · next hge =>
        split at hset
        · next hgt =>
          obtain ⟨⟨r', d'⟩, hr', hset⟩ := bind_eq_some_iff.mp hset
          obtain ⟨t'', hbalance, heq⟩ := map_eq_some_iff.mp hset
          cases heq
          exact (stores_right ht hgt (ihr hne hr hr')).of_items (items_rebalanceAfterSet hbalance)
        · next hle =>
          obtain rfl : a = s := le_antisymm (not_lt.mp hle) (not_lt.mp hge)
          have hsegments : ∀ {v' : Option (Option V)} {k' : Option K} {m' : TernaryNode S K V},
              ∀ i ∈ (node h a v' k' l m' r).items, some i.segment = (a :: rest).head? ∨
                ∃ j ∈ (node h a v k l m r).items, j.segment = i.segment := by
            intro v' k' m' i hi
            rw [items_node] at hi ⊢
            rcases mem_append.mp hi with hi | hi
            · exact .inr ⟨i, mem_append_left _ hi, rfl⟩
            · rcases mem_cons.mp hi with rfl | hi
              · exact .inl rfl
              · exact .inr ⟨i, mem_append_right _ (mem_cons_of_mem _ hi), rfl⟩
          split at hset
          · next hrest =>
            subst hrest
            cases hset
            refine ⟨⟨hless, hmore, hl, hm, hr⟩, hsegments, fun path => ?_⟩
            cases path with
            | nil => exact valueAt_nil _
            | cons b path =>
              rcases eq_or_ne b a with rfl | hne
              · rw [valueAt_node_self, valueAt_node_self]
                by_cases hpath : path = []
                · subst hpath
                  rw [if_pos rfl, if_pos rfl]
                · rw [if_neg hpath, if_neg hpath, if_neg]
                  exact fun heq => hpath (cons.inj heq).2
              · rw [if_neg fun heq => hne (cons.inj heq).1]
                exact valueAt_node_congr hne
          · next hrest =>
            obtain ⟨⟨m', d'⟩, hm', hset⟩ := bind_eq_some_iff.mp hset
            obtain ⟨t'', hbalance, heq⟩ := map_eq_some_iff.mp hset
            cases heq
            have hstores := ihm hrest hm hm'
            have hmid : Stores (node h a v k l m r) (node h a v k l m' r) (a :: rest) element := by
              refine ⟨⟨hless, hmore, hl, hstores.ordered, hr⟩, hsegments, fun path => ?_⟩
              cases path with
              | nil => exact valueAt_nil _
              | cons b path =>
                rcases eq_or_ne b a with rfl | hne
                · rw [valueAt_node_self, valueAt_node_self, hstores.stored]
                  by_cases hpath : path = []
                  · subst hpath
                    rw [if_pos rfl, if_pos rfl, if_neg]
                    exact fun heq => hrest (cons.inj heq).2.symm
                  · rw [if_neg hpath, if_neg hpath]
                    by_cases hsame : path = rest
                    · rw [if_pos hsame, hsame, if_pos rfl]
                    · rw [if_neg hsame, if_neg]
                      exact fun heq => hsame (cons.inj heq).2
                · rw [if_neg fun heq => hne (cons.inj heq).1]
                  exact valueAt_node_congr hne
            exact hmid.of_items (items_rebalanceAfterSet hbalance)

/-! ## Deleting -/

def Gone (superStr : Bool) (segments path : List S) : Prop :=
  if superStr then segments <+: path ∧ path ≠ segments else path = segments

omit [LinearOrder S] in
theorem gone_cons {superStr : Bool} {a b : S} {rest path : List S} :
    Gone superStr (a :: rest) (b :: path) ↔ b = a ∧ Gone superStr rest path := by
  cases superStr with
  | false =>
    show b :: path = a :: rest ↔ b = a ∧ path = rest
    exact ⟨fun h => cons.inj h, fun h => by rw [h.1, h.2]⟩
  | true =>
    show (a :: rest <+: b :: path ∧ b :: path ≠ a :: rest) ↔ b = a ∧ rest <+: path ∧ path ≠ rest
    rw [cons_prefix_cons]
    constructor
    · rintro ⟨⟨rfl, hprefix⟩, hne⟩
      exact ⟨rfl, hprefix, fun h => hne (by rw [h])⟩
    · rintro ⟨rfl, hprefix, hne⟩
      exact ⟨⟨rfl, hprefix⟩, fun h => hne (cons.inj h).2⟩

/-- What a deletion leaves. -/
structure Removes (superStr : Bool) (segments : List S) (t t' : TernaryNode S K V) : Prop where
  ordered : t'.Ordered
  items : ∀ i ∈ t'.items, ∃ j ∈ t.items, j.segment = i.segment
  gone : ∀ path, Gone superStr segments path → t'.valueAt path = none
  kept : ∀ path, ¬Gone superStr segments path → t'.valueAt path = t.valueAt path

variable {superStr : Bool}

theorem Removes.of_items (h : Removes superStr segments t t') (hitems : t''.items = t'.items) :
    Removes superStr segments t t'' := by
  obtain ⟨hordered, hsame⟩ := same_items h.ordered hitems
  refine ⟨hordered, fun i hi => ?_, fun path hgone => (hsame path).trans (h.gone path hgone),
    fun path hkept => (hsame path).trans (h.kept path hkept)⟩
  rw [hitems] at hi
  exact h.items i hi

variable {h : Nat} {s : S} {v : Option (Option V)} {k : Option K} {l m r : TernaryNode S K V}

omit [LinearOrder S] in
theorem items_min (t : TernaryNode S K V) (hne : t ≠ undefined) :
    ∃ h s v k m r, t.min = node h s v k undefined m r ∧
      t.items = ⟨s, v, k, m⟩ :: t.removeMin.items := by
  induction t with
  | undefined => exact absurd rfl hne
  | node h s v k l m r ihl ihm ihr =>
    cases l with
    | undefined => exact ⟨h, s, v, k, m, r, rfl, rfl⟩
    | node h' s' v' k' l' m' r' =>
      obtain ⟨h₁, s₁, v₁, k₁, m₁, r₁, hmin, hitems⟩ := ihl nofun
      refine ⟨h₁, s₁, v₁, k₁, m₁, r₁, hmin, ?_⟩
      have hremove : (node h s v k (node h' s' v' k' l' m' r') m r).removeMin =
          (node h s v k (node h' s' v' k' l' m' r').removeMin m r).balance := rfl
      rw [hremove, items_balance]
      show (node h' s' v' k' l' m' r').items ++ ⟨s, v, k, m⟩ :: r.items = _ ::
        ((node h' s' v' k' l' m' r').removeMin.items ++ ⟨s, v, k, m⟩ :: r.items)
      rw [hitems]
      rfl

omit [LinearOrder S] in
theorem items_removeNode (truthy : V → Bool)
    (hcan : m = undefined → l ≠ undefined → r ≠ undefined →
      ∀ h s v k l' m' r', r.min = node h s v (some k) l' m' r' → m' = undefined) :
    (removeNode truthy (node h s none k l m r)).items = (node h s none k l m r).items ∨
      m = undefined ∧ (removeNode truthy (node h s none k l m r)).items = l.items ++ r.items := by
  cases m with
  | node h' s' v' k' l' m' r' => exact .inl rfl
  | undefined =>
    unfold removeNode
    dsimp only
    rw [if_pos (by rfl)]
    split
    · exact .inr ⟨rfl, rfl⟩
    · exact .inr ⟨rfl, (List.append_nil _).symm⟩
    · next hl hr =>
      have hr' : r ≠ undefined := fun heq => hr heq
      obtain ⟨h₁, s₁, v₁, k₁, m₁, r₁, hmin, hitems⟩ := items_min r hr'
      split
      · next h₂ s₂ v₂ k₂ l₂ m₂ r₂ hmin' =>
        refine .inr ⟨rfl, ?_⟩
        have hnone := hcan rfl (fun heq => hl heq) hr' _ _ _ _ _ _ _ hmin'
        rw [hmin] at hmin'
        cases hmin'
        rw [items_balance, items_node, hitems, hnone]
      · exact .inl rfl

theorem without_item (ht : (node h s none k l undefined r).Ordered)
    (hitems : t'.items = l.items ++ r.items) :
    t'.Ordered ∧ ∀ path, t'.valueAt path = (node h s none k l undefined r).valueAt path := by
  have hsub : (l.items ++ r.items).Sublist (node h s none k l undefined r).items := by
    rw [items_node]
    exact (List.Sublist.refl _).append (sublist_cons_self _ _)
  have ht' : t'.Ordered := by
    rw [ordered_iff_items] at ht ⊢
    rw [hitems]
    exact ⟨ht.1.sublist (hsub.map _), fun i hi => ht.2 i (hsub.subset hi)⟩
  refine ⟨ht', fun path => ?_⟩
  cases path with
  | nil => rw [valueAt_nil, valueAt_nil]
  | cons a path =>
    rw [valueAt_items ht', valueAt_items ht, hitems, items_node]
    unfold found
    rw [find?_append, find?_append]
    by_cases ha : s = a
    · have hl : l.items.find? (fun i => decide (i.segment = a)) = none :=
        find_none fun i hi => ne_of_lt (ha ▸ ht.1 i hi)
      have hr : r.items.find? (fun i => decide (i.segment = a)) = none :=
        find_none fun i hi => ne_of_gt (ha ▸ ht.2.1 i hi)
      rw [hl, hr, find?_cons_of_pos (by simpa using ha)]
      show none = if path = [] then none else (undefined : TernaryNode S K V).valueAt path
      rw [valueAt_undefined, ite_self]
    · rw [find?_cons_of_neg (by simpa using ha)]

theorem deleteFound_removes {superStr : Bool} (ht : (node h s v k l m r).Ordered)
    (hcan : (node h s v k l m r).CanDelete truthy superStr) :
    Removes superStr [s] (node h s v k l m r)
      (deleteFound truthy superStr (node h s v k l m r)) := by
  cases superStr with
  | true =>
    obtain ⟨rfl, rfl, hv⟩ := hcan
    have hleaf : (deleteFound truthy true (node h s v k undefined m undefined)) =
        if isFalsy truthy v then undefined
        else node 1 s v k undefined undefined undefined := rfl
    have hstored : ∀ path, (deleteFound truthy true (node h s v k undefined m undefined)).valueAt
        path = if path = [s] then v else none := by
      intro path
      rw [hleaf]
      cases path with
      | nil =>
        rw [valueAt_nil, if_neg]
        exact nofun
      | cons a path =>
        split
        · next hfalsy =>
          rcases hv with rfl | hv
          · rw [valueAt_undefined, ite_self]
          · rw [hv] at hfalsy
            cases hfalsy
        · rcases eq_or_ne a s with rfl | hne
          · rw [valueAt_node_self, valueAt_undefined]
            by_cases hpath : path = []
            · subst hpath
              rw [if_pos rfl, if_pos rfl]
            · rw [if_neg hpath, if_neg]
              exact fun heq => hpath (cons.inj heq).2
          · rw [valueAt_leaf hne, if_neg fun heq => hne (cons.inj heq).1]
    refine ⟨?_, fun i hi => ?_, fun path hgone => ?_, fun path hkept => ?_⟩
    · rw [hleaf]
      split
      · trivial
      · exact ⟨nofun, nofun, trivial, trivial, trivial⟩
    · refine ⟨⟨s, v, k, m⟩, mem_cons_self, ?_⟩
      rw [hleaf] at hi
      split at hi
      · exact absurd hi not_mem_nil
      · rw [mem_singleton.mp hi]
    · rw [hstored, if_neg hgone.2]
    · rw [hstored]
      cases path with
      | nil =>
        rw [valueAt_nil, if_neg]
        exact nofun
      | cons a path =>
        rcases eq_or_ne a s with rfl | hne
        · rw [valueAt_node_self]
          by_cases hpath : path = []
          · subst hpath
            rw [if_pos rfl, if_pos rfl]
          · refine absurd ?_ hkept
            exact gone_cons.mpr ⟨rfl, nil_prefix, hpath⟩
        · rw [valueAt_leaf hne, if_neg fun heq => hne (cons.inj heq).1]
  | false =>
    have hcleared : (node h s none (none : Option K) l m r).Ordered := ht
    have hstored : ∀ path, (node h s none (none : Option K) l m r).valueAt path =
        if path = [s] then none else (node h s v k l m r).valueAt path := by
      intro path
      cases path with
      | nil =>
        rw [valueAt_nil, valueAt_nil, ite_self]
      | cons a path =>
        rcases eq_or_ne a s with rfl | hne
        · rw [valueAt_node_self, valueAt_node_self]
          by_cases hpath : path = []
          · subst hpath
            rw [if_pos rfl, if_pos rfl]
          · rw [if_neg hpath, if_neg hpath, if_neg]
            exact fun heq => hpath (cons.inj heq).2
        · rw [if_neg fun heq => hne (cons.inj heq).1]
          exact valueAt_node_congr hne
    have hremoves : Removes false [s] (node h s v k l m r) (node h s none none l m r) := by
      refine ⟨hcleared, fun i hi => ?_, fun path hgone => ?_, fun path hkept => ?_⟩
      · rw [items_node] at hi ⊢
        rcases mem_append.mp hi with hi | hi
        · exact ⟨i, mem_append_left _ hi, rfl⟩
        · rcases mem_cons.mp hi with rfl | hi
          · exact ⟨_, mem_append_right _ mem_cons_self, rfl⟩
          · exact ⟨i, mem_append_right _ (mem_cons_of_mem _ hi), rfl⟩
      · have hpath : path = [s] := hgone
        rw [hstored, if_pos hpath]
      · have hpath : ¬path = [s] := hkept
        rw [hstored, if_neg hpath]
    show Removes false [s] (node h s v k l m r) (removeNode truthy (node h s none none l m r))
    rcases items_removeNode truthy (h := h) (s := s) (k := none) hcan with
      hsame | ⟨rfl, hgone⟩
    · exact hremoves.of_items hsame
    · obtain ⟨hordered, hvalue⟩ := without_item hcleared hgone
      refine ⟨hordered, fun i hi => ?_,
        fun path hpath => (hvalue path).trans (hremoves.gone path hpath),
        fun path hpath => (hvalue path).trans (hremoves.kept path hpath)⟩
      rw [hgone] at hi
      refine ⟨i, ?_, rfl⟩
      rw [items_node]
      rcases mem_append.mp hi with hi | hi
      · exact mem_append_left _ hi
      · exact mem_append_right _ (mem_cons_of_mem _ hi)

theorem removes_left (ht : (node h s v k l m r).Ordered) (hlt : a < s)
    (hl : Removes superStr (a :: rest) l l') :
    Removes superStr (a :: rest) (node h s v k l m r) (node h s v k l' m r) := by
  obtain ⟨hless, hmore, -, hm, hr⟩ := ht
  refine ⟨⟨fun i hi => ?_, hmore, hl.ordered, hm, hr⟩, fun i hi => ?_, fun path hgone => ?_,
    fun path hkept => ?_⟩
  · obtain ⟨j, hj, heq⟩ := hl.items i hi
    rw [← heq]
    exact hless j hj
  · rw [items_node] at hi ⊢
    rcases mem_append.mp hi with hi | hi
    · obtain ⟨j, hj, heq⟩ := hl.items i hi
      exact ⟨j, mem_append_left _ hj, heq⟩
    · exact ⟨i, mem_append_right _ hi, rfl⟩
  · cases path with
    | nil => exact valueAt_nil _
    | cons b path =>
      obtain ⟨rfl, -⟩ := gone_cons.mp hgone
      rw [valueAt_node, if_pos hlt]
      exact hl.gone _ hgone
  · cases path with
    | nil => rw [valueAt_nil, valueAt_nil]
    | cons b path =>
      rw [valueAt_node, valueAt_node, hl.kept _ hkept]

theorem removes_right (ht : (node h s v k l m r).Ordered) (hgt : s < a)
    (hr : Removes superStr (a :: rest) r r') :
    Removes superStr (a :: rest) (node h s v k l m r) (node h s v k l m r') := by
  obtain ⟨hless, hmore, hl, hm, -⟩ := ht
  refine ⟨⟨hless, fun i hi => ?_, hl, hm, hr.ordered⟩, fun i hi => ?_, fun path hgone => ?_,
    fun path hkept => ?_⟩
  · obtain ⟨j, hj, heq⟩ := hr.items i hi
    rw [← heq]
    exact hmore j hj
  · rw [items_node] at hi ⊢
    rcases mem_append.mp hi with hi | hi
    · exact ⟨i, mem_append_left _ hi, rfl⟩
    · rcases mem_cons.mp hi with rfl | hi
      · exact ⟨_, mem_append_right _ mem_cons_self, rfl⟩
      · obtain ⟨j, hj, heq⟩ := hr.items i hi
        exact ⟨j, mem_append_right _ (mem_cons_of_mem _ hj), heq⟩
  · cases path with
    | nil => exact valueAt_nil _
    | cons b path =>
      obtain ⟨rfl, -⟩ := gone_cons.mp hgone
      rw [valueAt_node, if_neg (not_lt_of_gt hgt), if_pos hgt]
      exact hr.gone _ hgone
  · cases path with
    | nil => rw [valueAt_nil, valueAt_nil]
    | cons b path =>
      rw [valueAt_node, valueAt_node, hr.kept _ hkept]

theorem removes_mid {m' : TernaryNode S K V} (ht : (node h s v k l m r).Ordered) (hrest : rest ≠ [])
    (hm : Removes superStr rest m m') :
    Removes superStr (s :: rest) (node h s v k l m r) (node h s v k l m' r) := by
  obtain ⟨hless, hmore, hl, -, hr⟩ := ht
  refine ⟨⟨hless, hmore, hl, hm.ordered, hr⟩, fun i hi => ?_, fun path hgone => ?_,
    fun path hkept => ?_⟩
  · rw [items_node] at hi ⊢
    rcases mem_append.mp hi with hi | hi
    · exact ⟨i, mem_append_left _ hi, rfl⟩
    · rcases mem_cons.mp hi with rfl | hi
      · exact ⟨_, mem_append_right _ mem_cons_self, rfl⟩
      · exact ⟨i, mem_append_right _ (mem_cons_of_mem _ hi), rfl⟩
  · cases path with
    | nil => exact valueAt_nil _
    | cons b path =>
      obtain ⟨rfl, hbelow⟩ := gone_cons.mp hgone
      rw [valueAt_node, if_neg (lt_irrefl _), if_neg (lt_irrefl _), if_neg]
      · exact hm.gone path hbelow
      · rintro rfl
        cases superStr with
        | true => exact hrest (prefix_nil.mp hbelow.1)
        | false => exact hrest (Eq.symm hbelow)
  · cases path with
    | nil => rw [valueAt_nil, valueAt_nil]
    | cons b path =>
      rcases eq_or_ne b s with rfl | hne
      · rw [valueAt_node_self, valueAt_node_self,
          hm.kept path fun hgone => hkept (gone_cons.mpr ⟨rfl, hgone⟩)]
      · exact valueAt_node_congr hne

theorem deleteNode_removes {superStr : Bool} (hne : segments ≠ []) (ht : t.Ordered)
    (hcan : (t.getNode segments).CanDelete truthy superStr)
    (hdelete : t.deleteNode truthy superStr segments = some t') :
    Removes superStr segments t t' := by
  induction t generalizing segments t' with
  | undefined => cases hdelete
  | node h s v k l m r ihl ihm ihr =>
    obtain ⟨hless, hmore, hl, hm, hr⟩ := id ht
    cases segments with
    | nil => exact absurd rfl hne
    | cons a rest =>
      unfold deleteNode at hdelete
      unfold getNode at hcan
      dsimp only at hdelete hcan
      split at hdelete
      · next hlt =>
        rw [if_pos hlt] at hcan
        obtain ⟨l', hl', rfl⟩ := map_eq_some_iff.mp hdelete
        exact (removes_left ht hlt (ihl hne hl hcan hl')).of_items (items_balance _)
      · next hge =>
        rw [if_neg hge] at hcan
        split at hdelete
        · next hgt =>
          rw [if_pos hgt] at hcan
          obtain ⟨r', hr', rfl⟩ := map_eq_some_iff.mp hdelete
          exact (removes_right ht hgt (ihr hne hr hcan hr')).of_items (items_balance _)
        · next hle =>
          rw [if_neg hle] at hcan
          obtain rfl : a = s := le_antisymm (not_lt.mp hle) (not_lt.mp hge)
          split at hdelete
          · next hrest =>
            subst hrest
            cases hdelete
            exact deleteFound_removes ht hcan
          · next hrest =>
            rw [if_neg hrest] at hcan
            obtain ⟨m', hm', rfl⟩ := map_eq_some_iff.mp hdelete
            exact (removes_mid ht hrest (ihm hrest hm hcan hm')).of_items (items_balance _)

theorem deleteNode_none {superStr : Bool} (hne : segments ≠ [])
    (hdelete : t.deleteNode truthy superStr segments = none) :
    ∀ path, Gone superStr segments path → t.valueAt path = none := by
  induction t generalizing segments with
  | undefined => exact fun path _ => valueAt_undefined path
  | node h s v k l m r ihl ihm ihr =>
    intro path hgone
    cases segments with
    | nil => exact absurd rfl hne
    | cons a rest =>
      cases path with
      | nil => exact valueAt_nil _
      | cons b path =>
        obtain ⟨rfl, hgone'⟩ := gone_cons.mp hgone
        unfold deleteNode at hdelete
        dsimp only at hdelete
        rw [valueAt_node]
        split at hdelete
        · next hlt =>
          rw [if_pos hlt]
          exact ihl hne (map_eq_none_iff.mp hdelete) _ hgone
        · next hge =>
          rw [if_neg hge]
          split at hdelete
          · next hgt =>
            rw [if_pos hgt]
            exact ihr hne (map_eq_none_iff.mp hdelete) _ hgone
          · next hle =>
            rw [if_neg hle]
            split at hdelete
            · cases hdelete
            · next hrest =>
              rw [if_neg]
              · exact ihm hrest (map_eq_none_iff.mp hdelete) _ hgone'
              · rintro rfl
                cases superStr with
                | true => exact hrest (prefix_nil.mp hgone'.1)
                | false => exact hrest (Eq.symm hgone')

end TernaryNode

end Fumie.Base
