import Mathlib

/-!
# Parts of a list rewritten

Things that name a part of a list by its two ends and what stands there instead. A list of
them turns one list into another when the first is gaps with the named parts between them
and the second the same gaps with the new parts between them; a second list is then turned
into what the first one says and nothing else. Lists of two sides over one base are brought
together by merging them in the order of their parts: the base is then rewritten by one
side first and by the other one, moved, behind it, in either order.
-/

namespace Fumie.Lib

open List Function

class Rewrite (ρ : Type) (α : outParam Type) where
  start : ρ → Int
  stop : ρ → Int
  text : ρ → List α

namespace Rewrite

variable {ρ α : Type} [Rewrite ρ α]

def growth (r : ρ) : Int := (text r).length - (stop r - start r)

def Turns (p : Int) : List ρ → List α → List α → Prop
  | [], s, t => t = s
  | r :: rs, s, t => ∃ gap old s' t' : List α, start r = p + gap.length ∧
      stop r = start r + old.length ∧ s = gap ++ (old ++ s') ∧ t = gap ++ (text r ++ t') ∧
      Turns (stop r) rs s' t'

def Sorted (p : Int) : List ρ → Prop
  | [] => True
  | r :: rs => p ≤ start r ∧ start r ≤ stop r ∧ Sorted (stop r) rs

/-! ## Gaps in front -/

variable {p q : Int} {s t front t' old : List α}

theorem Turns.extend {rs : List ρ} (gap : List α) (h : Turns (p + gap.length) rs s t) :
    Turns p rs (gap ++ s) (gap ++ t) := by
  cases rs with
  | nil => exact congrArg (gap ++ ·) h
  | cons r rs =>
    obtain ⟨inner, old, s', t', hstart, hstop, rfl, rfl, hrest⟩ := h
    refine ⟨gap ++ inner, old, s', t', ?_, hstop, (append_assoc ..).symm,
      (append_assoc ..).symm, hrest⟩
    rw [hstart, length_append, Nat.cast_add, Int.add_assoc]

theorem Turns.split {rs : List ρ} (h : Turns p rs (front ++ s) t)
    (hfirst : ∀ r ∈ rs.head?, p + front.length ≤ start r) :
    ∃ t', t = front ++ t' ∧ Turns (p + front.length) rs s t' := by
  cases rs with
  | nil => exact ⟨s, h, rfl⟩
  | cons r rs =>
    obtain ⟨gap, old, s', t', hstart, hstop, hs, rfl, hrest⟩ := h
    have hle := hfirst r rfl
    rw [hstart] at hle
    obtain ⟨inner, rfl⟩ : front <+: gap := by
      refine prefix_of_prefix_length_le ⟨s, rfl⟩ ?_ (by omega)
      rw [hs]
      exact prefix_append _ _
    rw [append_assoc] at hs
    refine ⟨inner ++ (text r ++ t'), append_assoc .., inner, old, s', t', ?_, hstop,
      append_cancel_left hs, rfl, hrest⟩
    rw [hstart, length_append, Nat.cast_add, Int.add_assoc]

theorem Turns.split_target {rs : List ρ} (h : Turns p rs s (front ++ t))
    (hfirst : ∀ r ∈ rs.head?, p + front.length ≤ start r) :
    ∃ s', s = front ++ s' ∧ Turns (p + front.length) rs s' t := by
  cases rs with
  | nil => exact ⟨t, Eq.symm h, rfl⟩
  | cons r rs =>
    obtain ⟨gap, old, s', t', hstart, hstop, rfl, ht, hrest⟩ := h
    have hle := hfirst r rfl
    rw [hstart] at hle
    obtain ⟨inner, rfl⟩ : front <+: gap := by
      refine prefix_of_prefix_length_le ⟨t, rfl⟩ ?_ (by omega)
      rw [ht]
      exact prefix_append _ _
    rw [append_assoc] at ht
    refine ⟨inner ++ (old ++ s'), append_assoc .., inner, old, s', t', ?_, hstop, rfl,
      append_cancel_left ht, hrest⟩
    rw [hstart, length_append, Nat.cast_add, Int.add_assoc]

/-! ## Positions -/

theorem Turns.sorted {rs : List ρ} (h : Turns p rs s t) : Sorted p rs := by
  induction rs generalizing p s t with
  | nil => trivial
  | cons r rs ih =>
    obtain ⟨gap, old, s', t', hstart, hstop, -, -, hrest⟩ := h
    exact ⟨by omega, by omega, ih hrest⟩

theorem Sorted.mono {rs : List ρ} (h : Sorted p rs) (hle : q ≤ p) : Sorted q rs := by
  cases rs with
  | nil => trivial
  | cons r rs => exact ⟨by have := h.1; omega, h.2⟩

theorem Sorted.le {rs : List ρ} (h : Sorted p rs) : ∀ r ∈ rs, p ≤ start r ∧ start r ≤ stop r := by
  induction rs generalizing p with
  | nil =>
    intro r hr
    cases hr
  | cons r rs ih =>
    obtain ⟨hle, hstop, hrest⟩ := h
    intro x hx
    rcases mem_cons.mp hx with rfl | hx
    · exact ⟨hle, hstop⟩
    · have hx := ih hrest x hx
      exact ⟨by omega, hx.2⟩

theorem Turns.stop_le {rs : List ρ} (h : Turns p rs s t) : ∀ r ∈ rs, stop r ≤ p + s.length := by
  induction rs generalizing p s t with
  | nil =>
    intro r hr
    cases hr
  | cons r rs ih =>
    obtain ⟨gap, old, s', t', hstart, hstop, rfl, -, hrest⟩ := h
    intro x hx
    simp only [length_append, Nat.cast_add]
    rcases mem_cons.mp hx with rfl | hx
    · omega
    · have hle := ih hrest x hx
      omega

theorem Sorted.turns {rs : List ρ} (h : Sorted p rs) (hinside : ∀ r ∈ rs, stop r ≤ p + s.length) :
    ∃ t, Turns p rs s t := by
  induction rs generalizing p s with
  | nil => exact ⟨s, rfl⟩
  | cons r rs ih =>
    obtain ⟨hstart, hstop, hrest⟩ := h
    have hr := hinside r mem_cons_self
    obtain ⟨t', ht'⟩ := @ih (stop r) (s.drop (stop r - p).toNat) hrest (by
      intro x hx
      have hle := hinside x (mem_cons_of_mem _ hx)
      rw [length_drop]
      omega)
    refine ⟨_, s.take (start r - p).toNat,
      (s.drop (start r - p).toNat).take (stop r - start r).toNat, s.drop (stop r - p).toNat, t',
      ?_, ?_, ?_, rfl, ht'⟩
    · rw [length_take]
      omega
    · rw [length_take, length_drop]
      omega
    · have hdrop : s.drop (stop r - p).toNat =
          (s.drop (start r - p).toNat).drop (stop r - start r).toNat := by
        rw [drop_drop]
        exact congrArg s.drop (by omega)
      rw [hdrop, take_append_drop, take_append_drop]

theorem Turns.unique {rs : List ρ} (h : Turns p rs s t) (h' : Turns p rs s t') : t' = t := by
  induction rs generalizing p s t t' with
  | nil => exact Eq.trans h' (Eq.symm h)
  | cons r rs ih =>
    obtain ⟨gap, old, u, v, hstart, hstop, rfl, rfl, hrest⟩ := h
    obtain ⟨gap', old', u', v', hstart', hstop', hs, rfl, hrest'⟩ := h'
    obtain ⟨rfl, hbehind⟩ := append_inj hs (by omega)
    obtain ⟨-, rfl⟩ := append_inj hbehind (by omega)
    rw [ih hrest hrest']

/-! ## Uniqueness -/

/-- Every part changes something, and something stands between two of them. -/
def Apart (p : Int) : List ρ → Prop
  | [] => True
  | r :: rs => p < start r ∧ (start r < stop r ∨ text r ≠ []) ∧ Apart (stop r) rs

theorem Apart.mono {rs : List ρ} (h : Apart p rs) (hle : q ≤ p) : Apart q rs := by
  cases rs with
  | nil => trivial
  | cons r rs => exact ⟨by have := h.1; omega, h.2⟩

theorem Apart.head?_eq {rs : List ρ} (hn : Apart p rs) (h : Turns p rs s t) :
    t.head? = s.head? := by
  cases rs with
  | nil => exact congrArg head? h
  | cons r rs =>
    obtain ⟨gap, old, s', t', hstart, -, rfl, rfl, -⟩ := h
    cases gap with
    | nil =>
      have hlt := hn.1
      rw [hstart, length_nil] at hlt
      omega
    | cons c gap => rfl

theorem Apart.head?_ne {r : ρ} {rs : List ρ} (hn : Apart p (r :: rs))
    (hstop : stop r = start r + old.length) (h : Turns (stop r) rs s t)
    (hnodup : (old ++ s).Nodup) (hnew : ∀ c ∈ text r, c ∉ old ++ s) :
    (text r ++ t).head? ≠ (old ++ s).head? := by
  intro heq
  cases htext : text r with
  | cons c rest =>
    rw [htext] at heq
    exact hnew c (by rw [htext]; exact mem_cons_self) (mem_of_mem_head? heq.symm)
  | nil =>
    cases old with
    | nil =>
      rcases hn.2.1 with hlt | hne
      · rw [hstop, length_nil] at hlt
        omega
      · exact hne htext
    | cons c old =>
      rw [htext, nil_append, hn.2.2.head?_eq h] at heq
      exact (nodup_cons.mp hnodup).1 (mem_append_right _ (mem_of_mem_head? heq))

theorem gap_inj {gap gap' a a' b b' : List α} (hs : gap ++ a = gap' ++ a')
    (ht : gap ++ b = gap' ++ b') (h : b.head? ≠ a.head?) (h' : b'.head? ≠ a'.head?) :
    gap = gap' ∧ a = a' ∧ b = b' := by
  induction gap generalizing gap' with
  | nil =>
    cases gap' with
    | nil => exact ⟨rfl, hs, ht⟩
    | cons c gap' =>
      rw [nil_append] at hs ht
      exact absurd (by rw [hs, ht]; rfl) h
  | cons c gap ih =>
    cases gap' with
    | nil =>
      rw [nil_append] at hs ht
      exact absurd (by rw [← hs, ← ht]; rfl) h'
    | cons c' gap' =>
      obtain ⟨rfl, hbehind⟩ := List.cons.inj hs
      obtain ⟨rfl, ha, hb⟩ := ih hbehind (List.cons.inj ht).2
      exact ⟨rfl, ha, hb⟩

theorem text_inj {P : α → Prop} {x x' : List α} (h : x ++ t = x' ++ t') (hx : ∀ c ∈ x, ¬P c)
    (hx' : ∀ c ∈ x', ¬P c) (ht : ∀ c ∈ t.head?, P c) (ht' : ∀ c ∈ t'.head?, P c) :
    x = x' ∧ t = t' := by
  induction x generalizing x' with
  | nil =>
    cases x' with
    | nil => exact ⟨rfl, h⟩
    | cons c x' =>
      rw [nil_append] at h
      exact absurd (ht c (by rw [h]; rfl)) (hx' c mem_cons_self)
  | cons c x ih =>
    cases x' with
    | nil =>
      rw [nil_append] at h
      exact absurd (ht' c (by rw [← h]; rfl)) (hx c mem_cons_self)
    | cons c' x' =>
      obtain ⟨rfl, hbehind⟩ := List.cons.inj h
      obtain ⟨rfl, htail⟩ := ih hbehind (fun c hc => hx c (mem_cons_of_mem _ hc))
        fun c hc => hx' c (mem_cons_of_mem _ hc)
      exact ⟨rfl, htail⟩

theorem old_inj {old' s' : List α} (h : old ++ s = old' ++ s') (hnodup : (old ++ s).Nodup)
    (hhead : s.head? = s'.head?) : old = old' ∧ s = s' := by
  induction old generalizing old' with
  | nil =>
    cases old' with
    | nil => exact ⟨rfl, h⟩
    | cons c old' =>
      rw [nil_append] at h hnodup
      rw [h] at hnodup hhead
      exact absurd (mem_append_right _ (mem_of_mem_head? hhead.symm)) (nodup_cons.mp hnodup).1
  | cons c old ih =>
    cases old' with
    | nil =>
      rw [nil_append] at h
      rw [← h] at hhead
      exact absurd (mem_append_right _ (mem_of_mem_head? hhead)) (nodup_cons.mp hnodup).1
    | cons c' old' =>
      obtain ⟨rfl, hbehind⟩ := List.cons.inj h
      obtain ⟨rfl, htail⟩ := ih hbehind (nodup_cons.mp hnodup).2
      exact ⟨rfl, htail⟩

variable {rs : List ρ}

theorem Apart.not_turns_self {r : ρ} (hn : Apart q (r :: rs)) (hnodup : s.Nodup)
    (hnew : ∀ c ∈ text r, c ∉ s) : ¬Turns p (r :: rs) s s := by
  rintro ⟨gap, old, s', t', -, hstop, rfl, heq, hrest⟩
  refine hn.head?_ne hstop hrest (List.nodup_append.mp hnodup).2.1
    (fun c hc hmem => hnew c hc (mem_append_right _ hmem)) ?_
  rw [append_cancel_left heq]

def parts (r : ρ) : Int × Int × List α := (start r, stop r, text r)

theorem Apart.unique {rs qs : List ρ} (hrs : Apart (p - 1) rs) (hqs : Apart (p - 1) qs)
    (h : Turns p rs s t) (h' : Turns p qs s t) (hnodup : s.Nodup)
    (hnew : ∀ r ∈ rs, ∀ c ∈ text r, c ∉ s) (hnew' : ∀ q ∈ qs, ∀ c ∈ text q, c ∉ s) :
    rs.map parts = qs.map parts := by
  induction rs generalizing p qs s t with
  | nil =>
    cases qs with
    | nil => rfl
    | cons q qs =>
      obtain rfl : t = s := h
      exact absurd h' (hqs.not_turns_self hnodup (hnew' q mem_cons_self))
  | cons r rs ih =>
    cases qs with
    | nil =>
      obtain rfl : t = s := h'
      exact absurd h (hrs.not_turns_self hnodup (hnew r mem_cons_self))
    | cons q qs =>
      obtain ⟨gap, old, u, v, hstart, hstop, rfl, rfl, hrest⟩ := h
      obtain ⟨gap', old', u', v', hstart', hstop', hs, ht, hrest'⟩ := h'
      have hbehind := (List.nodup_append.mp hnodup).2.1
      have hfresh : ∀ r' ∈ r :: rs, ∀ c ∈ text r', c ∉ old ++ u := fun r' hr' c hc hmem =>
        hnew r' hr' c hc (mem_append_right _ hmem)
      have hfresh' : ∀ q' ∈ q :: qs, ∀ c ∈ text q', c ∉ old' ++ u' := fun q' hq' c hc hmem =>
        hnew' q' hq' c hc (hs ▸ mem_append_right _ hmem)
      have hbehind' : (old' ++ u').Nodup := (List.nodup_append.mp (hs ▸ hnodup)).2.1
      obtain ⟨rfl, hsame, htext⟩ := gap_inj hs ht
        (hrs.head?_ne hstop hrest hbehind (hfresh r mem_cons_self))
        (hqs.head?_ne hstop' hrest' hbehind' (hfresh' q mem_cons_self))
      have hhead := hrs.2.2.head?_eq hrest
      have hhead' := hqs.2.2.head?_eq hrest'
      obtain ⟨htexts, rfl⟩ := text_inj (P := (· ∈ old ++ u)) htext (hfresh r mem_cons_self)
        (fun c hc => by rw [hsame]; exact hfresh' q mem_cons_self c hc)
        (fun c hc => mem_append_right _ (mem_of_mem_head? (hhead ▸ hc)))
        (fun c hc => by
          rw [hsame]
          exact mem_append_right _ (mem_of_mem_head? (hhead' ▸ hc)))
      obtain ⟨rfl, rfl⟩ := old_inj hsame hbehind (hhead.symm.trans hhead')
      have hstarts : start r = start q := hstart.trans hstart'.symm
      have hstops : stop r = stop q := by rw [hstop, hstop', hstarts]
      rw [← hstops] at hrest'
      have hbefore := hrs.2.2.mono (Int.sub_le_self (stop r) (by decide : (0 : Int) ≤ 1))
      have hbefore' := hqs.2.2.mono (Int.sub_le_self (stop q) (by decide : (0 : Int) ≤ 1))
      rw [← hstops] at hbefore'
      rw [map_cons, map_cons, parts, parts, hstarts, hstops, htexts,
        ih hbefore hbefore' hrest hrest' (List.nodup_append.mp hbehind).2.1
          (fun r' hr' c hc hmem => hfresh r' (mem_cons_of_mem _ hr') c hc (mem_append_right _ hmem))
          fun q' hq' c hc hmem => hfresh' q' (mem_cons_of_mem _ hq') c hc (mem_append_right _ hmem)]

/-! ## Unknown elements -/

/-- A part of a list some elements of which are unknown. -/
structure Over (ρ β : Type) where
  part : ρ

variable {β : Type}

instance : Rewrite (Over ρ β) (α ⊕ β) where
  start r := start r.part
  stop r := stop r.part
  text r := (text r.part).map Sum.inl

theorem Turns.eval (f : β → α) {rs : List ρ} {s t : List (α ⊕ β)}
    (h : Turns p (rs.map (Over.mk : ρ → Over ρ β)) s t) :
    Turns p rs (s.map (Sum.elim id f)) (t.map (Sum.elim id f)) := by
  induction rs generalizing p s t with
  | nil => exact congrArg (List.map _) h
  | cons r rs ih =>
    obtain ⟨gap, old, s', t', hstart, hstop, rfl, rfl, hrest⟩ := h
    refine ⟨gap.map (Sum.elim id f), old.map (Sum.elim id f), _, _, ?_, ?_, ?_, ?_,
      @ih (stop r) _ _ hrest⟩
    · rw [length_map]
      exact hstart
    · rw [length_map]
      exact hstop
    · rw [map_append, map_append]
    · have htext : ((text r).map Sum.inl).map (Sum.elim id f) = text r := by
        rw [map_map, Sum.elim_comp_inl, map_id]
      rw [map_append, map_append]
      exact congrArg (fun x => _ ++ (x ++ _)) htext

theorem eval_inj [Nontrivial α] {x y : α ⊕ β}
    (h : ∀ f : β → α, Sum.elim id f x = Sum.elim id f y) : x = y := by
  classical
  obtain ⟨a, b, hab⟩ := exists_pair_ne α
  cases x with
  | inl c =>
    cases y with
    | inl c' => exact congrArg Sum.inl (h fun _ => a)
    | inr n => exact absurd ((h fun _ => a).symm.trans (h fun _ => b)) hab
  | inr n =>
    cases y with
    | inl c' => exact absurd ((h fun _ => a).trans (h fun _ => b).symm) hab
    | inr m =>
      by_contra hne
      have hm : m ≠ n := fun heq => hne (by rw [heq])
      have hvalue := h fun i => if i = n then a else b
      exact hab (by simpa [hm] using hvalue)

theorem map_eval_inj [Nontrivial α] {xs ys : List (α ⊕ β)}
    (h : ∀ f : β → α, xs.map (Sum.elim id f) = ys.map (Sum.elim id f)) : xs = ys := by
  obtain ⟨a⟩ : Nonempty α := inferInstance
  refine ext_get (by simpa using congrArg List.length (h fun _ => a)) fun i hi hj => ?_
  refine eval_inj fun f => ?_
  have hget := congrArg (·[i]?) (h f)
  simpa [getElem?_eq_getElem hi, getElem?_eq_getElem hj] using hget

theorem Sorted.over {rs : List ρ} (h : Sorted p rs) :
    Sorted p (rs.map (Over.mk : ρ → Over ρ β)) := by
  induction rs generalizing p with
  | nil => trivial
  | cons r rs ih => exact ⟨h.1, h.2.1, ih h.2.2⟩

theorem Apart.over {rs : List ρ} (h : Apart p rs) : Apart p (rs.map (Over.mk : ρ → Over ρ β)) := by
  induction rs generalizing p with
  | nil => trivial
  | cons r rs ih =>
    exact ⟨h.1, h.2.1.imp id fun hne hnil => hne (map_eq_nil_iff.mp hnil), ih h.2.2⟩

theorem Turns.over {u : List (α ⊕ β)} (h : Turns p rs s t) (hlength : u.length = s.length) :
    ∃ v, Turns p (rs.map (Over.mk : ρ → Over ρ β)) u v := by
  refine h.sorted.over.turns fun r hr => ?_
  obtain ⟨r, hmem, rfl⟩ := mem_map.mp hr
  rw [hlength]
  exact h.stop_le r hmem

theorem new_over {s : List β} :
    ∀ r ∈ rs.map (Over.mk : ρ → Over ρ β), ∀ c ∈ text r, c ∉ s.map (Sum.inr : β → α ⊕ β) := by
  intro r hr c hc hmem
  obtain ⟨r, -, rfl⟩ := mem_map.mp hr
  obtain ⟨a, -, rfl⟩ := mem_map.mp hc
  obtain ⟨b, -, hb⟩ := mem_map.mp hmem
  cases hb

theorem Apart.unique_of_forall [Nontrivial α] {n : Nat} {qs : List ρ} (hrs : Apart (-1) rs)
    (hqs : Apart (-1) qs) (h : ∀ s : List α, s.length = n → ∃ t, Turns 0 rs s t ∧ Turns 0 qs s t) :
    rs.map parts = qs.map parts := by
  obtain ⟨a⟩ : Nonempty α := inferInstance
  obtain ⟨t, ht, ht'⟩ := h (replicate n a) length_replicate
  -- the positions themselves as unknowns tell the outcome on every list at once
  have hlength : ((List.range n).map (Sum.inr : Nat → α ⊕ Nat)).length = n := by
    rw [length_map, length_range]
  obtain ⟨u, hu⟩ := ht.over (hlength.trans length_replicate.symm)
  obtain ⟨u', hu'⟩ := ht'.over (hlength.trans length_replicate.symm)
  obtain rfl : u = u' := map_eval_inj fun f => by
    obtain ⟨v, hv, hv'⟩ := h _ ((length_map (Sum.elim id f)).trans hlength)
    exact (hv.unique (hu.eval f)).trans (hv'.unique (hu'.eval f)).symm
  have hparts := Apart.unique (p := 0) hrs.over hqs.over hu hu'
    (nodup_range.map Sum.inr_injective) new_over new_over
  have hover : ∀ l : List ρ, (l.map (Over.mk : ρ → Over ρ Nat)).map parts =
      (l.map parts).map (Prod.map id (Prod.map id (List.map Sum.inl))) := fun l => by
    rw [map_map, map_map]
    rfl
  rw [hover, hover] at hparts
  exact map_injective_iff.mpr (injective_id.prodMap (injective_id.prodMap
    (map_injective_iff.mpr Sum.inl_injective))) hparts

theorem Turns.length {rs : List ρ} {s t : List α} (h : Turns p rs s t) :
    (t.length : Int) = s.length + (rs.map growth).sum := by
  induction rs generalizing p s t with
  | nil =>
    obtain rfl : t = s := h
    simp
  | cons r rs ih =>
    obtain ⟨gap, old, s', t', hstart, hstop, rfl, rfl, hrest⟩ := h
    have hlength := ih hrest
    simp only [length_append, map_cons, sum_cons, growth, Nat.cast_add]
    omega

end Rewrite

end Fumie.Lib
