import Mathlib

/-!
# Lists kept by key

Upsert, update and removal of the first element with a given key, as the
protocol reducers do them with `findIndex`.
-/

namespace Fumie.Lib

open List

variable {α β : Type} [DecidableEq β]

section

variable (key : α → β)

/-- `findIndex` then overwrite, or append when no element has the key. -/
def upsertBy (list : List α) (a : α) : List α :=
  match list.findIdx? fun x => key x = key a with
  | none => list ++ [a]
  | some idx => list.set idx a

/-- `findIndex` then `splice(idx, 1)`; `none` when no element has the key. -/
def removeBy (list : List α) (k : β) : Option (List α) :=
  (list.findIdx? fun x => key x = k).map list.eraseIdx

def editBy (list : List α) (k : β) (edit : α → Option α) : Option (List α) :=
  match list.findIdx? fun x => key x = k with
  | none => none
  | some idx => (list[idx]?.bind edit).map fun a => list.set idx a

def findBy (list : List α) (k : β) : Option α := list.find? fun x => key x = k

end

/-! ## Reading by key after an edit -/

variable {key : α → β} {list : List α} {k k' : β} {a : α}

theorem findBy_some (h : findBy key list k = some a) : a ∈ list ∧ key a = k :=
  ⟨mem_of_find?_eq_some h, by simpa using find?_some h⟩

theorem findBy_eq_none_iff : findBy key list k = none ↔ k ∉ list.map key := by
  unfold findBy
  rw [find?_eq_none, mem_map]
  constructor
  · rintro h ⟨x, hx, rfl⟩
    exact h x hx (by simp)
  · intro h x hx hk
    exact h ⟨x, hx, by simpa using hk⟩

theorem findBy_isSome_iff : (findBy key list k).isSome ↔ k ∈ list.map key := by
  rw [Option.isSome_iff_ne_none, Ne, findBy_eq_none_iff, Decidable.not_not]

theorem findBy_of_mem (hnodup : (list.map key).Nodup) (h : a ∈ list) :
    findBy key list (key a) = some a := by
  cases hfind : findBy key list (key a) with
  | none => exact absurd (mem_map_of_mem h) (findBy_eq_none_iff.mp hfind)
  | some b =>
    obtain ⟨hb, hkey⟩ := findBy_some hfind
    rw [inj_on_of_nodup_map hnodup hb h hkey]

theorem findIdx?_split {i : Nat} (h : list.findIdx? (fun x => key x = k) = some i) :
    ∃ pre x post, list = pre ++ x :: post ∧ pre.length = i ∧ key x = k ∧ k ∉ pre.map key := by
  induction list generalizing i with
  | nil => cases h
  | cons x rest ih =>
    rw [findIdx?_cons] at h
    by_cases hx : key x = k
    · rw [if_pos (by simpa using hx)] at h
      cases h
      exact ⟨[], x, rest, rfl, rfl, hx, not_mem_nil⟩
    · rw [if_neg (by simpa using hx)] at h
      obtain ⟨j, hj, rfl⟩ := Option.map_eq_some_iff.mp h
      obtain ⟨pre, y, post, rfl, rfl, hy, hpre⟩ := ih hj
      refine ⟨x :: pre, y, post, rfl, rfl, hy, ?_⟩
      rw [map_cons, mem_cons, not_or]
      exact ⟨Ne.symm hx, hpre⟩

theorem findBy_split {pre post : List α} {x : α} (hx : key x = k) (hpre : k ∉ pre.map key) :
    findBy key (pre ++ x :: post) k' =
      if k = k' then some x else findBy key (pre ++ post) k' := by
  have hpre' : pre.find? (fun y => key y = k) = none := findBy_eq_none_iff.mpr hpre
  unfold findBy
  rw [find?_append, find?_append]
  by_cases h : k = k'
  · subst h
    rw [if_pos rfl, hpre', find?_cons_of_pos (by simpa using hx)]
    rfl
  · rw [if_neg h, find?_cons_of_neg (by simpa [hx] using h)]

theorem findBy_upsertBy :
    findBy key (upsertBy key list a) k = if key a = k then some a else findBy key list k := by
  unfold upsertBy
  cases hidx : list.findIdx? fun x => key x = key a with
  | none =>
    have hnew : key a ∉ list.map key := by
      intro hmem
      obtain ⟨x, hx, hk⟩ := mem_map.mp hmem
      have hfalse := findIdx?_eq_none_iff.mp hidx x hx
      rw [decide_eq_false_iff_not] at hfalse
      exact hfalse hk
    have hsplit : list ++ [a] = list ++ a :: [] := rfl
    rw [hsplit, findBy_split rfl hnew, append_nil]
  | some i =>
    obtain ⟨pre, x, post, rfl, rfl, hx, hpre⟩ := findIdx?_split hidx
    have hset : (pre ++ x :: post).set pre.length a = pre ++ a :: post := by simp
    show findBy key ((pre ++ x :: post).set pre.length a) k = _
    rw [hset, findBy_split rfl hpre, findBy_split hx hpre]
    by_cases h : key a = k
    · rw [if_pos h, if_pos h]
    · rw [if_neg h, if_neg h, if_neg h]

theorem nodup_upsertBy (h : (list.map key).Nodup) : ((upsertBy key list a).map key).Nodup := by
  unfold upsertBy
  cases hidx : list.findIdx? fun x => key x = key a with
  | none =>
    rw [map_append, nodup_append]
    refine ⟨h, nodup_singleton _, ?_⟩
    rintro y hy z hz rfl
    obtain ⟨x, hx, rfl⟩ := mem_map.mp hy
    have hfalse := findIdx?_eq_none_iff.mp hidx x hx
    rw [decide_eq_false_iff_not] at hfalse
    exact hfalse (mem_singleton.mp hz)
  | some i =>
    obtain ⟨pre, x, post, rfl, rfl, hx, hpre⟩ := findIdx?_split hidx
    have hset : (pre ++ x :: post).set pre.length a = pre ++ a :: post := by simp
    show (((pre ++ x :: post).set pre.length a).map key).Nodup
    rw [hset, map_append, map_cons, ← hx]
    rwa [map_append, map_cons] at h

theorem removeBy_cases (key : α → β) (list : List α) (k : β) :
    (removeBy key list k = none ∧ findBy key list k = none) ∨
      ∃ pre x post, removeBy key list k = some (pre ++ post) ∧ list = pre ++ x :: post ∧
        key x = k ∧ k ∉ pre.map key := by
  unfold removeBy
  cases hidx : list.findIdx? fun x => key x = k with
  | none =>
    refine .inl ⟨rfl, findBy_eq_none_iff.mpr fun hmem => ?_⟩
    obtain ⟨x, hx, hk⟩ := mem_map.mp hmem
    have hfalse := findIdx?_eq_none_iff.mp hidx x hx
    rw [decide_eq_false_iff_not] at hfalse
    exact hfalse hk
  | some i =>
    obtain ⟨pre, x, post, rfl, rfl, hx, hpre⟩ := findIdx?_split hidx
    refine .inr ⟨pre, x, post, ?_, rfl, hx, hpre⟩
    show some ((pre ++ x :: post).eraseIdx pre.length) = _
    rw [eraseIdx_append_of_length_le (Nat.le_refl _), Nat.sub_self]
    rfl

theorem findBy_removeBy {removed : List α} (hnodup : (list.map key).Nodup)
    (h : removeBy key list k = some removed) (k' : β) :
    (removed.map key).Nodup ∧
      findBy key removed k' = if k = k' then none else findBy key list k' := by
  rcases removeBy_cases key list k with ⟨hnone, -⟩ | ⟨pre, x, post, hsome, rfl, hx, hpre⟩
  · rw [hnone] at h
    cases h
  · rw [hsome] at h
    cases h
    rw [map_append, map_cons] at hnodup
    rw [findBy_split hx hpre]
    have hcons := nodup_cons.mp (nodup_middle.mp hnodup)
    refine ⟨by rw [map_append]; exact hcons.2, ?_⟩
    by_cases hk : k = k'
    · subst hk
      rw [if_pos rfl]
      refine findBy_eq_none_iff.mpr fun hmem => hcons.1 ?_
      rw [hx]
      rwa [map_append] at hmem
    · rw [if_neg hk, if_neg hk]

variable {f : α → α}

theorem findBy_modify {i : Nat} (hidx : list.findIdx? (fun x => key x = k) = some i)
    (hkey : ∀ x, key (f x) = key x) (k' : β) :
    (list.modify i f).map key = list.map key ∧ findBy key (list.modify i f) k' =
        if k = k' then (findBy key list k').map f else findBy key list k' := by
  obtain ⟨pre, x, post, rfl, rfl, hx, hpre⟩ := findIdx?_split hidx
  have hmodify : (pre ++ x :: post).modify pre.length f = pre ++ f x :: post := by
    rw [modify_eq_take_cons_drop (by simp)]
    simp
  rw [hmodify]
  refine ⟨by simp [hkey], ?_⟩
  rw [findBy_split ((hkey x).trans hx) hpre, findBy_split hx hpre]
  by_cases h : k = k'
  · rw [if_pos h, if_pos h, if_pos h]
    rfl
  · rw [if_neg h, if_neg h, if_neg h]

theorem modify_eq_map {i : Nat} (hnodup : (list.map key).Nodup)
    (hidx : list.findIdx? (fun x => key x = k) = some i) :
    list.modify i f = list.map fun x => if key x = k then f x else x := by
  obtain ⟨pre, x, post, rfl, rfl, hx, hpre⟩ := findIdx?_split hidx
  have hother : ∀ ys : List α, k ∉ ys.map key →
      (ys.map fun y => if key y = k then f y else y) = ys := by
    intro ys hys
    refine (map_congr_left fun y hy => ?_).trans (map_id ys)
    exact if_neg fun h => hys (mem_map.mpr ⟨y, hy, h⟩)
  rw [map_append, map_cons, nodup_append, nodup_cons] at hnodup
  have hpost : k ∉ post.map key := hx ▸ hnodup.2.1.1
  rw [modify_eq_take_cons_drop (by simp), map_append, map_cons, hother pre hpre,
    hother post hpost, if_pos hx]
  simp

theorem findBy_map (hkey : ∀ x, key (f x) = key x) :
    findBy key (list.map f) k = (findBy key list k).map f := by
  unfold findBy
  rw [find?_map]
  congr 2
  funext x
  show decide (key (f x) = k) = _
  rw [hkey]

end Fumie.Lib
