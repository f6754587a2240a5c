import Fumie.Editor.Edits.Composition

/-!
# Rebased string edits

Two edits that do not conflict merge into one list of replacements of the same string, each
marked with its side. The walk of `_tryRebase` goes through this list from either side, so
both sides are defined together, and either edit rebased on the other one ends at the
string that all replacements of the list make.
-/

namespace Fumie.Editor.StringEdit

open Fumie.Lib Fumie.Base Fumie.Lib.Rewrite List StringReplacement

/-! ## Merged replacements -/

abbrev Merged := List (Bool × StringReplacement)

def pick (side : Bool) : Merged → List StringReplacement
  | [] => []
  | (t, r) :: m => if t = side then r :: pick side m else pick side m

def moved (side : Bool) (offset : Int) : Merged → List StringReplacement
  | [] => []
  | (t, r) :: m =>
    if t = side then r.delta offset :: moved side offset m
    else moved side (offset + r.getLengthDelta) m

def replacementsOf (m : Merged) : List StringReplacement := m.map Prod.snd

/-- No insertion meets the next one of the other side at its place. -/
def Compatible : Merged → Prop
  | [] => True
  | (t, r) :: m =>
    (∀ x ∈ (pick (!t) m).head?, areConcurrentInserts r.replaceRange x.replaceRange = false) ∧
      Compatible m

theorem mem_of_pick {side : Bool} {m : Merged} {r : StringReplacement} (h : r ∈ pick side m) :
    r ∈ replacementsOf m := by
  induction m with
  | nil => cases h
  | cons x m ih =>
    obtain ⟨t, x⟩ := x
    rw [pick] at h
    split_ifs at h
    · rcases mem_cons.mp h with rfl | h
      · exact mem_cons_self
      · exact mem_cons_of_mem _ (ih h)
    · exact mem_cons_of_mem _ (ih h)

theorem pick_head_le {side : Bool} {m : Merged} {p : Int} (h : Sorted p (replacementsOf m)) :
    ∀ r ∈ (pick side m).head?, p ≤ start r := fun r hr =>
  (h.le r (mem_of_pick (mem_of_mem_head? hr))).1

theorem turns_moved {side : Bool} {m : Merged} {p offset : Int} {s u : JsString}
    (h : Turns p (replacementsOf m) s u) :
    ∃ t, Turns p (pick (!side) m) s t ∧ Turns (p + offset) (moved side offset m) t u := by
  induction m generalizing p offset s u with
  | nil =>
    obtain rfl : u = s := h
    exact ⟨u, rfl, rfl⟩
  | cons x m ih =>
    obtain ⟨tag, r⟩ := x
    obtain ⟨gap, old, s', u', hstart, hstop, rfl, rfl, hrest⟩ := h
    have hstart' : start r = p + gap.length := hstart
    have hstop' : stop r = start r + old.length := hstop
    by_cases htag : tag = side
    · subst htag
      have hother : ¬tag = !tag := by cases tag <;> decide
      obtain ⟨t, hone, hboth⟩ := @ih _ offset _ _ hrest
      rw [pick, if_neg hother, moved, if_pos rfl]
      refine ⟨gap ++ (old ++ t), ?_, gap, old, t, u', ?_, ?_, rfl, rfl, ?_⟩
      · rw [← append_assoc, ← append_assoc]
        refine Turns.extend (gap ++ old) ?_
        have hpos : p + (gap ++ old).length = stop r := by
          rw [length_append]
          omega
        rw [hpos]
        exact hone
      · have hmoved : start r + offset = p + offset + gap.length := by omega
        exact hmoved
      · have hmoved : stop r + offset = start r + offset + old.length := by omega
        exact hmoved
      · exact hboth
    · have hother : tag = !side := by cases tag <;> cases side <;> first | rfl | exact absurd rfl htag
      obtain ⟨t, hone, hboth⟩ := @ih _ (offset + r.getLengthDelta) _ _ hrest
      rw [pick, if_pos hother, moved, if_neg htag]
      refine ⟨gap ++ (text r ++ t), ⟨gap, old, s', t, hstart, hstop, rfl, rfl, hone⟩, ?_⟩
      have hdelta : r.getLengthDelta = (text r).length - (stop r - start r) := rfl
      have hpos : p + offset + (gap ++ text r).length = stop r + (offset + r.getLengthDelta) := by
        rw [length_append]
        omega
      have hall : Turns (p + offset) (moved side (offset + r.getLengthDelta) m)
          ((gap ++ text r) ++ t) ((gap ++ text r) ++ u') := by
        refine Turns.extend (gap ++ text r) ?_
        rw [hpos]
        exact hboth
      rw [append_assoc, append_assoc] at hall
      exact hall

/-! ## The walk -/

variable {r x : OffsetRange} {ours base : List StringReplacement} {p offset : Int}
  {noOverlap : Bool} {a b e : StringEdit}

theorem concurrent_iff : areConcurrentInserts r x = true ↔
    r.start = r.endExclusive ∧ x.start = x.endExclusive ∧ r.start = x.start := by
  simp only [areConcurrentInserts, OffsetRange.isEmpty, Bool.and_eq_true, decide_eq_true_eq,
    and_assoc]

theorem conflicts_iff : conflicts r x = true ↔
    max r.start x.start < min r.endExclusive x.endExclusive ∨
    (r.start = r.endExclusive ∧ x.start = x.endExclusive ∧ r.start = x.start) ∨
    (r.start = r.endExclusive ∧ x.start < r.start ∧ r.start < x.endExclusive) ∨
    (x.start = x.endExclusive ∧ r.start < x.start ∧ x.start < r.endExclusive) := by
  simp only [conflicts, Bool.or_eq_true, concurrent_iff, OffsetRange.intersects,
    isInsertStrictlyInsideRange, OffsetRange.isEmpty, Bool.and_eq_true, decide_eq_true_eq,
    or_assoc, and_assoc]

theorem startsFirst_iff : startsFirst r x = true ↔
    r.start < x.start ∨ r.start = r.endExclusive ∧ r.start = x.start := by
  simp only [startsFirst, OffsetRange.isEmpty, Bool.or_eq_true, Bool.and_eq_true, decide_eq_true_eq]

theorem conflicts_of_le (h : r.endExclusive ≤ x.start) :
    (conflicts r x = true ↔ areConcurrentInserts r x = true) ∧
    (conflicts x r = true ↔ areConcurrentInserts r x = true) := by
  have hr := r.le
  have hx := x.le
  rw [conflicts_iff, conflicts_iff, concurrent_iff]
  omega

def NoMeeting (r : StringReplacement) (others : List StringReplacement) : Prop :=
  ∀ x ∈ others.head?, areConcurrentInserts r.replaceRange x.replaceRange = false

theorem noMeeting_nil (r : StringReplacement) : NoMeeting r [] := by
  intro x hx
  cases hx

theorem noMeeting_cons {r x : StringReplacement} {others : List StringReplacement} :
    NoMeeting r (x :: others) ↔ ¬areConcurrentInserts r.replaceRange x.replaceRange = true := by
  rw [Bool.not_eq_true]
  refine ⟨fun h => h x rfl, fun h y hy => ?_⟩
  obtain rfl := Option.some.inj hy
  exact h

theorem rebaseLoop_front {r : StringReplacement} {ours base : List StringReplacement}
    (offset : Int) (hhead : ∀ b ∈ base.head?, stop r ≤ start b) :
    (NoMeeting r base → rebaseLoop true offset (r :: ours) base =
      (rebaseLoop true offset ours base).map (r.delta offset :: ·)) ∧
    (¬NoMeeting r base → rebaseLoop true offset (r :: ours) base = none) := by
  cases base with
  | nil =>
    exact ⟨fun _ => by rw [rebaseLoop], fun hmeet => absurd (noMeeting_nil r) hmeet⟩
  | cons b base =>
    have hle : r.replaceRange.endExclusive ≤ b.replaceRange.start := hhead b rfl
    have hconflict := (conflicts_of_le hle).1
    rw [rebaseLoop]
    refine ⟨fun hmeet => ?_, fun hmeet => ?_⟩
    · have hfree : ¬conflicts r.replaceRange b.replaceRange = true :=
        mt hconflict.mp (noMeeting_cons.mp hmeet)
      have hfirst : startsFirst r.replaceRange b.replaceRange = true := by
        have hr := r.replaceRange.le
        rw [startsFirst_iff]
        omega
      rw [if_neg hfree, if_pos hfirst]
    · rw [noMeeting_cons, not_not] at hmeet
      rw [if_pos (hconflict.mpr hmeet), if_pos rfl]

theorem rebaseLoop_behind {r : StringReplacement} {ours base : List StringReplacement}
    (offset : Int) (hhead : ∀ o ∈ ours.head?, stop r ≤ start o) :
    (NoMeeting r ours → rebaseLoop true offset ours (r :: base) =
      rebaseLoop true (offset + r.getLengthDelta) ours base) ∧
    (¬NoMeeting r ours → rebaseLoop true offset ours (r :: base) = none) := by
  cases ours with
  | nil =>
    exact ⟨fun _ => by rw [rebaseLoop, rebaseLoop], fun hmeet => absurd (noMeeting_nil r) hmeet⟩
  | cons o ours =>
    have hle : r.replaceRange.endExclusive ≤ o.replaceRange.start := hhead o rfl
    have hconflict := (conflicts_of_le hle).2
    rw [rebaseLoop]
    refine ⟨fun hmeet => ?_, fun hmeet => ?_⟩
    · rw [noMeeting_cons] at hmeet
      have hfree : ¬conflicts o.replaceRange r.replaceRange = true := mt hconflict.mp hmeet
      have hlast : ¬startsFirst o.replaceRange r.replaceRange = true := by
        have hr := r.replaceRange.le
        rw [concurrent_iff] at hmeet
        rw [startsFirst_iff]
        omega
      rw [if_neg hfree, if_neg hlast]
    · rw [noMeeting_cons, not_not] at hmeet
      rw [if_pos (hconflict.mpr hmeet), if_pos rfl]

theorem rebaseLoop_merged {side : Bool} {m : Merged} {p offset : Int}
    (h : Sorted p (replacementsOf m)) :
    (Compatible m ∧
      rebaseLoop true offset (pick side m) (pick (!side) m) = some (moved side offset m)) ∨
    (¬Compatible m ∧ rebaseLoop true offset (pick side m) (pick (!side) m) = none) := by
  induction m generalizing p offset with
  | nil =>
    refine .inl ⟨trivial, ?_⟩
    rw [pick, pick, rebaseLoop]
    rfl
  | cons x m ih =>
    obtain ⟨tag, r⟩ := x
    obtain ⟨-, -, hrest⟩ := h
    by_cases htag : tag = side
    · -- our replacement stands in front
      subst htag
      have hother : ¬tag = !tag := by cases tag <;> decide
      have hbehind := @ih (stop r) offset hrest
      obtain ⟨hgo, hmeets⟩ := @rebaseLoop_front r (pick tag m) _ offset
        (@pick_head_le (!tag) m (stop r) hrest)
      rw [pick, if_pos rfl, pick, if_neg hother, moved, if_pos rfl, Compatible]
      by_cases hmeet : NoMeeting r (pick (!tag) m)
      · rw [hgo hmeet]
        rcases hbehind with ⟨hok, heq⟩ | ⟨hno, heq⟩
        · exact .inl ⟨⟨hmeet, hok⟩, by rw [heq, Option.map_some]⟩
        · exact .inr ⟨fun hall => hno hall.2, by rw [heq, Option.map_none]⟩
      · exact .inr ⟨fun hall => hmeet hall.1, hmeets hmeet⟩
    · -- theirs stands in front
      have hother : tag = !side := by cases tag <;> cases side <;> first | rfl | exact absurd rfl htag
      have hback : (!tag) = side := by rw [hother, Bool.not_not]
      have hbehind := @ih (stop r) (offset + r.getLengthDelta) hrest
      obtain ⟨hgo, hmeets⟩ := @rebaseLoop_behind r _ (pick (!side) m) offset
        (@pick_head_le side m (stop r) hrest)
      rw [pick, if_neg htag, pick, if_pos hother, moved, if_neg htag, Compatible, hback]
      by_cases hmeet : NoMeeting r (pick side m)
      · rw [hgo hmeet]
        rcases hbehind with ⟨hok, heq⟩ | ⟨hno, heq⟩
        · exact .inl ⟨⟨hmeet, hok⟩, heq⟩
        · exact .inr ⟨fun hall => hno hall.2, heq⟩
      · exact .inr ⟨fun hall => hmeet hall.1, hmeets hmeet⟩

theorem le_of_free {o b : OffsetRange} (h : ¬conflicts o b = true) :
    (startsFirst o b = true → o.endExclusive ≤ b.start) ∧
    (¬startsFirst o b = true → b.endExclusive ≤ o.start) := by
  have ho := o.le
  have hb := b.le
  rw [conflicts_iff] at h
  rw [startsFirst_iff]
  omega

variable {out : List StringReplacement}

theorem exists_merged (hours : Sorted p ours) (hbase : Sorted p base)
    (h : rebaseLoop true offset ours base = some out) :
    ∃ m, pick true m = ours ∧ pick false m = base ∧ Sorted p (replacementsOf m) := by
  induction offset, ours, base using rebaseLoop.induct true generalizing p out with
  | case1 offset base =>
    refine ⟨base.map fun r => (false, r), ?_, ?_, ?_⟩
    · clear h hbase
      induction base with
      | nil => rfl
      | cons r base ih => exact ih
    · clear h hbase
      induction base with
      | nil => rfl
      | cons r base ih => exact congrArg (r :: ·) ih
    · have hsame : replacementsOf (base.map fun r => (false, r)) = base := by
        rw [replacementsOf, map_map]
        exact map_id base
      rw [hsame]
      exact hbase
  | case2 offset o ours ih =>
    rw [rebaseLoop] at h
    obtain ⟨rest, hrest, -⟩ := Option.map_eq_some_iff.mp h
    obtain ⟨m, hm, hnone, hsorted⟩ := ih hours.2.2 trivial hrest
    exact ⟨(true, o) :: m, congrArg (o :: ·) hm, hnone, hours.1, hours.2.1, hsorted⟩
  | case3 offset o ours b base hconflict =>
    rw [rebaseLoop, if_pos hconflict, if_pos rfl] at h
    cases h
  | case4 offset o ours b base hconflict hfalse => exact absurd rfl hfalse
  | case5 offset o ours b base hconflict hfirst ih =>
    rw [rebaseLoop, if_neg hconflict, if_pos hfirst] at h
    obtain ⟨rest, hrest, -⟩ := Option.map_eq_some_iff.mp h
    have hle := (le_of_free hconflict).1 hfirst
    obtain ⟨m, hm, hb, hsorted⟩ := ih hours.2.2 ⟨hle, hbase.2⟩ hrest
    exact ⟨(true, o) :: m, congrArg (o :: ·) hm, hb, hours.1, hours.2.1, hsorted⟩
  | case6 offset o ours b base hconflict hlast ih =>
    rw [rebaseLoop, if_neg hconflict, if_neg hlast] at h
    have hle := (le_of_free hconflict).2 hlast
    obtain ⟨m, hm, hb, hsorted⟩ := ih ⟨hle, hours.2⟩ hbase.2.2 h
    exact ⟨(false, b) :: m, hm, congrArg (b :: ·) hb, hbase.1, hbase.2.1, hsorted⟩

theorem sorted_rebaseLoop (hours : Sorted p ours) (hbase : Sorted p base)
    (h : rebaseLoop noOverlap offset ours base = some out) : Sorted (p + offset) out := by
  induction offset, ours, base using rebaseLoop.induct noOverlap generalizing p out with
  | case1 offset base =>
    rw [rebaseLoop] at h
    cases h
    trivial
  | case2 offset o ours ih =>
    rw [rebaseLoop] at h
    obtain ⟨rest, hrest, rfl⟩ := Option.map_eq_some_iff.mp h
    exact ⟨Int.add_le_add_right hours.1 _, Int.add_le_add_right hours.2.1 _,
      ih hours.2.2 trivial hrest⟩
  | case3 offset o ours b base hconflict hnoOverlap =>
    rw [rebaseLoop, if_pos hconflict, if_pos hnoOverlap] at h
    cases h
  | case4 offset o ours b base hconflict hskip ih =>
    rw [rebaseLoop, if_pos hconflict, if_neg hskip] at h
    have hle : p ≤ stop o := Int.le_trans hours.1 hours.2.1
    exact ih (hours.2.2.mono hle) hbase h
  | case5 offset o ours b base hconflict hfirst ih =>
    rw [rebaseLoop, if_neg hconflict, if_pos hfirst] at h
    obtain ⟨rest, hrest, rfl⟩ := Option.map_eq_some_iff.mp h
    have hle := (le_of_free hconflict).1 hfirst
    exact ⟨Int.add_le_add_right hours.1 _, Int.add_le_add_right hours.2.1 _,
      ih hours.2.2 ⟨hle, hbase.2⟩ hrest⟩
  | case6 offset o ours b base hconflict hlast ih =>
    rw [rebaseLoop, if_neg hconflict, if_neg hlast] at h
    have hle := (le_of_free hconflict).2 hlast
    have hsorted := ih ⟨hle, hours.2⟩ hbase.2.2 h
    refine hsorted.mono ?_
    have hstart : p ≤ start b := hbase.1
    have hstop : stop b = b.replaceRange.endExclusive := rfl
    have hdelta : b.getLengthDelta = (text b).length - (stop b - start b) := rfl
    omega

theorem rebaseLoop_skip (offset : Int) (ours base : List StringReplacement) :
    ∃ out, rebaseLoop false offset ours base = some out := by
  induction offset, ours, base using rebaseLoop.induct false with
  | case1 offset base => exact ⟨[], by rw [rebaseLoop]⟩
  | case2 offset o ours ih =>
    obtain ⟨out, hout⟩ := ih
    exact ⟨o.delta offset :: out, by rw [rebaseLoop, hout]; rfl⟩
  | case3 offset o ours b base hconflict hfalse => cases hfalse
  | case4 offset o ours b base hconflict hskip ih =>
    rw [rebaseLoop, if_pos hconflict, if_neg hskip]
    exact ih
  | case5 offset o ours b base hconflict hfirst ih =>
    obtain ⟨out, hout⟩ := ih
    rw [rebaseLoop, if_neg hconflict, if_pos hfirst, hout]
    exact ⟨o.delta offset :: out, rfl⟩
  | case6 offset o ours b base hconflict hlast ih =>
    rw [rebaseLoop, if_neg hconflict, if_neg hlast]
    exact ih

theorem rebased_eq (h : rebaseLoop noOverlap 0 a.replacements b.replacements = some out) :
    ∃ e, rebased (some out) = .edit e ∧ e.replacements = out := by
  have hsorted := sorted_rebaseLoop (sortedAfter_iff.mp a.sorted) (sortedAfter_iff.mp b.sorted) h
  rw [Int.add_zero] at hsorted
  have hafter := sortedAfter_iff.mpr hsorted
  have hnew : new out = some ⟨out, hafter⟩ := dif_pos hafter
  rw [rebased, hnew]
  exact ⟨_, rfl, rfl⟩

theorem tryRebase_eq_edit (h : a.tryRebase b = .edit e) :
    rebaseLoop true 0 a.replacements b.replacements = some e.replacements := by
  rw [tryRebase] at h
  cases hloop : rebaseLoop true 0 a.replacements b.replacements with
  | none =>
    rw [hloop] at h
    cases h
  | some out =>
    obtain ⟨e', he', hsame⟩ := rebased_eq hloop
    rw [hloop, he'] at h
    obtain rfl := Rebased.edit.inj h
    rw [hsame]

theorem tryRebase_of_loop (h : rebaseLoop true 0 a.replacements b.replacements = some out) :
    ∃ e, a.tryRebase b = .edit e ∧ e.replacements = out := by
  rw [tryRebase, h]
  exact rebased_eq h

variable {s : JsString}

theorem ValidOn.sorted_zero (h : e.ValidOn s) : Sorted (0 : Int) e.replacements := h.turns.sorted

/-! ## The diamond -/

theorem diamond {a' : StringEdit} (ha : a.ValidOn s) (hb : b.ValidOn s)
    (h : a.tryRebase b = .edit a') :
    ∃ b', b.tryRebase a = .edit b' ∧ a'.ValidOn (b.apply s) ∧ b'.ValidOn (a.apply s) ∧
      a'.apply (b.apply s) = b'.apply (a.apply s) := by
  have hloop := tryRebase_eq_edit h
  obtain ⟨m, hm, hm', hsorted⟩ := exists_merged ha.sorted_zero hb.sorted_zero hloop
  have hinside : ∀ r ∈ replacementsOf m, stop r ≤ (0 : Int) + s.length := by
    intro r hr
    obtain ⟨⟨side, r⟩, hmem, rfl⟩ := mem_map.mp hr
    rw [Int.zero_add]
    have hpick : ∀ m : Merged, (side, r) ∈ m → r ∈ pick side m := by
      intro m hmem
      induction m with
      | nil => cases hmem
      | cons x m ih =>
        rcases mem_cons.mp hmem with rfl | hmem
        · rw [pick, if_pos rfl]
          exact mem_cons_self
        · rw [pick]
          split_ifs
          · exact mem_cons_of_mem _ (ih hmem)
          · exact ih hmem
    have hside := hpick m hmem
    cases side with
    | true => exact (ha r (hm ▸ hside)).2
    | false => exact (hb r (hm' ▸ hside)).2
  obtain ⟨u, hu⟩ := hsorted.turns hinside
  rw [← hm, ← hm'] at hloop
  rcases @rebaseLoop_merged true m 0 0 hsorted with ⟨hok, hours⟩ | ⟨-, hnone⟩
  · rcases @rebaseLoop_merged false m 0 0 hsorted with ⟨-, htheirs⟩ | ⟨hno, -⟩
    · have hback : pick (!false) m = a.replacements := hm
      rw [hm', hback] at htheirs
      obtain ⟨b', hb', hsame'⟩ := tryRebase_of_loop htheirs
      have hsame : a'.replacements = moved true 0 m := by
        have heq := hloop.symm.trans hours
        exact Option.some.inj heq
      obtain ⟨t, ht, htu⟩ := @turns_moved true m 0 0 s u hu
      obtain ⟨t', ht', htu'⟩ := @turns_moved false m 0 0 s u hu
      have hbase : pick (!true) m = b.replacements := hm'
      rw [hbase] at ht
      rw [hback] at ht'
      rw [← hsame] at htu
      rw [← hsame'] at htu'
      rw [apply_of_turns ht, apply_of_turns ht', apply_of_turns htu]
      exact ⟨b', hb', validOn_of_turns htu, validOn_of_turns htu', (apply_of_turns htu').symm⟩
    · exact absurd hok hno
  · have hnone' : rebaseLoop true 0 (pick true m) (pick false m) = none := hnone
    rw [hnone'] at hloop
    cases hloop

/-! ## Swapping -/

theorem length_spaces {r : StringReplacement} {old : JsString} (h : stop r = start r + old.length) :
    (spaces r.replaceRange.start r.replaceRange.endExclusive).length = old.length := by
  have hstop : r.replaceRange.endExclusive = r.replaceRange.start + old.length := h
  rw [spaces, length_replicate]
  omega

theorem sorted_inverseLoop {slice : Int → Int → JsString} {p e : Int} {rs : List StringReplacement}
    {s t : JsString} (h : Turns p rs s t) : Sorted (p + e) (inverseLoop slice e rs) := by
  induction rs generalizing p e s t with
  | nil => trivial
  | cons r rs ih =>
    obtain ⟨gap, old, s', t', hstart, hstop, -, -, hrest⟩ := h
    have hdelta : r.getLengthDelta = (text r).length - (stop r - start r) := rfl
    have hnext : stop r + (e + r.getLengthDelta) = start r + e + (text r).length := by omega
    have hbehind := @ih _ (e + r.getLengthDelta) _ _ hrest
    rw [hnext] at hbehind
    have hle : p + e ≤ start r + e := by omega
    exact ⟨hle, OffsetRange.le _, hbehind⟩

theorem merged_inverse {m : Merged} {p e : Int} {rs : List StringReplacement} {s t u : JsString}
    (hsorted : Sorted (p + e) (replacementsOf m)) (hinverse : pick false m = inverseLoop spaces e rs)
    (h : Turns p rs s t) (h' : Turns (p + e) (pick true m) t u) :
    ∃ m', pick true m' = rs ∧ pick false m' = moved true (-e) m ∧
      Sorted p (replacementsOf m') ∧ Turns p (replacementsOf m') s u := by
  induction m generalizing p e rs s t u with
  | nil =>
    cases rs with
    | nil =>
      obtain rfl : t = s := h
      obtain rfl : u = t := h'
      exact ⟨[], rfl, rfl, trivial, rfl⟩
    | cons r rs => cases hinverse
  | cons x m ih =>
    obtain ⟨tag, y⟩ := x
    obtain ⟨-, -, hrest⟩ := hsorted
    cases tag with
    | true =>
      obtain ⟨gap, old, t', u', hstart, hstop, rfl, rfl, hbehind⟩ := h'
      have hstart' : start y = p + e + gap.length := hstart
      have hstop' : stop y = start y + old.length := hstop
      have hinverse' : pick false m = inverseLoop spaces e rs := hinverse
      have hfirst : ∀ r ∈ rs.head?, p + (gap ++ old).length ≤ start r := by
        intro r hr
        cases rs with
        | nil => cases hr
        | cons r' rs =>
          obtain rfl := Option.some.inj hr
          have hle := @pick_head_le false m (stop y) hrest
          rw [hinverse'] at hle
          have hhead := hle _ rfl
          have hsame : stop y ≤ start r' + e := hhead
          rw [length_append]
          omega
      rw [← append_assoc] at h
      obtain ⟨s', rfl, hturns⟩ := h.split_target hfirst
      have hpos : stop y = p + (gap ++ old).length + e := by
        rw [length_append]
        omega
      rw [hpos] at hrest hbehind
      obtain ⟨m', hm, hm', -, hall⟩ := ih hrest hinverse' hturns hbehind
      have hturns' : Turns p (y.delta (-e) :: replacementsOf m') (gap ++ old ++ s')
          (gap ++ (text y ++ u')) := by
        refine ⟨gap, old, s', u', ?_, ?_, append_assoc .., rfl, ?_⟩
        · have hmoved : start y + -e = p + gap.length := by omega
          exact hmoved
        · have hmoved : stop y + -e = start y + -e + old.length := by omega
          exact hmoved
        · have hmoved : stop (y.delta (-e)) = p + (gap ++ old).length := by
            have hdef : stop (y.delta (-e)) = stop y + -e := rfl
            omega
          rw [hmoved]
          exact hall
      exact ⟨(false, y.delta (-e)) :: m', hm, congrArg (y.delta (-e) :: ·) hm', hturns'.sorted,
        hturns'⟩
    | false =>
      cases rs with
      | nil => cases hinverse
      | cons r rs =>
        obtain ⟨hy, hinverse'⟩ : y = ⟨.ofStartAndLength (r.replaceRange.start + e) r.newText.length,
            spaces r.replaceRange.start r.replaceRange.endExclusive⟩ ∧
            pick false m = inverseLoop spaces (e + r.getLengthDelta) rs := List.cons.inj hinverse
        obtain ⟨gap, old, s', t', hstart, hstop, rfl, rfl, hbehind⟩ := h
        have hdelta : r.getLengthDelta = (text r).length - (stop r - start r) := rfl
        have hystop : stop y = start r + e + (text r).length := by
          rw [hy]
          rfl
        have hydelta : y.getLengthDelta = old.length - (text r).length := by
          have hlength := length_spaces hstop
          rw [hy, getLengthDelta, getNewLength, hlength]
          have hrange : (OffsetRange.ofStartAndLength (r.replaceRange.start + e)
              r.newText.length).length =
                r.replaceRange.start + e + r.newText.length - (r.replaceRange.start + e) := rfl
          rw [hrange]
          have htext : (text r).length = r.newText.length := rfl
          omega
        have hpick : Turns (p + e) (pick true m) (gap ++ (text r ++ t')) u := h'
        rw [← append_assoc] at hpick
        have hpos : p + e + (gap ++ text r).length = stop y := by
          rw [length_append]
          omega
        obtain ⟨u', rfl, hturns⟩ := hpick.split fun x hx => by
          rw [hpos]
          exact @pick_head_le true m (stop y) hrest x hx
        rw [hpos] at hturns
        have hnext : stop y = stop r + (e + r.getLengthDelta) := by omega
        rw [hnext] at hrest hturns
        obtain ⟨m', hm, hm', -, hall⟩ := ih hrest hinverse' hbehind hturns
        have hturns' : Turns p (r :: replacementsOf m') (gap ++ (old ++ s'))
            (gap ++ text r ++ u') :=
          ⟨gap, old, s', u', hstart, hstop, rfl, append_assoc .., hall⟩
        refine ⟨(true, r) :: m', congrArg (r :: ·) hm, ?_, hturns'.sorted, hturns'⟩
        have hoffset : -e + y.getLengthDelta = -(e + r.getLengthDelta) := by omega
        rw [moved, if_neg (by decide), hoffset]
        exact hm'

theorem swap_apply {e1 e2 f1 f2 : StringEdit} (h1 : e1.ValidOn s) (h2 : e2.ValidOn (e1.apply s))
    (h : trySwap e1 e2 = some (f1, f2)) : f2.apply (f1.apply s) = e2.apply (e1.apply s) := by
  obtain ⟨e1Inv, hinv, h⟩ := Option.bind_eq_some_iff.mp h
  cases hf1 : e2.tryRebase e1Inv with
  | undefined | throws =>
    rw [hf1] at h
    cases h
  | edit e1' =>
    cases hf2 : e1.tryRebase e1' with
    | undefined | throws =>
      rw [hf1] at h
      simp only [hf2] at h
      cases h
    | edit e2' =>
      rw [hf1] at h
      simp only [hf2] at h
      cases h
      have hinverse : e1Inv.replacements = inverseLoop spaces 0 e1.replacements := by
        rw [inverseOnSlice, new] at hinv
        split_ifs at hinv
        cases hinv
        rfl
      have hsorted : Sorted (0 : Int) e1Inv.replacements := by
        rw [hinverse]
        exact @sorted_inverseLoop spaces 0 0 _ _ _ h1.turns
      have hloop1 := tryRebase_eq_edit hf1
      obtain ⟨m, hm, hminv, hmsorted⟩ := exists_merged h2.sorted_zero hsorted hloop1
      have hmoved : f1.replacements = moved true 0 m := by
        rw [← hm, ← hminv] at hloop1
        rcases @rebaseLoop_merged true m 0 0 hmsorted with ⟨-, heq⟩ | ⟨-, heq⟩
        · exact Option.some.inj (hloop1.symm.trans heq)
        · cases hloop1.symm.trans heq
      obtain ⟨m', hm', hbase, hsorted', hall⟩ := @merged_inverse m 0 0 _ _ _ _ hmsorted
        (hminv.trans hinverse) h1.turns (hm ▸ h2.turns)
      have hloop2 := tryRebase_eq_edit hf2
      have hbase' : pick false m' = f1.replacements := hbase.trans hmoved.symm
      have hmoved' : f2.replacements = moved true 0 m' := by
        rw [← hm', ← hbase'] at hloop2
        rcases @rebaseLoop_merged true m' 0 0 hsorted' with ⟨-, heq⟩ | ⟨-, heq⟩
        · exact Option.some.inj (hloop2.symm.trans heq)
        · cases hloop2.symm.trans heq
      obtain ⟨v, hv, hvu⟩ := @turns_moved true m' 0 0 _ _ hall
      have hfirst : pick (!true) m' = f1.replacements := hbase'
      rw [hfirst] at hv
      rw [← hmoved'] at hvu
      rw [apply_of_turns hv]
      exact apply_of_turns hvu

/-! ## What rebasing does -/

theorem tryRebase_ne_throws (a b : StringEdit) : a.tryRebase b ≠ .throws := by
  intro h
  rw [tryRebase] at h
  cases hloop : rebaseLoop true 0 a.replacements b.replacements with
  | none =>
    rw [hloop] at h
    cases h
  | some out =>
    obtain ⟨e, he, -⟩ := rebased_eq hloop
    rw [hloop, he] at h
    cases h

theorem rebaseSkipConflicting_edit (a b : StringEdit) :
    ∃ e, a.rebaseSkipConflicting b = .edit e := by
  obtain ⟨out, hout⟩ := rebaseLoop_skip 0 a.replacements b.replacements
  obtain ⟨e, he, -⟩ := rebased_eq hout
  exact ⟨e, by rw [rebaseSkipConflicting, hout, he]⟩

/-- Edits of one string are defined on one another together and meet; no result is out of
order; and a swap of edits that follow one another ends where they do. -/
theorem rebase_converges (s : JsString) :
    (∀ a b : StringEdit, a.ValidOn s → b.ValidOn s →
      ((∃ a', a.tryRebase b = .edit a') ↔ ∃ b', b.tryRebase a = .edit b') ∧
      ∀ a' b', a.tryRebase b = .edit a' → b.tryRebase a = .edit b' →
        a'.ValidOn (b.apply s) ∧ a'.apply (b.apply s) = b'.apply (a.apply s)) ∧
    (∀ a b : StringEdit, a.tryRebase b ≠ .throws ∧ ∃ e, a.rebaseSkipConflicting b = .edit e) ∧
    ∀ e1 e2 f1 f2 : StringEdit, e1.ValidOn s → e2.ValidOn (e1.apply s) →
      trySwap e1 e2 = some (f1, f2) → f2.apply (f1.apply s) = e2.apply (e1.apply s) := by
  refine ⟨fun a b ha hb => ⟨⟨?_, ?_⟩, fun a' b' ha' hb' => ?_⟩,
    fun a b => ⟨tryRebase_ne_throws a b, rebaseSkipConflicting_edit a b⟩,
    fun e1 e2 f1 f2 h1 h2 h => swap_apply h1 h2 h⟩
  · rintro ⟨a', ha'⟩
    obtain ⟨b', hb', -⟩ := diamond ha hb ha'
    exact ⟨b', hb'⟩
  · rintro ⟨b', hb'⟩
    obtain ⟨a', ha', -⟩ := diamond hb ha hb'
    exact ⟨a', ha'⟩
  · obtain ⟨b'', hb'', hvalid, -, hmeet⟩ := diamond ha hb ha'
    obtain rfl := Rebased.edit.inj (hb'.symm.trans hb'')
    exact ⟨hvalid, hmeet⟩

theorem rebaseLoop_ours {o b : StringReplacement} {offset : Int}
    {ours base : List StringReplacement} (hfree : conflicts o.replaceRange b.replaceRange = false)
    (hfirst : startsFirst o.replaceRange b.replaceRange = true) :
    rebaseLoop true offset (o :: ours) (b :: base) =
      (rebaseLoop true offset ours (b :: base)).map (o.delta offset :: ·) := by
  rw [rebaseLoop, hfree, if_neg Bool.false_ne_true, if_pos hfirst]

/-- An insertion at the start of a deletion. -/
theorem rebase_converges_sample :
    ∃ a' b', (⟨[⟨⟨1, 1, by decide⟩, [120]⟩], by decide⟩ : StringEdit).tryRebase
        ⟨[⟨⟨1, 2, by decide⟩, []⟩], by decide⟩ = .edit a' ∧
      (⟨[⟨⟨1, 2, by decide⟩, []⟩], by decide⟩ : StringEdit).tryRebase
        ⟨[⟨⟨1, 1, by decide⟩, [120]⟩], by decide⟩ = .edit b' := by
  let a : StringEdit := ⟨[⟨⟨1, 1, by decide⟩, [120]⟩], by decide⟩
  let b : StringEdit := ⟨[⟨⟨1, 2, by decide⟩, []⟩], by decide⟩
  have hloop : rebaseLoop true 0 a.replacements b.replacements = some [⟨⟨1, 1, by decide⟩, [120]⟩] := by
    have hstep := @rebaseLoop_ours ⟨⟨1, 1, by decide⟩, [120]⟩ ⟨⟨1, 2, by decide⟩, []⟩ 0 [] []
      (by decide) (by decide)
    rw [rebaseLoop] at hstep
    exact hstep
  obtain ⟨a', ha', -⟩ := tryRebase_of_loop hloop
  obtain ⟨b', hb'⟩ := ((rebase_converges [97, 98]).1 a b (by decide) (by decide)).1.mp ⟨a', ha'⟩
  exact ⟨a', b', ha', hb'⟩

/-- On a string that is too short for the edits the order can be seen. -/
theorem not_swap_everywhere :
    ¬∀ (e1 e2 f1 f2 : StringEdit) (s : JsString), trySwap e1 e2 = some (f1, f2) →
      f2.apply (f1.apply s) = e2.apply (e1.apply s) := by
  intro h
  let e1 : StringEdit := ⟨[⟨⟨10, 10, by decide⟩, [65]⟩], by decide⟩
  let e2 : StringEdit := ⟨[⟨⟨2, 2, by decide⟩, [66]⟩], by decide⟩
  let e1Inv : StringEdit := ⟨[⟨⟨10, 11, by decide⟩, []⟩], by decide⟩
  let f2 : StringEdit := ⟨[⟨⟨11, 11, by decide⟩, [65]⟩], by decide⟩
  have hinverse : e1.inverseOnSlice spaces = some e1Inv := by decide
  have hf1 : e2.tryRebase e1Inv = .edit e2 := by
    have hstep := @rebaseLoop_ours ⟨⟨2, 2, by decide⟩, [66]⟩ ⟨⟨10, 11, by decide⟩, []⟩ 0 [] []
      (by decide) (by decide)
    rw [rebaseLoop] at hstep
    rw [tryRebase]
    exact (congrArg rebased hstep).trans (by decide)
  have hf2 : e1.tryRebase e2 = .edit f2 := by
    have hloop : rebaseLoop true 0 [⟨⟨10, 10, by decide⟩, [65]⟩] [⟨⟨2, 2, by decide⟩, [66]⟩] =
        some [⟨⟨11, 11, by decide⟩, [65]⟩] := by
      rw [rebaseLoop, if_neg (by decide), if_neg (by decide), rebaseLoop, rebaseLoop]
      rfl
    rw [tryRebase]
    exact (congrArg rebased hloop).trans (by decide)
  have hswap : trySwap e1 e2 = some (e2, f2) := by
    rw [trySwap, hinverse, Option.bind_some, hf1]
    simp only [hf2]
  have hsame := h e1 e2 e2 f2 [] hswap
  have hdiffer : f2.apply (e2.apply []) ≠ e2.apply (e1.apply []) := by decide
  exact hdiffer hsame

end Fumie.Editor.StringEdit
