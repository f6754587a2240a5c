import Fumie.Editor.Edits.StringEdit

/-!
# Composed string edits

Every string edit that is valid on a string turns it into the string it is applied to.
Normalizing keeps that, and the loop of `compose` takes what turns a string into a second
one and what turns that into a third one to what turns the first into the third.
-/

namespace Fumie.Editor

open Fumie.Lib Fumie.Base Fumie.Lib.Rewrite List StringReplacement Option

/-! ## Substrings -/

variable {a b p d n : Int} {rs : List StringReplacement} {last : StringReplacement}
  {edit : StringEdit}

theorem substring_eq {str : JsString} (ha : 0 ≤ a) (hab : a ≤ b) (hb : b ≤ str.length) :
    substring str a b = (str.drop a.toNat).take (b - a).toNat := by
  have hmina : min a.toNat str.length = a.toNat := by omega
  have hminb : min b.toNat str.length = b.toNat := by omega
  have hlow : min a.toNat b.toNat = a.toNat := by omega
  have hlength : max a.toNat b.toNat - a.toNat = (b - a).toNat := by omega
  rw [substring, hmina, hminb, hlow, hlength]

theorem substring_mid {front mid back : JsString} {a b : Int} (ha : a = front.length)
    (hb : b = front.length + mid.length) : substring (front ++ (mid ++ back)) a b = mid := by
  subst ha hb
  have hle : (front.length : Int) + mid.length ≤ (front ++ (mid ++ back)).length := by
    simp only [length_append, Nat.cast_add]
    omega
  have hstart : ((front.length : Nat) : Int).toNat = front.length := Int.toNat_natCast _
  have hlength : ((front.length : Int) + mid.length - front.length).toNat = mid.length := by omega
  rw [substring_eq (Int.natCast_nonneg _) (by omega) hle, hstart, hlength, drop_left, take_left]

theorem substring_end {front back : JsString} (ha : a = front.length)
    (hb : b = front.length + back.length) : substring (front ++ back) a b = back := by
  have hmid := @substring_mid front back [] a b ha hb
  rw [append_nil] at hmid
  exact hmid

namespace StringEdit

/-! ## Valid edits -/

def ValidOn (e : StringEdit) (s : JsString) : Prop :=
  ∀ r ∈ e.replacements, 0 ≤ r.replaceRange.start ∧ r.replaceRange.endExclusive ≤ s.length

instance (e : StringEdit) (s : JsString) : Decidable (e.ValidOn s) :=
  inferInstanceAs (Decidable (∀ r ∈ e.replacements, _))

theorem sortedAfter_iff : sortedAfter p rs = true ↔ Sorted p rs := by
  induction rs generalizing p with
  | nil => exact iff_of_true rfl trivial
  | cons r rs ih =>
    rw [sortedAfter, Bool.and_eq_true, decide_eq_true_eq, ih]
    exact ⟨fun h => ⟨h.1, r.replaceRange.le, h.2⟩, fun h => ⟨h.1, h.2.2⟩⟩

theorem new_of_sorted (h : Sorted 0 rs) : ∃ e, new rs = some e ∧ e.replacements = rs := by
  have hsorted : sortedAfter (-1) rs = true := sortedAfter_iff.mpr (h.mono (by decide))
  exact ⟨⟨rs, hsorted⟩, dif_pos hsorted, rfl⟩

theorem applyFrom_eq {front s t : JsString} (h : Turns p rs s t) (hp : p = front.length) :
    applyFrom (front ++ s) p rs = t := by
  induction rs generalizing p front s t with
  | nil =>
    obtain rfl : t = s := h
    refine substring_end hp ?_
    rw [length_append, Nat.cast_add]
  | cons r rs ih =>
    obtain ⟨gap, old, s', t', hstart, hstop, rfl, rfl, hrest⟩ := h
    have hgap : substring (front ++ (gap ++ (old ++ s'))) p r.replaceRange.start = gap := by
      refine substring_mid hp ?_
      rw [← hp]
      exact hstart
    have hbehind : applyFrom (front ++ (gap ++ (old ++ s'))) r.replaceRange.endExclusive rs = t' := by
      have hfront : front ++ (gap ++ (old ++ s')) = (front ++ gap ++ old) ++ s' := by
        simp only [append_assoc]
      rw [hfront]
      refine ih hrest ?_
      have hend : r.replaceRange.endExclusive = p + gap.length + old.length := by
        rw [← hstart]
        exact hstop
      rw [hend, hp, length_append, length_append]
      omega
    rw [applyFrom, hgap, hbehind]
    rfl

variable {e : StringEdit} {s : JsString} {t : JsString}

theorem apply_of_turns (h : Turns 0 e.replacements s t) : e.apply s = t := by
  have happlied : applyFrom ([] ++ s) 0 e.replacements = t := applyFrom_eq h rfl
  exact happlied

theorem validOn_of_turns (h : Turns 0 e.replacements s t) : e.ValidOn s := by
  intro r hr
  have hstop := h.stop_le r hr
  have hstart := (h.sorted.le r hr).1
  exact ⟨hstart, by rw [Int.zero_add] at hstop; exact hstop⟩

theorem ValidOn.turns (h : e.ValidOn s) : Turns 0 e.replacements s (e.apply s) := by
  have hsorted : Sorted 0 e.replacements := by
    have hafter := sortedAfter_iff.mp e.sorted
    cases hreplacements : e.replacements with
    | nil => trivial
    | cons r rs =>
      rw [hreplacements] at hafter
      have hr := h r (by rw [hreplacements]; exact mem_cons_self)
      exact ⟨hr.1, hafter.2⟩
  obtain ⟨t, ht⟩ := hsorted.turns fun r hr => by
    rw [Int.zero_add]
    exact (h r hr).2
  rw [apply_of_turns ht]
  exact ht

/-! ## Normalizing -/

theorem normalizeLoop_some {s t : JsString} (h : Turns p (last :: rs) s t) :
    ∃ out, normalizeLoop (some last) rs = some out ∧ Turns p out s t := by
  induction rs generalizing p last s t with
  | nil => exact ⟨[last], rfl, h⟩
  | cons r rs ih =>
    obtain ⟨gap, old, _, _, hstart, hstop, rfl, rfl, gap', old', s', t', hstart', hstop', rfl, rfl,
      hrest⟩ := h
    rw [normalizeLoop]
    by_cases hnone : r.getNewLength = 0 ∧ r.replaceRange.length = 0
    · have hold : old' = [] := by
        have hlength : r.replaceRange.endExclusive - r.replaceRange.start = 0 := hnone.2
        have hends : r.replaceRange.endExclusive = r.replaceRange.start + old'.length := hstop'
        exact length_eq_zero_iff.mp (by omega)
      have htext : r.newText = [] := length_eq_zero_iff.mp hnone.1
      have hskip : Turns (stop last) rs (gap' ++ (old' ++ s')) (gap' ++ (text r ++ t')) := by
        have hempty : text r = [] := htext
        rw [hold, hempty]
        refine Turns.extend gap' ?_
        rw [← hstart', ← Int.add_zero (start r)]
        rw [hold] at hstop'
        have hsame : stop r = start r + 0 := hstop'
        rw [hsame] at hrest
        exact hrest
      rw [if_pos hnone]
      exact ih ⟨gap, old, _, _, hstart, hstop, rfl, rfl, hskip⟩
    · rw [if_neg hnone]
      by_cases htouch : last.replaceRange.endExclusive = r.replaceRange.start
      · have hgap : gap' = [] := by
          have hsame : stop last = start r := htouch
          exact length_eq_zero_iff.mp (by omega)
        subst hgap
        have hjoin : last.tryJoinTouching r = some
            ⟨⟨last.replaceRange.start, r.replaceRange.endExclusive, by
              have h1 := last.replaceRange.le
              have h2 := r.replaceRange.le
              omega⟩, last.newText ++ r.newText⟩ := by
          have hle : last.replaceRange.start ≤ r.replaceRange.endExclusive := by
            have h1 := last.replaceRange.le
            have h2 := r.replaceRange.le
            omega
          rw [tryJoinTouching, OffsetRange.joinRightTouching, if_pos htouch,
            OffsetRange.new, dif_pos hle]
          rfl
        rw [if_pos htouch, hjoin]
        refine ih ⟨gap, old ++ old', s', t', hstart, ?_, ?_, ?_, hrest⟩
        · have hend : stop r = start last + (old ++ old').length := by
            have hsame : stop last = start r := htouch
            rw [length_append, Nat.cast_add]
            omega
          exact hend
        · rw [nil_append, append_assoc]
        · have hjoined : gap ++ (text last ++ ([] ++ (text r ++ t'))) =
              gap ++ ((last.newText ++ r.newText) ++ t') := by
            rw [nil_append, append_assoc]
            rfl
          exact hjoined
      · obtain ⟨out, hout, hturns⟩ := ih ⟨gap', old', s', t', hstart', hstop', rfl, rfl, hrest⟩
        rw [if_neg htouch, hout]
        exact ⟨last :: out, rfl, gap, old, _, _, hstart, hstop, rfl, rfl, hturns⟩

theorem normalizeLoop_none {s t : JsString} (h : Turns p rs s t) :
    ∃ out, normalizeLoop none rs = some out ∧ Turns p out s t := by
  induction rs generalizing p s t with
  | nil => exact ⟨[], rfl, h⟩
  | cons r rs ih =>
    rw [normalizeLoop]
    by_cases hnone : r.getNewLength = 0 ∧ r.replaceRange.length = 0
    · obtain ⟨gap, old, s', t', hstart, hstop, rfl, rfl, hrest⟩ := h
      have hends : stop r = start r + old.length := hstop
      have hlength : stop r - start r = 0 := hnone.2
      have hold : old = [] := length_eq_zero_iff.mp (by omega)
      have htext : text r = [] := length_eq_zero_iff.mp hnone.1
      rw [if_pos hnone, hold, htext]
      have hsame : stop r = p + gap.length := by omega
      rw [hsame] at hrest
      exact ih (hrest.extend gap)
    · rw [if_neg hnone]
      exact normalizeLoop_some h

theorem normalize_turns (h : Turns 0 e.replacements s t) :
    ∃ e', e.normalize = some e' ∧ Turns 0 e'.replacements s t := by
  obtain ⟨out, hout, hturns⟩ := normalizeLoop_none h
  obtain ⟨e', he', hsame⟩ := new_of_sorted hturns.sorted
  refine ⟨e', ?_, hsame ▸ hturns⟩
  rw [normalize, hout]
  exact he'

/-! ## The loops over the first edit -/

def CopiesTo (p d b : Int) (s u v : JsString) (queued : Queued) : Prop :=
  ∃ f₀ f₁ s' u', s = f₀ ++ s' ∧ u = f₁ ++ u' ∧ queued.edit1ToEdit2 = d + f₁.length - f₀.length ∧
    Turns (p + f₀.length) queued.queue s' (u' ++ v) ∧
    (∀ r ∈ queued.queue.head?, b ≤ r.replaceRange.start + queued.edit1ToEdit2 + r.getNewLength) ∧
    ∀ out t, Turns (p + f₀.length) out s' t → Turns p (queued.taken ++ out) s (f₁ ++ t)

variable {u : JsString} {q : List StringReplacement}

theorem copiesTo_self {v : JsString} (h : Turns p q s (u ++ v))
    (hhead : ∀ r ∈ q.head?, b ≤ r.replaceRange.start + d + r.getNewLength) :
    CopiesTo p d b s u v ⟨[], q, d⟩ := by
  have hzero : p + (([] : JsString).length : Int) = p := Int.add_zero p
  refine ⟨[], [], s, u, rfl, rfl, ?_, ?_, hhead, ?_⟩
  · exact (by simp : d = d + (([] : JsString).length : Int) - (([] : JsString).length : Int))
  · rw [hzero]
    exact h
  · intro out t hout
    rw [hzero] at hout
    exact hout

theorem CopiesTo.cons {p d b : Int} {r : StringReplacement} {gap old s u v : JsString}
    {queued : Queued} (hstart : start r = p + gap.length) (hstop : stop r = start r + old.length)
    (h : CopiesTo (stop r) (d + r.getLengthDelta) b s u v queued) :
    CopiesTo p d b (gap ++ (old ++ s)) (gap ++ (text r ++ u)) v (queued.cons r) := by
  obtain ⟨f₀, f₁, s', u', rfl, rfl, hd, hturns, hhead, hout⟩ := h
  have hdelta : r.getLengthDelta = (text r).length - (stop r - start r) := rfl
  have hpos : p + (gap ++ (old ++ f₀)).length = stop r + f₀.length := by
    simp only [length_append, Nat.cast_add]
    omega
  refine ⟨gap ++ (old ++ f₀), gap ++ (text r ++ f₁), s', u', by simp, by simp, ?_, ?_, hhead, ?_⟩
  · have hcount : queued.edit1ToEdit2 = d + (gap ++ (text r ++ f₁)).length -
        (gap ++ (old ++ f₀)).length := by
      simp only [length_append, Nat.cast_add]
      omega
    exact hcount
  · rw [hpos]
    exact hturns
  · intro out t ht
    rw [hpos] at ht
    refine ⟨gap, old, f₀ ++ s', f₁ ++ t, hstart, hstop, rfl, ?_, hout out t ht⟩
    rw [append_assoc, append_assoc]

theorem copyOver_turns {q : List StringReplacement} {s u v : JsString} (h : Turns p q s (u ++ v))
    (hb : b = p + d + u.length) : CopiesTo p d b s u v (copyOver b d q) := by
  induction q generalizing p d s u with
  | nil =>
    refine copiesTo_self h fun r hr => ?_
    cases hr
  | cons r q ih =>
    by_cases hreach : b ≤ r.replaceRange.start + d + r.getNewLength
    · rw [copyOver, if_pos hreach]
      refine copiesTo_self h fun x hx => ?_
      cases hx
      exact hreach
    · rw [copyOver, if_neg hreach]
      obtain ⟨gap, old, s', t', hstart, hstop, rfl, ht, hrest⟩ := h
      have hpos : start r + d + (text r).length < b := not_le.mp hreach
      have hdelta : r.getLengthDelta = (text r).length - (stop r - start r) := rfl
      obtain ⟨u', rfl⟩ : gap ++ text r <+: u := by
        have hfront : gap ++ text r <+: u ++ v := by
          rw [ht, ← append_assoc]
          exact prefix_append _ _
        refine prefix_of_prefix_length_le hfront (prefix_append _ _) ?_
        rw [length_append]
        omega
      rw [append_assoc, append_assoc] at ht
      obtain rfl := append_cancel_left (append_cancel_left ht)
      rw [append_assoc]
      refine CopiesTo.cons hstart hstop (ih hrest ?_)
      rw [hb, length_append, length_append]
      omega

def TakesTo (p d b n : Int) (q : List StringReplacement) (s u : JsString) (queued : Queued) :
    Prop :=
  ∃ V W s' u', s = V ++ s' ∧ u = W ++ u' ∧ queued.edit1ToEdit2 = d + W.length - V.length ∧
    Turns (p + V.length) queued.queue s' u' ∧
    (∀ r ∈ queued.queue.head?, b < r.replaceRange.start + queued.edit1ToEdit2) ∧
    (queued.taken = [] ∧ V = [] ∧ W = [] ∨
      ∃ gap first more W₀, q.head? = some first ∧ queued.taken = first :: more ∧
        start first = p + gap.length ∧ gap.length ≤ n ∧ gap <+: V ∧ gap ++ text first <+: W ∧
        ∀ last ∈ queued.taken.getLast?, stop last = p + V.length ∧ W = W₀ ++ text last ∧
          W₀.length ≤ n)

theorem takesTo_self (h : Turns p q s u) (hhead : ∀ r ∈ q.head?, b < r.replaceRange.start + d) :
    TakesTo p d b n q s u ⟨[], q, d⟩ := by
  have hzero : p + (([] : JsString).length : Int) = p := Int.add_zero p
  refine ⟨[], [], s, u, rfl, rfl, ?_, ?_, hhead, .inl ⟨rfl, rfl, rfl⟩⟩
  · exact (by simp : d = d + (([] : JsString).length : Int) - (([] : JsString).length : Int))
  · rw [hzero]
    exact h

theorem TakesTo.cons {p d b n : Int} {r : StringReplacement} {gap old s u : JsString}
    {q : List StringReplacement} {queued : Queued} (hstart : start r = p + gap.length)
    (hstop : stop r = start r + old.length) (hgap : gap.length ≤ n)
    (h : TakesTo (stop r) (d + r.getLengthDelta) b (n - gap.length - (text r).length) q s u
      queued) :
    TakesTo p d b n (r :: q) (gap ++ (old ++ s)) (gap ++ (text r ++ u)) (queued.cons r) := by
  obtain ⟨V, W, s', u', rfl, rfl, hd, hturns, hhead, htaken⟩ := h
  have hdelta : r.getLengthDelta = (text r).length - (stop r - start r) := rfl
  have hpos : p + (gap ++ (old ++ V)).length = stop r + V.length := by
    simp only [length_append, Nat.cast_add]
    omega
  refine ⟨gap ++ (old ++ V), gap ++ (text r ++ W), s', u', by simp, by simp, ?_, ?_, hhead,
    .inr ⟨gap, r, queued.taken, ?_⟩⟩
  · have hcount : queued.edit1ToEdit2 = d + (gap ++ (text r ++ W)).length -
        (gap ++ (old ++ V)).length := by
      simp only [length_append, Nat.cast_add]
      omega
    exact hcount
  · rw [hpos]
    exact hturns
  · have hprefix : gap ++ text r <+: gap ++ (text r ++ W) := by
      rw [← append_assoc]
      exact prefix_append _ _
    rcases htaken with ⟨hnone, rfl, rfl⟩ | ⟨gap', first, more, W₀, -, hcons, -, -, -, -, hlast⟩
    · refine ⟨gap, rfl, rfl, hstart, hgap, prefix_append _ _, hprefix, fun last hl => ?_⟩
      have hsame : (queued.cons r).taken = [r] := congrArg (r :: ·) hnone
      rw [hsame] at hl
      cases hl
      refine ⟨?_, by simp, hgap⟩
      rw [hpos]
      exact (Int.add_zero _).symm
    · refine ⟨gap ++ (text r ++ W₀), rfl, rfl, hstart, hgap, prefix_append _ _, hprefix,
        fun last hl => ?_⟩
      have hsame : (queued.cons r).taken.getLast? = queued.taken.getLast? := by
        have hall : (queued.cons r).taken = r :: queued.taken := rfl
        rw [hall, hcons, getLast?_cons_cons]
      rw [hsame] at hl
      obtain ⟨hend, rfl, hle⟩ := hlast last hl
      refine ⟨?_, by simp, ?_⟩
      · rw [hpos]
        exact hend
      · simp only [length_append, Nat.cast_add]
        omega

theorem takeIntersecting_turns {q : List StringReplacement} {s u : JsString} (h : Turns p q s u)
    (hb : b = p + d + n) : TakesTo p d b n q s u (takeIntersecting b d q) := by
  induction q generalizing p d n s u with
  | nil =>
    refine takesTo_self h fun r hr => ?_
    cases hr
  | cons r q ih =>
    by_cases hbehind : b < r.replaceRange.start + d
    · rw [takeIntersecting, if_pos hbehind]
      refine takesTo_self h fun x hx => ?_
      cases hx
      exact hbehind
    · rw [takeIntersecting, if_neg hbehind]
      obtain ⟨gap, old, s', t', hstart, hstop, rfl, rfl, hrest⟩ := h
      have hpos : start r + d ≤ b := not_lt.mp hbehind
      have hdelta : r.getLengthDelta = (text r).length - (stop r - start r) := rfl
      exact TakesTo.cons hstart hstop (by omega) (ih hrest (by omega))

/-! ## Composing -/

theorem putBack_turns {v V W W₀ s' u' : JsString} {queued : Queued} (hb : b = p + d + u.length)
    (hs : s = V ++ s') (hu : u ++ v = W ++ u')
    (hd : queued.edit1ToEdit2 = d + W.length - V.length)
    (hturns : Turns (p + V.length) queued.queue s' u')
    (hhead : ∀ r ∈ queued.queue.head?, b < r.replaceRange.start + queued.edit1ToEdit2)
    (hend : stop last = p + V.length) (hW : W = W₀ ++ text last)
    (hW₀ : (W₀.length : Int) ≤ u.length) :
    ∃ z s'', s = (V ++ z) ++ s'' ∧ Turns (p + (V ++ z).length)
        (putBack last (last.replaceRange.endExclusive + queued.edit1ToEdit2 - b) queued).queue s''
        v ∧
      p + (V ++ z).length +
        (putBack last (last.replaceRange.endExclusive + queued.edit1ToEdit2 - b)
          queued).edit1ToEdit2 = b := by
  have hends : last.replaceRange.endExclusive = p + V.length := hend
  have hsuffix : last.replaceRange.endExclusive + queued.edit1ToEdit2 - b =
      W.length - u.length := by omega
  rw [hsuffix]
  by_cases hpos : (0 : Int) < W.length - u.length
  · -- the new text of the last one reaches behind `b`
    obtain ⟨sfx, hsfx⟩ : u <+: W := by
      refine prefix_of_prefix_length_le (prefix_append u v) ?_ (by omega)
      rw [hu]
      exact prefix_append _ _
    have hv : v = sfx ++ u' := by
      rw [← hsfx, append_assoc] at hu
      exact append_cancel_left hu
    obtain ⟨mid, hmid⟩ : sfx <:+ text last := by
      refine suffix_of_suffix_length_le ⟨u, hsfx⟩ ⟨W₀, hW.symm⟩ ?_
      have hl := congrArg length hsfx
      have hl' := congrArg length hW
      rw [length_append] at hl hl'
      omega
    have htext : substring last.newText
        (last.getNewLength - ((W.length : Int) - u.length)) last.getNewLength = sfx := by
      have hwhole : last.newText = mid ++ sfx := hmid.symm
      have hlength : last.getNewLength = mid.length + sfx.length := by
        rw [getNewLength, hwhole, length_append]
      have hl := congrArg length hsfx
      rw [length_append] at hl
      rw [hwhole]
      exact substring_end (by omega) (by omega)
    rw [putBack, if_pos hpos]
    dsimp only [insertSlice]
    rw [htext]
    refine ⟨[], s', by rw [append_nil]; exact hs, ?_, ?_⟩
    · rw [append_nil, hv]
      refine ⟨[], [], s', u', ?_, ?_, rfl, rfl, ?_⟩
      · rw [length_nil, Int.natCast_zero, Int.add_zero]
        exact hends
      · exact (Int.add_zero _).symm
      · have hsame : stop (⟨OffsetRange.emptyAt last.replaceRange.endExclusive, sfx⟩ :
            StringReplacement) = p + V.length := hends
        rw [hsame]
        exact hturns
    · have hdelta : (⟨OffsetRange.emptyAt last.replaceRange.endExclusive, sfx⟩ :
          StringReplacement).getLengthDelta = sfx.length := by
        have hempty : (⟨OffsetRange.emptyAt last.replaceRange.endExclusive, sfx⟩ :
            StringReplacement).getLengthDelta =
              sfx.length - (last.replaceRange.endExclusive - last.replaceRange.endExclusive) := rfl
        omega
      have hl := congrArg length hsfx
      rw [length_append] at hl
      rw [hdelta, hd, append_nil]
      omega
  · -- the last one ends in front of `b`: what is between stays as it was in the base
    obtain ⟨z, hz⟩ : W <+: u := by
      have hfront : W <+: u ++ v := by
        rw [hu]
        exact prefix_append _ _
      exact prefix_of_prefix_length_le hfront (prefix_append u v) (by omega)
    have hu' : u' = z ++ v := by
      rw [← hz, append_assoc] at hu
      exact (append_cancel_left hu).symm
    have hl := congrArg length hz
    rw [length_append] at hl
    rw [hu'] at hturns
    obtain ⟨s'', hs'', hrest⟩ := hturns.split_target fun r hr => by
      have hlt := hhead r hr
      have hstart : start r = r.replaceRange.start := rfl
      omega
    rw [putBack, if_neg hpos]
    refine ⟨z, s'', ?_, ?_, ?_⟩
    · rw [hs, hs'', append_assoc]
    · rw [length_append, Nat.cast_add, ← Int.add_assoc]
      exact hrest
    · rw [hd, length_append]
      omega

theorem turns_middle {p d : Int} {first : StringReplacement} {gap g W V s t rest : JsString}
    {out : List StringReplacement} {range : OffsetRange} {newText : JsString}
    (hfirst : start first = p + gap.length) (hgap : gap <+: V) (hW : gap ++ text first <+: W)
    (hg : g <+: W ∨ W <+: g) (hreach : g.length ≤ gap.length + (text first).length)
    (hstart : range.start = min first.replaceRange.start (p + g.length))
    (hstop : range.endExclusive = p + V.length)
    (hout : Turns (p + V.length) out s t) (hrest : rest = newText ++ t) :
    Turns p (prefixOf first (min first.replaceRange.start (p + g.length))
        (p + g.length + d - (first.replaceRange.start + d)) ++ ⟨range, newText⟩ :: out)
      (V ++ s) (g ++ rest) := by
  have hfirst' : first.replaceRange.start = p + gap.length := hfirst
  have hboth : g <+: gap ++ text first := by
    have hle : g.length ≤ (gap ++ text first).length := by
      rw [length_append]
      exact hreach
    rcases hg with hg | hg
    · exact prefix_of_prefix_length_le hg hW hle
    · have hall := hW.trans hg
      have hsame := hall.eq_of_length (Nat.le_antisymm hall.length_le hle)
      rw [hsame]
  have hlength : p + g.length + d - (first.replaceRange.start + d) = g.length - gap.length := by
    omega
  rw [hlength, prefixOf]
  subst hrest
  by_cases hpos : (0 : Int) < g.length - gap.length
  · obtain ⟨kept, rfl⟩ : gap <+: g :=
      prefix_of_prefix_length_le (prefix_append _ _) hboth (by omega)
    obtain ⟨old, rfl⟩ := hgap
    have hkept : substring first.newText 0 ((gap ++ kept).length - gap.length) = kept := by
      obtain ⟨behind, hbehind⟩ := (prefix_append_right_inj gap).mp hboth
      have hwhole : first.newText = [] ++ (kept ++ behind) := hbehind.symm
      rw [hwhole]
      refine substring_mid rfl ?_
      rw [length_append, length_nil]
      omega
    have hmin : min first.replaceRange.start (p + ((gap ++ kept).length : Int)) = p + gap.length := by
      rw [length_append]
      omega
    rw [if_pos hpos, insertSlice, hkept, hmin]
    refine ⟨gap, [], old ++ s, newText ++ t, rfl, (Int.add_zero _).symm, ?_, ?_, [], old, s, t, ?_,
      ?_, rfl, rfl, ?_⟩
    · rw [nil_append, append_assoc]
    · rw [append_assoc]
      rfl
    · have hrange : range.start = p + gap.length := by rw [hstart, hmin]
      rw [length_nil, Int.natCast_zero, Int.add_zero]
      exact hrange
    · have hrange : range.endExclusive = range.start + old.length := by
        rw [hstop, hstart, hmin, length_append]
        omega
      exact hrange
    · have hrange : range.endExclusive = p + (gap ++ old).length := hstop
      have hsame : stop (⟨range, newText⟩ : StringReplacement) = p + (gap ++ old).length := hrange
      rw [hsame]
      exact hout
  · obtain ⟨gap', rfl⟩ : g <+: gap :=
      prefix_of_prefix_length_le hboth (prefix_append _ _) (by omega)
    obtain ⟨old, rfl⟩ := hgap
    have hmin : min first.replaceRange.start (p + (g.length : Int)) = p + g.length := by
      rw [hfirst', length_append]
      omega
    rw [if_neg hpos, nil_append]
    refine ⟨g, gap' ++ old, s, t, ?_, ?_, ?_, rfl, ?_⟩
    · have hrange : range.start = p + g.length := by rw [hstart, hmin]
      exact hrange
    · have hrange : range.endExclusive = range.start + (gap' ++ old).length := by
        rw [hstop, hstart, hmin, length_append, length_append, length_append]
        omega
      exact hrange
    · rw [append_assoc, append_assoc, append_assoc]
    · have hsame : stop (⟨range, newText⟩ : StringReplacement) =
          p + (g ++ gap' ++ old).length := hstop
      rw [hsame]
      exact hout

theorem composeLoop_turns {q : List StringReplacement} {s t u : JsString} (h : Turns p q s t)
    (h' : Turns (p + d) rs t u) : ∃ out, composeLoop q d rs = some out ∧ Turns p out s u := by
  induction rs generalizing p d q s t u with
  | nil =>
    obtain rfl : u = t := h'
    exact ⟨q, rfl, h⟩
  | cons r2 rest ih =>
    obtain ⟨g, o, v, w, hstart, hstop, rfl, rfl, hrest⟩ := h'
    have hb : r2.replaceRange.start = p + d + g.length := hstart
    have he : r2.replaceRange.endExclusive = r2.replaceRange.start + o.length := hstop
    obtain ⟨f₀, f₁, s', g', rfl, rfl, hd, hturns, hreach, hcopied⟩ := copyOver_turns h hb
    rw [composeLoop]
    generalize copyOver r2.replaceRange.start d q = copied at hd hturns hreach hcopied ⊢
    have hpos : p + d + (f₁ ++ g').length = p + f₀.length + copied.edit1ToEdit2 + g'.length := by
      rw [hd, length_append]
      omega
    have hend : r2.replaceRange.endExclusive =
        p + f₀.length + copied.edit1ToEdit2 + (g' ++ o).length := by
      rw [he, hb, hpos, length_append]
      omega
    rw [← append_assoc g'] at hturns
    obtain ⟨V, W, s'', u', hs', hu, hd', hturns', hhead, htaken⟩ :=
      takeIntersecting_turns (n := (g' ++ o).length) hturns hend
    generalize takeIntersecting r2.replaceRange.endExclusive copied.edit1ToEdit2 copied.queue =
      queued at hd' hturns' hhead htaken ⊢
    have hfinish : ∀ out, Turns (p + f₀.length) out s' (g' ++ (r2.newText ++ w)) →
        Turns p (copied.taken ++ out) (f₀ ++ s') (f₁ ++ g' ++ (text r2 ++ w)) := by
      intro out hout
      rw [append_assoc]
      exact hcopied out _ hout
    cases htakenList : queued.taken with
    | nil =>
      rcases htaken with ⟨-, rfl, rfl⟩ | ⟨-, first, more, -, -, hcons, -⟩
      · have hsame : queued.edit1ToEdit2 = copied.edit1ToEdit2 := by
          rw [hd', length_nil, Int.natCast_zero]
          omega
        obtain rfl : s' = s'' := hs'
        obtain rfl : u' = g' ++ o ++ v := hu.symm
        rw [length_nil, Int.natCast_zero, Int.add_zero] at hturns'
        obtain ⟨s₁, rfl, hbehind⟩ := hturns'.split_target fun r hr => by
          have hlt := hhead r hr
          have hs : start r = r.replaceRange.start := rfl
          omega
        have hnext : stop r2 = p + f₀.length + (g' ++ o).length + copied.edit1ToEdit2 := by
          have hstop2 : stop r2 = r2.replaceRange.endExclusive := rfl
          omega
        rw [hnext] at hrest
        obtain ⟨out, hout, hall⟩ := ih hbehind hrest
        rw [hsame, hout]
        refine ⟨_, rfl, hfinish _ ⟨g', o, s₁, w, ?_, ?_, by rw [append_assoc], rfl, ?_⟩⟩
        · have hmoved : r2.replaceRange.start + -copied.edit1ToEdit2 =
              p + f₀.length + g'.length := by omega
          exact hmoved
        · have hmoved : r2.replaceRange.endExclusive + -copied.edit1ToEdit2 =
              r2.replaceRange.start + -copied.edit1ToEdit2 + o.length := by omega
          exact hmoved
        · have hmoved : stop (r2.delta (-copied.edit1ToEdit2)) =
              p + f₀.length + (g' ++ o).length := by
            have hdef : stop (r2.delta (-copied.edit1ToEdit2)) =
              r2.replaceRange.endExclusive + -copied.edit1ToEdit2 := rfl
            omega
          rw [hmoved]
          exact hall
      · rw [hcons] at htakenList
        cases htakenList
    | cons first more =>
      rcases htaken with ⟨hnone, -, -⟩ | ⟨gap, first', more', W₀, hfirst, hcons, hfs, hgn, hgV, hgW,
        hlast⟩
      · rw [hnone] at htakenList
        cases htakenList
      · obtain ⟨rfl, rfl⟩ := cons.inj (hcons.symm.trans htakenList)
        obtain ⟨hlend, hWl, hW₀⟩ := hlast ((first' :: more').getLast (cons_ne_nil _ _)) (by
          rw [hcons]
          exact getLast?_eq_getLast_of_ne_nil (cons_ne_nil _ _))
        obtain ⟨z, s₁, hs₁, hleft, hcount⟩ :=
          putBack_turns hend hs' hu hd' hturns' hhead hlend hWl hW₀
        dsimp only
        generalize putBack _ _ queued = left at hleft hcount ⊢
        rw [← hcount] at hend
        have hnext : stop r2 = p + f₀.length + (V ++ z).length + left.edit1ToEdit2 := by
          have hstop2 : stop r2 = r2.replaceRange.endExclusive := rfl
          omega
        rw [hnext] at hrest
        obtain ⟨out, hout, hall⟩ := ih hleft hrest
        have hfs' : first'.replaceRange.start = p + f₀.length + gap.length := hfs
        have hgaple := hgV.length_le
        have hle : min first'.replaceRange.start (r2.replaceRange.start - copied.edit1ToEdit2) ≤
            r2.replaceRange.endExclusive - left.edit1ToEdit2 := by
          rw [length_append] at hcount
          omega
        have hr2 : r2.replaceRange.start - copied.edit1ToEdit2 = p + f₀.length + g'.length := by
          omega
        have hr2' : r2.replaceRange.start = p + f₀.length + g'.length + copied.edit1ToEdit2 := by
          omega
        have hend2 : r2.replaceRange.endExclusive - left.edit1ToEdit2 =
            p + f₀.length + (V ++ z).length := by omega
        rw [OffsetRange.new, dif_pos hle, bind_some, hout]
        refine ⟨_, rfl, hfinish _ ?_⟩
        have hboth : g' <+: W ∨ W <+: g' := by
          have hfront : g' <+: W ++ u' := by
            rw [← hu, append_assoc]
            exact prefix_append _ _
          exact prefix_or_prefix_of_prefix hfront (prefix_append _ _)
        have hlong : g'.length ≤ gap.length + (text first').length := by
          have hle' := hreach first' hfirst
          have hlength : (first'.getNewLength : Int) = (text first').length := rfl
          omega
        have hmiddle := @turns_middle (p + f₀.length) copied.edit1ToEdit2 first' gap g' W (V ++ z)
          s₁ w (r2.newText ++ w) out ⟨_, _, hle⟩ r2.newText hfs (hgV.trans (prefix_append _ _))
          hgW hboth hlong (by rw [← hr2]) hend2 hall rfl
        rw [← hr2', ← hr2] at hmiddle
        rw [hs₁]
        exact hmiddle

theorem compose_turns {e1 e2 : StringEdit} (h1 : Turns 0 e1.replacements s t)
    (h2 : Turns 0 e2.replacements t u) :
    ∃ e, e1.compose e2 = some e ∧ Turns 0 e.replacements s u := by
  obtain ⟨edits1, hn1, ht1⟩ := normalize_turns h1
  obtain ⟨edits2, hn2, ht2⟩ := normalize_turns h2
  rw [compose, hn1, bind_some, hn2, bind_some]
  by_cases hempty1 : edits1.isEmpty = true
  · have hnil := isEmpty_iff.mp hempty1
    rw [hnil] at ht1
    obtain rfl : t = s := ht1
    rw [if_pos hempty1]
    exact ⟨edits2, rfl, ht2⟩
  · by_cases hempty2 : edits2.isEmpty = true
    · have hnil := isEmpty_iff.mp hempty2
      rw [hnil] at ht2
      obtain rfl : u = t := ht2
      rw [if_neg hempty1, if_pos hempty2]
      exact ⟨edits1, rfl, ht1⟩
    · obtain ⟨out, hout, hturns⟩ := composeLoop_turns (d := 0) ht1 ht2
      obtain ⟨e, hnew, hsame⟩ := new_of_sorted hturns.sorted
      rw [← hsame] at hturns
      obtain ⟨e', hn, hturns'⟩ := normalize_turns hturns
      rw [if_neg hempty1, if_neg hempty2, hout, bind_some, hnew, bind_some, hn]
      exact ⟨e', rfl, hturns'⟩

theorem empty_compose (e : StringEdit) : empty.compose e = e.normalize := by
  have hnone : empty.normalize = some empty := rfl
  have htrivial : ∀ edits : StringEdit,
      (if empty.isEmpty = true then some edits
        else if edits.isEmpty = true then some empty
        else ((composeLoop empty.replacements 0 edits.replacements).bind new).bind normalize) =
      some edits := fun edits => if_pos rfl
  rw [compose, hnone, bind_some]
  simp only [htrivial]
  exact bind_fun_some e.normalize

theorem compose_empty (e : StringEdit) : e.compose empty = e.normalize := by
  have hnone : empty.normalize = some empty := rfl
  rw [compose, hnone]
  cases e.normalize with
  | none => rfl
  | some edits1 =>
    rw [bind_some, bind_some]
    split_ifs with hempty hnot
    · obtain ⟨replacements, hsorted⟩ := edits1
      obtain rfl : replacements = [] := isEmpty_iff.mp hempty
      rfl
    · rfl
    · exact absurd rfl hnot

/-! ## Sequential replacements -/

def replaceSequentially : List StringReplacement → JsString → JsString
  | [], s => s
  | r :: rs, s => replaceSequentially rs (r.replace s)

def SequenceValid : List StringReplacement → JsString → Prop
  | [], _ => True
  | r :: rs, s => (0 ≤ r.replaceRange.start ∧ r.replaceRange.endExclusive ≤ s.length) ∧
      SequenceValid rs (r.replace s)

variable {r : StringReplacement}

theorem turns_replace (hstart : 0 ≤ r.replaceRange.start)
    (hstop : r.replaceRange.endExclusive ≤ s.length) : Turns 0 [r] s (r.replace s) := by
  have hsorted : Sorted (0 : Int) [r] := ⟨hstart, r.replaceRange.le, trivial⟩
  obtain ⟨t, ht⟩ := hsorted.turns fun x hx => by
    rw [mem_singleton.mp hx, Int.zero_add]
    exact hstop
  obtain rfl : applyFrom ([] ++ s) 0 [r] = t := applyFrom_eq ht rfl
  rw [StringReplacement.replace, append_assoc]
  exact ht

variable {cur : List StringReplacement}

theorem turns_push (h : Turns 0 cur s t) (hr : Turns 0 [r] t u)
    (hbefore : ∀ last ∈ cur.head?, stop r ≤ start last) : Turns 0 (r :: cur) s u := by
  obtain ⟨gap, old, t', t'', hstart, hstop, rfl, rfl, hsame⟩ := hr
  obtain rfl : t'' = t' := hsame
  rw [← append_assoc] at h
  have hlength : (0 : Int) + (gap ++ old).length = stop r := by
    rw [length_append]
    omega
  obtain ⟨s', rfl, hrest⟩ := h.split_target fun last hlast => by
    rw [hlength]
    exact hbefore last hlast
  rw [hlength] at hrest
  exact ⟨gap, old, s', t'', hstart, hstop, append_assoc .., rfl, hrest⟩

theorem flush_turns (hedit : Turns 0 edit.replacements s t) (hcur : Turns 0 cur t u) :
    ∃ e, (new cur).bind edit.compose = some e ∧ Turns 0 e.replacements s u := by
  obtain ⟨e, hnew, hsame⟩ := new_of_sorted hcur.sorted
  rw [hnew]
  exact compose_turns hedit (hsame ▸ hcur)

theorem composeSequentialLoop_turns {cur : List StringReplacement} {s t u : JsString}
    (hedit : Turns 0 edit.replacements s t) (hcur : Turns 0 cur t u) (hvalid : SequenceValid rs u) :
    ∃ e, composeSequentialLoop edit cur rs = some e ∧
      Turns 0 e.replacements s (replaceSequentially rs u) := by
  induction rs generalizing edit cur t u with
  | nil => exact flush_turns hedit hcur
  | cons r rs ih =>
    obtain ⟨⟨hstart, hstop⟩, hrest⟩ := hvalid
    have hone := turns_replace hstart hstop
    rw [composeSequentialLoop, replaceSequentially]
    split_ifs with hbefore
    · refine ih hedit (turns_push hcur hone fun last hlast => ?_) hrest
      have hall := (Option.all_eq_true _ _).mp hbefore last hlast
      exact of_decide_eq_true hall
    · obtain ⟨e, he, hturns⟩ := flush_turns hedit hcur
      rw [he, bind_some]
      exact ih hturns hone hrest

/-! ## What composing does -/

/-- Composing two edits has the effect of both, the empty edit changes nothing but the
spelling, and composing replacements has the effect of one after the other. -/
theorem compose_effect (s : JsString) :
    (∀ e1 e2 : StringEdit, e1.ValidOn s → e2.ValidOn (e1.apply s) →
      ∃ e, e1.compose e2 = some e ∧ e.ValidOn s ∧ Sorted (0 : Int) e.replacements ∧
        e.apply s = e2.apply (e1.apply s)) ∧
    (∀ e : StringEdit, e.ValidOn s →
      ∃ n, e.normalize = some n ∧ empty.compose e = some n ∧ e.compose empty = some n ∧
        n.apply s = e.apply s) ∧
    ∀ rs : List StringReplacement, SequenceValid rs s →
      ∃ e, composeSequentialReplacements rs = some e ∧ e.apply s = replaceSequentially rs s := by
  refine ⟨fun e1 e2 h1 h2 => ?_, fun e he => ?_, fun rs hrs => ?_⟩
  · obtain ⟨e, hcompose, hturns⟩ := compose_turns h1.turns h2.turns
    exact ⟨e, hcompose, validOn_of_turns hturns, hturns.sorted, apply_of_turns hturns⟩
  · obtain ⟨n, hn, hturns⟩ := normalize_turns he.turns
    exact ⟨n, hn, (empty_compose e).trans hn, (compose_empty e).trans hn, apply_of_turns hturns⟩
  · have hnone : Turns (0 : Int) empty.replacements s s := rfl
    have hnothing : Turns (0 : Int) ([] : List StringReplacement) s s := rfl
    obtain ⟨e, he, hturns⟩ := composeSequentialLoop_turns hnone hnothing hrs
    exact ⟨e, he, apply_of_turns hturns⟩

/-- A deletion behind an insertion that reaches into it. -/
theorem compose_effect_sample :
    ∃ e, (⟨[⟨⟨1, 1, by decide⟩, [120, 121]⟩], by decide⟩ : StringEdit).compose
        ⟨[⟨⟨2, 4, by decide⟩, []⟩], by decide⟩ = some e ∧
      e.ValidOn [97, 98, 99] ∧ Sorted (0 : Int) e.replacements ∧
      e.apply [97, 98, 99] = [97, 120, 99] :=
  (compose_effect [97, 98, 99]).1 ⟨[⟨⟨1, 1, by decide⟩, [120, 121]⟩], by decide⟩
    ⟨[⟨⟨2, 4, by decide⟩, []⟩], by decide⟩ (by decide) (by decide)

end StringEdit

end Fumie.Editor
