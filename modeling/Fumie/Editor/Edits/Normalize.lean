import Fumie.Editor.Edits.Composition

/-!
# Normal forms of string edits

Normalizing leaves an edit with replacements that each change something and have a
character between them. What such an edit does to the strings of one length tells its
replacements, so two edits have one normal form when they have the same effect.
-/

namespace Fumie.Editor.StringEdit

open Fumie.Lib Fumie.Base Fumie.Lib.Rewrite Option List

theorem changes_of_not {r : StringReplacement}
    (h : ¬(r.getNewLength = 0 ∧ r.replaceRange.length = 0)) : start r < stop r ∨ text r ≠ [] := by
  by_contra hnot
  obtain ⟨hrange, htext⟩ := not_or.mp hnot
  have hempty : r.newText = [] := not_not.mp htext
  have hle := r.replaceRange.le
  have hge : r.replaceRange.endExclusive ≤ r.replaceRange.start := not_lt.mp hrange
  refine h ⟨by rw [StringReplacement.getNewLength, hempty]; rfl, ?_⟩
  rw [OffsetRange.length]
  omega

theorem normal_of_some {p : Int} {rs out : List StringReplacement} {last : StringReplacement}
    (hp : p < start last) (hlast : start last < stop last ∨ text last ≠ [])
    (hsorted : Sorted (stop last) rs) (h : normalizeLoop (some last) rs = some out) :
    Apart p out := by
  induction rs generalizing p last out with
  | nil =>
    cases h
    exact ⟨hp, hlast, trivial⟩
  | cons r rs ih =>
    obtain ⟨hle, hrange, hrest⟩ := hsorted
    rw [normalizeLoop] at h
    by_cases hnone : r.getNewLength = 0 ∧ r.replaceRange.length = 0
    · rw [if_pos hnone] at h
      exact ih hp hlast (hrest.mono (hle.trans hrange)) h
    have hr := changes_of_not hnone
    rw [if_neg hnone] at h
    by_cases htouch : last.replaceRange.endExclusive = r.replaceRange.start
    · rw [if_pos htouch] at h
      obtain ⟨joined, hjoined, h⟩ := bind_eq_some_iff.mp h
      obtain ⟨range, hnew, rfl⟩ := map_eq_some_iff.mp hjoined
      rw [OffsetRange.joinRightTouching, if_pos htouch, OffsetRange.new] at hnew
      obtain ⟨hends, hrange⟩ := dite_none_right_eq_some.mp hnew
      cases hrange
      refine @ih p out ⟨⟨last.replaceRange.start, r.replaceRange.endExclusive, hends⟩,
        last.newText ++ r.newText⟩ hp ?_ hrest h
      rcases hlast with hlt | htext
      · exact .inl (lt_of_lt_of_le hlt (hle.trans hrange))
      · exact .inr fun hnil => htext (List.append_eq_nil_iff.mp hnil).1
    · rw [if_neg htouch] at h
      obtain ⟨behind, hbehind, rfl⟩ := map_eq_some_iff.mp h
      exact ⟨hp, hlast, ih (lt_of_le_of_ne hle htouch) hr hrest hbehind⟩

theorem normal_of_none {p q : Int} {rs out : List StringReplacement} (hp : p < q)
    (hsorted : Sorted q rs) (h : normalizeLoop none rs = some out) : Apart p out := by
  induction rs generalizing q with
  | nil =>
    cases h
    trivial
  | cons r rs ih =>
    obtain ⟨hle, hrange, hrest⟩ := hsorted
    rw [normalizeLoop] at h
    by_cases hnone : r.getNewLength = 0 ∧ r.replaceRange.length = 0
    · rw [if_pos hnone] at h
      exact ih (lt_of_lt_of_le hp (hle.trans hrange)) hrest h
    · rw [if_neg hnone] at h
      exact normal_of_some (lt_of_lt_of_le hp hle) (changes_of_not hnone) hrest h

theorem normalize_normal {e n : StringEdit} {s : JsString} (he : e.ValidOn s)
    (h : e.normalize = some n) : Apart (-1) n.replacements := by
  obtain ⟨out, hout, hn⟩ := bind_eq_some_iff.mp h
  obtain ⟨_, hn⟩ := dite_none_right_eq_some.mp hn
  cases hn
  exact normal_of_none (by decide : (-1 : Int) < 0) he.turns.sorted hout

theorem eq_of_parts {rs qs : List StringReplacement} (h : rs.map parts = qs.map parts) :
    rs = qs := by
  refine List.map_injective_iff.mpr (fun r q hparts => ?_) h
  obtain ⟨⟨a, b, _⟩, x⟩ := r
  obtain ⟨⟨a', b', _⟩, x'⟩ := q
  obtain ⟨rfl, hrest⟩ := Prod.mk.inj hparts
  obtain ⟨rfl, rfl⟩ := Prod.mk.inj hrest
  rfl

theorem ValidOn.of_le {e : StringEdit} {s t : JsString} (h : e.ValidOn s)
    (hle : s.length ≤ t.length) : e.ValidOn t := fun r hr =>
  ⟨(h r hr).1, (h r hr).2.trans (Int.ofNat_le.mpr hle)⟩

/-- Normalizing keeps the effect, and two edits that are valid on some string have one normal
form exactly when they have one effect. -/
theorem normalize_canonical {e f : StringEdit} {s₁ s₂ : JsString} (he : e.ValidOn s₁)
    (hf : f.ValidOn s₂) :
    ∃ n m, e.normalize = some n ∧ f.normalize = some m ∧
      (∀ s, e.ValidOn s → n.ValidOn s ∧ n.apply s = e.apply s) ∧
      (n = m ↔ ∀ s, e.ValidOn s → f.ValidOn s → e.apply s = f.apply s) := by
  obtain ⟨n, hn, -⟩ := normalize_turns he.turns
  obtain ⟨m, hm, -⟩ := normalize_turns hf.turns
  have hen : ∀ s, e.ValidOn s → Turns 0 n.replacements s (e.apply s) := fun s hs => by
    obtain ⟨n', hn', hturns⟩ := normalize_turns hs.turns
    cases hn.symm.trans hn'
    exact hturns
  have hfm : ∀ s, f.ValidOn s → Turns 0 m.replacements s (f.apply s) := fun s hs => by
    obtain ⟨m', hm', hturns⟩ := normalize_turns hs.turns
    cases hm.symm.trans hm'
    exact hturns
  refine ⟨n, m, hn, hm, fun s hs => ⟨validOn_of_turns (hen s hs), apply_of_turns (hen s hs)⟩,
    fun hsame s hs hs' => ?_, fun heffect => ?_⟩
  · rw [← apply_of_turns (hen s hs), hsame]
    exact apply_of_turns (hfm s hs')
  · have hparts := (normalize_normal he hn).unique_of_forall (normalize_normal hf hm)
      fun s (hs : s.length = max s₁.length s₂.length) => by
        have hse := he.of_le (hs ▸ Nat.le_max_left _ _)
        have hsf := hf.of_le (hs ▸ Nat.le_max_right _ _)
        refine ⟨e.apply s, hen s hse, ?_⟩
        rw [heffect s hse hsf]
        exact hfm s hsf
    obtain ⟨rs, _⟩ := n
    obtain ⟨qs, _⟩ := m
    obtain rfl : rs = qs := eq_of_parts hparts
    rfl

/-- An insertion in front of a deletion and the replacement of the deleted character. -/
theorem normalize_canonical_sample :
    ∃ n m, (⟨[⟨⟨1, 1, by decide⟩, [120]⟩, ⟨⟨1, 2, by decide⟩, []⟩], by decide⟩ :
        StringEdit).normalize = some n ∧
      (⟨[⟨⟨1, 2, by decide⟩, [120]⟩], by decide⟩ : StringEdit).normalize = some m ∧ n = m := by
  have he : (⟨[⟨⟨1, 1, by decide⟩, [120]⟩, ⟨⟨1, 2, by decide⟩, []⟩], by decide⟩ :
      StringEdit).ValidOn [97, 98] := by decide
  have hf : (⟨[⟨⟨1, 2, by decide⟩, [120]⟩], by decide⟩ : StringEdit).ValidOn [97, 98] := by decide
  obtain ⟨n, m, hn, hm, -, -⟩ := normalize_canonical he hf
  refine ⟨n, m, hn, hm, Option.some.inj (hn.symm.trans (Eq.trans ?_ hm))⟩
  rfl

theorem compose_normal {e1 e2 e : StringEdit} {s t u : JsString}
    (h1 : Turns 0 e1.replacements s t) (h2 : Turns 0 e2.replacements t u)
    (h : e1.compose e2 = some e) : Apart (-1) e.replacements := by
  obtain ⟨edits1, hn1, ht1⟩ := normalize_turns h1
  obtain ⟨edits2, hn2, ht2⟩ := normalize_turns h2
  rw [compose, hn1, bind_some, hn2, bind_some] at h
  split_ifs at h
  · cases h
    exact normalize_normal (validOn_of_turns h2) hn2
  · cases h
    exact normalize_normal (validOn_of_turns h1) hn1
  · obtain ⟨out, hout, hturns⟩ := composeLoop_turns (d := 0) ht1 ht2
    obtain ⟨e', hnew, hsame⟩ := new_of_sorted hturns.sorted
    rw [hout, bind_some, hnew, bind_some] at h
    exact normalize_normal (validOn_of_turns (hsame ▸ hturns)) h

/-- Composing is associative: both ways end with the same replacements. -/
theorem compose_assoc {e1 e2 e3 : StringEdit} {s : JsString} (h1 : e1.ValidOn s)
    (h2 : e2.ValidOn (e1.apply s)) (h3 : e3.ValidOn (e2.apply (e1.apply s))) :
    ∃ e12 e23 e, e1.compose e2 = some e12 ∧ e2.compose e3 = some e23 ∧
      e12.compose e3 = some e ∧ e1.compose e23 = some e := by
  obtain ⟨e12, he12, ht12⟩ := compose_turns h1.turns h2.turns
  obtain ⟨e23, he23, ht23⟩ := compose_turns h2.turns h3.turns
  obtain ⟨l, hl, htl⟩ := compose_turns ht12 h3.turns
  obtain ⟨r, hr, htr⟩ := compose_turns h1.turns ht23
  -- on every string of this length both do what the three edits do one after another
  have hparts := (compose_normal ht12 h3.turns hl).unique_of_forall
    (compose_normal h1.turns ht23 hr) fun t (ht : t.length = s.length) => by
      have hgrow {e : StringEdit} {a b : JsString} (he : e.ValidOn a) (hb : b.length = a.length) :
          e.ValidOn b ∧ (e.apply b).length = (e.apply a).length := by
        have hvalid := he.of_le hb.ge
        have hlength := hvalid.turns.length
        have hlength' := he.turns.length
        exact ⟨hvalid, by omega⟩
      obtain ⟨hv1, hlen1⟩ := hgrow h1 ht
      obtain ⟨hv2, hlen2⟩ := hgrow h2 hlen1
      obtain ⟨hv3, -⟩ := hgrow h3 hlen2
      refine ⟨e3.apply (e2.apply (e1.apply t)), ?_, ?_⟩
      · obtain ⟨_, he, hturns⟩ := compose_turns hv1.turns hv2.turns
        cases he12.symm.trans he
        obtain ⟨_, he, hturns⟩ := compose_turns hturns hv3.turns
        cases hl.symm.trans he
        exact hturns
      · obtain ⟨_, he, hturns⟩ := compose_turns hv2.turns hv3.turns
        cases he23.symm.trans he
        obtain ⟨_, he, hturns⟩ := compose_turns hv1.turns hturns
        cases hr.symm.trans he
        exact hturns
  obtain ⟨rs, _⟩ := l
  obtain ⟨qs, _⟩ := r
  obtain rfl : rs = qs := eq_of_parts hparts
  exact ⟨e12, e23, _, he12, he23, hl, hr⟩

theorem compose_assoc_sample :
    ∃ e12 e23 e, (⟨[⟨⟨1, 1, by decide⟩, [120, 121]⟩], by decide⟩ : StringEdit).compose
        ⟨[⟨⟨2, 4, by decide⟩, []⟩], by decide⟩ = some e12 ∧
      (⟨[⟨⟨2, 4, by decide⟩, []⟩], by decide⟩ : StringEdit).compose
        ⟨[⟨⟨0, 2, by decide⟩, [122]⟩], by decide⟩ = some e23 ∧
      e12.compose ⟨[⟨⟨0, 2, by decide⟩, [122]⟩], by decide⟩ = some e ∧
      (⟨[⟨⟨1, 1, by decide⟩, [120, 121]⟩], by decide⟩ : StringEdit).compose e23 = some e :=
  compose_assoc (s := [97, 98, 99]) (by decide) (by decide) (by decide)

end Fumie.Editor.StringEdit
