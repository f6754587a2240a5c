import Fumie.Lib.Json
import Fumie.Lib.ListChange

/-!
# Consecutive text changes made one

Two lists of changes, from a text to a second one and from there to a third, are walked
together by their positions in the middle text: what comes first is moved into the
coordinates of the other list, what overlaps is cut at the other change's ends. Then
touching changes are joined and changes that change nothing are dropped.
-/

namespace Fumie.Editor

open Fumie.Lib ListChange List

abbrev TextChange := ListChange CodeUnit

namespace TextChangeCompressor

def rebaseCurr (prevDeltaOffset : Int) (currEdit : TextChange) : TextChange :=
  ⟨currEdit.oldPosition - prevDeltaOffset, currEdit.oldText, currEdit.newPosition, currEdit.newText⟩

def rebasePrev (currDeltaOffset : Int) (prevEdit : TextChange) : TextChange :=
  ⟨prevEdit.oldPosition, prevEdit.oldText, prevEdit.newPosition + currDeltaOffset, prevEdit.newText⟩

def splitPrev (edit : TextChange) (offset : Int) : TextChange × TextChange :=
  (⟨edit.oldPosition, edit.oldText, edit.newPosition, edit.newText.take offset.toNat⟩,
    ⟨edit.oldEnd, [], edit.newPosition + offset, edit.newText.drop offset.toNat⟩)

def splitCurr (edit : TextChange) (offset : Int) : TextChange × TextChange :=
  (⟨edit.oldPosition, edit.oldText.take offset.toNat, edit.newPosition, edit.newText⟩,
    ⟨edit.oldPosition + offset, edit.oldText.drop offset.toNat, edit.newEnd, []⟩)

def mergedChange (mergePrev mergeCurr : TextChange) : TextChange :=
  ⟨mergePrev.oldPosition, mergePrev.oldText, mergeCurr.newPosition, mergeCurr.newText⟩

def delta (edit : TextChange) : Int := edit.newLength - edit.oldLength

def workLeft (prevEdits currEdits : List TextChange) : Nat :=
  prevEdits.length + currEdits.length + (prevEdits.map fun e => e.newText.length).sum +
    (currEdits.map fun e => e.oldText.length).sum

def compressLoop (prevDeltaOffset currDeltaOffset : Int) (prevEdits currEdits : List TextChange) :
    List TextChange :=
  match prevEdits, currEdits with
  | [], [] => []
  | [], currEdit :: currRest =>
    rebaseCurr prevDeltaOffset currEdit ::
      compressLoop prevDeltaOffset (currDeltaOffset + delta currEdit) [] currRest
  | prevEdit :: prevRest, [] =>
    rebasePrev currDeltaOffset prevEdit ::
      compressLoop (prevDeltaOffset + delta prevEdit) currDeltaOffset prevRest []
  | prevEdit :: prevRest, currEdit :: currRest =>
    if currEdit.oldEnd ≤ prevEdit.newPosition then
      rebaseCurr prevDeltaOffset currEdit ::
        compressLoop prevDeltaOffset (currDeltaOffset + delta currEdit) (prevEdit :: prevRest)
          currRest
    else if prevEdit.newEnd ≤ currEdit.oldPosition then
      rebasePrev currDeltaOffset prevEdit ::
        compressLoop (prevDeltaOffset + delta prevEdit) currDeltaOffset prevRest
          (currEdit :: currRest)
    else if currEdit.oldPosition < prevEdit.newPosition then
      let cut := splitCurr currEdit (prevEdit.newPosition - currEdit.oldPosition)
      rebaseCurr prevDeltaOffset cut.1 ::
        compressLoop prevDeltaOffset (currDeltaOffset + delta cut.1) (prevEdit :: prevRest)
          (cut.2 :: currRest)
    else if prevEdit.newPosition < currEdit.oldPosition then
      let cut := splitPrev prevEdit (currEdit.oldPosition - prevEdit.newPosition)
      rebasePrev currDeltaOffset cut.1 ::
        compressLoop (prevDeltaOffset + delta cut.1) currDeltaOffset (cut.2 :: prevRest)
          (currEdit :: currRest)
    else if currEdit.oldEnd = prevEdit.newEnd then
      mergedChange prevEdit currEdit ::
        compressLoop (prevDeltaOffset + delta prevEdit) (currDeltaOffset + delta currEdit) prevRest
          currRest
    else if currEdit.oldEnd < prevEdit.newEnd then
      let cut := splitPrev prevEdit currEdit.oldLength
      mergedChange cut.1 currEdit ::
        compressLoop (prevDeltaOffset + delta cut.1) (currDeltaOffset + delta currEdit) (cut.2 :: prevRest)
          currRest
    else
      let cut := splitCurr currEdit prevEdit.newLength
      mergedChange prevEdit cut.1 ::
        compressLoop (prevDeltaOffset + delta prevEdit) (currDeltaOffset + delta cut.1) prevRest
          (cut.2 :: currRest)
termination_by workLeft prevEdits currEdits
decreasing_by
  all_goals
    simp only [workLeft, map_cons, sum_cons, length_cons, map_nil, sum_nil, length_nil, splitPrev,
      splitCurr, length_drop, oldEnd, newEnd, oldLength, newLength] at *
    omega

/-- The loop of `_merge` with the change it holds. -/
def mergeFrom (prev : TextChange) : List TextChange → List TextChange
  | [] => [prev]
  | curr :: rest =>
    if prev.oldEnd = curr.oldPosition then
      mergeFrom ⟨prev.oldPosition, prev.oldText ++ curr.oldText, prev.newPosition,
        prev.newText ++ curr.newText⟩ rest
    else prev :: mergeFrom curr rest

def merge : List TextChange → List TextChange
  | [] => []
  | prev :: rest => mergeFrom prev rest

def removeNoOps (edits : List TextChange) : List TextChange :=
  edits.filter fun edit => !decide (edit.oldText = edit.newText)

def compress (prevEdits currEdits : List TextChange) : List TextChange :=
  removeNoOps (merge (compressLoop 0 0 prevEdits currEdits))

end TextChangeCompressor

def compressConsecutiveTextChanges (prevEdits : Option (List TextChange))
    (currEdits : List TextChange) : List TextChange :=
  match prevEdits with
  | none => currEdits
  | some [] => currEdits
  | some prevEdits => TextChangeCompressor.compress prevEdits currEdits

variable {o n q : Int} {s t s0 s1 s2 : JsString}
  {prevEdits currRest result prevRest currEdits edits : List TextChange}
  {currEdit prevEdit : TextChange}

namespace TextChangeCompressor

/-! ## Cut changes -/

variable {edit : TextChange} {offset : Int}

theorem splitPrev_newEnd (hpos : 0 ≤ offset) (hle : offset ≤ edit.newLength) :
    (splitPrev edit offset).1.newEnd = edit.newPosition + offset := by
  simp only [splitPrev, newEnd, newLength, length_take] at hle ⊢
  omega

theorem splitCurr_oldEnd (hpos : 0 ≤ offset) (hle : offset ≤ edit.oldLength) :
    (splitCurr edit offset).1.oldEnd = edit.oldPosition + offset := by
  simp only [splitCurr, oldEnd, oldLength, length_take] at hle ⊢
  omega

variable {rest : List TextChange}

theorem takes_splitPrev (h : Takes o n (edit :: rest) s t) (hpos : 0 ≤ offset)
    (hle : offset ≤ edit.newLength) :
    Takes o n ((splitPrev edit offset).1 :: (splitPrev edit offset).2 :: rest) s t := by
  obtain ⟨gap, s', t', rfl, rfl, hold, hnew, hrest⟩ := h
  have htaken : ((edit.newText.take offset.toNat).length : Int) = offset := by
    rw [length_take]
    rw [newLength] at hle
    omega
  have hnewEnd : (splitPrev edit offset).2.newEnd = edit.newEnd := by
    simp only [splitPrev, newEnd, newLength, length_drop] at hle ⊢
    omega
  have holdEnd : (splitPrev edit offset).2.oldEnd = edit.oldEnd := Int.add_zero _
  refine ⟨gap, s', edit.newText.drop offset.toNat ++ t', rfl, ?_, hold, hnew, [], s', t', rfl, rfl,
    ?_, ?_, ?_⟩
  · rw [splitPrev, ← append_assoc (take _ _), take_append_drop]
  · exact (Int.add_zero _).symm
  · simp only [splitPrev, newEnd, newLength, htaken, length_nil]
    omega
  · rw [holdEnd, hnewEnd]
    exact hrest

theorem takes_splitCurr (h : Takes o n (edit :: rest) s t) (hpos : 0 ≤ offset)
    (hle : offset ≤ edit.oldLength) :
    Takes o n ((splitCurr edit offset).1 :: (splitCurr edit offset).2 :: rest) s t := by
  have hflip : Takes n o (edit.flip :: rest.map ListChange.flip) t s := h.flip
  have hsplit := takes_splitPrev hflip hpos hle
  have hback := hsplit.flip
  rw [map_cons, map_cons, map_map,
    Function.Involutive.comp_self (f := ListChange.flip) fun c => rfl, map_id] at hback
  exact hback

/-! ## One step of the loop -/

theorem takes_acceptCurr (hprev : Takes o q prevEdits s0 s1)
    (hcurr : Takes q n (currEdit :: currRest) s1 s2)
    (hfirst : ∀ e ∈ prevEdits.head?, currEdit.oldEnd ≤ e.newPosition)
    (hrest : ∀ o' q' n' r0 r1 r2, q - o = q' - o' → n - q + delta currEdit = n' - q' →
      Takes o' q' prevEdits r0 r1 → Takes q' n' currRest r1 r2 → Takes o' n' result r0 r2) :
    Takes o n (rebaseCurr (q - o) currEdit :: result) s0 s2 := by
  obtain ⟨gap, r1, r2, rfl, rfl, hold, hnew, hrest'⟩ := hcurr
  have hend : currEdit.oldEnd = q + (gap ++ currEdit.oldText).length := by
    rw [oldEnd, oldLength, hold, length_append, Nat.cast_add, Int.add_assoc]
  rw [← append_assoc] at hprev
  obtain ⟨r0, rfl, hprev'⟩ := hprev.split (by
    intro e he
    rw [← hend]
    exact hfirst e he)
  have hrebased : (rebaseCurr (q - o) currEdit).oldEnd = o + (gap ++ currEdit.oldText).length := by
    simp only [oldEnd, oldLength, rebaseCurr, hold, length_append, Nat.cast_add]
    omega
  refine ⟨gap, r0, r2, append_assoc .., rfl, ?_, hnew, ?_⟩
  · simp only [rebaseCurr, hold]
    omega
  · rw [hrebased]
    refine hrest _ _ _ r0 r1 r2 ?_ ?_ hprev' ?_
    · omega
    · rw [← hend]
      simp only [rebaseCurr, delta, newEnd, oldEnd, oldLength, newLength, hold, hnew]
      omega
    · rw [← hend]
      exact hrest'

theorem takes_acceptPrev (hprev : Takes o q (prevEdit :: prevRest) s0 s1)
    (hcurr : Takes q n currEdits s1 s2)
    (hfirst : ∀ e ∈ currEdits.head?, prevEdit.newEnd ≤ e.oldPosition)
    (hrest : ∀ o' q' n' r0 r1 r2, q - o + delta prevEdit = q' - o' → n - q = n' - q' →
      Takes o' q' prevRest r0 r1 → Takes q' n' currEdits r1 r2 → Takes o' n' result r0 r2) :
    Takes o n (rebasePrev (n - q) prevEdit :: result) s0 s2 := by
  obtain ⟨gap, r0, r1, rfl, rfl, hold, hnew, hrest'⟩ := hprev
  have hend : prevEdit.newEnd = q + (gap ++ prevEdit.newText).length := by
    rw [newEnd, newLength, hnew, length_append, Nat.cast_add, Int.add_assoc]
  rw [← append_assoc] at hcurr
  obtain ⟨r2, rfl, hcurr'⟩ := hcurr.split_old (by
    intro e he
    rw [← hend]
    exact hfirst e he)
  have hrebased : (rebasePrev (n - q) prevEdit).newEnd = n + (gap ++ prevEdit.newText).length := by
    simp only [newEnd, newLength, rebasePrev, hnew, length_append, Nat.cast_add]
    omega
  refine ⟨gap, r0, r2, rfl, append_assoc .., hold, ?_, ?_⟩
  · simp only [rebasePrev, hnew]
    omega
  · rw [hrebased]
    refine hrest _ _ _ r0 r1 r2 ?_ ?_ ?_ hcurr'
    · rw [← hend]
      simp only [rebasePrev, delta, newEnd, oldEnd, oldLength, newLength, hold, hnew]
      omega
    · omega
    · rw [← hend]
      exact hrest'

theorem takes_mergedChange (hprev : Takes o q (prevEdit :: prevRest) s0 s1)
    (hcurr : Takes q n (currEdit :: currRest) s1 s2)
    (hstart : prevEdit.newPosition = currEdit.oldPosition)
    (hend : prevEdit.newEnd = currEdit.oldEnd)
    (hrest : ∀ o' q' n' r0 r1 r2, q - o + delta prevEdit = q' - o' →
      n - q + delta currEdit = n' - q' → Takes o' q' prevRest r0 r1 →
      Takes q' n' currRest r1 r2 → Takes o' n' result r0 r2) :
    Takes o n (mergedChange prevEdit currEdit :: result) s0 s2 := by
  obtain ⟨gap, r0, r1, rfl, hmiddle, hold, hnew, hprev'⟩ := hprev
  obtain ⟨gap', r1', r2, hmiddle', rfl, hold', hnew', hcurr'⟩ := hcurr
  have hgaps : gap.length = gap'.length := by omega
  have htexts : prevEdit.newText.length = currEdit.oldText.length := by
    simp only [newEnd, oldEnd, newLength, oldLength] at hend
    omega
  rw [hmiddle] at hmiddle'
  obtain ⟨rfl, hbehind⟩ := append_inj hmiddle' hgaps
  obtain ⟨-, rfl⟩ := append_inj hbehind htexts
  refine ⟨gap, r0, r2, rfl, rfl, hold, hnew', hrest _ prevEdit.newEnd _ r0 r1 r2 ?_ ?_ hprev' ?_⟩
  · simp only [mergedChange, delta, newEnd, oldEnd, oldLength, newLength, hold, hnew]
    omega
  · rw [hend]
    simp only [mergedChange, delta, newEnd, oldEnd, oldLength, newLength, hold', hnew']
    omega
  · rw [hend]
    exact hcurr'

theorem takes_compressLoop (hprev : Takes o q prevEdits s0 s1) (hcurr : Takes q n currEdits s1 s2) :
    Takes o n (compressLoop (q - o) (n - q) prevEdits currEdits) s0 s2 := by
  induction hwork : workLeft prevEdits currEdits using Nat.strongRecOn
    generalizing o q n prevEdits currEdits s0 s1 s2 with
  | _ work ih =>
    have hnext {p c : Int} {prevs currs : List TextChange} (hlt : workLeft prevs currs < work)
        (o q n : Int) (r0 r1 r2 : JsString) (ho : p = q - o) (hn : c = n - q)
        (hp : Takes o q prevs r0 r1) (hc : Takes q n currs r1 r2) :
        Takes o n (compressLoop p c prevs currs) r0 r2 := by
      subst ho hn
      exact ih _ hlt hp hc rfl
    cases prevEdits with
    | nil =>
      cases currEdits with
      | nil =>
        cases hprev
        rw [compressLoop]
        exact hcurr
      | cons currEdit currRest =>
        rw [compressLoop]
        refine takes_acceptCurr hprev hcurr nofun (hnext ?_)
        rw [← hwork]
        simp only [workLeft, map_cons, sum_cons, length_cons]
        omega
    | cons prevEdit prevRest =>
      cases currEdits with
      | nil =>
        rw [compressLoop]
        refine takes_acceptPrev hprev hcurr nofun (hnext ?_)
        rw [← hwork]
        simp only [workLeft, map_cons, sum_cons, length_cons]
        omega
      | cons currEdit currRest =>
        have hwhole : compressLoop (q - o) (n - q) (prevEdit :: prevRest) (currEdit :: currRest) = _ :=
          compressLoop.eq_4 ..
        rw [hwhole]
        simp only [workLeft, map_cons, sum_cons, length_cons] at hwork
        by_cases hcurrFirst : currEdit.oldEnd ≤ prevEdit.newPosition
        · rw [if_pos hcurrFirst]
          refine takes_acceptCurr hprev hcurr ?_ (hnext ?_)
          · intro e he
            cases he
            exact hcurrFirst
          · simp only [workLeft, map_cons, sum_cons, length_cons]
            omega
        rw [if_neg hcurrFirst]
        by_cases hprevFirst : prevEdit.newEnd ≤ currEdit.oldPosition
        · rw [if_pos hprevFirst]
          refine takes_acceptPrev hprev hcurr ?_ (hnext ?_)
          · intro e he
            cases he
            exact hprevFirst
          · simp only [workLeft, map_cons, sum_cons, length_cons]
            omega
        rw [if_neg hprevFirst]
        simp only [oldEnd, newEnd, Int.not_le] at hcurrFirst hprevFirst
        by_cases hcutCurr : currEdit.oldPosition < prevEdit.newPosition
        · -- the part of the current change in front of the previous one goes first
          have hpos : 0 ≤ prevEdit.newPosition - currEdit.oldPosition := by omega
          have hle : prevEdit.newPosition - currEdit.oldPosition ≤ currEdit.oldLength := by omega
          rw [if_pos hcutCurr]
          refine takes_acceptCurr hprev (takes_splitCurr hcurr hpos hle) ?_ (hnext ?_)
          · intro e he
            cases he
            rw [splitCurr_oldEnd hpos hle]
            omega
          · simp only [workLeft, map_cons, sum_cons, length_cons, splitCurr,
              length_drop, oldLength] at hcurrFirst ⊢
            omega
        rw [if_neg hcutCurr]
        by_cases hcutPrev : prevEdit.newPosition < currEdit.oldPosition
        · have hpos : 0 ≤ currEdit.oldPosition - prevEdit.newPosition := by omega
          have hle : currEdit.oldPosition - prevEdit.newPosition ≤ prevEdit.newLength := by omega
          rw [if_pos hcutPrev]
          refine takes_acceptPrev (takes_splitPrev hprev hpos hle) hcurr ?_ (hnext ?_)
          · intro e he
            cases he
            rw [splitPrev_newEnd hpos hle]
            omega
          · simp only [workLeft, map_cons, sum_cons, length_cons, splitPrev,
              length_drop, newLength] at hprevFirst ⊢
            omega
        rw [if_neg hcutPrev]
        -- both begin at the same position
        have hstart : prevEdit.newPosition = currEdit.oldPosition := by omega
        by_cases hboth : currEdit.oldEnd = prevEdit.newEnd
        · rw [if_pos hboth]
          refine takes_mergedChange hprev hcurr hstart hboth.symm (hnext ?_)
          simp only [workLeft]
          omega
        rw [if_neg hboth]
        by_cases hshort : currEdit.oldEnd < prevEdit.newEnd
        · have hpos : 0 ≤ currEdit.oldLength := Int.natCast_nonneg _
          have hle : currEdit.oldLength ≤ prevEdit.newLength := by
            simp only [oldEnd, newEnd] at hshort
            omega
          rw [if_pos hshort]
          refine takes_mergedChange (takes_splitPrev hprev hpos hle) hcurr hstart ?_ (hnext ?_)
          · rw [splitPrev_newEnd hpos hle, hstart]
            rfl
          · simp only [workLeft, map_cons, sum_cons, length_cons, splitPrev, length_drop]
            omega
        · have hpos : 0 ≤ prevEdit.newLength := Int.natCast_nonneg _
          have hle : prevEdit.newLength ≤ currEdit.oldLength := by
            simp only [oldEnd, newEnd] at hshort
            omega
          rw [if_neg hshort]
          refine takes_mergedChange hprev (takes_splitCurr hcurr hpos hle) hstart ?_ (hnext ?_)
          · rw [splitCurr_oldEnd hpos hle, ← hstart]
            rfl
          · simp only [workLeft, map_cons, sum_cons, length_cons, splitCurr, length_drop]
            omega

/-! ## Joining and dropping changes -/

theorem takes_mergeFrom {prev : TextChange} (h : Takes o n (prev :: edits) s t) :
    Takes o n (mergeFrom prev edits) s t := by
  induction edits generalizing o n prev s t with
  | nil => exact h
  | cons curr rest ih =>
    obtain ⟨gap, s', t', rfl, rfl, hold, hnew, gap', s'', t'', rfl, rfl, hold', hnew', hrest⟩ := h
    rw [mergeFrom]
    split
    · next htouch =>
      -- the changes touch, so there is nothing between them
      have hgap : gap' = [] := eq_nil_of_length_eq_zero (by omega)
      subst hgap
      have hjoined : Takes o n (⟨prev.oldPosition, prev.oldText ++ curr.oldText, prev.newPosition,
          prev.newText ++ curr.newText⟩ :: rest) (gap ++ (prev.oldText ++ (curr.oldText ++ s'')))
          (gap ++ (prev.newText ++ (curr.newText ++ t''))) := by
        refine ⟨gap, s'', t'', ?_, ?_, hold, hnew, ?_⟩
        · rw [append_assoc]
        · rw [append_assoc]
        · have holdEnd : curr.oldEnd = prev.oldPosition + (prev.oldText ++ curr.oldText).length := by
            rw [oldEnd, hold', oldEnd, oldLength, oldLength, length_append, length_nil]
            omega
          have hnewEnd : curr.newEnd = prev.newPosition + (prev.newText ++ curr.newText).length := by
            rw [newEnd, hnew', newEnd, newLength, newLength, length_append, length_nil]
            omega
          rw [holdEnd, hnewEnd] at hrest
          exact hrest
      exact ih hjoined
    · exact ⟨gap, _, _, rfl, rfl, hold, hnew, ih ⟨gap', s'', t'', rfl, rfl, hold', hnew', hrest⟩⟩

theorem takes_merge (h : Takes o n edits s t) : Takes o n (merge edits) s t := by
  cases edits with
  | nil => exact h
  | cons prev rest => exact takes_mergeFrom h

theorem takes_removeNoOps (h : Takes o n edits s t) : Takes o n (removeNoOps edits) s t := by
  induction edits generalizing o n s t with
  | nil => exact h
  | cons edit rest ih =>
    obtain ⟨gap, s', t', rfl, rfl, hold, hnew, hrest⟩ := h
    have hkept := ih hrest
    by_cases hsame : edit.oldText = edit.newText
    · rw [removeNoOps, filter_cons_of_neg (by simp [hsame])]
      rw [removeNoOps] at hkept
      rw [← append_assoc, ← append_assoc, hsame]
      refine Takes.extend _ ?_
      have hold' : edit.oldEnd = o + (gap ++ edit.newText).length := by
        rw [oldEnd, oldLength, hsame, hold, length_append, Nat.cast_add, Int.add_assoc]
      have hnew' : edit.newEnd = n + (gap ++ edit.newText).length := by
        rw [newEnd, newLength, hnew, length_append, Nat.cast_add, Int.add_assoc]
      rw [← hold', ← hnew']
      exact hkept
    · rw [removeNoOps, filter_cons_of_pos (by simp [hsame])]
      exact ⟨gap, s', t', rfl, rfl, hold, hnew, hkept⟩

theorem takes_compress (hprev : Takes 0 0 prevEdits s0 s1) (hcurr : Takes 0 0 currEdits s1 s2) :
    Takes 0 0 (compress prevEdits currEdits) s0 s2 :=
  takes_removeNoOps (takes_merge (takes_compressLoop hprev hcurr))

end TextChangeCompressor

theorem takes_compressConsecutiveTextChanges (hprev : Takes 0 0 prevEdits s0 s1)
    (hcurr : Takes 0 0 currEdits s1 s2) :
    Takes 0 0 (compressConsecutiveTextChanges (some prevEdits) currEdits) s0 s2 := by
  cases prevEdits with
  | nil =>
    cases hprev
    exact hcurr
  | cons prevEdit prevRest => exact TextChangeCompressor.takes_compress hprev hcurr

end Fumie.Editor
