import Fumie.Editor.Edits.LineEditOffsets

/-!
# Line edits of text edits

Replacements that share a line are joined to one, which becomes a replacement of the lines
it touches; a first or last line that stays as it is is left out again.
-/

namespace Fumie.Editor

open Fumie.Lib Fumie.Base PositionOffsetTransformer List Option

namespace TextReplacement

def joinedText (initialValue : JsString) : List TextReplacement → Option JsString
  | [] => some []
  | [r] => some r.text
  | r :: next :: rs =>
    (getValueOfRange initialValue (rangeOf r.stop next.start)).bind fun gapText =>
      (joinedText initialValue (next :: rs)).map fun rest => r.text ++ (gapText ++ rest)

def joinReplacements (initialValue : JsString) : List TextReplacement → Option TextReplacement
  | [] => none
  | [r] => some r
  | r :: next :: rs =>
    (joinedText initialValue (r :: next :: rs)).map fun newText =>
      ⟨rangeOf r.start (rs.getLastD next).stop, newText⟩

end TextReplacement

variable (startBeforeNewLine : Bool) (text : JsString) (endAfterNewLine : Bool)
  (survivingFirstLineText survivingEndLineText : JsString) (startLineNumber endLineNumberEx : Nat)

namespace LineReplacement

def prependToFirst (newLines : List JsString) : List JsString :=
  (text ++ newLines.headD []) :: newLines.tail

def appendToLast (newLines : List JsString) : List JsString :=
  newLines.dropLast ++ [newLines.getLastD [] ++ text]

def trimStart (newLines : List JsString) : Nat × List JsString :=
  if startBeforeNewLine = true ∧ (newLines.headD []).length = survivingFirstLineText.length then
    (startLineNumber + 1, newLines.tail)
  else (startLineNumber, newLines)

def trimEnd (newLines : List JsString) : Nat × List JsString :=
  if newLines ≠ [] ∧ startLineNumber < endLineNumberEx ∧ endAfterNewLine = true ∧
      (newLines.getLastD []).length = survivingEndLineText.length then
    (endLineNumberEx - 1, newLines.dropLast)
  else (endLineNumberEx, newLines)

def trimmed (newLines : List JsString) : Option LineReplacement :=
  let start := trimStart startBeforeNewLine survivingFirstLineText startLineNumber newLines
  let stop := trimEnd endAfterNewLine survivingEndLineText start.1 endLineNumberEx start.2
  (LineRange.new start.1 stop.1).map fun lineRange => ⟨lineRange, stop.2⟩

def fromSingleTextEdit (edit : TextReplacement) (initialValue : JsString) :
    Option LineReplacement :=
  (getValueOfRange initialValue (rangeOf ⟨edit.start.lineNumber, 1⟩ edit.start)).bind
    fun survivingFirstLineText =>
      (getValueOfRange initialValue (rangeOf edit.stop ⟨edit.stop.lineNumber,
        getLineLength initialValue edit.stop.lineNumber + 1⟩)).bind fun survivingEndLineText =>
          trimmed (edit.start.column = getLineLength initialValue edit.start.lineNumber + 1)
            (edit.stop.column = 1) survivingFirstLineText survivingEndLineText
            edit.start.lineNumber (edit.stop.lineNumber + 1)
            (appendToLast survivingEndLineText
              (prependToFirst survivingFirstLineText (textLines edit.text)))

end LineReplacement

namespace LineEdit

def fromLoop (initialValue : JsString) (currentEdits : List TextReplacement) :
    List TextReplacement → Option (List LineReplacement)
  | [] => some []
  | edit :: rest =>
    if rest.head?.any fun next => next.start.lineNumber = edit.stop.lineNumber then
      fromLoop initialValue (currentEdits ++ [edit]) rest
    else
      (TextReplacement.joinReplacements initialValue (currentEdits ++ [edit])).bind fun singleEdit =>
        (LineReplacement.fromSingleTextEdit singleEdit initialValue).bind fun singleLineEdit =>
          (fromLoop initialValue [] rest).map (singleLineEdit :: ·)

def fromTextEdit (edit : TextEdit) (initialValue : JsString) : Option LineEdit :=
  (fromLoop initialValue [] edit.replacements).bind new

end LineEdit

/-! ## Joining replacements -/

variable {current rest : List TextReplacement} {newLines first : List JsString}

namespace TextEdit

theorem getValueOfRange_rangeOf {whole front mid : JsString} {p q : Position}
    (hp : Marks whole front p) (hq : Marks whole (front ++ mid) q) :
    getValueOfRange whole (rangeOf p q) = some mid := by
  rw [rangeOf_eq (isBeforeOrEqual_of_marks hp hq), getValueOfRange_of_marks hp hq]

theorem joinReplacements_turns {whole front s t : JsString} {r : TextReplacement}
    (h : TurnsAt whole front (r :: current ++ rest) s t) :
    ∃ text old gap s' t', TextReplacement.joinedText whole (r :: current) = some text ∧
      s = gap ++ (old ++ s') ∧ t = gap ++ (text ++ t') ∧ Marks whole (front ++ gap) r.start ∧
      Marks whole (front ++ (gap ++ old)) (current.getLastD r).stop ∧
      TurnsAt whole (front ++ (gap ++ old)) rest s' t' := by
  induction current generalizing r front s t with
  | nil =>
    obtain ⟨gap, old, s', t', hs, ht, hstart, hstop, hrest⟩ := h
    exact ⟨r.text, old, gap, s', t', rfl, hs, ht, hstart, hstop, hrest⟩
  | cons next current ih =>
    obtain ⟨gap, old, s', t', rfl, rfl, hstart, hstop, hrest⟩ := h
    obtain ⟨text, old', gap', s'', t'', htext, rfl, rfl, hstart', hstop', hrest'⟩ := ih hrest
    have hassoc : front ++ (gap ++ old) ++ (gap' ++ old') =
        front ++ (gap ++ (old ++ (gap' ++ old'))) := by
      simp only [append_assoc]
    rw [hassoc] at hstop' hrest'
    refine ⟨r.text ++ (gap' ++ text), old ++ (gap' ++ old'), gap, s'', t'', ?_, ?_, ?_, hstart,
      ?_, hrest'⟩
    · rw [TextReplacement.joinedText, getValueOfRange_rangeOf hstop hstart', bind_some, htext,
        map_some]
    · simp only [append_assoc]
    · simp only [append_assoc]
    · rw [getLastD_cons]
      exact hstop'

theorem joinReplacements_spec {whole front s t : JsString} {edit : TextReplacement}
    (h : TurnsAt whole front (current ++ edit :: rest) s t) :
    ∃ single, TextReplacement.joinReplacements whole (current ++ [edit]) = some single ∧
      single.stop = edit.stop ∧ TurnsAt whole front (single :: rest) s t := by
  cases current with
  | nil => exact ⟨edit, rfl, rfl, h⟩
  | cons r current =>
    have hlist : r :: current ++ edit :: rest = r :: (current ++ [edit]) ++ rest := by
      simp only [cons_append, append_assoc, nil_append]
    rw [hlist] at h
    obtain ⟨text, old, gap, s', t', htext, hs, ht, hstart, hstop, hrest⟩ := joinReplacements_turns h
    rw [getLastD_concat] at hstop
    have hbefore : r.start.isBeforeOrEqual edit.stop = true := by
      rw [← append_assoc] at hstop
      exact isBeforeOrEqual_of_marks hstart hstop
    refine ⟨⟨Range.between r.start edit.stop, text⟩, ?_, rfl, gap, old, s', t', hs, ht, hstart, hstop,
      hrest⟩
    rw [cons_append]
    cases hcurrent : current ++ [edit] with
    | nil => exact absurd hcurrent (append_ne_nil_of_right_ne_nil _ (cons_ne_nil _ _))
    | cons next others =>
      have hlast : others.getLastD next = edit := by
        rw [← getLastD_cons (a := edit), ← hcurrent, getLastD_concat]
      rw [hcurrent] at htext
      rw [TextReplacement.joinReplacements, htext, map_some, hlast, rangeOf_eq hbefore]

end TextEdit

/-! ## Trimming -/

namespace LineReplacement

theorem trimStart_spec {startBefore : Bool} {u u' k : JsString} {mid : List JsString}
    (startLine : Nat) (hmid : mid.head? = some (u ++ u')) (hbefore : startBefore = true ↔ u' = [])
    (hnew : newLines.head? = some (u ++ k)) :
    ∃ kept old new', mid = kept ++ old ∧ newLines = kept ++ new' ∧
      trimStart startBefore u startLine newLines = (startLine + kept.length, new') := by
  rw [trimStart]
  split_ifs with htrim
  · obtain ⟨hstart, hlength⟩ := htrim
    obtain rfl := hbefore.mp hstart
    cases newLines with
    | nil => cases hnew
    | cons first others =>
      cases hnew
      have hk : (u ++ k).length = u.length := hlength
      rw [length_append] at hk
      obtain rfl := eq_nil_of_length_eq_zero (by omega : k.length = 0)
      cases mid with
      | nil => cases hmid
      | cons line old =>
        cases hmid
        exact ⟨[u ++ []], old, others, rfl, rfl, rfl⟩
  · exact ⟨[], mid, newLines, rfl, rfl, rfl⟩

theorem trimEnd_spec {endAfter : Bool} {z v : JsString} {old : List JsString}
    {startLine endLine : Nat} (hold : ∀ line ∈ old.getLast?, line = z ++ v)
    (hafter : endAfter = true ↔ z = []) (hnew : ∀ line ∈ newLines.getLast?, ∃ k, line = k ++ v)
    (hlength : endLine = startLine + old.length) :
    ∃ kept old' new', old = old' ++ kept ∧ newLines = new' ++ kept ∧
      trimEnd endAfter v startLine endLine newLines = (startLine + old'.length, new') := by
  rw [trimEnd]
  split_ifs with htrim
  · obtain ⟨hne, hlt, hend, hlast⟩ := htrim
    obtain rfl := hafter.mp hend
    have hpos : old ≠ [] := by
      rintro rfl
      rw [length_nil] at hlength
      omega
    obtain ⟨old', line, rfl⟩ : ∃ old' line, old = old' ++ [line] :=
      ⟨_, _, (dropLast_append_getLast hpos).symm⟩
    obtain ⟨new', line', rfl⟩ : ∃ new' line', newLines = new' ++ [line'] :=
      ⟨_, _, (dropLast_append_getLast hne).symm⟩
    have hline : line = [] ++ v := hold line (by rw [getLast?_concat]; rfl)
    obtain ⟨k, rfl⟩ := hnew line' (by rw [getLast?_concat]; rfl)
    rw [getLastD_concat, length_append] at hlast
    obtain rfl := eq_nil_of_length_eq_zero (by omega : k.length = 0)
    refine ⟨[[] ++ v], old', new', by rw [hline], rfl, ?_⟩
    rw [dropLast_concat, hlength, length_append, length_singleton]
    rfl
  · refine ⟨[], old, newLines, (append_nil _).symm, (append_nil _).symm, ?_⟩
    rw [hlength]

theorem trimmed_spec {startBefore endAfter : Bool} {u u' k z v k' : JsString}
    {mid newLines : List JsString} {startLine endLine : Nat} (hmid : mid.head? = some (u ++ u'))
    (hbefore : startBefore = true ↔ u' = []) (hnew : newLines.head? = some (u ++ k))
    (hmidLast : mid.getLast? = some (z ++ v)) (hafter : endAfter = true ↔ z = [])
    (hnewLast : newLines.getLast? = some (k' ++ v)) (hlength : endLine = startLine + mid.length) :
    ∃ kept old kept' r, mid = kept ++ (old ++ kept') ∧ newLines = kept ++ (r.newLines ++ kept') ∧
      trimmed startBefore endAfter u v startLine endLine newLines = some r ∧
      r.lineRange.startLineNumber = startLine + kept.length ∧
      r.lineRange.endLineNumberExclusive = r.lineRange.startLineNumber + old.length := by
  obtain ⟨kept, old, new', rfl, rfl, hstart⟩ := trimStart_spec startLine hmid hbefore hnew
  have hold : ∀ line ∈ old.getLast?, line = z ++ v := by
    intro line hline
    have hne : old ≠ [] := by
      rintro rfl
      cases hline
    rw [getLast?_append_of_ne_nil _ hne, Option.mem_def.mp hline] at hmidLast
    exact Option.some.inj hmidLast
  have hnew' : ∀ line ∈ new'.getLast?, ∃ k, line = k ++ v := by
    intro line hline
    have hne : new' ≠ [] := by
      rintro rfl
      cases hline
    rw [getLast?_append_of_ne_nil _ hne, Option.mem_def.mp hline] at hnewLast
    exact ⟨k', Option.some.inj hnewLast⟩
  have hlength' : endLine = startLine + kept.length + old.length := by
    rw [hlength, length_append, Nat.add_assoc]
  obtain ⟨kept', old', new'', rfl, rfl, hend⟩ := trimEnd_spec hold hafter hnew' hlength'
  refine ⟨kept, old', kept', ⟨⟨startLine + kept.length, startLine + kept.length + old'.length,
    Nat.le_add_right _ _⟩, new''⟩, rfl, rfl, ?_, rfl, rfl⟩
  rw [trimmed, hstart]
  rw [hend, LineRange.new, dif_pos (Nat.le_add_right _ _), map_some]

theorem newLines_spec {u v : JsString} {lines : List JsString} (hne : lines ≠ []) :
    (∃ k, (appendToLast v (prependToFirst u lines)).head? = some (u ++ k)) ∧
    (∃ k, (appendToLast v (prependToFirst u lines)).getLast? = some (k ++ v)) ∧
    joinLines (appendToLast v (prependToFirst u lines)) = u ++ (joinLines lines ++ v) ∧
    (IsLine u → IsLine v → (∀ x ∈ lines, IsLine x) →
      ∀ x ∈ appendToLast v (prependToFirst u lines), IsLine x) := by
  cases lines with
  | nil => exact absurd rfl hne
  | cons first others =>
    have hprepended : prependToFirst u (first :: others) = (u ++ first) :: others := rfl
    rw [hprepended]
    by_cases hothers : others = []
    · subst hothers
      have happended : appendToLast v [u ++ first] = [u ++ first ++ v] := rfl
      rw [happended]
      refine ⟨⟨first ++ v, by rw [append_assoc]; rfl⟩, ⟨u ++ first, rfl⟩, ?_,
        fun hu hv hlines x hx => ?_⟩
      · simp only [joinLines, openedLines_nil, append_nil, append_assoc]
      · obtain rfl := mem_singleton.mp hx
        exact isLine_append.mpr ⟨isLine_append.mpr ⟨hu, hlines first mem_cons_self⟩, hv⟩
    · obtain ⟨middle, last, rfl⟩ : ∃ middle last, others = middle ++ [last] :=
        ⟨_, _, (dropLast_append_getLast hothers).symm⟩
      have happended : appendToLast v ((u ++ first) :: (middle ++ [last])) =
          (u ++ first) :: (middle ++ [last ++ v]) := by
        rw [appendToLast, ← cons_append, dropLast_concat, getLastD_concat, cons_append]
      rw [happended]
      refine ⟨⟨first, rfl⟩, ⟨last, ?_⟩, ?_, fun hu hv hlines x hx => ?_⟩
      · rw [← cons_append, getLast?_concat]
      · rw [joinLines, joinLines, openedLines_append, openedLines_append]
        simp only [openedLines_cons, joinLines, openedLines_nil, append_nil,
          append_assoc, cons_append]
      · rcases mem_cons.mp hx with rfl | hx
        · exact isLine_append.mpr ⟨hu, hlines first mem_cons_self⟩
        · rcases mem_append.mp hx with hx | hx
          · exact hlines x (mem_cons_of_mem _ (mem_append_left _ hx))
          · obtain rfl := mem_singleton.mp hx
            refine isLine_append.mpr ⟨hlines last ?_, hv⟩
            exact mem_cons_of_mem _ (mem_append_right _ (mem_singleton.mpr rfl))

/-! ## The lines a replacement touches -/

theorem touched_lines {lines : List JsString} {gap old rest : JsString} (hne : lines ≠ [])
    (h : joinLines lines = gap ++ (old ++ rest)) :
    ∃ front first mid back u u' z v, lines = front ++ (mid ++ back) ∧
      mid = first ++ [z ++ v] ∧ mid.head? = some (u ++ u') ∧ gap = closedLines front ++ u ∧
      u ++ old = closedLines first ++ z ∧ rest = v ++ openedLines back := by
  obtain ⟨front, u, u', back, hlines, hgap, hrest⟩ := cut_joinLines hne h
  have hrest' : joinLines (u' :: back) = old ++ rest := hrest.symm
  obtain ⟨inner, w, v, back', hinner, hold, hback⟩ := cut_joinLines (cons_ne_nil u' back) hrest'
  cases inner with
  | nil =>
    obtain ⟨rfl, rfl⟩ := cons.inj hinner
    refine ⟨front, [], [u ++ w ++ v], back, u, w ++ v, u ++ w, v, ?_, rfl, ?_, hgap, ?_, hback⟩
    · rw [hlines, append_assoc u]
      rfl
    · rw [append_assoc]
      rfl
    · rw [hold]
      rfl
  | cons first inner =>
    obtain ⟨rfl, rfl⟩ := cons.inj hinner
    refine ⟨front, (u ++ u') :: inner, (u ++ u') :: (inner ++ [w ++ v]), back', u, u', w, v, ?_,
      rfl, rfl, hgap, ?_, hback⟩
    · rw [hlines, cons_append, append_assoc, singleton_append]
      rfl
    · rw [hold, closedLines_cons, closedLines_cons]
      simp only [append_assoc, cons_append]

theorem fromSingleTextEdit_spec {front mid back : List JsString} {u u' z v old : JsString}
    {edit : TextReplacement} (h : ∀ x ∈ front ++ (mid ++ back), IsLine x)
    (hmid : mid = first ++ [z ++ v]) (hhead : mid.head? = some (u ++ u'))
    (hold : u ++ old = closedLines first ++ z)
    (hstart : Marks (joinLines (front ++ (mid ++ back))) (closedLines front ++ u) edit.start)
    (hstop : Marks (joinLines (front ++ (mid ++ back))) (closedLines front ++ (u ++ old))
      edit.stop) :
    ∃ kept inner kept' r, fromSingleTextEdit edit (joinLines (front ++ (mid ++ back))) = some r ∧
      mid = kept ++ (inner ++ kept') ∧
      appendToLast v (prependToFirst u (textLines edit.text)) = kept ++ (r.newLines ++ kept') ∧
      r.lineRange.startLineNumber = front.length + 1 + kept.length ∧
      r.lineRange.endLineNumberExclusive = r.lineRange.startLineNumber + inner.length := by
  have hmidNe : mid ≠ [] := by
    rw [hmid]
    exact append_ne_nil_of_right_ne_nil _ (cons_ne_nil _ _)
  obtain ⟨others, hothers⟩ : ∃ others, mid = (u ++ u') :: others := head?_eq_some_iff.mp hhead
  have hmidLine : ∀ x ∈ mid, IsLine x := fun x hx => h x (mem_append_right _ (mem_append_left _ hx))
  have hfirstLine : IsLine (u ++ u') := hmidLine _ (by rw [hothers]; exact mem_cons_self)
  have hlastLine : IsLine (z ++ v) := hmidLine _ (by
    rw [hmid]
    exact mem_append_right _ (mem_singleton.mpr rfl))
  have hstartPos : edit.start = ⟨front.length + 1, u.length + 1⟩ := by
    rw [hstart.2.1, Position.walk_append, walk_closedLines fun x hx => h x (mem_append_left _ hx),
      walk_line (isLine_append.mp hfirstLine).1.1, Position.mk.injEq]
    dsimp only
    exact ⟨by omega, by omega⟩
  have hfrontFirst : ∀ x ∈ front ++ first, IsLine x := fun x hx => by
    rcases List.mem_append.mp hx with hx | hx
    · exact h x (mem_append_left _ hx)
    · exact hmidLine x (by rw [hmid]; exact mem_append_left _ hx)
  have hstopPos : edit.stop = ⟨(front ++ mid).length, z.length + 1⟩ := by
    rw [hstop.2.1, hold, ← append_assoc, ← closedLines_append, Position.walk_append,
      walk_closedLines hfrontFirst, walk_line (isLine_append.mp hlastLine).1.1,
      Position.mk.injEq, hmid]
    simp only [length_append, length_singleton]
    exact ⟨by omega, by omega⟩
  -- what stays of the first line and of the last one
  have hlineStart := LineEdit.marks_lineStart h (append_ne_nil_of_left_ne_nil hmidNe back)
  have hfirstText := TextEdit.getValueOfRange_rangeOf hlineStart hstart
  have hjoinMid : joinLines mid = u ++ old ++ v := by
    rw [hold, hmid, joinLines_front first (cons_ne_nil _ _), joinLines, openedLines_nil,
      append_nil, append_assoc]
  have hassoc : front ++ mid ++ back = front ++ (mid ++ back) := append_assoc ..
  have hlineEnd := @LineEdit.marks_lineEnd (front ++ mid) back (by rw [hassoc]; exact h)
    (append_ne_nil_of_right_ne_nil _ hmidNe)
  have hjoinFront : joinLines (front ++ mid) = closedLines front ++ (u ++ old) ++ v := by
    rw [joinLines_front front hmidNe, hjoinMid, append_assoc (closedLines front)]
  rw [hassoc, hjoinFront] at hlineEnd
  have hlastText := TextEdit.getValueOfRange_rangeOf hstop hlineEnd
  have hlineLength : getLineLength (joinLines (front ++ (mid ++ back))) (front.length + 1) =
      (u ++ u').length := by
    rw [hothers] at h ⊢
    exact getLineLength_joinLines h
  obtain ⟨⟨k, hk⟩, ⟨k', hk'⟩, -, -⟩ := @newLines_spec u v _ (textLines_ne_nil edit.text)
  have hmidLast : mid.getLast? = some (z ++ v) := by
    rw [hmid, getLast?_concat]
  have hbefore : decide (edit.start.column =
      getLineLength (joinLines (front ++ (mid ++ back))) edit.start.lineNumber + 1) = true ↔
        u' = [] := by
    rw [decide_eq_true_eq, hstartPos, hlineLength, length_append, ← length_eq_zero_iff]
    dsimp only
    omega
  have hafter : decide (edit.stop.column = 1) = true ↔ z = [] := by
    rw [decide_eq_true_eq, hstopPos, ← length_eq_zero_iff]
    dsimp only
    omega
  obtain ⟨kept, inner, kept', r, hsplit, hsplitNew, htrimmed, hrStart, hrEnd⟩ :=
    @trimmed_spec _ _ u u' k z v k' mid _ edit.start.lineNumber (edit.stop.lineNumber + 1) hhead
      hbefore hk hmidLast hafter hk' (by
        rw [hstartPos, hstopPos, length_append]
        dsimp only
        omega)
  refine ⟨kept, inner, kept', r, ?_, hsplit, hsplitNew, ?_, hrEnd⟩
  · have hfirstPos : (⟨edit.start.lineNumber, 1⟩ : Position) = ⟨front.length + 1, 1⟩ := by
      rw [hstartPos]
    have hlastPos : (⟨edit.stop.lineNumber, getLineLength (joinLines (front ++ (mid ++ back)))
        edit.stop.lineNumber + 1⟩ : Position) = ⟨(front ++ mid).length,
          getLineLength (joinLines (front ++ (mid ++ back))) (front ++ mid).length + 1⟩ := by
      rw [hstopPos]
    rw [fromSingleTextEdit, hfirstPos, hfirstText, bind_some, hlastPos, hlastText, bind_some]
    exact htrimmed
  · rw [hrStart, hstartPos]

end LineReplacement

/-! ## Group by group -/

namespace LineEdit

open Rewrite

theorem feedsLeft_of_lt {lineCount line line' : Nat} {rs : List LineReplacement}
    (h : FeedsLeft lineCount line rs) (hlt : ∀ r ∈ rs.head?, line' < r.lineRange.startLineNumber) :
    FeedsLeft lineCount line' rs := by
  cases rs with
  | nil => trivial
  | cons r rs =>
    refine ⟨fun hdelete => ?_, h.2⟩
    have hgt := hlt r rfl
    rw [hdelete.2.1] at hgt
    exact Nat.lt_irrefl _ hgt

theorem turnsAt_nextLine {whole front v t : JsString} {back : List JsString}
    {next : TextReplacement}
    (h : TextEdit.TurnsAt whole front (next :: rest) (v ++ openedLines back) t)
    (hv : lineFeed ∉ v) (hline : next.start.lineNumber ≠ (Position.walk ⟨1, 1⟩ front).lineNumber) :
    back ≠ [] ∧ ∃ t', t = v ++ lineFeed :: t' ∧
      TextEdit.TurnsAt whole (front ++ (v ++ [lineFeed])) (next :: rest) (joinLines back) t' := by
  obtain ⟨gap, old, s', t', hs, rfl, hstart, hstop, hrest⟩ := h
  have hfeed : ¬lineFeed ∉ gap := by
    intro hgap
    refine hline ?_
    rw [hstart.2.1, Position.walk_append, walk_line hgap]
  rcases append_eq_append_iff.mp hs with ⟨c, rfl, hc⟩ | ⟨c, rfl, -⟩
  · cases back with
    | nil =>
      obtain ⟨rfl, -⟩ := append_eq_nil_iff.mp hc.symm
      rw [append_nil] at hfeed
      exact absurd hv hfeed
    | cons line back =>
      rw [openedLines_cons] at hc
      cases c with
      | nil =>
        rw [append_nil] at hfeed
        exact absurd hv hfeed
      | cons u c =>
        obtain ⟨rfl, hc'⟩ := cons.inj hc
        have hassoc : front ++ (v ++ lineFeed :: c) = front ++ (v ++ [lineFeed]) ++ c := by
          simp only [append_assoc, cons_append, nil_append]
        have hassoc' : front ++ (v ++ lineFeed :: c ++ old) =
            front ++ (v ++ [lineFeed]) ++ (c ++ old) := by
          simp only [append_assoc, cons_append, nil_append]
        rw [hassoc] at hstart
        rw [hassoc'] at hstop hrest
        refine ⟨cons_ne_nil _ _, c ++ (next.text ++ t'), ?_, c, old, s', t', hc', rfl, hstart,
          hstop, hrest⟩
        rw [append_assoc, cons_append]
  · exact absurd (fun hmem => hv (mem_append_left _ hmem)) hfeed

def LinesOf (lines front : List JsString) (rs : List LineReplacement)
    (rest newRest : List JsString) (t : JsString) : Prop :=
  Turns ((front.length : Int) + 1) rs rest newRest ∧ (∀ x ∈ newRest, IsLine x) ∧
    (carriageReturn ∉ t → joinLines newRest = t) ∧ FeedsLeft lines.length (front.length + 1) rs

section

variable {lines front gap mid back newBack : List JsString} {u u' v z old t : JsString}
  {rs : List LineReplacement} {edit : TextReplacement}

theorem start_gt_of_turns {line : Nat} (h : Turns ((front.length : Int) + 1) rs back newBack)
    (hline : line < front.length + 1) : ∀ r ∈ rs.head?, line < r.lineRange.startLineNumber := by
  intro r hr
  cases rs with
  | nil => cases hr
  | cons first rs =>
    obtain rfl := Option.some.inj hr
    have hle : ((front.length : Int) + 1) ≤ first.lineRange.startLineNumber := h.sorted.1
    omega

theorem linesOf_cons (hplain : ∀ x ∈ lines, IsLine x)
    (hlines : front ++ (gap ++ (mid ++ back)) = lines) (hmid : mid = first ++ [z ++ v])
    (hhead : mid.head? = some (u ++ u')) (hold : u ++ old = closedLines first ++ z)
    (hstart : Marks (joinLines lines) (closedLines front ++ (closedLines gap ++ u)) edit.start)
    (hstop : Marks (joinLines lines) (closedLines front ++ (closedLines gap ++ u ++ old)) edit.stop)
    (hturns : Turns (((front ++ (gap ++ mid)).length : Int) + 1) rs back newBack)
    (hnewBack : ∀ x ∈ newBack, IsLine x)
    (htext : carriageReturn ∉ t → v ++ openedLines newBack = t)
    (hleft : FeedsLeft lines.length ((front ++ (gap ++ mid)).length + 1) rs) :
    ∃ r newRest, LineReplacement.fromSingleTextEdit edit (joinLines lines) = some r ∧
      newRest ≠ [] ∧ LinesOf lines front (r :: rs) (gap ++ (mid ++ back)) newRest
        (closedLines gap ++ u ++ (edit.text ++ t)) := by
  have hlines' : front ++ gap ++ (mid ++ back) = lines := by
    rw [append_assoc]
    exact hlines
  have hstart' : Marks (joinLines (front ++ gap ++ (mid ++ back))) (closedLines (front ++ gap) ++ u)
      edit.start := by
    rw [hlines', closedLines_append, append_assoc]
    exact hstart
  have hstop' : Marks (joinLines (front ++ gap ++ (mid ++ back)))
      (closedLines (front ++ gap) ++ (u ++ old)) edit.stop := by
    rw [hlines', closedLines_append, append_assoc, ← append_assoc (closedLines gap)]
    exact hstop
  obtain ⟨kept, inner, kept', r, hr, hsplit, hsplitNew, hrStart, hrEnd⟩ :=
    LineReplacement.fromSingleTextEdit_spec (by rw [hlines']; exact hplain) hmid hhead hold hstart'
      hstop'
  obtain ⟨⟨k, hk⟩, -, hjoin, hlinesNew⟩ :=
    @LineReplacement.newLines_spec u v _ (textLines_ne_nil edit.text)
  have hplainMid : ∀ x ∈ mid, IsLine x := fun x hx => hplain x (by
    rw [← hlines']
    exact mem_append_right _ (mem_append_left _ hx))
  have hu : IsLine u :=
    (isLine_append.mp (hplainMid _ (mem_of_mem_head? (Option.mem_def.mpr hhead)))).1
  have hv : IsLine v := (isLine_append.mp (hplainMid (z ++ v) (by
    rw [hmid]
    exact mem_append_right _ (mem_singleton.mpr rfl)))).2
  have hnew := hlinesNew hu hv isLine_of_mem_textLines
  rw [hsplitNew] at hk hjoin hnew
  have hne : kept ++ (r.newLines ++ kept') ≠ [] := by
    intro hnil
    rw [hnil] at hk
    cases hk
  have hcount : lines.length = front.length + gap.length + (kept.length + inner.length +
      kept'.length) + back.length := by
    rw [← hlines', hsplit]
    simp only [length_append]
    omega
  have hfrontLength : (front ++ (gap ++ mid)).length =
      front.length + gap.length + (kept.length + inner.length + kept'.length) := by
    rw [hsplit]
    simp only [length_append]
    omega
  rw [length_append] at hrStart
  refine ⟨r, gap ++ (kept ++ (r.newLines ++ kept') ++ newBack), by rw [← hlines', hr],
    append_ne_nil_of_right_ne_nil _ (append_ne_nil_of_left_ne_nil hne _), ?_, ?_, ?_, ?_⟩
  · refine ⟨gap ++ kept, inner, kept' ++ back, kept' ++ newBack, ?_, ?_, ?_, ?_, ?_⟩
    · show (r.lineRange.startLineNumber : Int) = _
      rw [hrStart, length_append]
      omega
    · show (r.lineRange.endLineNumberExclusive : Int) = r.lineRange.startLineNumber + _
      rw [hrEnd, Nat.cast_add]
    · rw [hsplit]
      simp only [append_assoc]
    · show _ = gap ++ kept ++ (r.newLines ++ (kept' ++ newBack))
      simp only [append_assoc]
    · refine Turns.extend kept' ?_
      have hpos : stop r + (kept'.length : Int) = ((front ++ (gap ++ mid)).length : Int) + 1 := by
        show (r.lineRange.endLineNumberExclusive : Int) + _ = _
        rw [hfrontLength]
        omega
      rw [hpos]
      exact hturns
  · intro x hx
    rcases mem_append.mp hx with hx | hx
    · refine hplain x ?_
      rw [← hlines']
      exact mem_append_left _ (mem_append_right _ hx)
    · rcases mem_append.mp hx with hx | hx
      · exact hnew x hx
      · exact hnewBack x hx
  · intro hreturn
    have hbehind : carriageReturn ∉ edit.text ++ t := fun h => hreturn (mem_append_right _ h)
    have hedit : carriageReturn ∉ edit.text := fun h => hbehind (mem_append_left _ h)
    have ht : carriageReturn ∉ t := fun h => hbehind (mem_append_right _ h)
    rw [joinLines_front gap (append_ne_nil_of_left_ne_nil hne _), joinLines_behind hne, hjoin,
      joinLines_textLines hedit, ← htext ht]
    simp only [append_assoc]
  · refine ⟨fun hdelete => ?_, ?_⟩
    · obtain ⟨hnil, hfrom, -, hend⟩ := hdelete
      obtain rfl := eq_nil_of_length_eq_zero (by omega : kept.length = 0)
      obtain rfl := eq_nil_of_length_eq_zero (by omega : kept'.length = 0)
      rw [hnil] at hne
      exact hne rfl
    · split_ifs with htakes
      · by_cases hkept : kept'.length = 0
        · have hend : r.lineRange.endLineNumberExclusive = (front ++ (gap ++ mid)).length + 1 := by
            omega
          rw [hend]
          exact hleft
        · exact feedsLeft_of_lt hleft (start_gt_of_turns hturns (by omega))
      · exact feedsLeft_of_lt hleft (start_gt_of_turns hturns (Nat.succ_pos _))

end

theorem fromLoop_spec {lines : List JsString} (hplain : ∀ x ∈ lines, IsLine x)
    {edits : List TextReplacement} {front rest : List JsString} {t : JsString}
    (hlines : front ++ rest = lines) (hrest : rest ≠ [])
    (h : TextEdit.TurnsAt (joinLines lines) (closedLines front) (current ++ edits)
      (joinLines rest) t) (hcurrent : edits = [] → current = []) :
    ∃ rs newRest, fromLoop (joinLines lines) current edits = some rs ∧ newRest ≠ [] ∧
      LinesOf lines front rs rest newRest t := by
  induction edits generalizing current front rest t with
  | nil =>
    obtain rfl := hcurrent rfl
    obtain rfl : t = joinLines rest := h
    refine ⟨[], rest, rfl, hrest, rfl, fun x hx => hplain x ?_, fun _ => rfl, trivial⟩
    rw [← hlines]
    exact mem_append_right _ hx
  | cons edit others ih =>
    rw [fromLoop]
    split_ifs with hjoined
    · -- the next replacement begins on the line where this one ends
      refine ih hlines hrest ?_ fun hnil => ?_
      · rw [append_assoc]
        exact h
      · rw [hnil] at hjoined
        exact absurd hjoined Bool.false_ne_true
    · obtain ⟨single, hsingle, hsingleStop, hturns⟩ := TextEdit.joinReplacements_spec h
      obtain ⟨gapText, old, s', t', hs, rfl, hstart, hstop, hothers⟩ := hturns
      obtain ⟨gap, first, mid, back, u, u', z, v, rfl, hmid, hhead, rfl, hold, rfl⟩ :=
        LineReplacement.touched_lines hrest hs
      have hlines' : front ++ (gap ++ mid) ++ back = lines := by
        rw [← hlines]
        simp only [append_assoc]
      have hmidText : u ++ old ++ v = joinLines mid := by
        rw [hold, hmid, joinLines_front first (cons_ne_nil _ _), joinLines, openedLines_nil,
          append_nil, append_assoc]
      have hmidNe : mid ≠ [] := by
        rw [hmid]
        exact append_ne_nil_of_right_ne_nil _ (cons_ne_nil _ _)
      have hv : lineFeed ∉ v := by
        have hline : IsLine (z ++ v) := hplain _ (by
          rw [← hlines', hmid]
          refine mem_append_left _ (mem_append_right _ (mem_append_right _ ?_))
          exact mem_append_right _ (mem_singleton.mpr rfl))
        exact (isLine_append.mp hline).2.1
      obtain ⟨rs, newBack, hrs, hturnsBack, hnewBack, htext, hleft⟩ : ∃ rs newBack,
          fromLoop (joinLines lines) [] others = some rs ∧
          Turns (((front ++ (gap ++ mid)).length : Int) + 1) rs back newBack ∧
          (∀ x ∈ newBack, IsLine x) ∧ (carriageReturn ∉ t' → v ++ openedLines newBack = t') ∧
          FeedsLeft lines.length ((front ++ (gap ++ mid)).length + 1) rs := by
        cases others with
        | nil =>
          obtain rfl : t' = v ++ openedLines back := hothers
          refine ⟨[], back, rfl, rfl, fun x hx => hplain x ?_, fun _ => rfl, trivial⟩
          rw [← hlines']
          exact mem_append_right _ hx
        | cons next others =>
          have hline : next.start.lineNumber ≠ (Position.walk ⟨1, 1⟩
              (closedLines front ++ (closedLines gap ++ u ++ old))).lineNumber := by
            rw [← hstop.2.1, hsingleStop]
            exact fun heq => hjoined (decide_eq_true heq)
          obtain ⟨hback, t'', rfl, hnext⟩ := turnsAt_nextLine hothers hv hline
          have hfront : closedLines front ++ (closedLines gap ++ u ++ old) ++ (v ++ [lineFeed]) =
              closedLines (front ++ (gap ++ mid)) := by
            rw [closedLines_append, closedLines_append, closedLines_of_ne hmidNe, ← hmidText]
            simp only [append_assoc]
          rw [hfront] at hnext
          obtain ⟨rs, newBack, hrs, hnewBackNe, hturnsBack, hnewBack, htext, hleft⟩ :=
            @ih [] _ _ _ hlines' hback hnext (fun _ => rfl)
          refine ⟨rs, newBack, hrs, hturnsBack, hnewBack, fun hreturn => ?_, hleft⟩
          have hreturn' : carriageReturn ∉ t'' := fun hmem =>
            hreturn (mem_append_right _ (mem_cons_of_mem _ hmem))
          rw [openedLines_of_ne hnewBackNe, htext hreturn']
      obtain ⟨r, newRest, hr, hnewRest, hspec⟩ := linesOf_cons hplain hlines hmid hhead hold hstart
        hstop hturnsBack hnewBack htext hleft
      refine ⟨r :: rs, newRest, ?_, hnewRest, hspec⟩
      rw [hsingle, bind_some, hr, bind_some, hrs, map_some]

/-! ## Line edits, text edits and string edits -/

theorem carriageReturn_of_turnsAt {whole front s t : JsString} {rs : List TextReplacement}
    (h : TextEdit.TurnsAt whole front rs s t) (hs : carriageReturn ∉ s) :
    carriageReturn ∉ t ↔ ∀ r ∈ rs, carriageReturn ∉ r.text := by
  induction rs generalizing front s t with
  | nil =>
    obtain rfl : t = s := h
    exact ⟨fun _ r hr => absurd hr not_mem_nil, fun _ => hs⟩
  | cons r rs ih =>
    obtain ⟨gap, old, s', t', rfl, rfl, -, -, hrest⟩ := h
    simp only [mem_append, not_or] at hs ⊢
    rw [forall_mem_cons, ih hrest hs.2.2]
    exact ⟨fun h => h.2, fun h => ⟨hs.1, h⟩⟩

theorem inLines_of_turns {e : LineEdit} {lines : List JsString}
    (h : Turns (1 : Int) e.replacements lines newLines) : e.InLines lines := by
  intro r hr
  have hstart := (h.sorted.le r hr).1
  have hstop := h.stop_le r hr
  have hstart' : (1 : Int) ≤ r.lineRange.startLineNumber := hstart
  have hstop' : (r.lineRange.endLineNumberExclusive : Int) ≤ 1 + lines.length := hstop
  omega

theorem fromTextEdit_spec {text : JsString} (htext : carriageReturn ∉ text) {edit : TextEdit}
    (h : edit.ValidOn text) :
    ∃ e t, fromTextEdit edit text = some e ∧ e.InLines (textLines text) ∧
      edit.applyToString text = some t ∧
      ((∃ stringEdit, e.toEdit text = some stringEdit ∧ stringEdit.apply text = t) ↔
        ∀ r ∈ edit.replacements, carriageReturn ∉ r.text) := by
  have hjoin := joinLines_textLines htext
  obtain ⟨t, hturns, happly⟩ := h.turnsAt
  have hturns' : TextEdit.TurnsAt (joinLines (textLines text)) (closedLines [])
      ([] ++ edit.replacements) (joinLines (textLines text)) t := by
    rw [hjoin]
    exact hturns
  obtain ⟨rs, newLines, hrs, -, hlines, hplain, hsame, hleft⟩ :=
    fromLoop_spec isLine_of_mem_textLines (nil_append (textLines text))
      (textLines_ne_nil text) hturns' fun _ => rfl
  have hlines' : Turns (1 : Int) rs (textLines text) newLines := hlines
  obtain ⟨e, he, hreplacements⟩ := new_of_sorted hlines'.sorted
  rw [← hreplacements] at hlines' hleft
  have hin := inLines_of_turns hlines'
  have hresult : e.apply (textLines text) = newLines := hlines'.unique hin.turns
  obtain ⟨stringEdit, hstringEdit, hstringApply⟩ := ((toEdit_agrees htext hin).1 hleft).2
  rw [hresult] at hstringApply
  refine ⟨e, t, ?_, hin, happly, ?_⟩
  · rw [hjoin] at hrs
    rw [fromTextEdit, hrs, bind_some, he]
  · rw [← carriageReturn_of_turnsAt hturns htext]
    constructor
    · rintro ⟨stringEdit', hstringEdit', rfl⟩
      rw [hstringEdit] at hstringEdit'
      cases hstringEdit'
      rw [hstringApply]
      exact carriageReturn_notMem_joinLines hplain
    · intro hreturn
      exact ⟨stringEdit, hstringEdit, hstringApply.trans (hsame hreturn)⟩

/-- Line edits, text edits and string edits do the same, up to carriage returns in the texts
and to line feeds that a deletion of the last lines does not find. -/
theorem lineEdit_agrees_iff {text : JsString} (htext : carriageReturn ∉ text) :
    (∀ edit : TextEdit, edit.ValidOn text →
      ∃ e t, fromTextEdit edit text = some e ∧ e.InLines (textLines text) ∧
        edit.applyToString text = some t ∧
        ((∃ stringEdit, e.toEdit text = some stringEdit ∧ stringEdit.apply text = t) ↔
          ∀ r ∈ edit.replacements, carriageReturn ∉ r.text)) ∧
    (∀ e : LineEdit, e.InLines (textLines text) → e.apply (textLines text) ≠ [] →
      (e.ToEditAgrees text ↔ FeedsLeft (textLines text).length 1 e.replacements)) ∧
    ∀ (e : LineEdit) (lines : List JsString), e.InLines lines →
      ∃ inv, e.inverse lines = some inv ∧ inv.apply (e.apply lines) = lines := by
  refine ⟨fun edit hedit => fromTextEdit_spec htext hedit, fun e he hne => ?_,
    fun e lines he => he.inverse⟩
  obtain ⟨hgood, hbad⟩ := toEdit_agrees htext he
  exact ⟨fun h => by_contra fun hleft => hbad hleft hne h, fun hleft => (hgood hleft).2⟩

/-- A letter put into two lines, the second of them deleted, and brought back. -/
theorem lineEdit_agrees_sample :
    (∃ e t, fromTextEdit ⟨[⟨⟨1, 2, 1, 2⟩, [120]⟩]⟩ [97, 10, 98] = some e ∧
      e.InLines (textLines [97, 10, 98]) ∧
      TextEdit.applyToString ⟨[⟨⟨1, 2, 1, 2⟩, [120]⟩]⟩ [97, 10, 98] = some t ∧
      ((∃ stringEdit, e.toEdit [97, 10, 98] = some stringEdit ∧ stringEdit.apply [97, 10, 98] = t) ↔
        ∀ r ∈ [(⟨⟨1, 2, 1, 2⟩, [120]⟩ : TextReplacement)], carriageReturn ∉ r.text)) ∧
    ((⟨[⟨⟨2, 3, by decide⟩, []⟩], by decide⟩ : LineEdit).ToEditAgrees [97, 10, 98] ↔
      FeedsLeft 2 1 [⟨⟨2, 3, by decide⟩, []⟩]) ∧
    ∃ inv, (⟨[⟨⟨2, 3, by decide⟩, []⟩], by decide⟩ : LineEdit).inverse [[97], [98]] = some inv ∧
      inv.apply [[97]] = [[97], [98]] := by
  have h := @lineEdit_agrees_iff [97, 10, 98] (by decide)
  exact ⟨h.1 _ (by decide), h.2.1 _ (by decide) (by decide), h.2.2 _ _ (by decide)⟩

/-- A line put in front of a text whose only line is deleted: a line feed stays behind it. -/
theorem toEdit_keeps_feed :
    ∃ (e : LineEdit) (text : JsString), carriageReturn ∉ text ∧ e.InLines (textLines text) ∧
      e.apply (textLines text) ≠ [] ∧ ¬e.ToEditAgrees text :=
  ⟨⟨[⟨⟨1, 1, by decide⟩, [[120]]⟩, ⟨⟨1, 2, by decide⟩, []⟩], by decide⟩, [97, 97], by decide,
    by decide, by decide, (toEdit_agrees (by decide) (by decide)).2 (by decide) (by decide)⟩

end LineEdit

end Fumie.Editor
