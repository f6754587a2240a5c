import Fumie.Editor.Edits.LineEdit

/-!
# Line edits as string edits

The rest of a text begins with a line, or with the line feed in front of it when the last
replacement left that one. A deletion of the last lines takes the line feed in front of
them; where the replacement in front of it has taken that one already, or there is none, the
string edit is not what the line edit does.
-/

namespace Fumie.Editor

open Fumie.Lib Fumie.Base PositionOffsetTransformer List TextEdit Option StringEdit Bool

namespace LineReplacement

def DeletesFrom (r : LineReplacement) (lineCount line : Nat) : Prop :=
  r.newLines = [] ∧ r.lineRange.startLineNumber = line ∧ line ≤ lineCount ∧
    r.lineRange.endLineNumberExclusive = lineCount + 1

instance (r : LineReplacement) (lineCount line : Nat) : Decidable (r.DeletesFrom lineCount line) :=
  inferInstanceAs (Decidable (_ ∧ _))

def TakesFeed (r : LineReplacement) : Prop := r.newLines = [] ∨ r.lineRange.isEmpty = true

instance (r : LineReplacement) : Decidable r.TakesFeed := inferInstanceAs (Decidable (_ ∨ _))

end LineReplacement

def FeedsLeft (lineCount line : Nat) : List LineReplacement → Prop
  | [] => True
  | r :: rs => ¬r.DeletesFrom lineCount line ∧
      FeedsLeft lineCount (if r.TakesFeed then r.lineRange.endLineNumberExclusive else 0) rs

instance decidableFeedsLeft (lineCount line : Nat) :
    (rs : List LineReplacement) → Decidable (FeedsLeft lineCount line rs)
  | [] => isTrue trivial
  | r :: rs =>
    have := decidableFeedsLeft lineCount
      (if r.TakesFeed then r.lineRange.endLineNumberExclusive else 0) rs
    inferInstanceAs (Decidable (_ ∧ _))

variable {xs : List StringReplacement} {text : JsString}

namespace LineEdit

open Rewrite

/-! ## The rest of a text -/

def restText (lead : Bool) (lines : List JsString) : JsString :=
  if lead then openedLines lines else joinLines lines

def restOffset (lead : Bool) (front : List JsString) : Nat :=
  if lead then (joinLines front).length else (closedLines front).length

def startText (lead : Bool) (gap : List JsString) : JsString :=
  if lead then openedLines gap ++ [lineFeed] else closedLines gap

section

variable {lead : Bool} {front gap back : List JsString}

theorem restText_start (hback : back ≠ []) :
    restText lead (gap ++ back) = startText lead gap ++ joinLines back := by
  cases lead with
  | false => exact joinLines_front gap hback
  | true =>
    show openedLines (gap ++ back) = openedLines gap ++ [lineFeed] ++ joinLines back
    rw [openedLines_append, openedLines_of_ne hback, append_assoc, singleton_append]

theorem restOffset_start (hlead : lead = true → front ≠ []) :
    restOffset lead front + (startText lead gap).length = (closedLines (front ++ gap)).length := by
  cases lead with
  | false =>
    show (closedLines front).length + (closedLines gap).length = _
    rw [closedLines_append, length_append]
  | true =>
    show (joinLines front).length + (openedLines gap ++ [lineFeed]).length = _
    rw [closedLines_append, closedLines_of_ne (hlead rfl), length_append, length_append,
      length_append, length_openedLines]
    omega

theorem restText_end (h : lead = true ∨ gap ≠ []) :
    restText lead (gap ++ back) = restText lead gap ++ openedLines back := by
  cases lead with
  | false => exact joinLines_behind (h.resolve_left false_ne_true) back
  | true => exact openedLines_append gap back

theorem restOffset_end (hlead : lead = true → front ≠ []) (h : lead = true ∨ gap ≠ []) :
    restOffset lead front + (restText lead gap).length = (joinLines (front ++ gap)).length := by
  cases lead with
  | false =>
    show (closedLines front).length + (joinLines gap).length = _
    rw [joinLines_front front (h.resolve_left false_ne_true), length_append]
  | true =>
    show (joinLines front).length + (openedLines gap).length = _
    rw [joinLines_behind (hlead rfl), length_append]

end

/-! ## Laying out the string edit -/

def Layout (lines front : List JsString) (lead : Bool) (line : Nat) (rs : List LineReplacement)
    (rest newRest : List JsString) : Prop :=
  ∃ xs, getStringReplacements (joinLines lines)
      (rs.map (·.toSingleTextEdit (joinLines lines))) = some xs ∧
    (FeedsLeft lines.length line rs → (lead = false → newRest ≠ []) ∧
      Turns (restOffset lead front : Int) xs (restText lead rest) (restText lead newRest)) ∧
    (¬FeedsLeft lines.length line rs → ¬Sorted (restOffset lead front : Int) xs ∨
      lead = false ∧ front = [] ∧ ∃ t, Turns (0 : Int) xs (joinLines rest) t ∧
        t.length = (closedLines newRest).length)

theorem layout_nil {lines front rest : List JsString} {lead : Bool} {line : Nat}
    (hrest : lead = false → rest ≠ []) : Layout lines front lead line [] rest rest :=
  ⟨[], rfl, fun _ => ⟨hrest, rfl⟩, fun hbad => absurd trivial hbad⟩

section

variable {lines front front' rest newRest back newBack : List JsString} {lead lead' : Bool}
  {line : Nat} {r : LineReplacement} {rs : List LineReplacement} {x : StringReplacement}

theorem getStringReplacements_cons
    (hx : getStringReplacement (joinLines lines) (r.toSingleTextEdit (joinLines lines)) = some x)
    (hxs : getStringReplacements (joinLines lines)
      (rs.map (·.toSingleTextEdit (joinLines lines))) = some xs) :
    getStringReplacements (joinLines lines)
      ((r :: rs).map (·.toSingleTextEdit (joinLines lines))) = some (x :: xs) := by
  rw [map_cons, getStringReplacements, hx, bind_some, hxs, map_some]

theorem layout_cons {gap old : JsString}
    (hx : getStringReplacement (joinLines lines) (r.toSingleTextEdit (joinLines lines)) = some x)
    (hlayout : Layout lines front' lead'
      (if r.TakesFeed then r.lineRange.endLineNumberExclusive else 0) rs back newBack)
    (hdelete : ¬r.DeletesFrom lines.length line)
    (hstart : x.replaceRange.start = (restOffset lead front + gap.length : Nat))
    (hstop : x.replaceRange.endExclusive = (restOffset lead' front' : Nat))
    (hlength : restOffset lead' front' = restOffset lead front + gap.length + old.length)
    (hrest : restText lead rest = gap ++ (old ++ restText lead' back))
    (hnew : (lead' = false → newBack ≠ []) →
      restText lead newRest = gap ++ (x.newText ++ restText lead' newBack))
    (hne : lead = false → (lead' = false → newBack ≠ []) → newRest ≠ [])
    (hall : lead' = false → front' = [] → lead = false ∧ front = [] ∧ rest = back ∧
      newRest = r.newLines ++ newBack ∧ x.newText = closedLines r.newLines) :
    Layout lines front lead line (r :: rs) rest newRest := by
  obtain ⟨xs, hxs, hgood, hbad⟩ := hlayout
  refine ⟨x :: xs, getStringReplacements_cons hx hxs, fun hleft => ?_, fun hleft => ?_⟩
  · obtain ⟨hnewBack, hturns⟩ := hgood hleft.2
    refine ⟨fun hlead => hne hlead hnewBack, gap, old, restText lead' back,
      restText lead' newBack, ?_, ?_, hrest, hnew hnewBack, ?_⟩
    · show x.replaceRange.start = _
      rw [hstart, Nat.cast_add]
    · show x.replaceRange.endExclusive = x.replaceRange.start + _
      rw [hstart, hstop, hlength, Nat.cast_add (restOffset lead front + gap.length)]
    · show Turns x.replaceRange.endExclusive xs _ _
      rw [hstop]
      exact hturns
  · have hleft' : ¬FeedsLeft lines.length
        (if r.TakesFeed then r.lineRange.endLineNumberExclusive else 0) rs :=
      fun h => hleft ⟨hdelete, h⟩
    rcases hbad hleft' with hsorted | ⟨hlead', hfront', t, hturns, ht⟩
    · refine .inl fun h => hsorted ?_
      rw [← hstop]
      exact h.2.2
    · obtain ⟨hlead, hfront, hsame, hsame', htext⟩ := hall hlead' hfront'
      subst hlead' hfront' hlead hfront
      have hzero : restOffset false [] = 0 := rfl
      rw [hzero] at hlength hstop hstart
      have hgap : gap.length = 0 := by omega
      refine .inr ⟨rfl, rfl, closedLines r.newLines ++ t, ⟨[], [], joinLines back, t, ?_, ?_, ?_,
        ?_, ?_⟩, ?_⟩
      · show x.replaceRange.start = _
        rw [hstart, hgap]
        rfl
      · show x.replaceRange.endExclusive = x.replaceRange.start + _
        rw [hstart, hstop, hgap]
        rfl
      · rw [hsame]
        rfl
      · show _ = [] ++ (x.newText ++ t)
        rw [htext]
        rfl
      · show Turns x.replaceRange.endExclusive xs _ _
        rw [hstop]
        exact hturns
      · rw [hsame', closedLines_append, length_append, length_append, ht]

end

section

variable {lines front gap old back newBack : List JsString} {lead : Bool} {line : Nat}
  {r : LineReplacement} {rs : List LineReplacement}

theorem layout_inner (hplain : ∀ x ∈ front ++ gap ++ (old ++ back), IsLine x)
    (hlines : front ++ gap ++ (old ++ back) = lines) (hlead : lead = true → front ≠ [])
    (hstart : r.lineRange.startLineNumber = (front ++ gap).length + 1)
    (hstop : r.lineRange.endLineNumberExclusive = r.lineRange.startLineNumber + old.length)
    (hflat : r.newLines = [] ∨ old = []) (hback : back ≠ [])
    (hlayout : Layout lines (front ++ gap ++ old) false
      (if r.TakesFeed then r.lineRange.endLineNumberExclusive else 0) rs back newBack) :
    Layout lines front lead line (r :: rs) (gap ++ (old ++ back))
      (gap ++ (r.newLines ++ newBack)) := by
  have hoffset := @restOffset_start _ _ gap hlead
  obtain ⟨x, hx, hxStart, hxStop, hxText⟩ := toSingleEdit_inner hplain hstart hstop hflat hback
  rw [hlines] at hx
  have hpos : 0 < back.length := length_pos_of_ne_nil hback
  refine @layout_cons _ _ _ _ _ _ _ _ _ _ _ _ _ (startText lead gap) (closedLines old) hx
    hlayout ?_ ?_ hxStop ?_ ?_ ?_ ?_ ?_
  · rintro ⟨-, -, -, hend⟩
    have hcount : lines.length = (front ++ gap).length + (old.length + back.length) := by
      rw [← hlines, length_append, @length_append _ old]
    omega
  · rw [hxStart, hoffset]
  · rw [hoffset]
    show (closedLines (front ++ gap ++ old)).length = _
    rw [closedLines_append, length_append]
  · rw [restText_start (append_ne_nil_of_right_ne_nil old hback), joinLines_front old hback]
    rfl
  · intro hnewBack
    rw [restText_start (append_ne_nil_of_right_ne_nil _ (hnewBack rfl)),
      joinLines_front _ (hnewBack rfl), hxText]
    rfl
  · intro _ hnewBack
    exact append_ne_nil_of_right_ne_nil _ (append_ne_nil_of_right_ne_nil _ (hnewBack rfl))
  · intro _ hempty
    obtain ⟨hfrontGap, rfl⟩ := append_eq_nil_iff.mp hempty
    obtain ⟨rfl, rfl⟩ := append_eq_nil_iff.mp hfrontGap
    refine ⟨?_, rfl, rfl, rfl, hxText⟩
    cases lead with
    | false => rfl
    | true => exact absurd rfl (hlead rfl)

theorem layout_lines (hplain : ∀ x ∈ front ++ gap ++ (old ++ back), IsLine x)
    (hlines : front ++ gap ++ (old ++ back) = lines) (hlead : lead = true → front ≠ [])
    (hstart : r.lineRange.startLineNumber = (front ++ gap).length + 1)
    (hstop : r.lineRange.endLineNumberExclusive = r.lineRange.startLineNumber + old.length)
    (hnil : r.newLines ≠ []) (hold : old ≠ [])
    (hlayout : Layout lines (front ++ gap ++ old) true
      (if r.TakesFeed then r.lineRange.endLineNumberExclusive else 0) rs back newBack) :
    Layout lines front lead line (r :: rs) (gap ++ (old ++ back))
      (gap ++ (r.newLines ++ newBack)) := by
  have hoffset := @restOffset_start _ _ gap hlead
  obtain ⟨x, hx, hxStart, hxStop, hxText⟩ := toSingleEdit_lines hplain hstart hstop hnil hold
  rw [hlines] at hx
  refine @layout_cons _ _ _ _ _ _ _ _ _ _ _ _ _ (startText lead gap) (joinLines old) hx
    hlayout ?_ ?_ hxStop ?_ ?_ ?_ ?_ ?_
  · exact fun h => hnil h.1
  · rw [hxStart, hoffset]
  · rw [hoffset]
    show (joinLines (front ++ gap ++ old)).length = _
    rw [joinLines_front _ hold, length_append]
  · rw [restText_start (append_ne_nil_of_left_ne_nil hold back), joinLines_behind hold]
    rfl
  · intro _
    rw [restText_start (append_ne_nil_of_left_ne_nil hnil _), hxText]
    show _ = startText lead gap ++ (joinLines r.newLines ++ openedLines newBack)
    rw [← joinLines_behind hnil]
  · intro _ _
    exact append_ne_nil_of_right_ne_nil _ (append_ne_nil_of_left_ne_nil hnil _)
  · exact fun h => absurd h.symm false_ne_true

theorem layout_atEnd (hplain : ∀ x ∈ lines, IsLine x) (hlines : front ++ gap ++ old = lines)
    (hlead : lead = true → front ≠ [] ∧ (line = 0 ∨ lines.length < line))
    (hclosed : lead = false → line = front.length + 1)
    (hstart : r.lineRange.startLineNumber = (front ++ gap).length + 1)
    (hstop : r.lineRange.endLineNumberExclusive = r.lineRange.startLineNumber + old.length)
    (hflat : r.newLines = [] ∨ old = []) (hreach : lead = true ∨ gap ≠ [])
    (hlayout : Layout lines (front ++ gap ++ old) true
      (if r.TakesFeed then r.lineRange.endLineNumberExclusive else 0) rs [] newBack) :
    Layout lines front lead line (r :: rs) (gap ++ (old ++ []))
      (gap ++ (r.newLines ++ newBack)) := by
  have hfront : front ++ gap ≠ [] := by
    rcases hreach with hlead' | hgap
    · exact append_ne_nil_of_left_ne_nil (hlead hlead').1 _
    · exact append_ne_nil_of_right_ne_nil _ hgap
  have hoffset := restOffset_end (fun h => (hlead h).1) hreach
  obtain ⟨x, hx, hxStart, hxStop, hxText⟩ :=
    toSingleEdit_atEnd (by rw [hlines]; exact hplain) hstart hstop hflat hfront
  rw [hlines] at hx
  refine @layout_cons _ _ _ _ _ _ _ _ _ _ _ _ _ (restText lead gap) (openedLines old) hx
    hlayout ?_ ?_ hxStop ?_ ?_ ?_ ?_ ?_
  · rintro ⟨-, hfrom, hle, -⟩
    cases lead with
    | false =>
      obtain rfl := hclosed rfl
      have hpos := length_pos_of_ne_nil (hreach.resolve_left false_ne_true)
      rw [length_append] at hstart
      omega
    | true =>
      rcases (hlead rfl).2 with hzero | hgt
      · omega
      · omega
  · rw [hxStart, hoffset]
  · rw [hoffset]
    show (joinLines (front ++ gap ++ old)).length = _
    rw [joinLines_behind hfront, length_append]
  · rw [restText_end hreach, openedLines_append]
    rfl
  · intro _
    rw [restText_end hreach, openedLines_append, hxText]
    rfl
  · intro hfalse _
    refine append_ne_nil_of_left_ne_nil (hreach.resolve_left ?_) _
    rw [hfalse]
    exact false_ne_true
  · exact fun h => absurd h.symm false_ne_true

theorem layout_gone (hplain : ∀ x ∈ lines, IsLine x) (hlines : front ++ old = lines)
    (hstart : r.lineRange.startLineNumber = front.length + 1)
    (hstop : r.lineRange.endLineNumberExclusive = r.lineRange.startLineNumber + old.length)
    (hnil : r.newLines = []) (hold : old ≠ [])
    (hlayout : Layout lines (front ++ old) true
      (if r.TakesFeed then r.lineRange.endLineNumberExclusive else 0) rs [] newBack) :
    Layout lines front false (front.length + 1) (r :: rs) old (r.newLines ++ newBack) := by
  have hcount : lines.length = front.length + old.length := by
    rw [← hlines, length_append]
  have hpos := length_pos_of_ne_nil hold
  have hdelete : r.DeletesFrom lines.length (front.length + 1) := ⟨hnil, hstart, by omega, by omega⟩
  obtain ⟨xs, hxs, hgood, hbad⟩ := hlayout
  by_cases hfront : front = []
  · subst hfront
    have hall : old = lines := hlines
    obtain ⟨x, hx, hxStart, hxStop, hxText⟩ :=
      toSingleEdit_all (by rw [hall]; exact hplain) hold hstart hstop hnil
    rw [hall] at hx
    refine ⟨x :: xs, getStringReplacements_cons hx hxs, fun hleft => absurd hdelete hleft.1,
      fun _ => ?_⟩
    have hstopX : stop x = ((joinLines old).length : Int) := hxStop
    by_cases hleft : FeedsLeft lines.length
        (if r.TakesFeed then r.lineRange.endLineNumberExclusive else 0) rs
    · obtain ⟨-, hturns⟩ := hgood hleft
      refine .inr ⟨rfl, rfl, openedLines newBack, ⟨[], joinLines old, [],
        openedLines newBack, hxStart, ?_, ?_, ?_, ?_⟩, ?_⟩
      · show x.replaceRange.endExclusive = x.replaceRange.start + _
        rw [hxStart, hxStop, Int.zero_add]
      · rw [append_nil]
        rfl
      · show _ = [] ++ (x.newText ++ _)
        rw [hxText]
        rfl
      · rw [hstopX]
        exact hturns
      · rw [length_openedLines, hnil]
        rfl
    · rcases hbad hleft with hsorted | ⟨hfalse, -⟩
      · refine .inl fun h => hsorted ?_
        have hbehind := h.2.2
        rw [hstopX] at hbehind
        exact hbehind
      · exact absurd hfalse.symm false_ne_true
  · -- the deletion starts in front of where the last replacement ended
    obtain ⟨x, hx, hxStart, -, -⟩ :=
      toSingleEdit_atEnd (by rw [hlines]; exact hplain) hstart hstop (.inl hnil) hfront
    rw [hlines] at hx
    refine ⟨x :: xs, getStringReplacements_cons hx hxs, fun hleft => absurd hdelete hleft.1,
      fun _ => .inl fun h => ?_⟩
    have hle : ((closedLines front).length : Int) ≤ x.replaceRange.start := h.1
    rw [hxStart, closedLines_of_ne hfront, length_append] at hle
    exact Nat.not_succ_le_self _ (Int.ofNat_le.mp hle)

end

theorem layout_of_turns {lines front rest newRest : List JsString} {lead : Bool} {line : Nat}
    {rs : List LineReplacement} (hplain : ∀ x ∈ lines, IsLine x) (hlines : front ++ rest = lines)
    (hlead : lead = true → front ≠ [] ∧ (line = 0 ∨ lines.length < line))
    (hclosed : lead = false → rest ≠ [] ∧ line = front.length + 1)
    (h : Turns ((front.length : Int) + 1) rs rest newRest) :
    Layout lines front lead line rs rest newRest := by
  induction rs generalizing front rest newRest lead line with
  | nil =>
    obtain rfl : newRest = rest := h
    exact layout_nil fun hfalse => (hclosed hfalse).1
  | cons r rs ih =>
    obtain ⟨gap, old, back, newBack, hstart, hstop, rfl, hnewRest, hrest⟩ := h
    obtain rfl : newRest = gap ++ (r.newLines ++ newBack) := hnewRest
    have hstart' : r.lineRange.startLineNumber = (front ++ gap).length + 1 := by
      have hcast : (r.lineRange.startLineNumber : Int) = front.length + 1 + gap.length := hstart
      rw [length_append]
      omega
    have hstop' : r.lineRange.endLineNumberExclusive =
        r.lineRange.startLineNumber + old.length := by
      have hcast : (r.lineRange.endLineNumberExclusive : Int) =
        r.lineRange.startLineNumber + old.length := hstop
      omega
    have hassoc : front ++ gap ++ (old ++ back) = lines := by
      rw [append_assoc]
      exact hlines
    have hassoc' : front ++ gap ++ old ++ back = lines := by
      rw [append_assoc]
      exact hassoc
    have hrest' : Turns (((front ++ gap ++ old).length : Int) + 1) rs back newBack := by
      have hpos : (r.lineRange.endLineNumberExclusive : Int) =
          ((front ++ gap ++ old).length : Int) + 1 := by
        rw [hstop', hstart']
        simp only [length_append, Nat.cast_add]
        omega
      rw [← hpos]
      exact hrest
    have hplain' : ∀ x ∈ front ++ gap ++ (old ++ back), IsLine x := by
      rw [hassoc]
      exact hplain
    have hfrontLead : lead = true → front ≠ [] := fun h => (hlead h).1
    by_cases hflat : r.newLines = [] ∨ old = []
    · have htakes : r.TakesFeed := by
        refine hflat.imp_right fun hold => ?_
        subst hold
        exact decide_eq_true hstop'.symm
      have hline : (if r.TakesFeed then r.lineRange.endLineNumberExclusive else 0) =
          (front ++ gap ++ old).length + 1 := by
        rw [if_pos htakes, hstop', hstart', @length_append _ (front ++ gap)]
        omega
      by_cases hback : back = []
      · subst hback
        have hwhole : front ++ gap ++ old = lines := by
          rw [← hassoc', append_nil]
        have hne : front ++ gap ++ old ≠ [] := by
          rw [append_assoc]
          cases lead with
          | false =>
            have hrestNe := (hclosed rfl).1
            rw [append_nil] at hrestNe
            exact append_ne_nil_of_right_ne_nil _ hrestNe
          | true => exact append_ne_nil_of_left_ne_nil (hfrontLead rfl) _
        have hlayout := @ih (front ++ gap ++ old) [] newBack true
          (if r.TakesFeed then r.lineRange.endLineNumberExclusive else 0) hassoc'
          (fun _ => ⟨hne, .inr (by rw [hline, hwhole]; exact Nat.lt_succ_self _)⟩)
          (fun h => absurd h.symm false_ne_true) hrest'
        by_cases hreach : lead = true ∨ gap ≠ []
        · exact layout_atEnd hplain hwhole hlead (fun h => (hclosed h).2) hstart' hstop' hflat
            hreach hlayout
        · obtain ⟨hleadFalse, hgap⟩ := not_or.mp hreach
          obtain rfl := eq_false_iff.mpr hleadFalse
          obtain rfl := not_not.mp hgap
          obtain ⟨hold, rfl⟩ := hclosed rfl
          rw [nil_append, append_nil] at hold ⊢
          rw [append_nil] at hstart' hwhole hlayout
          exact layout_gone hplain hwhole hstart' hstop' (hflat.resolve_right hold) hold hlayout
      · have hlayout := @ih (front ++ gap ++ old) back newBack false _ hassoc'
          (fun h => absurd h false_ne_true) (fun _ => ⟨hback, hline⟩) hrest'
        exact layout_inner hplain' hassoc hfrontLead hstart' hstop' hflat hback hlayout
    · obtain ⟨hnil, hold⟩ := not_or.mp hflat
      have hpos : 0 < old.length := length_pos_of_ne_nil hold
      have htakes : ¬r.TakesFeed := by
        refine not_or.mpr ⟨hnil, ?_⟩
        rw [LineRange.isEmpty, decide_eq_true_eq]
        omega
      have hlayout := @ih (front ++ gap ++ old) back newBack true
        (if r.TakesFeed then r.lineRange.endLineNumberExclusive else 0) hassoc'
        (fun _ => ⟨append_ne_nil_of_right_ne_nil _ hold, .inl (if_neg htakes)⟩)
        (fun h => absurd h.symm false_ne_true) hrest'
      exact layout_lines hplain' hassoc hfrontLead hstart' hstop' hnil hold hlayout

/-! ## The string edit of a line edit -/

theorem start_nonneg {rs : List TextReplacement} (h : getStringReplacements text rs = some xs) :
    ∀ x ∈ xs.head?, 0 ≤ start x := by
  cases rs with
  | nil =>
    cases h
    exact nofun
  | cons r rs =>
    rw [getStringReplacements, getStringReplacement, getOffsetRange, OffsetRange.new] at h
    split_ifs at h with hle
    · rw [map_some, bind_some, map_eq_some_iff] at h
      obtain ⟨xs', -, rfl⟩ := h
      intro x hx
      cases hx
      exact Int.natCast_nonneg _
    · cases h

theorem not_new_of_unsorted {rs : List TextReplacement}
    (hxs : getStringReplacements text rs = some xs) (h : ¬Sorted (0 : Int) xs) :
    StringEdit.new xs = none := by
  refine dif_neg fun hsorted => h ?_
  have hafter := sortedAfter_iff.mp hsorted
  cases xs with
  | nil => trivial
  | cons x xs => exact ⟨start_nonneg hxs x rfl, hafter.2⟩

def ToEditAgrees (e : LineEdit) (text : JsString) : Prop :=
  ∃ edit, e.toEdit text = some edit ∧ edit.apply text = joinLines (e.apply (textLines text))

theorem toEdit_agrees {e : LineEdit} (htext : carriageReturn ∉ text)
    (h : e.InLines (textLines text)) :
    (FeedsLeft (textLines text).length 1 e.replacements →
      e.apply (textLines text) ≠ [] ∧ e.ToEditAgrees text) ∧
    (¬FeedsLeft (textLines text).length 1 e.replacements → e.apply (textLines text) ≠ [] →
      ¬e.ToEditAgrees text) := by
  have hjoin := joinLines_textLines htext
  -- the whole text is a rest that begins with a line
  obtain ⟨xs, hxs, hgood, hbad⟩ := @layout_of_turns _ [] _ _ false 1 _
    isLine_of_mem_textLines (nil_append (textLines text))
    (fun h => absurd h false_ne_true) (fun _ => ⟨textLines_ne_nil text, rfl⟩) h.turns
  rw [hjoin] at hxs
  refine ⟨fun hleft => ?_, fun hleft hne => ?_⟩
  · obtain ⟨hne, hturns⟩ := hgood hleft
    have hturns' : Turns (0 : Int) xs (joinLines (textLines text))
        (joinLines (e.apply (textLines text))) := hturns
    rw [hjoin] at hturns'
    obtain ⟨edit, hedit, hreplacements⟩ := StringEdit.new_of_sorted hturns'.sorted
    rw [← hreplacements] at hturns'
    refine ⟨hne rfl, edit, ?_, apply_of_turns hturns'⟩
    rw [toEdit, hxs, bind_some, hedit]
  · rintro ⟨edit, hedit, happly⟩
    rw [toEdit, hxs, bind_some] at hedit
    rcases hbad hleft with hsorted | ⟨-, -, t, hturns, hlength⟩
    · rw [not_new_of_unsorted hxs hsorted] at hedit
      cases hedit
    · rw [hjoin] at hturns
      obtain ⟨edit', hedit', hreplacements⟩ := StringEdit.new_of_sorted hturns.sorted
      rw [hedit'] at hedit
      cases hedit
      rw [← hreplacements] at hturns
      rw [apply_of_turns hturns] at happly
      rw [happly, closedLines_of_ne hne, length_append] at hlength
      exact Nat.succ_ne_self _ hlength.symm

end LineEdit

end Fumie.Editor
