import Fumie.Editor.Edits.TextEdit

/-!
# Composing text edits

`compose` takes the first edit apart into a queue of heads: gaps that keep the text, texts
that replace it, and the endless rest behind the last edit. Each replacement of the second
edit first moves along the queue to its start and then takes what it replaces off the queue.
A head that reaches across is split; the loops are given enough steps by `composeSteps`.
-/

namespace Fumie.Editor

open Fumie.Lib Fumie.Base PositionOffsetTransformer List Range TextLength Position Option

def rangeOf (start stop : Position) : Range :=
  Range.new start.lineNumber start.column stop.lineNumber stop.column

def plusRange (a b : Range) : Range :=
  rangeOf
    (if b.startLineNumber < a.startLineNumber then ⟨b.startLineNumber, b.startColumn⟩
      else if b.startLineNumber = a.startLineNumber then
        ⟨b.startLineNumber, min b.startColumn a.startColumn⟩
      else ⟨a.startLineNumber, a.startColumn⟩)
    (if a.endLineNumber < b.endLineNumber then ⟨b.endLineNumber, b.endColumn⟩
      else if b.endLineNumber = a.endLineNumber then
        ⟨b.endLineNumber, max b.endColumn a.endColumn⟩
      else ⟨a.endLineNumber, a.endColumn⟩)

/-- What is next in the queue: its range before the first edit and its length behind it. -/
inductive Head where
  | gap (start stop : Position) (len : TextLength)
  | text (start stop : Position) (text : JsString) (len : TextLength)
  | infinite (start : Position)
  deriving Repr

namespace Head

def start : Head → Position
  | gap start _ _ => start
  | text start _ _ _ => start
  | infinite start => start

end Head

structure ComposeState where
  edits1 : List TextReplacement
  lastEdit1EndS0 : Position
  head : Option Head
  currentPosInS1 : Position

namespace ComposeState

variable (st : ComposeState)

def ensureHead : Head × ComposeState :=
  match st.head with
  | some head => (head, st)
  | none =>
    match st.edits1 with
    | [] => (.infinite st.lastEdit1EndS0, { st with head := some (.infinite st.lastEdit1EndS0) })
    | r :: rest =>
      if st.lastEdit1EndS0 = r.start then
        (.text r.start r.stop r.text (.ofUnits r.text),
          { st with
            edits1 := rest
            lastEdit1EndS0 := r.stop
            head := some (.text r.start r.stop r.text (.ofUnits r.text)) })
      else
        (.gap st.lastEdit1EndS0 r.start (.betweenPositions st.lastEdit1EndS0 r.start),
          { st with
            lastEdit1EndS0 := r.start
            head := some
              (.gap st.lastEdit1EndS0 r.start (.betweenPositions st.lastEdit1EndS0 r.start)) })

def dropHead (headEndInS1 : Position) : ComposeState :=
  { st with head := none, currentPosInS1 := headEndInS1 }

def setHead (head : Head) (position : Position) : ComposeState :=
  { st with head := some head, currentPosInS1 := position }

end ComposeState

def remainingLength (len split : TextLength) : TextLength :=
  if split.lineCount = len.lineCount then ⟨0, len.columnCount - split.columnCount⟩
  else ⟨len.lineCount - split.lineCount, len.columnCount⟩

/-- The offset behind the given number of line feeds. -/
def skipLines : Nat → JsString → Option Nat
  | 0, _ => some 0
  | _ + 1, [] => none
  | n + 1, u :: rest =>
    if u = lineFeed then (skipLines n rest).map (· + 1) else (skipLines (n + 1) rest).map (· + 1)

def splitText (text : JsString) (len : TextLength) : Option (JsString × JsString) :=
  if len.lineCount = 0 ∧ len.columnCount = 0 then some ([], text)
  else
    (skipLines len.lineCount text).map fun offset =>
      (text.take (offset + len.columnCount), text.drop (offset + len.columnCount))

variable {s t whole front u v a b a' b' text w : JsString} {start' stop' position : Position}
  {len' : TextLength} {steps : Nat}

variable (edits1 : List TextReplacement)

namespace TextEdit

def normalizeLoop (last : Option TextReplacement) : List TextReplacement → List TextReplacement
  | [] => last.toList
  | r :: rs =>
    match last with
    | none => if r.isEmpty then normalizeLoop none rs else normalizeLoop (some r) rs
    | some last =>
      if last.stop = r.start then
        normalizeLoop (some ⟨plusRange last.range r.range, last.text ++ r.text⟩) rs
      else if r.isEmpty then normalizeLoop (some last) rs
      else last :: normalizeLoop (some r) rs

def normalize (e : TextEdit) : TextEdit := ⟨normalizeLoop none e.replacements⟩

/-- The loop up to the start of a replacement, with what it pushes. -/
def advanceTo (target : Position) :
    Nat → ComposeState → Option (ComposeState × List TextReplacement)
  | steps, st =>
    if st.currentPosInS1 = target then some (st, [])
    else
      match steps with
      | 0 => none
      | steps + 1 =>
        match st.ensureHead with
        | (.infinite start, st) =>
          some (st.setHead (.infinite
            ((betweenPositions st.currentPosInS1 target).addToPosition start)) target, [])
        | (.gap start stop len, st) =>
          if target.isBefore (len.addToPosition st.currentPosInS1) then
            some (st.setHead (.gap
              ((betweenPositions st.currentPosInS1 target).addToPosition start) stop
              (remainingLength len (.betweenPositions st.currentPosInS1 target))) target, [])
          else advanceTo target steps (st.dropHead (len.addToPosition st.currentPosInS1))
        | (.text start stop text len, st) =>
          if target.isBefore (len.addToPosition st.currentPosInS1) then
            (splitText text (.betweenPositions st.currentPosInS1 target)).map fun parts =>
              (st.setHead (.text stop stop parts.2
                (remainingLength len (.betweenPositions st.currentPosInS1 target))) target,
                [⟨rangeOf start stop, parts.1⟩])
          else
            (advanceTo target steps (st.dropHead (len.addToPosition st.currentPosInS1))).map
              fun rest => (rest.1, ⟨rangeOf start stop, text⟩ :: rest.2)

/-- What a replacement takes of the base begins where it first took something. -/
def consumedFrom (consumed : Option (Position × Position)) (start stop : Position) :
    Option (Position × Position) :=
  some ((consumed.map Prod.fst).getD start, stop)

/-- The loop up to the end of a replacement, with what it takes of the base. -/
def consumeTo (target : Position) : Nat → Option (Position × Position) → ComposeState →
      Option (ComposeState × Option (Position × Position))
  | steps, consumed, st =>
    if st.currentPosInS1 = target then some (st, consumed)
    else
      match steps with
      | 0 => none
      | steps + 1 =>
        match st.ensureHead with
        | (.infinite start, st) =>
          some (st.setHead (.infinite
            ((betweenPositions st.currentPosInS1 target).addToPosition start)) target,
            consumedFrom consumed start
              ((betweenPositions st.currentPosInS1 target).addToPosition start))
        | (.gap start stop len, st) =>
          if target.isBefore (len.addToPosition st.currentPosInS1) then
            some (st.setHead (.gap
              ((betweenPositions st.currentPosInS1 target).addToPosition start) stop
              (remainingLength len (.betweenPositions st.currentPosInS1 target))) target,
              consumedFrom consumed start
                ((betweenPositions st.currentPosInS1 target).addToPosition start))
          else
            consumeTo target steps (consumedFrom consumed start stop)
              (st.dropHead (len.addToPosition st.currentPosInS1))
        | (.text start stop text len, st) =>
          if target.isBefore (len.addToPosition st.currentPosInS1) then
            (splitText text (.betweenPositions st.currentPosInS1 target)).map fun parts =>
              (st.setHead (.text stop stop parts.2
                (remainingLength len (.betweenPositions st.currentPosInS1 target))) target,
                consumedFrom consumed start stop)
          else
            consumeTo target steps (consumedFrom consumed start stop)
              (st.dropHead (len.addToPosition st.currentPosInS1))

def drain : Nat → ComposeState → Option (List TextReplacement)
  | 0, _ => none
  | steps + 1, st =>
    match st.ensureHead with
    | (.infinite _, _) => some []
    | (.gap _ _ _, st) => drain steps (st.dropHead st.currentPosInS1)
    | (.text start stop text _, st) =>
      (drain steps (st.dropHead st.currentPosInS1)).map (⟨rangeOf start stop, text⟩ :: ·)

def composed (r2 : TextReplacement) (st : ComposeState)
    (consumed : Option (Position × Position)) : TextReplacement × ComposeState :=
  match consumed with
  | some (start, stop) => (⟨rangeOf start stop, r2.text⟩, st)
  | none =>
    (⟨rangeOf st.ensureHead.1.start st.ensureHead.1.start, r2.text⟩, st.ensureHead.2)

def composeLoop (steps : Nat) (st : ComposeState) :
    List TextReplacement → Option (List TextReplacement)
  | [] => drain steps st
  | r2 :: rs2 =>
    (advanceTo r2.start steps st).bind fun advanced =>
      (consumeTo r2.stop steps none advanced.1).bind fun taken =>
        (composeLoop steps (composed r2 taken.1 taken.2).2 rs2).map fun rest =>
          advanced.2 ++ (composed r2 taken.1 taken.2).1 :: rest

def composeSteps : Nat := 3 * edits1.length + 2

def compose (e other : TextEdit) : Option TextEdit :=
  if e.normalize.replacements = [] then some other.normalize
  else if other.normalize.replacements = [] then some e.normalize
  else
    (composeLoop (composeSteps e.normalize.replacements)
      ⟨e.normalize.replacements, ⟨1, 1⟩, none, ⟨1, 1⟩⟩ other.normalize.replacements).map
        fun resultReplacements => normalize ⟨resultReplacements⟩

/-! ## Edits laid out by positions -/

def TurnsFrom (p : Position) : List TextReplacement → JsString → JsString → Prop
  | [], s, t => t = s
  | r :: rs, s, t => ∃ gap old s' t', s = gap ++ (old ++ s') ∧ t = gap ++ (r.text ++ t') ∧
      r.start = p.walk gap ∧ r.stop = r.start.walk old ∧ TurnsFrom r.stop rs s' t'

theorem TurnsFrom.extend {p : Position} {rs : List TextReplacement} (gap : JsString)
    (h : TurnsFrom (p.walk gap) rs s t) : TurnsFrom p rs (gap ++ s) (gap ++ t) := by
  cases rs with
  | nil => exact congrArg (gap ++ ·) h
  | cons r rs =>
    obtain ⟨inner, old, s', t', rfl, rfl, hstart, hstop, hrest⟩ := h
    refine ⟨gap ++ inner, old, s', t', (append_assoc ..).symm, (append_assoc ..).symm,
      ?_, hstop, hrest⟩
    rw [hstart, walk_append]

theorem turnsFrom_of_turnsAt {rs : List TextReplacement} (h : TurnsAt whole front rs s t) :
    TurnsFrom (walk ⟨1, 1⟩ front) rs s t := by
  induction rs generalizing front s t with
  | nil => exact h
  | cons r rs ih =>
    obtain ⟨gap, old, s', t', rfl, rfl, hstart, hstop, hrest⟩ := h
    refine ⟨gap, old, s', t', rfl, rfl, ?_, ?_, ?_⟩
    · rw [hstart.2.1, walk_append]
    · rw [hstart.2.1, hstop.2.1, ← append_assoc, walk_append]
    · rw [hstop.2.1]
      exact ih hrest

theorem turnsAt_of_turnsFrom {rs : List TextReplacement} (hplain : PlainFeeds whole)
    (hwhole : front ++ s = whole) (h : TurnsFrom (walk ⟨1, 1⟩ front) rs s t) :
    TurnsAt whole front rs s t := by
  induction rs generalizing front s t with
  | nil => exact h
  | cons r rs ih =>
    obtain ⟨gap, old, s', t', rfl, rfl, hstart, hstop, hrest⟩ := h
    have hgap : front ++ gap ++ (old ++ s') = whole := by
      rw [← hwhole]
      simp only [append_assoc]
    have hold : front ++ (gap ++ old) ++ s' = whole := by
      rw [← hwhole]
      simp only [append_assoc]
    have hstart' : r.start = walk ⟨1, 1⟩ (front ++ gap) := by
      rw [hstart, walk_append]
    have hstop' : r.stop = walk ⟨1, 1⟩ (front ++ (gap ++ old)) := by
      rw [hstop, hstart', ← append_assoc, ← walk_append]
    refine ⟨gap, old, s', t', rfl, rfl, ?_, ?_, ?_⟩
    · rw [hstart', ← hgap]
      rw [← hgap] at hplain
      exact marks_walk hplain
    · rw [hstop', ← hold]
      rw [← hold] at hplain
      exact marks_walk hplain
    · rw [hstop'] at hrest
      exact ih hold hrest

variable {p : Position}

theorem rangeOf_eq {q : Position} (h : p.isBeforeOrEqual q = true) : rangeOf p q = between p q := by
  rw [rangeOf, Range.new]
  rw [isBeforeOrEqual_iff] at h
  rw [if_neg (by omega)]
  rfl

variable {rs : List TextReplacement}

theorem TurnsFrom.replace (old text : JsString) (h : TurnsFrom (p.walk old) rs s t) :
    TurnsFrom p (⟨rangeOf p (p.walk old), text⟩ :: rs) (old ++ s) (text ++ t) := by
  rw [rangeOf_eq (walk_isBeforeOrEqual p old)]
  exact ⟨[], old, s, t, rfl, rfl, rfl, rfl, h⟩

/-! ## Normalizing -/

theorem plusRange_touching {a b : Range}
    (ha : a.getStartPosition.isBeforeOrEqual a.getEndPosition = true)
    (hb : b.getStartPosition.isBeforeOrEqual b.getEndPosition = true)
    (hab : a.getEndPosition = b.getStartPosition) :
    plusRange a b = between a.getStartPosition b.getEndPosition := by
  obtain ⟨aLine, aColumn, aEndLine, aEndColumn⟩ := a
  obtain ⟨bLine, bColumn, bEndLine, bEndColumn⟩ := b
  simp only [isBeforeOrEqual_iff, getStartPosition, getEndPosition, Position.mk.injEq] at ha hb hab
  obtain ⟨rfl, rfl⟩ := hab
  have hstart : (if aEndLine < aLine then (⟨aEndLine, aEndColumn⟩ : Position)
      else if aEndLine = aLine then ⟨aEndLine, min aEndColumn aColumn⟩
      else ⟨aLine, aColumn⟩) = ⟨aLine, aColumn⟩ := by
    split_ifs
    · omega
    · rw [Position.mk.injEq]
      omega
    · rfl
  have hstop : (if aEndLine < bEndLine then (⟨bEndLine, bEndColumn⟩ : Position)
      else if bEndLine = aEndLine then ⟨bEndLine, max bEndColumn aEndColumn⟩
      else ⟨aEndLine, aEndColumn⟩) = ⟨bEndLine, bEndColumn⟩ := by
    split_ifs
    · rfl
    · rw [Position.mk.injEq]
      omega
    · omega
  rw [plusRange]
  simp only [hstart, hstop]
  refine rangeOf_eq ?_
  rw [isBeforeOrEqual_iff]
  show aLine < bEndLine ∨ aLine = bEndLine ∧ aColumn ≤ bEndColumn
  omega

theorem TurnsFrom.skip {r : TextReplacement} (h : TurnsFrom p (r :: rs) s t)
    (hempty : r.isEmpty = true) : TurnsFrom p rs s t := by
  obtain ⟨gap, old, s', t', rfl, rfl, hstart, hstop, hrest⟩ := h
  rw [TextReplacement.isEmpty, Bool.and_eq_true, Range.isEmpty, Bool.and_eq_true,
    decide_eq_true_eq, decide_eq_true_eq, List.isEmpty_iff] at hempty
  obtain ⟨⟨hline, hcolumn⟩, htext⟩ := hempty
  have hsame : r.start = r.stop := by
    rw [TextReplacement.start, TextReplacement.stop, getStartPosition,
      getEndPosition, Position.mk.injEq]
    exact ⟨hline, hcolumn⟩
  rw [hsame] at hstop
  obtain rfl := walk_eq_self.mp hstop.symm
  rw [htext, nil_append, nil_append]
  rw [← hsame, hstart] at hrest
  exact hrest.extend gap

theorem normalizeLoop_turns {p : Position} {last : Option TextReplacement}
    {rs : List TextReplacement} {s t : JsString} (h : TurnsFrom p (last.toList ++ rs) s t) :
    TurnsFrom p (normalizeLoop last rs) s t := by
  induction rs generalizing p last s t with
  | nil =>
    rw [append_nil] at h
    exact h
  | cons r rs ih =>
    cases last with
    | none =>
      rw [normalizeLoop]
      split_ifs with hempty
      · exact ih (TurnsFrom.skip h hempty)
      · exact ih h
    | some last =>
      obtain ⟨gap, old, s', t', rfl, rfl, hstart, hstop, hrest⟩ := h
      rw [normalizeLoop]
      split_ifs with htouch hempty
      · obtain ⟨gap', old', s'', t'', rfl, rfl, hstart', hstop', hrest'⟩ := hrest
        rw [← htouch] at hstart'
        obtain rfl := walk_eq_self.mp hstart'.symm
        refine ih ⟨gap, old ++ old', s'', t'', ?_, ?_, ?_, ?_, ?_⟩
        · simp only [nil_append, append_assoc]
        · simp only [nil_append, append_assoc]
        all_goals
          have hlast : last.start.isBeforeOrEqual last.stop = true := by
            rw [hstop]
            exact walk_isBeforeOrEqual _ _
          have hnext : r.start.isBeforeOrEqual r.stop = true := by
            rw [hstop']
            exact walk_isBeforeOrEqual _ _
          have hrange : plusRange last.range r.range = between last.start r.stop :=
            plusRange_touching hlast hnext htouch
        · rw [hrange]
          exact hstart
        · rw [hrange, walk_append]
          show r.stop = walk (walk last.start old) old'
          rw [← hstop, htouch]
          exact hstop'
        · rw [hrange]
          exact hrest'
      · exact ih ⟨gap, old, s', t', rfl, rfl, hstart, hstop, hrest.skip hempty⟩
      · exact ⟨gap, old, s', t', rfl, rfl, hstart, hstop, ih hrest⟩

/-! ## Splitting a text -/

theorem scanUnits_shift (line column : Nat) (text : JsString) : scanUnits line column text =
      ⟨line + (ofUnits text).lineCount,
        if (ofUnits text).lineCount = 0 then
          column + (ofUnits text).columnCount
        else (ofUnits text).columnCount⟩ := by
  induction text generalizing line column with
  | nil => rfl
  | cons u text ih =>
    rw [ofUnits, scanUnits, scanUnits]
    by_cases hfeed : u = lineFeed
    · rw [if_pos hfeed, if_pos hfeed, ih, ih (0 + 1) 0]
      dsimp only
      rw [TextLength.mk.injEq]
      refine ⟨by omega, ?_⟩
      split_ifs
      all_goals omega
    · rw [if_neg hfeed, if_neg hfeed, ih, ih 0 (0 + 1)]
      dsimp only
      rw [TextLength.mk.injEq, Nat.zero_add]
      refine ⟨rfl, ?_⟩
      split_ifs
      · omega
      · rfl

theorem skipLines_append (a b : JsString) :
    ∃ offset, skipLines (ofUnits a).lineCount (a ++ b) = some offset ∧
      offset + (ofUnits a).columnCount = a.length := by
  induction a with
  | nil => exact ⟨0, by rw [ofUnits, scanUnits, skipLines], rfl⟩
  | cons u a ih =>
    obtain ⟨offset, hskip, hlength⟩ := ih
    rw [ofUnits, scanUnits, cons_append]
    split_ifs with hfeed
    · rw [scanUnits_shift]
      refine ⟨offset + 1, ?_, ?_⟩
      · simp only [Nat.add_comm 1]
        rw [skipLines, if_pos hfeed, hskip]
        rfl
      · rw [List.length_cons]
        simp only
        split_ifs
        · omega
        · omega
    · rw [scanUnits_shift]
      simp only [Nat.zero_add]
      cases hlines : (ofUnits a).lineCount with
      | zero =>
        rw [hlines, skipLines] at hskip
        cases hskip
        refine ⟨0, by rw [skipLines], ?_⟩
        rw [length_cons, if_pos rfl]
        omega
      | succ n =>
        rw [hlines] at hskip
        refine ⟨offset + 1, ?_, ?_⟩
        · rw [skipLines, if_neg hfeed, hskip]
          rfl
        · rw [length_cons, if_neg (Nat.succ_ne_zero n)]
          omega

theorem splitText_append (a b : JsString) : splitText (a ++ b) (.ofUnits a) = some (a, b) := by
  rw [splitText]
  split_ifs with hzero
  · have hlength : ofUnits a = .zero := by
      obtain ⟨hline, hcolumn⟩ := hzero
      rw [TextLength.zero]
      generalize ofUnits a = len at hline hcolumn
      obtain ⟨lines, columns⟩ := len
      rw [TextLength.mk.injEq]
      exact ⟨hline, hcolumn⟩
    obtain rfl := ofUnits_eq_zero.mp hlength
    rfl
  · obtain ⟨offset, hskip, hlength⟩ := skipLines_append a b
    rw [hskip, map_some, hlength, take_left, drop_left]

/-! ## The queue -/

/-- The next edit does not begin where the last one ended. -/
def gapPending (st : ComposeState) : Bool :=
  st.edits1.head?.any fun r => st.lastEdit1EndS0 ≠ r.start

def Ahead (st : ComposeState) (p : Position) (u v : JsString) : Prop :=
  match st.head with
  | none => p = st.lastEdit1EndS0 ∧ TurnsFrom st.lastEdit1EndS0 st.edits1 u v
  | some (.gap start stop len) => p = start ∧ ∃ g u' v', u = g ++ u' ∧ v = g ++ v' ∧
      stop = start.walk g ∧ len = .ofUnits g ∧ st.lastEdit1EndS0 = stop ∧
      gapPending st = false ∧ TurnsFrom stop st.edits1 u' v'
  | some (.text start stop text len) => p = start ∧ ∃ old u' v', u = old ++ u' ∧
      v = text ++ v' ∧ stop = start.walk old ∧ len = .ofUnits text ∧
      st.lastEdit1EndS0 = stop ∧ TurnsFrom stop st.edits1 u' v'
  | some (.infinite start) => p = start ∧ st.edits1 = [] ∧ v = u

def weight (st : ComposeState) : Nat :=
  match st.head with
  | none => 3 * st.edits1.length + if gapPending st then 1 else 0
  | some (.gap _ _ _) => 3 * st.edits1.length + 1
  | some (.text _ _ _ _) => 3 * st.edits1.length + 2
  | some (.infinite _) => 0

theorem ensureHead_spec {st : ComposeState} {p : Position} (h : Ahead st p u v) :
    Ahead st.ensureHead.2 p u v ∧ st.ensureHead.2.head = some st.ensureHead.1 ∧
      st.ensureHead.2.currentPosInS1 = st.currentPosInS1 ∧
      weight st.ensureHead.2 ≤ weight st ∧ st.ensureHead.1.start = p := by
  obtain ⟨edits1, last, head, current⟩ := st
  cases head with
  | some head =>
    refine ⟨h, rfl, rfl, Nat.le_refl _, ?_⟩
    cases head with
    | gap _ _ _ | text _ _ _ _ | infinite _ => exact h.1.symm
  | none =>
    obtain ⟨rfl, hturns⟩ := h
    cases edits1 with
    | nil => exact ⟨⟨rfl, rfl, hturns⟩, rfl, rfl, Nat.zero_le _, rfl⟩
    | cons r rest =>
      obtain ⟨gap, old, s', t', rfl, rfl, hstart, hstop, hrest⟩ := hturns
      rw [ComposeState.ensureHead]
      simp only
      split_ifs with htouch
      · rw [htouch] at hstart
        obtain rfl := walk_eq_self.mp hstart.symm
        refine ⟨⟨htouch, old, s', t', rfl, rfl, hstop, rfl, rfl, hrest⟩, rfl, rfl, ?_, htouch.symm⟩
        rw [weight, weight]
        simp only [length_cons]
        omega
      · refine ⟨⟨rfl, gap, old ++ s', r.text ++ t', rfl, rfl, hstart, ?_, rfl, ?_,
          [], old, s', t', rfl, rfl, rfl, hstop, hrest⟩, rfl, rfl, ?_, rfl⟩
        · rw [hstart, betweenPositions_walk]
        · exact decide_eq_false (fun h => h rfl)
        · show 3 * (r :: rest).length + 1 ≤
            3 * (r :: rest).length + if decide (p ≠ r.start) = true then 1 else 0
          rw [if_pos (decide_eq_true htouch)]

theorem remainingLength_append (a b : JsString) :
    remainingLength (.ofUnits (a ++ b)) (.ofUnits a) = .ofUnits b :=
  (ofUnits_rest a b).symm

theorem isBefore_walk_iff (h : a ++ a' = b ++ b') :
    (p.walk a).isBefore (p.walk b) = true ↔ a.length < b.length := by
  have hb : b <+: a ++ a' := by
    rw [h]
    exact prefix_append _ _
  exact walk_isBefore (prefix_append a a') hb

theorem split_of_lt (h : a ++ a' = b ++ b') (hlt : a.length < b.length) :
    ∃ c, b = a ++ c ∧ a' = c ++ b' := by
  rcases append_eq_append_iff.mp h with hlong | ⟨c, rfl, -⟩
  · exact hlong
  · rw [length_append] at hlt
    omega

theorem split_of_le (h : a ++ a' = b ++ b') (hle : ¬a.length < b.length) :
    ∃ c, a = b ++ c ∧ b' = c ++ a' := by
  rcases append_eq_append_iff.mp h with ⟨c, rfl, rfl⟩ | hlong
  · rw [length_append] at hle
    obtain rfl := eq_nil_of_length_eq_zero (by omega : c.length = 0)
    exact ⟨[], by simp, rfl⟩
  · exact hlong

variable {st : ComposeState} {stop : Position} {len : TextLength} {start : Position}

theorem weight_dropHead_gap (hhead : st.head = some (.gap start stop len))
    (hpending : gapPending st = false) (position : Position) :
    weight (st.dropHead position) < weight st := by
  have hweight : weight st = 3 * st.edits1.length + 1 := by rw [weight, hhead]
  have hdropped : weight (st.dropHead position) =
      3 * st.edits1.length + if gapPending st then 1 else 0 := rfl
  rw [hweight, hdropped, hpending]
  exact Nat.lt_succ_self _

theorem weight_dropHead_text (hhead : st.head = some (.text start stop text len))
    (position : Position) : weight (st.dropHead position) < weight st := by
  have hweight : weight st = 3 * st.edits1.length + 2 := by rw [weight, hhead]
  have hdropped : weight (st.dropHead position) =
      3 * st.edits1.length + if gapPending st then 1 else 0 := rfl
  rw [hweight, hdropped]
  split_ifs
  · omega
  · omega

theorem weight_setHead_gap (hhead : st.head = some (.gap start stop len)) :
    weight (st.setHead (.gap start' stop' len') position) = weight st := by
  rw [weight, weight, hhead]
  rfl

theorem weight_setHead_text {text' : JsString}
    (hhead : st.head = some (.text start stop text len)) :
    weight (st.setHead (.text start' stop' text' len') position) = weight st := by
  rw [weight, weight, hhead]
  rfl

theorem ahead_dropHead (hlast : st.lastEdit1EndS0 = stop) (h : TurnsFrom stop st.edits1 u v)
    (position : Position) : Ahead (st.dropHead position) stop u v := by
  subst hlast
  exact ⟨rfl, h⟩

theorem advanceTo_spec {st : ComposeState} {p : Position} {gap2 : JsString}
    (h : Ahead st p u (gap2 ++ w)) (hsteps : weight st < steps) :
    ∃ st' pushes p' u', advanceTo (st.currentPosInS1.walk gap2) steps st = some (st', pushes) ∧
      Ahead st' p' u' w ∧ st'.currentPosInS1 = st.currentPosInS1.walk gap2 ∧
      weight st' ≤ weight st ∧
      ∀ rs t, TurnsFrom p' rs u' t → TurnsFrom p (pushes ++ rs) u (gap2 ++ t) := by
  induction steps generalizing st p u gap2 with
  | zero => exact absurd hsteps (Nat.not_lt_zero _)
  | succ steps ih =>
    by_cases hgap : gap2 = []
    · subst hgap
      refine ⟨st, [], p, u, ?_, h, rfl, Nat.le_refl _, fun _ _ hrest => hrest⟩
      rw [walk_nil, advanceTo, if_pos rfl]
    · have hne : ¬st.currentPosInS1 = st.currentPosInS1.walk gap2 := fun heq =>
        hgap (walk_eq_self.mp heq.symm)
      rw [advanceTo, if_neg hne]
      obtain ⟨hahead, hhead, hcur, hweight, -⟩ := ensureHead_spec h
      generalize st.ensureHead = ensured at hahead hhead hcur hweight ⊢
      obtain ⟨head, st₁⟩ := ensured
      simp only at hahead hhead hcur hweight ⊢
      rw [← hcur]
      rw [Ahead, hhead] at hahead
      have hdist := betweenPositions_walk st₁.currentPosInS1 gap2
      cases head with
      | infinite start =>
        obtain ⟨rfl, hedits, rfl⟩ := hahead
        simp only
        rw [hdist, ofUnits_addToPosition]
        refine ⟨_, _, p.walk gap2, w, rfl, ⟨rfl, hedits, rfl⟩, rfl, Nat.zero_le _,
          fun rs t hrest => hrest.extend gap2⟩
      | gap start stop len =>
        obtain ⟨rfl, g, u', v', rfl, hv, hstop, rfl, hlast, hpending, hturns⟩ := hahead
        simp only
        rw [ofUnits_addToPosition]
        have hiff := isBefore_walk_iff (p := st₁.currentPosInS1) hv
        split_ifs with hinside
        · rw [hiff] at hinside
          obtain ⟨g', rfl, rfl⟩ := split_of_lt hv hinside
          rw [hdist, ofUnits_addToPosition, remainingLength_append]
          refine ⟨_, _, p.walk gap2, g' ++ u', rfl,
            ⟨rfl, g', u', v', rfl, rfl, ?_, rfl, hlast, hpending, hturns⟩, rfl, ?_,
            fun rs t hrest => ?_⟩
          · rw [hstop, walk_append]
          · exact Nat.le_trans (Nat.le_of_eq (weight_setHead_gap hhead)) hweight
          · rw [append_assoc]
            exact hrest.extend gap2
        · rw [hiff] at hinside
          obtain ⟨gap2', rfl, rfl⟩ := split_of_le hv hinside
          have hdropped : Ahead (st₁.dropHead (st₁.currentPosInS1.walk g)) stop u'
              (gap2' ++ w) := ahead_dropHead hlast hturns _
          have hless := weight_dropHead_gap hhead hpending (st₁.currentPosInS1.walk g)
          obtain ⟨st', pushes, p', u'', hadvance, hahead', hcur', hweight', hemits⟩ :=
            ih hdropped (by omega)
          rw [walk_append]
          refine ⟨st', pushes, p', u'', hadvance, hahead', hcur', by omega, fun rs t hrest => ?_⟩
          rw [append_assoc]
          have hpart := hemits rs t hrest
          rw [hstop] at hpart
          exact hpart.extend g
      | text start stop text len =>
        obtain ⟨rfl, old, u', v', rfl, hv, hstop, rfl, hlast, hturns⟩ := hahead
        simp only
        rw [ofUnits_addToPosition]
        have hiff := isBefore_walk_iff (p := st₁.currentPosInS1) hv
        split_ifs with hinside
        · rw [hiff] at hinside
          obtain ⟨t2, rfl, rfl⟩ := split_of_lt hv hinside
          rw [hdist, splitText_append, map_some, remainingLength_append]
          refine ⟨_, _, stop, u', rfl, ⟨rfl, [], u', v', rfl, rfl, rfl, rfl, hlast, hturns⟩, rfl,
            ?_, fun rs t hrest => ?_⟩
          · exact Nat.le_trans (Nat.le_of_eq (weight_setHead_text hhead)) hweight
          · rw [hstop] at hrest ⊢
            exact hrest.replace old gap2
        · rw [hiff] at hinside
          obtain ⟨gap2', rfl, rfl⟩ := split_of_le hv hinside
          have hdropped : Ahead (st₁.dropHead (st₁.currentPosInS1.walk text)) stop u'
              (gap2' ++ w) := ahead_dropHead hlast hturns _
          have hless := weight_dropHead_text hhead (st₁.currentPosInS1.walk text)
          obtain ⟨st', pushes, p', u'', hadvance, hahead', hcur', hweight', hemits⟩ :=
            ih hdropped (by omega)
          rw [walk_append]
          refine ⟨st', ⟨rangeOf p stop, text⟩ :: pushes, p', u'', ?_, hahead', hcur', by omega,
            fun rs t hrest => ?_⟩
          · have hadvance' : advanceTo ((st₁.currentPosInS1.walk text).walk gap2') steps
                (st₁.dropHead (st₁.currentPosInS1.walk text)) = some (st', pushes) := hadvance
            rw [hadvance', map_some]
          · rw [append_assoc]
            have hpart := hemits rs t hrest
            rw [hstop] at hpart ⊢
            exact hpart.replace old text

theorem consumed_of_parts {consumed consumed' : Option (Position × Position)}
    {old o old2 : JsString} (hstop : stop = p.walk old)
    (hempty : old2 = [] → consumed' = consumedFrom consumed p stop ∧ o = []) (hsome : old2 ≠ [] →
      consumed' = some (((consumedFrom consumed p stop).map Prod.fst).getD stop, stop.walk o)) :
    consumed' = some ((consumed.map Prod.fst).getD p, p.walk (old ++ o)) := by
  rw [walk_append, ← hstop]
  by_cases hold2 : old2 = []
  · obtain ⟨rfl, rfl⟩ := hempty hold2
    rfl
  · exact hsome hold2

theorem consumeTo_spec {steps : Nat} {st : ComposeState} {p : Position} {u w old2 : JsString}
    {consumed : Option (Position × Position)} (h : Ahead st p u (old2 ++ w))
    (hsteps : weight st < steps) :
    ∃ st' consumed' o u',
      consumeTo (st.currentPosInS1.walk old2) steps consumed st = some (st', consumed') ∧
      u = o ++ u' ∧ Ahead st' (p.walk o) u' w ∧
      st'.currentPosInS1 = st.currentPosInS1.walk old2 ∧ weight st' ≤ weight st ∧
      (old2 = [] → consumed' = consumed ∧ o = []) ∧
      (old2 ≠ [] → consumed' = some ((consumed.map Prod.fst).getD p, p.walk o)) := by
  induction steps generalizing st p u old2 consumed with
  | zero => exact absurd hsteps (Nat.not_lt_zero _)
  | succ steps ih =>
    by_cases hold : old2 = []
    · subst hold
      refine ⟨st, consumed, [], u, ?_, rfl, h, rfl, Nat.le_refl _, fun _ => ⟨rfl, rfl⟩,
        fun hne => absurd rfl hne⟩
      rw [walk_nil, consumeTo, if_pos rfl]
    · have hne : ¬st.currentPosInS1 = st.currentPosInS1.walk old2 := fun heq =>
        hold (walk_eq_self.mp heq.symm)
      rw [consumeTo, if_neg hne]
      obtain ⟨hahead, hhead, hcur, hweight, -⟩ := ensureHead_spec h
      generalize st.ensureHead = ensured at hahead hhead hcur hweight ⊢
      obtain ⟨head, st₁⟩ := ensured
      simp only at hahead hhead hcur hweight ⊢
      rw [← hcur]
      rw [Ahead, hhead] at hahead
      have hdist := betweenPositions_walk st₁.currentPosInS1 old2
      cases head with
      | infinite start =>
        obtain ⟨rfl, hedits, rfl⟩ := hahead
        simp only
        rw [hdist, ofUnits_addToPosition]
        exact ⟨_, _, old2, w, rfl, rfl, ⟨rfl, hedits, rfl⟩, rfl, Nat.zero_le _,
          fun heq => absurd heq hold, fun _ => rfl⟩
      | gap start stop len =>
        obtain ⟨rfl, g, u', v', rfl, hv, hstop, rfl, hlast, hpending, hturns⟩ := hahead
        simp only
        rw [ofUnits_addToPosition]
        have hiff := isBefore_walk_iff (p := st₁.currentPosInS1) hv
        split_ifs with hinside
        · rw [hiff] at hinside
          obtain ⟨g', rfl, rfl⟩ := split_of_lt hv hinside
          rw [hdist, ofUnits_addToPosition, remainingLength_append]
          refine ⟨_, _, old2, g' ++ u', rfl, append_assoc .., ⟨rfl, g', u', v', rfl, rfl, ?_,
            rfl, hlast, hpending, hturns⟩, rfl, ?_, fun heq => absurd heq hold, fun _ => rfl⟩
          · rw [hstop, walk_append]
          · exact Nat.le_trans (Nat.le_of_eq (weight_setHead_gap hhead)) hweight
        · rw [hiff] at hinside
          obtain ⟨old2', rfl, rfl⟩ := split_of_le hv hinside
          have hdropped : Ahead (st₁.dropHead (st₁.currentPosInS1.walk g)) stop u'
              (old2' ++ w) := ahead_dropHead hlast hturns _
          have hless := weight_dropHead_gap hhead hpending (st₁.currentPosInS1.walk g)
          obtain ⟨st', consumed', o, u'', hconsume, rfl, hahead', hcur', hweight', hempty,
            hsome⟩ := @ih _ _ _ _ (consumedFrom consumed p stop) hdropped (by omega)
          rw [walk_append]
          refine ⟨st', consumed', g ++ o, u'', hconsume, (append_assoc ..).symm, ?_, hcur',
            by omega, fun heq => absurd heq hold, fun _ => ?_⟩
          · rw [walk_append, ← hstop]
            exact hahead'
          · exact consumed_of_parts hstop hempty hsome
      | text start stop text len =>
        obtain ⟨rfl, old, u', v', rfl, hv, hstop, rfl, hlast, hturns⟩ := hahead
        simp only
        rw [ofUnits_addToPosition]
        have hiff := isBefore_walk_iff (p := st₁.currentPosInS1) hv
        split_ifs with hinside
        · rw [hiff] at hinside
          obtain ⟨t2, rfl, rfl⟩ := split_of_lt hv hinside
          rw [hdist, splitText_append, map_some, remainingLength_append]
          refine ⟨_, _, old, u', rfl, rfl, ⟨hstop.symm, [], u', v', rfl, rfl, rfl, rfl, hlast,
            hturns⟩, rfl, ?_, fun heq => absurd heq hold, fun _ => ?_⟩
          · exact Nat.le_trans (Nat.le_of_eq (weight_setHead_text hhead)) hweight
          · rw [← hstop]
            rfl
        · rw [hiff] at hinside
          obtain ⟨old2', rfl, rfl⟩ := split_of_le hv hinside
          have hdropped : Ahead (st₁.dropHead (st₁.currentPosInS1.walk text)) stop u'
              (old2' ++ w) := ahead_dropHead hlast hturns _
          have hless := weight_dropHead_text hhead (st₁.currentPosInS1.walk text)
          obtain ⟨st', consumed', o, u'', hconsume, rfl, hahead', hcur', hweight', hempty,
            hsome⟩ := @ih _ _ _ _ (consumedFrom consumed p stop) hdropped (by omega)
          rw [walk_append]
          refine ⟨st', consumed', old ++ o, u'', hconsume, (append_assoc ..).symm, ?_, hcur',
            by omega, fun heq => absurd heq hold, fun _ => ?_⟩
          · rw [walk_append, ← hstop]
            exact hahead'
          · exact consumed_of_parts hstop hempty hsome

theorem drain_spec {st : ComposeState} {p : Position} (h : Ahead st p u v)
    (hsteps : weight st < steps) : ∃ rest, drain steps st = some rest ∧ TurnsFrom p rest u v := by
  induction steps generalizing st p u v with
  | zero => exact absurd hsteps (Nat.not_lt_zero _)
  | succ steps ih =>
    rw [drain]
    obtain ⟨hahead, hhead, -, hweight, -⟩ := ensureHead_spec h
    generalize st.ensureHead = ensured at hahead hhead hweight ⊢
    obtain ⟨head, st₁⟩ := ensured
    rw [Ahead, hhead] at hahead
    cases head with
    | infinite start =>
      obtain ⟨-, -, rfl⟩ := hahead
      exact ⟨[], rfl, rfl⟩
    | gap start stop len =>
      obtain ⟨rfl, g, u', v', rfl, rfl, hstop, rfl, hlast, hpending, hturns⟩ := hahead
      have hless := weight_dropHead_gap hhead hpending st₁.currentPosInS1
      obtain ⟨rest, hrest, hemits⟩ := ih (ahead_dropHead hlast hturns st₁.currentPosInS1) (by omega)
      rw [hstop] at hemits
      exact ⟨rest, hrest, hemits.extend g⟩
    | text start stop text len =>
      obtain ⟨rfl, old, u', v', rfl, rfl, hstop, rfl, hlast, hturns⟩ := hahead
      have hless := weight_dropHead_text hhead st₁.currentPosInS1
      obtain ⟨rest, hrest, hemits⟩ := ih (ahead_dropHead hlast hturns st₁.currentPosInS1) (by omega)
      refine ⟨⟨rangeOf p stop, text⟩ :: rest, ?_, ?_⟩
      · simp only
        rw [hrest, map_some]
      · rw [hstop] at hemits ⊢
        exact hemits.replace old text

theorem composed_spec {r2 : TextReplacement} {st : ComposeState}
    {consumed : Option (Position × Position)} {p : Position} {o old2 u v : JsString}
    (h : Ahead st (p.walk o) u v) (hempty : old2 = [] → consumed = none ∧ o = [])
    (hsome : old2 ≠ [] → consumed = some (p, p.walk o)) :
    (composed r2 st consumed).1 = ⟨rangeOf p (p.walk o), r2.text⟩ ∧
      Ahead (composed r2 st consumed).2 (p.walk o) u v ∧
      (composed r2 st consumed).2.currentPosInS1 = st.currentPosInS1 ∧
      weight (composed r2 st consumed).2 ≤ weight st := by
  by_cases hold : old2 = []
  · obtain ⟨rfl, rfl⟩ := hempty hold
    obtain ⟨hahead, -, hcur, hweight, hstart⟩ := ensureHead_spec h
    refine ⟨?_, hahead, hcur, hweight⟩
    rw [composed, hstart]
    rfl
  · obtain rfl := hsome hold
    exact ⟨rfl, h, rfl, Nat.le_refl _⟩

theorem composeLoop_spec {st : ComposeState} {rs2 : List TextReplacement} {p : Position}
    (h : Ahead st p u v) (h2 : TurnsFrom st.currentPosInS1 rs2 v w) (hsteps : weight st < steps) :
    ∃ result, composeLoop steps st rs2 = some result ∧ TurnsFrom p result u w := by
  induction rs2 generalizing st p u v w with
  | nil =>
    obtain rfl : w = v := h2
    exact drain_spec h hsteps
  | cons r2 rs2 ih =>
    obtain ⟨gap2, old2, v', w', rfl, rfl, hstart, hstop, hrest⟩ := h2
    obtain ⟨st₁, pushes, p₁, u₁, hadvance, hahead₁, hcur₁, hweight₁, hemits⟩ :=
      advanceTo_spec h hsteps
    rw [← hstart] at hadvance hcur₁
    obtain ⟨st₂, consumed, o, u₂, hconsume, rfl, hahead₂, hcur₂, hweight₂, hempty, hsome⟩ :=
      @consumeTo_spec steps _ _ _ _ _ none hahead₁ (by omega)
    rw [hcur₁, ← hstop] at hconsume hcur₂
    obtain ⟨hreplacement, hahead₃, hcur₃, hweight₃⟩ :=
      @composed_spec r2 _ _ _ _ _ _ _ hahead₂ hempty hsome
    rw [← hcur₂, ← hcur₃] at hrest
    obtain ⟨result, hresult, hturns⟩ := ih hahead₃ hrest (by omega)
    refine ⟨pushes ++ ⟨rangeOf p₁ (p₁.walk o), r2.text⟩ :: result, ?_, ?_⟩
    · rw [composeLoop, hadvance, bind_some, hconsume, bind_some, hresult, map_some, hreplacement]
    · exact hemits _ _ (hturns.replace o r2.text)

/-! ## Composing -/

theorem weight_initial : weight ⟨edits1, ⟨1, 1⟩, none, ⟨1, 1⟩⟩ < composeSteps edits1 := by
  rw [weight, composeSteps]
  simp only
  split_ifs
  · omega
  · omega

theorem compose_turnsFrom {e1 e2 : TextEdit} (h1 : TurnsFrom ⟨1, 1⟩ e1.replacements s t)
    (h2 : TurnsFrom ⟨1, 1⟩ e2.replacements t u) :
    ∃ e, e1.compose e2 = some e ∧ TurnsFrom ⟨1, 1⟩ e.replacements s u := by
  have hn1 : TurnsFrom ⟨1, 1⟩ e1.normalize.replacements s t := @normalizeLoop_turns _ none _ _ _ h1
  have hn2 : TurnsFrom ⟨1, 1⟩ e2.normalize.replacements t u := @normalizeLoop_turns _ none _ _ _ h2
  rw [compose]
  split_ifs with hempty1 hempty2
  · rw [hempty1] at hn1
    obtain rfl : t = s := hn1
    exact ⟨_, rfl, hn2⟩
  · rw [hempty2] at hn2
    obtain rfl : u = t := hn2
    exact ⟨_, rfl, hn1⟩
  · have hahead : Ahead ⟨e1.normalize.replacements, ⟨1, 1⟩, none, ⟨1, 1⟩⟩ ⟨1, 1⟩ s t := ⟨rfl, hn1⟩
    obtain ⟨result, hresult, hturns⟩ := composeLoop_spec hahead hn2 (weight_initial _)
    refine ⟨normalize ⟨result⟩, by rw [hresult, map_some], ?_⟩
    exact @normalizeLoop_turns _ none _ _ _ hturns

theorem isPosition_of_marks (hplain : PlainFeeds whole) (h : Marks whole front position) :
    IsPosition whole position := by
  obtain ⟨⟨back, rfl⟩, rfl, -⟩ := h
  exact isPosition_walk hplain

theorem validFrom_of_turnsAt {lastEditEnd : Position} {rs : List TextReplacement}
    (hplain : PlainFeeds whole) (hfront : Marks whole front lastEditEnd)
    (h : TurnsAt whole front rs s t) : ValidFrom whole lastEditEnd rs := by
  induction rs generalizing front s t lastEditEnd with
  | nil => trivial
  | cons r rs ih =>
    obtain ⟨gap, old, s', t', rfl, rfl, hstart, hstop, hrest⟩ := h
    have hassoc : front ++ gap ++ old = front ++ (gap ++ old) := append_assoc ..
    refine ⟨isPosition_of_marks hplain hstart, isPosition_of_marks hplain hstop,
      isBeforeOrEqual_of_marks hfront hstart, ?_, ih hstop hrest⟩
    rw [← hassoc] at hstop
    exact isBeforeOrEqual_of_marks hstart hstop

theorem applied_of_turnsFrom {e : TextEdit} (hplain : PlainFeeds s)
    (h : TurnsFrom ⟨1, 1⟩ e.replacements s u) : e.ValidOn s ∧ e.applyToString s = some u := by
  have hturns : TurnsAt s [] e.replacements s u := turnsAt_of_turnsFrom hplain (nil_append s) h
  exact ⟨validFrom_of_turnsAt hplain (marks_nil s) hturns,
    applyFrom_of_turnsAt (nil_append s) (marks_end s) (marks_nil s) hturns⟩

/-- Composing has the effect of one edit after the other, as text edits and as string edits. -/
theorem textEdit_compose_effect {e1 e2 : TextEdit} {s0 s1 : JsString} (hplain : PlainFeeds s0)
    (h1 : e1.ValidOn s0) (hs1 : e1.applyToString s0 = some s1) (h2 : e2.ValidOn s1) :
    ∃ s2, e2.applyToString s1 = some s2 ∧
      (∃ e, e1.compose e2 = some e ∧ e.ValidOn s0 ∧ e.applyToString s0 = some s2) ∧
      ∃ edit1 edit2 edit, getStringEdit s0 e1 = some edit1 ∧ getStringEdit s1 e2 = some edit2 ∧
        edit1.compose edit2 = some edit ∧ edit.apply s0 = s2 := by
  obtain ⟨t, ht, happly⟩ := h1.turnsAt
  obtain rfl : t = s1 := Option.some.inj (happly.symm.trans hs1)
  obtain ⟨s2, hs2, happly2⟩ := h2.turnsAt
  refine ⟨s2, happly2, ?_, ?_⟩
  · obtain ⟨e, he, hturns⟩ := compose_turnsFrom (turnsFrom_of_turnsAt ht) (turnsFrom_of_turnsAt hs2)
    exact ⟨e, he, applied_of_turnsFrom hplain hturns⟩
  · obtain ⟨edit1, hedit1, hturns1⟩ := getStringEdit_of_turnsAt ht
    obtain ⟨edit2, hedit2, hturns2⟩ := getStringEdit_of_turnsAt hs2
    obtain ⟨edit, hedit, hturns⟩ := StringEdit.compose_turns hturns1 hturns2
    exact ⟨edit1, edit2, edit, hedit1, hedit2, hedit, StringEdit.apply_of_turns hturns⟩

/-- Of a replacement over two lines, part of what it put there is replaced again. -/
theorem textEdit_compose_effect_sample :
    ∃ s2, (⟨[⟨⟨2, 1, 2, 3⟩, [122]⟩]⟩ : TextEdit).applyToString [97, 120, 10, 121, 99, 100] =
        some s2 ∧
      (∃ e, (⟨[⟨⟨1, 2, 2, 1⟩, [120, 10, 121]⟩]⟩ : TextEdit).compose
          ⟨[⟨⟨2, 1, 2, 3⟩, [122]⟩]⟩ = some e ∧ e.ValidOn [97, 98, 10, 99, 100] ∧
        e.applyToString [97, 98, 10, 99, 100] = some s2) ∧
      ∃ edit1 edit2 edit,
        getStringEdit [97, 98, 10, 99, 100] ⟨[⟨⟨1, 2, 2, 1⟩, [120, 10, 121]⟩]⟩ = some edit1 ∧
        getStringEdit [97, 120, 10, 121, 99, 100] ⟨[⟨⟨2, 1, 2, 3⟩, [122]⟩]⟩ = some edit2 ∧
        edit1.compose edit2 = some edit ∧ edit.apply [97, 98, 10, 99, 100] = s2 :=
  textEdit_compose_effect (by simp [PlainFeeds, carriageReturn]) (by decide) (by decide) (by decide)

end TextEdit

end Fumie.Editor
