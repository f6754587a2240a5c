import Fumie.AgentHost.Terminal.Osc633Split

/-!
# The cuts that show

A cut is harmful in two places: between the two units of an introducer, unless the
sequence is one that is passed through unchanged, and behind an `ESC` inside a sequence
that turns out not to be its terminator. Output cut anywhere else gives the text and
the events of the whole, and output cut once at a harmful place never does.
-/

namespace Fumie.AgentHost

open Fumie.Lib Fumie.Base List Transducer

variable {s whole cut : Scan} {ahead : List Item} {after : JsString}

variable (chunks : List JsString) (segments : List Osc633ParseSegment) (text : JsString)

namespace Osc633

/-! ## What is compared -/

def ParsesAsWhole : Prop :=
  cleanedText (segmentsOf chunks) = cleanedText (segmentsOf [chunks.flatten]) ∧
    placedEvents 0 (segmentsOf chunks) = placedEvents 0 (segmentsOf [chunks.flatten])

def textOf : List Item → JsString
  | [] => []
  | .inl u :: rest => u :: textOf rest
  | .inr _ :: rest => textOf rest

def placedItems (offset : Nat) : List Item → List (Nat × Osc633Event)
  | [] => []
  | .inl _ :: rest => placedItems (offset + 1) rest
  | .inr event :: rest => (offset, event) :: placedItems offset rest

theorem textOf_append (a b : List Item) : textOf (a ++ b) = textOf a ++ textOf b := by
  induction a with
  | nil => rfl
  | cons item rest ih =>
    cases item with
    | inl _ | inr _ => simp [textOf, ih]

@[simp] theorem textOf_textItems : textOf (textItems text) = text := by
  induction text with
  | nil => rfl
  | cons u rest ih => exact congrArg (u :: ·) ih

theorem placedItems_textItems (offset : Nat) (text : JsString) (rest : List Item) :
    placedItems offset (textItems text ++ rest) = placedItems (offset + text.length) rest := by
  induction text generalizing offset with
  | nil => rfl
  | cons u text ih =>
    show placedItems (offset + 1) (textItems text ++ rest) = _
    rw [ih, length_cons, Nat.add_assoc, Nat.add_comm 1]

theorem cleanedText_eq : cleanedText segments = textOf (itemsOf segments) := by
  induction segments with
  | nil => rfl
  | cons segment rest ih =>
    cases segment with
    | data data => rw [cleanedText, itemsOf, textOf_append, textOf_textItems, ih]
    | event event => exact ih

theorem placedEvents_eq (offset : Nat) (segments : List Osc633ParseSegment) :
    placedEvents offset segments = placedItems offset (itemsOf segments) := by
  induction segments generalizing offset with
  | nil => rfl
  | cons segment rest ih =>
    cases segment with
    | data data => rw [placedEvents, itemsOf, placedItems_textItems, ih]
    | event event => exact congrArg ((offset, event) :: ·) (ih offset)

theorem itemsOf_feed (hs : s.Resting) (chunks : List JsString) :
    itemsOf (feed Osc633Parser.parseSegments (parserAt s) chunks).2 =
      (feed scanChunk s chunks).2 := by
  induction chunks generalizing s with
  | nil => rfl
  | cons chunk rest ih =>
    obtain ⟨hparser, hitems⟩ := parseSegments_spec hs chunk
    have hrest := ih (s := (scanChunk s chunk).1) (resting_pause _)
    rw [feed_cons, feed_cons, itemsOf_append, hitems, hparser, hrest]

theorem itemsOf_segmentsOf : itemsOf (segmentsOf chunks) = (feed scanChunk .ground chunks).2 :=
  itemsOf_feed (s := .ground) trivial chunks

theorem parsesAsWhole_of_items {chunks : List JsString}
    (h : (feed scanChunk .ground chunks).2 = (scanChunk .ground chunks.flatten).2) :
    ParsesAsWhole chunks := by
  have hitems : itemsOf (segmentsOf chunks) = itemsOf (segmentsOf [chunks.flatten]) := by
    rw [itemsOf_segmentsOf, itemsOf_segmentsOf, h, feed_cons, feed_nil, append_nil]
  constructor
  · rw [cleanedText_eq, cleanedText_eq, hitems]
  · rw [placedEvents_eq, placedEvents_eq, hitems]

/-! ## Harmful cuts -/

def passesThrough (body : JsString) : JsString → Bool
  | [] => false
  | u :: rest =>
    if u = BEL then !PREFIX_633.isPrefixOf body
    else if u = ESC then rest.head? == some BACKSLASH && !PREFIX_633.isPrefixOf body
    else passesThrough (body ++ [u]) rest

def Scan.Harmful : Scan → JsString → Prop
  | .esc, u :: rest => u = 0x5d ∧ passesThrough [] rest = false
  | .oscEsc _, u :: _ => u ≠ BACKSLASH
  | _, _ => False

def HarmfulCut (before after : JsString) : Prop := (scanner.run .ground before).1.Harmful after

theorem not_harmful_nil (s : Scan) : ¬s.Harmful [] := by
  cases s with
  | ground | esc | osc body | oscEsc body | stale body => exact id

/-! ## Cut output lags behind -/

/-- The scanner of the whole stands at the first state and that of the chunks at the
second, ahead by what it has written; the last argument is still to be read. -/
inductive Lag : Scan → Scan → List Item → JsString → Prop where
  | same (s : Scan) (after : JsString) : Lag s s [] after
  | esc {after : JsString} (h : ∀ rest, after = 0x5d :: rest → passesThrough [] rest = true) :
      Lag .esc .ground [.inl ESC] after
  | stale {body after : JsString} (h : ∀ u rest, after = u :: rest → u = BACKSLASH) :
      Lag (.oscEsc body) (.stale body) [] after
  | raw {body after : JsString} (h : passesThrough body after = true) :
      Lag (.osc body) .ground (textItems (OSC_START ++ body)) after
  | rawEsc {body after : JsString} (hplain : PREFIX_633.isPrefixOf body = false)
      (h : after.head? = some BACKSLASH) :
      Lag (.oscEsc body) .esc (textItems (OSC_START ++ body)) after
  | rawPaused {body after : JsString} (hplain : PREFIX_633.isPrefixOf body = false)
      (h : after.head? = some BACKSLASH) :
      Lag (.oscEsc body) .ground (textItems (OSC_START ++ body ++ [ESC])) after

theorem payloadItems_plain {payload : JsString} (h : PREFIX_633.isPrefixOf payload = false)
    (terminator : JsString) :
    payloadItems payload terminator = textItems (OSC_START ++ payload ++ terminator) := by
  rw [payloadItems, h]
  rfl

theorem Lag.step {u : CodeUnit} (h : Lag whole cut ahead (u :: after)) :
    ∃ ahead', Lag (scanStep whole u).1 (scanStep cut u).1 ahead' after ∧
      ahead ++ (scanStep cut u).2 = (scanStep whole u).2 ++ ahead' := by
  cases h with
  | same => exact ⟨[], .same _ _, by simp⟩
  | esc h =>
    by_cases hu : u = 0x5d
    · subst hu
      exact ⟨textItems (OSC_START ++ []), .raw (h _ rfl), rfl⟩
    · refine ⟨[], ?_, ?_⟩
      · simp only [scanStep, escStep, if_neg hu]
        exact .same _ _
      · simp only [scanStep, escStep, if_neg hu]
        simp
  | stale h =>
    obtain rfl := h u after rfl
    exact ⟨[], .same _ _, by simp [scanStep]⟩
  | @raw body _ h =>
    by_cases hbel : u = BEL
    · subst hbel
      have hplain : PREFIX_633.isPrefixOf body = false := by
        simpa [passesThrough] using h
      refine ⟨[], .same _ _, ?_⟩
      rw [show scanStep (.osc body) BEL = (.ground, payloadItems body [BEL]) from rfl,
        payloadItems_plain hplain]
      rw [textItems_append (OSC_START ++ body)]
      simp [scanStep, groundStep, textItems, show BEL ≠ ESC by decide]
    by_cases hesc : u = ESC
    · subst hesc
      have hclose : after.head? = some BACKSLASH ∧ PREFIX_633.isPrefixOf body = false := by
        have hne : ESC ≠ BEL := by decide
        simpa [passesThrough, hne] using h
      exact ⟨_, .rawEsc hclose.2 hclose.1, by simp [scanStep, groundStep, show ESC ≠ BEL by decide]⟩
    · refine ⟨textItems (OSC_START ++ (body ++ [u])), ?_, ?_⟩
      · simp only [scanStep, groundStep, if_neg hbel, if_neg hesc]
        refine .raw ?_
        simpa [passesThrough, hbel, hesc] using h
      · simp only [scanStep, groundStep, if_neg hbel, if_neg hesc]
        simp [textItems]
  | rawEsc hplain h =>
    cases h
    refine ⟨[], .same _ _, ?_⟩
    simp only [scanStep, if_true, payloadItems_plain hplain]
    rw [textItems_append (OSC_START ++ _), append_nil]
    rfl
  | rawPaused hplain h =>
    cases h
    refine ⟨[], .same _ _, ?_⟩
    simp only [scanStep, if_true, payloadItems_plain hplain]
    rw [textItems_append (OSC_START ++ _), textItems_append (OSC_START ++ _), append_assoc,
      append_nil]
    rfl

theorem Lag.run {chunk : JsString} (h : Lag whole cut ahead (chunk ++ after)) :
    ∃ ahead', Lag (scanner.run whole chunk).1 (scanner.run cut chunk).1 ahead' after ∧
      ahead ++ (scanner.run cut chunk).2 = (scanner.run whole chunk).2 ++ ahead' := by
  induction chunk generalizing whole cut ahead with
  | nil => exact ⟨ahead, h, by simp⟩
  | cons u chunk ih =>
    obtain ⟨ahead₁, hlag₁, heq₁⟩ := Lag.step h
    obtain ⟨ahead₂, hlag₂, heq₂⟩ := ih hlag₁
    refine ⟨ahead₂, hlag₂, ?_⟩
    rw [run_cons, run_cons]
    show ahead ++ ((scanStep cut u).2 ++ (scanner.run (scanStep cut u).1 chunk).2) =
      (scanStep whole u).2 ++ (scanner.run (scanStep whole u).1 chunk).2 ++ ahead₂
    rw [← append_assoc, heq₁, append_assoc, heq₂, append_assoc]

theorem Lag.pause {whole cut : Scan} {ahead : List Item} {after : JsString}
    (h : Lag whole cut ahead after) (hharmless : ¬whole.Harmful after) :
    Lag whole (pause cut).1 (ahead ++ (pause cut).2) after := by
  cases h with
  | same =>
    cases whole with
    | ground | osc body | stale body => exact .same _ _
    | esc =>
      refine .esc fun rest hafter => ?_
      subst hafter
      cases hpass : passesThrough [] rest with
      | true => rfl
      | false => exact (hharmless ⟨rfl, hpass⟩).elim
    | oscEsc body =>
      refine .stale fun u rest hafter => ?_
      subst hafter
      exact not_not.mp hharmless
  | esc h => exact .esc h
  | stale h => exact .stale h
  | raw h =>
    rw [show (Osc633.pause .ground).2 = [] from rfl, append_nil]
    exact .raw h
  | rawEsc hplain h =>
    rw [show (Osc633.pause .esc).2 = textItems [ESC] from rfl, ← textItems_append]
    exact .rawPaused hplain h
  | rawPaused hplain h =>
    rw [show (Osc633.pause .ground).2 = [] from rfl, append_nil]
    exact .rawPaused hplain h

theorem Lag.finish (h : Lag whole cut ahead []) (hcut : cut.Resting) :
    ahead = (Osc633.pause whole).2 := by
  cases h with
  | same =>
    cases whole with
    | ground | osc body | stale body => rfl
    | esc | oscEsc body => exact hcut.elim
  | esc | stale => rfl
  | raw h | rawEsc _ h | rawPaused _ h => cases h

theorem scanChunk_append (s : Scan) (a b : JsString) : scanChunk s (a ++ b) =
      ((scanChunk (scanner.run s a).1 b).1,
        (scanner.run s a).2 ++ (scanChunk (scanner.run s a).1 b).2) := by
  simp only [scanChunk, run_append, append_assoc]

theorem Lag.feed {before : JsString} {cut : Scan} {ahead : List Item} {chunks : List JsString}
    (h : Lag (scanner.run .ground before).1 cut ahead chunks.flatten) (hcut : cut.Resting)
    (hharmless : ∀ l r, chunks = l ++ r → l ≠ [] → ¬HarmfulCut (before ++ l.flatten) r.flatten) :
    ahead ++ (Fumie.Lib.feed scanChunk cut chunks).2 =
      (scanChunk (scanner.run .ground before).1 chunks.flatten).2 := by
  induction chunks generalizing before cut ahead with
  | nil =>
    rw [feed_nil, append_nil]
    exact h.finish hcut
  | cons chunk rest ih =>
    have hread : Lag (scanner.run .ground before).1 cut ahead (chunk ++ rest.flatten) := h
    obtain ⟨ahead₁, hlag₁, heq₁⟩ := Lag.run hread
    have hstate : (scanner.run .ground (before ++ chunk)).1 =
        (scanner.run (scanner.run .ground before).1 chunk).1 := by
      rw [run_append]
    have hhere : ¬HarmfulCut (before ++ chunk) rest.flatten := by
      have hcutHere := hharmless [chunk] rest rfl (by simp)
      rwa [flatten_singleton] at hcutHere
    rw [← hstate] at hlag₁
    have hrest := ih (hlag₁.pause hhere) (resting_pause _) (by
      intro l r hsplit hl
      have hlater := hharmless (chunk :: l) r (by rw [hsplit]; rfl) (by simp)
      rwa [flatten_cons, ← append_assoc] at hlater)
    rw [hstate] at hrest
    rw [feed_cons, flatten_cons, scanChunk_append, ← hrest]
    show ahead ++ ((scanner.run cut chunk).2 ++ _ ++ _) = _
    rw [append_assoc, ← append_assoc, heq₁, append_assoc, append_assoc]
    rfl

/-! ## A harmful cut shows in the length of the text -/

def width (s : Scan) (data : JsString) : Nat := (textOf (scanChunk s data).2).length

theorem width_cons (s : Scan) (u : CodeUnit) (rest : JsString) :
    width s (u :: rest) = (textOf (scanStep s u).2).length + width (scanStep s u).1 rest := by
  rw [width, scanChunk_cons, textOf_append, length_append]
  rfl

theorem width_ground_cons (u : CodeUnit) (rest : JsString) (h : u ≠ ESC) :
    width .ground (u :: rest) = 1 + width .ground rest := by
  rw [width_cons]
  simp only [scanStep, groundStep, if_neg h]
  rfl

theorem width_esc {rest : JsString} (h : rest.head? ≠ some 0x5d) :
    width .esc rest = 1 + width .ground rest := by
  rw [width, scanChunk_esc h, textOf, length_cons, Nat.add_comm]
  rfl

theorem textOf_payloadItems (payload terminator : JsString) :
    (textOf (payloadItems payload terminator)).length =
      if PREFIX_633.isPrefixOf payload then 0 else payload.length + 2 + terminator.length := by
  unfold payloadItems
  split
  · cases parseOsc633Payload (payload.drop 4) with
    | none | some _ => rfl
  · rw [textOf_textItems, length_append, length_append, OSC_START]
    simp only [length_cons, length_nil]
    omega

theorem width_osc (body data : JsString) :
    if passesThrough body data then
      width (.osc body) data = width .ground data + body.length + 2
    else width (.osc body) data = width .ground data + body.length + 3 ∨
      width (.osc body) data ≤ width .ground data + body.length := by
  induction data generalizing body with
  | nil => exact .inr (Nat.zero_le _)
  | cons u rest ih =>
    by_cases hbel : u = BEL
    · subst hbel
      have hwidth : width (.osc body) (BEL :: rest) =
          (textOf (payloadItems body [BEL])).length + width .ground rest := width_cons _ _ _
      rw [hwidth, textOf_payloadItems, width_ground_cons BEL rest (by decide)]
      cases hopens : PREFIX_633.isPrefixOf body with
      | true | false => simp [passesThrough, hopens]; omega
    by_cases hesc : u = ESC
    · subst hesc
      have hne : ESC ≠ BEL := by decide
      have hwidth : width (.osc body) (ESC :: rest) = width (.oscEsc body) rest := by
        rw [width_cons]
        simp only [scanStep, if_neg hne, if_true]
        exact Nat.zero_add _
      have hground : width .ground (ESC :: rest) = width .esc rest := by
        rw [width_cons]
        exact Nat.zero_add _
      rw [hwidth, hground]
      cases rest with
      | nil => simp [passesThrough, hne, width, scanChunk_nil, pause, textOf]
      | cons v rest =>
        by_cases hv : v = BACKSLASH
        · subst hv
          have hclose : width (.oscEsc body) (BACKSLASH :: rest) =
              (textOf (payloadItems body ST)).length + width .ground rest := width_cons _ _ _
          have hhead : (BACKSLASH :: rest).head? ≠ some 0x5d :=
            show some BACKSLASH ≠ some 0x5d by decide
          rw [hclose, textOf_payloadItems, width_esc hhead,
            width_ground_cons BACKSLASH rest (by decide)]
          cases hopens : PREFIX_633.isPrefixOf body with
          | true => simp [passesThrough, hne, hopens]; omega
          | false => simp [passesThrough, hne, hopens, ST]; omega
        · have hopen : width (.oscEsc body) (v :: rest) =
              (textOf (payloadItems body [BEL])).length + width .esc (v :: rest) := by
            rw [width_cons, width_cons]
            simp only [scanStep, if_neg hv, textOf_append, length_append]
            omega
          rw [hopen, textOf_payloadItems]
          cases hopens : PREFIX_633.isPrefixOf body with
          | true => simp [passesThrough, hne, hv]
          | false => simp [passesThrough, hne, hv]; omega
    · have hwidth : width (.osc body) (u :: rest) = width (.osc (body ++ [u])) rest := by
        rw [width_cons]
        simp only [scanStep, if_neg hbel, if_neg hesc]
        exact Nat.zero_add _
      have hpass : passesThrough body (u :: rest) = passesThrough (body ++ [u]) rest := by
        simp only [passesThrough, if_neg hbel, if_neg hesc]
      have hrest := ih (body ++ [u])
      rw [length_append, length_singleton] at hrest
      rw [hwidth, hpass, width_ground_cons u rest hesc]
      split
      · next h =>
        rw [if_pos h] at hrest
        omega
      · next h =>
        rw [if_neg h] at hrest
        omega

theorem width_of_harmful (h : s.Harmful after) :
    (textOf (pause s).2).length + width (pause s).1 after ≠ width s after := by
  cases s with
  | ground | osc body | stale body => exact h.elim
  | esc =>
    cases after with
    | nil => exact h.elim
    | cons u rest =>
      obtain ⟨rfl, hpass⟩ := h
      have hosc := width_osc [] rest
      rw [hpass, if_neg (by simp)] at hosc
      have hwidth : width .esc (0x5d :: rest) = width (.osc []) rest := by
        rw [width_cons]
        exact Nat.zero_add _
      have hground := width_ground_cons 0x5d rest (by decide)
      simp only [length_nil] at hosc
      show 1 + width .ground (0x5d :: rest) ≠ _
      omega
  | oscEsc body =>
    cases after with
    | nil => exact h.elim
    | cons u rest =>
      have hu : u ≠ BACKSLASH := h
      have hstale : width (.stale body) (u :: rest) =
          (textOf (payloadItems body [BEL])).length + width .ground (u :: rest) := by
        rw [width_cons, width_cons]
        simp only [scanStep, if_neg hu, textOf_append, length_append]
        omega
      have hopen : width (.oscEsc body) (u :: rest) =
          (textOf (payloadItems body [BEL])).length + width .esc (u :: rest) := by
        rw [width_cons, width_cons]
        simp only [scanStep, if_neg hu, textOf_append, length_append]
        omega
      show 0 + width (.stale body) (u :: rest) ≠ _
      rw [hstale, hopen]
      by_cases hbracket : u = 0x5d
      · subst hbracket
        have hosc := width_osc [] rest
        have hwidth : width .esc (0x5d :: rest) = width (.osc []) rest := by
          rw [width_cons]
          exact Nat.zero_add _
        have hground := width_ground_cons 0x5d rest (by decide)
        simp only [length_nil] at hosc
        split at hosc
        · omega
        · omega
      · have hhead : (u :: rest).head? ≠ some 0x5d := by
          intro heq
          exact hbracket (Option.some.inj heq)
        have hesc := width_esc hhead
        omega

theorem not_parsesAsWhole_of_harmful {before : JsString} (h : HarmfulCut before after) :
    ¬ParsesAsWhole [before, after] := by
  intro hwhole
  have htext := congrArg length hwhole.1
  rw [cleanedText_eq, cleanedText_eq, itemsOf_segmentsOf, itemsOf_segmentsOf] at htext
  have hflatten : [before, after].flatten = before ++ after := by simp
  rw [hflatten, feed_cons, feed_cons, feed_nil, feed_cons, feed_nil, append_nil, append_nil,
    scanChunk_append, textOf_append, textOf_append, length_append, length_append] at htext
  apply width_of_harmful h
  have hbefore : (textOf (scanChunk .ground before).2).length =
      (textOf (scanner.run .ground before).2).length +
        (textOf (pause (scanner.run .ground before).1).2).length := by
    rw [scanChunk, textOf_append, length_append]
  have hstate : (scanChunk .ground before).1 = (pause (scanner.run .ground before).1).1 := rfl
  rw [hbefore, hstate] at htext
  simp only at htext
  unfold width
  omega

/-! ## The theorem -/

/-- Output cut only at places of `cuts` is parsed as the whole, however it is cut there,
exactly when none of these places is harmful. -/
theorem parsesAsWhole_iff (text : JsString) (cuts : Set Nat) :
    (∀ chunks : List JsString, chunks.flatten = text →
      (∀ l r, chunks = l ++ r → l ≠ [] → r ≠ [] → l.flatten.length ∈ cuts) → ParsesAsWhole chunks) ↔
      ∀ n ∈ cuts, ¬HarmfulCut (text.take n) (text.drop n) := by
  constructor
  · intro hall n hn hharm
    apply not_parsesAsWhole_of_harmful hharm
    apply hall
    · simp
    · intro l r hsplit hl hr
      obtain ⟨rfl, rfl⟩ : l = [text.take n] ∧ r = [text.drop n] := by
        cases l with
        | nil => exact (hl rfl).elim
        | cons c l =>
          obtain ⟨rfl, htail⟩ := cons.inj (show _ :: _ = c :: (l ++ r) from hsplit)
          cases l with
          | nil => exact ⟨rfl, htail.symm⟩
          | cons d l =>
            have hnil : l ++ r = [] := (cons.inj htail).2.symm
            exact (hr (append_eq_nil_iff.mp hnil).2).elim
      have hle : n ≤ text.length := by
        by_contra hlt
        rw [drop_eq_nil_of_le (by omega)] at hharm
        exact not_harmful_nil _ hharm
      rw [flatten_singleton, length_take, Nat.min_eq_left hle]
      exact hn
  · intro hharmless chunks hflatten hcuts
    apply parsesAsWhole_of_items
    have hfeed := @Lag.feed [] .ground [] chunks (.same _ _) trivial (by
        intro l r hsplit hl hharm
        have htext : text = l.flatten ++ r.flatten := by
          rw [← hflatten, hsplit, flatten_append]
        cases r with
        | nil => exact not_harmful_nil _ hharm
        | cons c r =>
          apply hharmless _ (hcuts l (c :: r) hsplit hl (by simp))
          rw [htext, take_left, drop_left]
          exact hharm)
    exact hfeed

def promptStart : JsString := [ESC, 0x5d, 54, 51, 51, 59, 65, BEL]

/-- A prompt cut behind its `ESC`: no event is reported. -/
theorem not_always_parsesAsWhole : ¬∀ chunks : List JsString, ParsesAsWhole chunks := by
  intro h
  have hharm : HarmfulCut [ESC] promptStart.tail := ⟨rfl, by decide⟩
  exact not_parsesAsWhole_of_harmful hharm (h _)

end Osc633

end Fumie.AgentHost
