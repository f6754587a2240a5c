import Fumie.AgentHost.Terminal.Osc633Parser

/-!
# Cutting terminal output between two characters

The parser is compared with a scanner that reads one unit at a time. Between two units
the scanner may be stopped by the end of a chunk: it then gives up an `ESC` it was
holding, and inside a sequence it forgets that the `ESC` could begin something other
than the terminator. A chunk is parsed exactly as the scanner reads it and is stopped
behind it, so the cuts that matter are those at which being stopped shows.
-/

namespace Fumie.AgentHost

open Fumie.Lib Fumie.Base List

variable {s : Scan}

namespace Osc633

/-! ## The scanner -/

abbrev Item := CodeUnit ⊕ Osc633Event

def textItems (text : JsString) : List Item := text.map Sum.inl

inductive Scan where
  | ground
  | esc
  | osc (body : JsString)
  | oscEsc (body : JsString)
  | stale (body : JsString)
  deriving DecidableEq

def payloadItems (payload terminator : JsString) : List Item :=
  if PREFIX_633.isPrefixOf payload then
    ((parseOsc633Payload (payload.drop 4)).map Sum.inr).toList
  else textItems (OSC_START ++ payload ++ terminator)

def groundStep (u : CodeUnit) : Scan × List Item :=
  if u = ESC then (.esc, []) else (.ground, [.inl u])

def escStep (u : CodeUnit) : Scan × List Item :=
  if u = 0x5d then (.osc [], [])
  else ((groundStep u).1, .inl ESC :: (groundStep u).2)

def scanStep : Scan → CodeUnit → Scan × List Item
  | .ground, u => groundStep u
  | .esc, u => escStep u
  | .osc body, u =>
    if u = BEL then (.ground, payloadItems body [BEL])
    else if u = ESC then (.oscEsc body, [])
    else (.osc (body ++ [u]), [])
  | .oscEsc body, u =>
    if u = BACKSLASH then (.ground, payloadItems body ST)
    else ((escStep u).1, payloadItems body [BEL] ++ (escStep u).2)
  | .stale body, u =>
    if u = BACKSLASH then (.ground, payloadItems body ST)
    else ((groundStep u).1, payloadItems body [BEL] ++ (groundStep u).2)

def scanner : Transducer Scan CodeUnit Item := ⟨scanStep⟩

def pause : Scan → Scan × List Item
  | .esc => (.ground, [.inl ESC])
  | .oscEsc body => (.stale body, [])
  | s => (s, [])

def scanChunk (s : Scan) (chunk : JsString) : Scan × List Item :=
  ((pause (scanner.run s chunk).1).1, (scanner.run s chunk).2 ++ (pause (scanner.run s chunk).1).2)

/-! ## The parser reads a chunk as the scanner does -/

def itemsOf : List Osc633ParseSegment → List Item
  | [] => []
  | .data data :: rest => textItems data ++ itemsOf rest
  | .event event :: rest => .inr event :: itemsOf rest

@[simp] theorem textItems_append (a b : JsString) :
    textItems (a ++ b) = textItems a ++ textItems b := map_append

@[simp] theorem textItems_nil : textItems [] = [] := rfl

theorem itemsOf_append (a b : List Osc633ParseSegment) :
    itemsOf (a ++ b) = itemsOf a ++ itemsOf b := by
  induction a with
  | nil => rfl
  | cons segment rest ih =>
    cases segment with
    | data _ | event _ => simp [itemsOf, ih]

namespace SegmentBuffer

def items (b : SegmentBuffer) : List Item := itemsOf b.segments ++ textItems b.pending

@[simp] theorem items_empty : ({} : SegmentBuffer).items = [] := rfl

variable (b : SegmentBuffer)

@[simp] theorem items_appendData (value : JsString) :
    (b.appendData value).items = b.items ++ textItems value := by
  simp [items, appendData]

theorem itemsOf_flushData : itemsOf b.flushData.segments = b.items := by
  unfold flushData items
  split
  · simp [itemsOf_append, itemsOf]
  · next h =>
    have hpending : b.pending = [] := length_eq_zero_iff.mp (by omega)
    simp [hpending]

theorem pending_flushData : b.flushData.pending = [] := by
  unfold flushData
  split
  · rfl
  · next h => exact length_eq_zero_iff.mp (by omega)

@[simp] theorem items_emitEvent (event : Osc633Event) :
    (b.emitEvent event).items = b.items ++ [.inr event] := by
  unfold emitEvent
  rw [items, itemsOf_append, itemsOf_flushData]
  simp [pending_flushData, itemsOf]

@[simp] theorem items_handleOscPayload (payload terminator : JsString) :
    (b.handleOscPayload payload terminator).items = b.items ++ payloadItems payload terminator := by
  unfold handleOscPayload payloadItems
  split
  · cases parseOsc633Payload (payload.drop 4) with
    | none | some _ => simp
  · simp

end SegmentBuffer

def parserAt : Scan → Osc633Parser
  | .osc body => ⟨body, true, false⟩
  | .oscEsc body | .stale body => ⟨body, true, true⟩
  | _ => {}

theorem scanChunk_nil (s : Scan) : scanChunk s [] = pause s := rfl

theorem scanChunk_cons (s : Scan) (u : CodeUnit) (rest : JsString) : scanChunk s (u :: rest) =
      ((scanChunk (scanStep s u).1 rest).1,
        (scanStep s u).2 ++ (scanChunk (scanStep s u).1 rest).2) := by
  simp only [scanChunk, Transducer.run_cons, append_assoc]
  rfl

/-! ### Searching for the introducer -/

variable (u : CodeUnit) (rest : JsString)

theorem indexOf_oscStart_cons : indexOf OSC_START (u :: rest) =
      if u = ESC ∧ rest.head? = some 0x5d then some 0
      else (indexOf OSC_START rest).map (· + 1) := by
  rw [indexOf]
  have hopens : OSC_START.isPrefixOf (u :: rest) = true ↔ u = ESC ∧ rest.head? = some 0x5d := by
    rw [ isPrefixOf_iff_prefix, OSC_START, cons_prefix_cons, eq_comm]
    apply and_congr_right
    intro _
    cases rest with
    | nil => simp
    | cons v rest => simp [cons_prefix_cons, eq_comm]
  simp only [hopens]

theorem scanChunk_esc {rest : JsString} (h : rest.head? ≠ some 0x5d) :
    scanChunk .esc rest = ((scanChunk .ground rest).1, .inl ESC :: (scanChunk .ground rest).2) := by
  cases rest with
  | nil => rfl
  | cons u rest =>
    have hu : u ≠ 0x5d := by
      intro heq
      exact h (by rw [heq]; rfl)
    rw [scanChunk_cons, scanChunk_cons]
    simp only [scanStep, escStep, if_neg hu]
    rfl

variable {u : CodeUnit}

theorem scanChunk_ground_cons {rest : JsString} (h : ¬(u = ESC ∧ rest.head? = some 0x5d)) :
    scanChunk .ground (u :: rest) =
      ((scanChunk .ground rest).1, .inl u :: (scanChunk .ground rest).2) := by
  rw [scanChunk_cons]
  simp only [scanStep, groundStep]
  split
  · next hu =>
    rw [scanChunk_esc (fun hrest => h ⟨hu, hrest⟩), hu]
    rfl
  · rfl

theorem scanChunk_ground_start (data : JsString) :
    (indexOf OSC_START data = none → scanChunk .ground data = (.ground, textItems data)) ∧
      ∀ i, indexOf OSC_START data = some i → i + 2 ≤ data.length ∧ scanChunk .ground data =
          ((scanChunk (.osc []) (data.drop (i + 2))).1,
            textItems (data.take i) ++ (scanChunk (.osc []) (data.drop (i + 2))).2) := by
  induction data with
  | nil => exact ⟨fun _ => rfl, fun _ h => nomatch h⟩
  | cons u rest ih =>
    rw [indexOf_oscStart_cons]
    by_cases hstart : u = ESC ∧ rest.head? = some 0x5d
    · rw [if_pos hstart]
      refine ⟨fun h => (by cases h), fun i h => ?_⟩
      cases h
      obtain ⟨rest', rfl⟩ : ∃ rest', rest = 0x5d :: rest' := by
        cases rest with
        | nil => cases hstart.2
        | cons v rest' => exact ⟨rest', by rw [Option.some.inj hstart.2]⟩
      refine ⟨by simp, ?_⟩
      rw [hstart.1, scanChunk_cons, scanChunk_cons]
      rfl
    · rw [if_neg hstart, scanChunk_ground_cons hstart]
      refine ⟨fun h => ?_, fun i h => ?_⟩
      · rw [ih.1 (Option.map_eq_none_iff.mp h)]
        rfl
      · obtain ⟨j, hj, rfl⟩ := Option.map_eq_some_iff.mp h
        obtain ⟨hle, hscan⟩ := ih.2 j hj
        refine ⟨by simp; omega, ?_⟩
        rw [hscan]
        rfl

/-! ### Reading a body -/

variable (body : JsString)

theorem consumeOscBody_nil :
    consumeOscBody body [] = { pendingOsc := body, rest := [], complete := false } := by
  simp [consumeOscBody]

theorem consumeOscBody_bel (rest : JsString) :
    consumeOscBody body (BEL :: rest) = { pendingOsc := body, rest := rest, complete := true } := by
  have hne : (BEL == ESC) = false := rfl
  cases hesc : rest.idxOf? ESC with
  | none | some _ => simp [consumeOscBody, idxOf?_cons, hne, hesc]

theorem consumeOscBody_esc_nil : consumeOscBody body [ESC] =
      { pendingOsc := body, rest := [], complete := false, pendingEsc := true } := by
  have hne : (ESC == BEL) = false := rfl
  simp [consumeOscBody, idxOf?_cons, hne]

theorem consumeOscBody_st (rest : JsString) : consumeOscBody body (ESC :: BACKSLASH :: rest) =
      { pendingOsc := body, rest := rest, complete := true, terminator := ST } := by
  simp [consumeOscBody, idxOf?_cons]

theorem consumeOscBody_esc (rest : JsString) (hu : u ≠ BACKSLASH) :
    consumeOscBody body (ESC :: u :: rest) =
      { pendingOsc := body, rest := ESC :: u :: rest, complete := true } := by
  simp [consumeOscBody, idxOf?_cons, hu]

theorem consumeOscBody_cons (rest : JsString) (hbel : u ≠ BEL) (hesc : u ≠ ESC) :
    consumeOscBody body (u :: rest) = consumeOscBody (body ++ [u]) rest := by
  have hbel' : (u == BEL) = false := beq_eq_false_iff_ne.mpr hbel
  have hesc' : (u == ESC) = false := beq_eq_false_iff_ne.mpr hesc
  unfold consumeOscBody
  rw [idxOf?_cons, idxOf?_cons, hbel', hesc']
  cases rest.idxOf? BEL with
  | none | some _ =>
    cases rest.idxOf? ESC with
    | none => simp
    | some escIdx => simp [getD]

theorem scanChunk_osc (body data : JsString) :
    ((consumeOscBody body data).complete = true →
      (consumeOscBody body data).rest.length ≤ data.length ∧ scanChunk (.osc body) data =
          ((scanChunk .ground (consumeOscBody body data).rest).1,
            payloadItems (consumeOscBody body data).pendingOsc
                (consumeOscBody body data).terminator ++
              (scanChunk .ground (consumeOscBody body data).rest).2)) ∧
      ((consumeOscBody body data).complete = false → (consumeOscBody body data).rest = [] ∧
        scanChunk (.osc body) data =
          (if (consumeOscBody body data).pendingEsc then .stale (consumeOscBody body data).pendingOsc
            else .osc (consumeOscBody body data).pendingOsc, [])) := by
  induction data generalizing body with
  | nil =>
    rw [consumeOscBody_nil]
    exact ⟨fun h => (by cases h), fun _ => ⟨rfl, rfl⟩⟩
  | cons u rest ih =>
    by_cases hbel : u = BEL
    · subst hbel
      rw [consumeOscBody_bel]
      refine ⟨fun _ => ⟨by simp, ?_⟩, fun h => (by cases h)⟩
      rw [scanChunk_cons]
      rfl
    by_cases hesc : u = ESC
    · subst hesc
      cases rest with
      | nil =>
        rw [consumeOscBody_esc_nil]
        exact ⟨fun h => (by cases h), fun _ => ⟨rfl, rfl⟩⟩
      | cons v rest =>
        by_cases hv : v = BACKSLASH
        · subst hv
          rw [consumeOscBody_st]
          refine ⟨fun _ => ⟨by simp; omega, ?_⟩, fun h => (by cases h)⟩
          rw [scanChunk_cons, scanChunk_cons]
          rfl
        · rw [consumeOscBody_esc body rest hv]
          refine ⟨fun _ => ⟨Nat.le_refl _, ?_⟩, fun h => (by cases h)⟩
          rw [scanChunk_cons, scanChunk_cons, scanChunk_cons, scanChunk_cons]
          have hne : ESC ≠ BEL := by decide
          simp only [scanStep, groundStep, if_neg hne, if_neg hv, if_true, nil_append, append_assoc]
    · rw [consumeOscBody_cons body rest hbel hesc, scanChunk_cons]
      simp only [scanStep, if_neg hbel, if_neg hesc, nil_append, length_cons]
      refine ⟨fun h => ?_, (ih (body ++ [u])).2⟩
      obtain ⟨hle, hscan⟩ := (ih (body ++ [u])).1 h
      exact ⟨Nat.le_succ_of_le hle, hscan⟩

/-! ### The loop -/

/-- Where the scanner can stand behind a chunk. -/
def Scan.Resting : Scan → Prop
  | .ground | .osc _ | .stale _ => True
  | .esc | .oscEsc _ => False

def Scan.openCount : Scan → Nat
  | .ground => 0
  | _ => 1

variable (fuel : Nat)

@[simp] theorem parseLoop_nil (p : Osc633Parser) (b : SegmentBuffer) :
    p.parseLoop fuel b [] = (p, b) := by
  cases fuel with
  | zero | succ _ => rfl

theorem parseLoop_ground (b : SegmentBuffer) (u : CodeUnit) (rest : JsString) :
    Osc633Parser.parseLoop (fuel + 1) {} b (u :: rest) =
      match indexOf OSC_START (u :: rest) with
      | none => ({}, b.appendData (u :: rest))
      | some escIdx =>
        let b := b.appendData ((u :: rest).take escIdx)
        let result := consumeOscBody [] ((u :: rest).drop (escIdx + 2))
        if result.complete then
          Osc633Parser.parseLoop fuel {} (b.handleOscPayload result.pendingOsc result.terminator)
            result.rest
        else Osc633Parser.parseLoop fuel ⟨result.pendingOsc, true, result.pendingEsc⟩ b result.rest :=
  rfl

theorem parseLoop_nil_spec (hs : s.Resting) (fuel : Nat) (b : SegmentBuffer) :
    ∃ b', (parserAt s).parseLoop fuel b [] = (parserAt (scanChunk s []).1, b') ∧
      b'.items = b.items ++ (scanChunk s []).2 := by
  refine ⟨b, ?_, ?_⟩
  · cases s with
    | ground | osc body | stale body => exact parseLoop_nil fuel _ b
    | esc | oscEsc body => exact hs.elim
  · cases s with
    | ground | osc body | stale body => simp [scanChunk_nil, pause]
    | esc | oscEsc body => exact hs.elim

theorem parseLoop_spec (hs : s.Resting) (b : SegmentBuffer) (data : JsString)
    (hfuel : 2 * data.length + s.openCount ≤ fuel) :
    ∃ b', (parserAt s).parseLoop fuel b data = (parserAt (scanChunk s data).1, b') ∧
      b'.items = b.items ++ (scanChunk s data).2 := by
  induction fuel generalizing s b data with
  | zero =>
    obtain rfl : data = [] := length_eq_zero_iff.mp (by omega)
    exact parseLoop_nil_spec hs 0 b
  | succ fuel ih =>
    cases data with
    | nil => exact parseLoop_nil_spec hs (fuel + 1) b
    | cons u rest =>
      -- A sequence whose body ends in the data or does not.
      have hbody : ∀ (body data : JsString) (b : SegmentBuffer), 2 * data.length ≤ fuel →
          ∃ b', (if (consumeOscBody body data).complete then
              Osc633Parser.parseLoop fuel {}
                (b.handleOscPayload (consumeOscBody body data).pendingOsc
                  (consumeOscBody body data).terminator) (consumeOscBody body data).rest
            else Osc633Parser.parseLoop fuel
              ⟨(consumeOscBody body data).pendingOsc, true, (consumeOscBody body data).pendingEsc⟩ b
              (consumeOscBody body data).rest) = (parserAt (scanChunk (.osc body) data).1, b') ∧
            b'.items = b.items ++ (scanChunk (.osc body) data).2 := by
        intro body data b hlt
        obtain ⟨hdone, hopen⟩ := scanChunk_osc body data
        cases hcomplete : (consumeOscBody body data).complete with
        | true =>
          obtain ⟨hle, hscan⟩ := hdone hcomplete
          obtain ⟨b', hloop, hitems⟩ := ih (s := .ground) trivial
            (b.handleOscPayload (consumeOscBody body data).pendingOsc
              (consumeOscBody body data).terminator) (consumeOscBody body data).rest
            (by simp only [Scan.openCount]; omega)
          refine ⟨b', ?_, ?_⟩
          · rw [if_pos rfl, hscan]
            exact hloop
          · rw [hitems, hscan, SegmentBuffer.items_handleOscPayload, append_assoc]
        | false =>
          obtain ⟨hrest, hscan⟩ := hopen hcomplete
          refine ⟨b, ?_, ?_⟩
          · rw [if_neg (by simp), hscan, hrest, parseLoop_nil]
            cases (consumeOscBody body data).pendingEsc with
            | true | false => rfl
          · rw [hscan, append_nil]
      cases s with
      | esc | oscEsc body => exact hs.elim
      | ground =>
        obtain ⟨hnone, hsome⟩ := scanChunk_ground_start (u :: rest)
        rw [show parserAt .ground = {} from rfl, parseLoop_ground]
        cases hindex : indexOf OSC_START (u :: rest) with
        | none =>
          refine ⟨b.appendData (u :: rest), ?_, ?_⟩
          · rw [hnone hindex]
            rfl
          · rw [hnone hindex, SegmentBuffer.items_appendData]
        | some escIdx =>
          obtain ⟨hle, hscan⟩ := hsome escIdx hindex
          obtain ⟨b', hloop, hitems⟩ := hbody [] ((u :: rest).drop (escIdx + 2))
            (b.appendData ((u :: rest).take escIdx)) (by
              simp only [length_drop]
              simp only [Scan.openCount] at hfuel
              omega)
          refine ⟨b', ?_, ?_⟩
          · rw [hscan]
            exact hloop
          · rw [hitems, hscan, SegmentBuffer.items_appendData, append_assoc]
      | osc body =>
        simp only [Scan.openCount] at hfuel
        exact hbody body (u :: rest) b (by omega)
      | stale body =>
        simp only [Scan.openCount, length_cons] at hfuel
        by_cases hu : u = BACKSLASH
        · obtain ⟨b', hloop, hitems⟩ := ih (s := .ground) trivial (b.handleOscPayload body ST) rest
            (by simp only [Scan.openCount]; omega)
          have hstep : scanStep (.stale body) u = (.ground, payloadItems body ST) := if_pos hu
          refine ⟨b', ?_, ?_⟩
          · rw [scanChunk_cons, hstep]
            refine Eq.trans ?_ hloop
            exact if_pos hu
          · rw [hitems, scanChunk_cons, hstep, SegmentBuffer.items_handleOscPayload, append_assoc]
        · obtain ⟨b', hloop, hitems⟩ := ih (s := .ground) trivial (b.handleOscPayload body [BEL])
            (u :: rest) (by simp only [Scan.openCount, length_cons]; omega)
          have hstep : scanStep (.stale body) u =
              ((groundStep u).1, payloadItems body [BEL] ++ (groundStep u).2) := if_neg hu
          have hscan : scanChunk (.stale body) (u :: rest) =
              ((scanChunk .ground (u :: rest)).1,
                payloadItems body [BEL] ++ (scanChunk .ground (u :: rest)).2) := by
            rw [scanChunk_cons, scanChunk_cons, hstep, append_assoc]
            rfl
          refine ⟨b', ?_, ?_⟩
          · rw [hscan]
            refine Eq.trans ?_ hloop
            exact if_neg hu
          · rw [hitems, hscan, SegmentBuffer.items_handleOscPayload, append_assoc]

theorem resting_pause (s : Scan) : (pause s).1.Resting := by
  cases s with
  | ground | esc | osc body | oscEsc body | stale body => trivial

theorem parseSegments_spec (hs : s.Resting) (data : JsString) :
    ((parserAt s).parseSegments data).1 = parserAt (scanChunk s data).1 ∧
      itemsOf ((parserAt s).parseSegments data).2 = (scanChunk s data).2 := by
  unfold Osc633Parser.parseSegments
  split
  · next hplain =>
    rw [Bool.and_eq_true, Option.isNone_iff_eq_none] at hplain
    cases s with
    | ground =>
      rw [(scanChunk_ground_start data).1 hplain.2]
      exact ⟨rfl, by rw [SegmentBuffer.itemsOf_flushData]; simp⟩
    | osc body | stale body => cases hplain.1
    | esc | oscEsc body => exact hs.elim
  · obtain ⟨b', hloop, hitems⟩ := parseLoop_spec (2 * data.length + 1) hs {} data (by
      cases s with
      | ground | osc body | stale body => simp only [Scan.openCount]; omega
      | esc | oscEsc body => exact hs.elim)
    refine ⟨by rw [hloop], ?_⟩
    rw [SegmentBuffer.itemsOf_flushData, hloop]
    exact hitems

end Osc633

end Fumie.AgentHost
