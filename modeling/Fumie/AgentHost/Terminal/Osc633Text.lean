import Fumie.AgentHost.Terminal.Osc633Cuts

/-!
# Terminal text without its own sequences

The text of a stream is what is left when the complete OSC 633 sequences are taken out of
it, where no sequence is given up: an `ESC` in a body that no backslash follows ends the
body, and the parser then writes a `BEL` that was not there, or drops a sequence that is
not complete. What is still held behind the last chunk counts as text.
-/

namespace Fumie.AgentHost

open Fumie.Lib Fumie.Base List Transducer

variable (chunks : List JsString)

namespace Osc633

/-! ## Complete sequences -/

def isBodyUnit (u : CodeUnit) : Bool := u != BEL && u != ESC

def terminated : JsString → Option JsString
  | [] => none
  | u :: rest =>
    if u = BEL then some rest
    else if u = ESC ∧ rest.head? = some BACKSLASH then some rest.tail
    else none

def behindSequence (text : JsString) : Option JsString :=
  if (OSC_START ++ PREFIX_633).isPrefixOf text then
    terminated ((text.drop 6).dropWhile isBodyUnit)
  else none

variable {text : JsString} {rest : JsString}

theorem terminated_length (h : terminated text = some rest) : rest.length < text.length := by
  unfold terminated at h
  split at h
  · cases h
  · split at h
    · cases h
      exact Nat.lt_succ_self _
    · split at h
      · cases h
        rw [length_tail, length_cons]
        omega
      · cases h

theorem behindSequence_length (h : behindSequence text = some rest) :
    rest.length < text.length := by
  unfold behindSequence at h
  split at h
  · have hle := (dropWhile_suffix isBodyUnit (l := text.drop 6)).length_le
    have hlt := terminated_length h
    rw [length_drop] at hle
    omega
  · cases h

def withoutSequences : JsString → JsString
  | [] => []
  | u :: rest =>
    match _h : behindSequence (u :: rest) with
    | some behind => withoutSequences behind
    | none => u :: withoutSequences rest
termination_by text => text.length
decreasing_by
  · exact behindSequence_length ‹_›
  · exact Nat.lt_succ_self _

def Cancelled (text : JsString) : Prop :=
  ∃ before body u rest, text = before ++ (OSC_START ++ (body ++ ESC :: u :: rest)) ∧
    body.all isBodyUnit = true ∧ u ≠ BACKSLASH

/-! ## Taking sequences out -/

theorem withoutSequences_of_some {text behind : JsString} (h : behindSequence text = some behind) :
    withoutSequences text = withoutSequences behind := by
  cases text with
  | nil => cases h
  | cons u rest =>
    rw [withoutSequences]
    split
    · next heq =>
      rw [h] at heq
      rw [Option.some.inj heq]
    · next heq =>
      rw [h] at heq
      cases heq

variable {u : CodeUnit}

theorem withoutSequences_of_none (h : behindSequence (u :: rest) = none) :
    withoutSequences (u :: rest) = u :: withoutSequences rest := by
  rw [withoutSequences]
  split
  · next heq =>
    rw [h] at heq
    cases heq
  · rfl

theorem behindSequence_of_ne (h : u ≠ ESC) : behindSequence (u :: rest) = none := by
  unfold behindSequence
  rw [if_neg]
  rw [ isPrefixOf_iff_prefix]
  intro hprefix
  exact h (cons_prefix_cons.mp hprefix).1.symm

theorem behindSequence_of_esc (h : rest.head? ≠ some 0x5d) :
    behindSequence (ESC :: rest) = none := by
  unfold behindSequence
  rw [if_neg]
  rw [ isPrefixOf_iff_prefix]
  intro hprefix
  obtain ⟨more, hmore⟩ := (cons_prefix_cons.mp hprefix).2
  rw [← hmore] at h
  exact h rfl

theorem withoutSequences_append {text : JsString} (h : ∀ u ∈ text, u ≠ ESC) (rest : JsString) :
    withoutSequences (text ++ rest) = text ++ withoutSequences rest := by
  induction text with
  | nil => rfl
  | cons u more ih =>
    rw [cons_append, withoutSequences_of_none (behindSequence_of_ne (h u mem_cons_self)),
      ih fun v hv => h v (mem_cons_of_mem _ hv)]
    rfl

variable {body : JsString}

theorem ne_esc_of_body (h : body.all isBodyUnit = true) : ∀ u ∈ body, u ≠ ESC := by
  intro u hu heq
  have hunit := all_eq_true.mp h u hu
  rw [heq] at hunit
  cases hunit

def EndsBody (text : JsString) : Prop := ∀ u ∈ text.head?, isBodyUnit u = false

theorem dropWhile_body (hbody : body.all isBodyUnit = true) (hrest : EndsBody rest) :
    (body ++ rest).dropWhile isBodyUnit = rest := by
  rw [dropWhile_append_of_pos (all_eq_true.mp hbody)]
  cases rest with
  | nil => rfl
  | cons u more =>
    rw [dropWhile_cons_of_neg]
    rw [hrest u rfl]
    exact Bool.false_ne_true

theorem isPrefixOf_body {wanted body rest : JsString} (hwanted : wanted.all isBodyUnit = true)
    (hrest : EndsBody rest) : wanted.isPrefixOf (body ++ rest) = wanted.isPrefixOf body := by
  induction wanted generalizing body with
  | nil => rfl
  | cons w wanted ih =>
    rw [all_cons, Bool.and_eq_true] at hwanted
    cases body with
    | nil =>
      cases rest with
      | nil => rfl
      | cons u rest =>
        have hne : (w == u) = false := by
          refine beq_eq_false_iff_ne.mpr ?_
          rintro rfl
          have hu := hrest w rfl
          rw [hwanted.1] at hu
          cases hu
        rw [nil_append, isPrefixOf_cons_cons, hne]
        rfl
    | cons b body =>
      rw [cons_append, isPrefixOf_cons_cons, isPrefixOf_cons_cons, ih hwanted.2]

theorem behindSequence_body (hbody : body.all isBodyUnit = true) (hrest : EndsBody rest) :
    behindSequence (OSC_START ++ (body ++ rest)) =
      if PREFIX_633.isPrefixOf body then terminated rest else none := by
  have hopens : (OSC_START ++ PREFIX_633).isPrefixOf (OSC_START ++ (body ++ rest)) =
      PREFIX_633.isPrefixOf body := by
    have hwanted : PREFIX_633.isPrefixOf (body ++ rest) = PREFIX_633.isPrefixOf body :=
      isPrefixOf_body (by decide) hrest
    rw [← hwanted]
    rfl
  unfold behindSequence
  rw [hopens]
  split
  · next hprefix =>
    obtain ⟨more, rfl⟩ := isPrefixOf_iff_prefix.mp hprefix
    rw [all_append, Bool.and_eq_true] at hbody
    have hdrop : (OSC_START ++ (PREFIX_633 ++ more ++ rest)).drop 6 = more ++ rest := rfl
    rw [hdrop, dropWhile_body hbody.2 hrest]
  · rfl

theorem withoutSequences_kept (hbody : body.all isBodyUnit = true)
    (h : behindSequence (OSC_START ++ (body ++ rest)) = none) :
    withoutSequences (OSC_START ++ (body ++ rest)) =
      OSC_START ++ (body ++ withoutSequences rest) := by
  have hplain : ∀ u ∈ (0x5d :: body : JsString), u ≠ ESC := by
    intro u hu
    rcases mem_cons.mp hu with rfl | hu
    · decide
    · exact ne_esc_of_body hbody u hu
  have hopen : withoutSequences (ESC :: ((0x5d :: body) ++ rest)) =
      ESC :: withoutSequences ((0x5d :: body) ++ rest) := withoutSequences_of_none h
  rw [withoutSequences_append hplain] at hopen
  exact hopen

/-! ## The scanner takes them out -/

/-- What the scanner has read and not given out. -/
def Scan.held : Scan → JsString
  | .ground => []
  | .esc => [ESC]
  | .osc body => OSC_START ++ body
  | .oscEsc body | .stale body => OSC_START ++ (body ++ [ESC])

def Scan.Open : Scan → Prop
  | .osc body | .oscEsc body | .stale body => body.all isBodyUnit = true
  | _ => True

def Scan.Cancels : Scan → CodeUnit → Prop
  | .oscEsc _, u | .stale _, u => u ≠ BACKSLASH
  | _, _ => False

theorem textOf_payload (payload terminator : JsString) : textOf (payloadItems payload terminator) =
    if PREFIX_633.isPrefixOf payload then [] else OSC_START ++ payload ++ terminator := by
  unfold payloadItems
  split
  · cases parseOsc633Payload (payload.drop 4) with
    | none | some _ => rfl
  · rw [textOf_textItems]

theorem withoutSequences_terminated (terminator : JsString) (hbody : body.all isBodyUnit = true)
    (hends : EndsBody (terminator ++ rest))
    (hterminated : terminated (terminator ++ rest) = some rest)
    (hkept : withoutSequences (terminator ++ rest) = terminator ++ withoutSequences rest) :
    withoutSequences (OSC_START ++ (body ++ (terminator ++ rest))) =
      textOf (payloadItems body terminator) ++ withoutSequences rest := by
  have hbehind := behindSequence_body hbody hends
  rw [textOf_payload]
  by_cases hown : PREFIX_633.isPrefixOf body = true
  · rw [if_pos hown, hterminated] at hbehind
    rw [if_pos hown, withoutSequences_of_some hbehind]
    rfl
  · rw [if_neg hown] at hbehind
    rw [if_neg hown, withoutSequences_kept hbody hbehind, hkept]
    simp only [append_assoc]

theorem withoutSequences_bel (hbody : body.all isBodyUnit = true) (rest : JsString) :
    withoutSequences (OSC_START ++ (body ++ BEL :: rest)) =
      textOf (payloadItems body [BEL]) ++ withoutSequences rest := by
  refine withoutSequences_terminated [BEL] hbody (fun u hu => ?_) rfl ?_
  · cases hu
    rfl
  · exact withoutSequences_of_none (behindSequence_of_ne (by decide))

theorem withoutSequences_st (hbody : body.all isBodyUnit = true) (rest : JsString) :
    withoutSequences (OSC_START ++ (body ++ ESC :: BACKSLASH :: rest)) =
      textOf (payloadItems body ST) ++ withoutSequences rest := by
  refine withoutSequences_terminated ST hbody (fun u hu => ?_) rfl ?_
  · cases hu
    rfl
  · show withoutSequences (ESC :: BACKSLASH :: rest) = ESC :: BACKSLASH :: withoutSequences rest
    have hhead : (BACKSLASH :: rest).head? ≠ some 0x5d := by
      show some BACKSLASH ≠ some 0x5d
      decide
    rw [withoutSequences_of_none (behindSequence_of_esc hhead),
      withoutSequences_of_none (behindSequence_of_ne (by decide))]

variable {s : Scan}

theorem step_strips (hopen : s.Open) (hgoes : ¬s.Cancels u) (rest : JsString) :
    (scanStep s u).1.Open ∧ withoutSequences (s.held ++ u :: rest) =
        textOf (scanStep s u).2 ++ withoutSequences ((scanStep s u).1.held ++ rest) := by
  have hground (u : CodeUnit) (rest : JsString) : (groundStep u).1.Open ∧
      withoutSequences (u :: rest) =
        textOf (groundStep u).2 ++ withoutSequences ((groundStep u).1.held ++ rest) := by
    unfold groundStep
    split
    · next hesc =>
      rw [hesc]
      exact ⟨trivial, rfl⟩
    · next hesc => exact ⟨trivial, withoutSequences_of_none (behindSequence_of_ne hesc)⟩
  have hst {body : JsString} (hbody : body.all isBodyUnit = true) (hu : u = BACKSLASH) :
      withoutSequences (OSC_START ++ (body ++ [ESC]) ++ u :: rest) =
        textOf (payloadItems body ST) ++ withoutSequences rest := by
    rw [hu, append_assoc, append_assoc]
    exact withoutSequences_st hbody rest
  cases s with
  | ground => exact hground u rest
  | esc =>
    show (escStep u).1.Open ∧ withoutSequences (ESC :: u :: rest) =
      textOf (escStep u).2 ++ withoutSequences ((escStep u).1.held ++ rest)
    unfold escStep
    split
    · next hu =>
      rw [hu]
      exact ⟨rfl, rfl⟩
    · next hu =>
      have hesc : withoutSequences (ESC :: u :: rest) = ESC :: withoutSequences (u :: rest) :=
        withoutSequences_of_none (behindSequence_of_esc fun heq => hu (Option.some.inj heq))
      rw [hesc, (hground u rest).2]
      exact ⟨(hground u rest).1, rfl⟩
  | osc body =>
    show (scanStep (.osc body) u).1.Open ∧ withoutSequences (OSC_START ++ body ++ u :: rest) = _
    rw [List.append_assoc]
    unfold scanStep
    dsimp only
    split
    · next hu =>
      rw [hu]
      exact ⟨trivial, withoutSequences_bel hopen rest⟩
    · next hbel =>
      split
      · next hu =>
        rw [hu]
        refine ⟨hopen, ?_⟩
        show _ = withoutSequences (OSC_START ++ (body ++ [ESC]) ++ rest)
        rw [List.append_assoc, List.append_assoc]
        rfl
      · next hesc =>
        refine ⟨?_, ?_⟩
        · show (body ++ [u]).all isBodyUnit = true
          rw [all_append, hopen, all_cons]
          unfold isBodyUnit
          rw [bne_iff_ne.mpr hbel, bne_iff_ne.mpr hesc]
          rfl
        · show _ = withoutSequences (OSC_START ++ (body ++ [u]) ++ rest)
          rw [append_assoc, append_assoc]
          rfl
  | oscEsc _ | stale _ =>
    have hu : u = BACKSLASH := Decidable.byContradiction hgoes
    unfold scanStep
    dsimp only
    rw [if_pos hu]
    exact ⟨trivial, hst hopen hu⟩

/-! ## Sequences that are given up -/

theorem Cancelled.append (h : Cancelled text) (before : JsString) : Cancelled (before ++ text) := by
  obtain ⟨before', body, u, rest, rfl, hbody, hu⟩ := h
  exact ⟨before ++ before', body, u, rest, (append_assoc _ _ _).symm, hbody, hu⟩

theorem cancelled_of_cancels {s : Scan} {u : CodeUnit} (hopen : s.Open) (h : s.Cancels u)
    (rest : JsString) : Cancelled (s.held ++ u :: rest) := by
  cases s with
  | ground | esc | osc _ => exact h.elim
  | oscEsc body | stale body =>
    refine ⟨[], body, u, rest, ?_, hopen, h⟩
    show OSC_START ++ (body ++ [ESC]) ++ u :: rest = _
    rw [append_assoc, append_assoc]
    rfl

theorem cancelled_cons (h : ¬(u = ESC ∧ rest.head? = some 0x5d)) :
    Cancelled (u :: rest) ↔ Cancelled rest := by
  refine ⟨?_, fun hrest => hrest.append [u]⟩
  rintro ⟨before, body, v, more, heq, hbody, hv⟩
  cases before with
  | nil =>
    obtain ⟨rfl, htail⟩ := cons_eq_cons.mp heq
    rw [htail] at h
    exact absurd ⟨rfl, rfl⟩ h
  | cons w before => exact ⟨before, body, v, more, (cons_eq_cons.mp heq).2, hbody, hv⟩

theorem cancelled_plain {text : JsString} (h : ∀ u ∈ text, u ≠ ESC) (rest : JsString) :
    Cancelled (text ++ rest) ↔ Cancelled rest := by
  induction text with
  | nil => rfl
  | cons u more ih =>
    rw [cons_append, cancelled_cons fun hu => h u mem_cons_self hu.1]
    exact ih fun v hv => h v (mem_cons_of_mem _ hv)

theorem cancelled_body {tail : JsString} (hbody : body.all isBodyUnit = true)
    (htail : EndsBody tail) (hends : ∀ u rest, tail = ESC :: u :: rest → u = BACKSLASH) :
    Cancelled (OSC_START ++ (body ++ tail)) ↔ Cancelled tail := by
  have hplain : ∀ u ∈ (0x5d :: body : JsString), u ≠ ESC := by
    intro u hu
    rcases mem_cons.mp hu with rfl | hu
    · decide
    · exact ne_esc_of_body hbody u hu
  refine ⟨?_, fun h => ?_⟩
  · rintro ⟨before, body', v, more, heq, hbody', hv⟩
    cases before with
    | nil =>
      -- the same introducer, so the same body and the same end
      have hsame : body ++ tail = body' ++ ESC :: v :: more := append_cancel_left heq
      have hdrop := congrArg (dropWhile isBodyUnit) hsame
      rw [dropWhile_body hbody htail, dropWhile_body hbody' (fun u hu => ?_)] at hdrop
      · exact absurd (hends v more hdrop) hv
      · cases hu
        rfl
    | cons w before =>
      have hrest : (0x5d :: body) ++ tail = before ++ (OSC_START ++ (body' ++ ESC :: v :: more)) :=
        (cons_eq_cons.mp heq).2
      refine (cancelled_plain hplain tail).mp ?_
      rw [hrest]
      exact ⟨before, body', v, more, rfl, hbody', hv⟩
  · have happ := h.append (OSC_START ++ body)
    rwa [append_assoc] at happ

theorem step_cancelled (hopen : s.Open) (hgoes : ¬s.Cancels u) (rest : JsString) :
    Cancelled (s.held ++ u :: rest) ↔ Cancelled ((scanStep s u).1.held ++ rest) := by
  have hground (u : CodeUnit) (rest : JsString) :
      Cancelled (u :: rest) ↔ Cancelled ((groundStep u).1.held ++ rest) := by
    unfold groundStep
    split
    · next hesc =>
      rw [hesc]
      rfl
    · next hesc => exact cancelled_cons fun h => hesc h.1
  have hst {body : JsString} (hbody : body.all isBodyUnit = true) (hu : u = BACKSLASH) :
      Cancelled (OSC_START ++ (body ++ [ESC]) ++ u :: rest) ↔ Cancelled rest := by
    rw [hu, append_assoc, append_assoc]
    have hhead : ¬(ESC = ESC ∧ (BACKSLASH :: rest).head? = some 0x5d) := by
      rintro ⟨-, hhead⟩
      cases hhead
    have hbody' : Cancelled (OSC_START ++ (body ++ ESC :: BACKSLASH :: rest)) ↔
        Cancelled (ESC :: BACKSLASH :: rest) := by
      refine cancelled_body hbody (fun v hv => ?_) fun v more heq => ?_
      · cases hv
        rfl
      · cases heq
        rfl
    refine hbody'.trans ?_
    rw [cancelled_cons hhead, cancelled_cons fun h => absurd h.1 (by decide)]
  cases s with
  | ground => exact hground u rest
  | esc =>
    show Cancelled (ESC :: u :: rest) ↔ Cancelled ((escStep u).1.held ++ rest)
    unfold escStep
    split
    · next hu =>
      rw [hu]
      rfl
    · next hu =>
      have hnot : ¬(ESC = ESC ∧ (u :: rest).head? = some 0x5d) := fun h => hu (Option.some.inj h.2)
      rw [cancelled_cons hnot]
      exact hground u rest
  | osc body =>
    show Cancelled (OSC_START ++ body ++ u :: rest) ↔ _
    rw [List.append_assoc]
    unfold scanStep
    dsimp only
    split
    · next hu =>
      rw [hu, cancelled_body hopen (fun v hv => ?_) (fun v more heq => ?_),
        cancelled_cons fun h => absurd h.1 (by decide)]
      · rfl
      · cases hv
        rfl
      · cases heq
    · split
      · next hu =>
        rw [hu]
        show _ ↔ Cancelled (OSC_START ++ (body ++ [ESC]) ++ rest)
        rw [List.append_assoc, List.append_assoc]
        rfl
      · show _ ↔ Cancelled (OSC_START ++ (body ++ [u]) ++ rest)
        rw [append_assoc, append_assoc]
        rfl
  | oscEsc _ | stale _ =>
    have hu : u = BACKSLASH := Decidable.byContradiction hgoes
    unfold scanStep
    dsimp only
    rw [if_pos hu]
    exact hst hopen hu

/-! ## Runs of the scanner -/

theorem not_cancelled_short (h : text.length < 2) : ¬Cancelled text := by
  rintro ⟨before, body, u, rest, rfl, -⟩
  simp only [length_append, length_cons] at h
  omega

theorem not_cancelled_held (hopen : s.Open) : ¬Cancelled s.held := by
  have hesc {body : JsString} (hbody : body.all isBodyUnit = true) :
      ¬Cancelled (OSC_START ++ (body ++ [ESC])) := by
    rw [cancelled_body hbody (fun u hu => ?_) fun u rest heq => ?_]
    · exact not_cancelled_short (by decide)
    · cases hu
      rfl
    · cases heq
  cases s with
  | ground | esc => exact not_cancelled_short (by decide)
  | osc body =>
    show ¬Cancelled (OSC_START ++ body)
    rw [← append_nil body, cancelled_body hopen (fun u hu => ?_) fun u rest heq => ?_]
    · exact not_cancelled_short (by decide)
    · cases hu
    · cases heq
  | oscEsc _ | stale _ => exact hesc hopen

theorem withoutSequences_nil : withoutSequences [] = [] := by rw [withoutSequences]

theorem withoutSequences_held (hopen : s.Open) : withoutSequences s.held = s.held := by
  have hlast : withoutSequences [ESC] = [ESC] := by
    rw [withoutSequences_of_none (behindSequence_of_esc (by decide)), withoutSequences_nil]
  have hesc {body : JsString} (hbody : body.all isBodyUnit = true) :
      withoutSequences (OSC_START ++ (body ++ [ESC])) = OSC_START ++ (body ++ [ESC]) := by
    rw [withoutSequences_kept hbody, hlast]
    rw [behindSequence_body hbody fun u hu => ?_]
    · exact ite_self none
    · cases hu
      rfl
  cases s with
  | ground => exact withoutSequences_nil
  | esc => exact hlast
  | osc body =>
    have hkept : withoutSequences (OSC_START ++ (body ++ [])) = OSC_START ++ (body ++ []) := by
      rw [withoutSequences_kept hopen, withoutSequences_nil]
      rw [behindSequence_body hopen fun u hu => ?_]
      · exact ite_self none
      · cases hu
    rwa [append_nil] at hkept
  | oscEsc _ | stale _ => exact hesc hopen

theorem run_strips {s : Scan} (hopen : s.Open) (data more : JsString)
    (hgoes : ¬Cancelled (s.held ++ (data ++ more))) :
    (scanner.run s data).1.Open ∧ ¬Cancelled ((scanner.run s data).1.held ++ more) ∧
      withoutSequences (s.held ++ (data ++ more)) = textOf (scanner.run s data).2 ++
        withoutSequences ((scanner.run s data).1.held ++ more) := by
  induction data generalizing s with
  | nil => exact ⟨hopen, hgoes, rfl⟩
  | cons u data ih =>
    have hnot : ¬s.Cancels u := fun h => hgoes (cancelled_of_cancels hopen h (data ++ more))
    obtain ⟨hopen', hstrips⟩ := step_strips hopen hnot (data ++ more)
    have hgoes' := fun h => hgoes ((step_cancelled hopen hnot (data ++ more)).mpr h)
    obtain ⟨hopen'', hmore, hrest⟩ := ih hopen' hgoes'
    refine ⟨hopen'', hmore, ?_⟩
    rw [run_cons, textOf_append, append_assoc]
    show withoutSequences (s.held ++ u :: (data ++ more)) = textOf (scanStep s u).2 ++ _
    rw [hstrips, hrest]
    rfl

theorem step_esc (h : (scanStep s u).1 = .esc) : u = ESC := by
  have hground {u : CodeUnit} (h : (groundStep u).1 = .esc) : u = ESC := by
    unfold groundStep at h
    split at h
    · next hu => exact hu
    · cases h
  have hesc {u : CodeUnit} (h : (escStep u).1 = .esc) : u = ESC := by
    unfold escStep at h
    split at h
    · cases h
    · exact hground h
  cases s with
  | ground => exact hground h
  | esc => exact hesc h
  | osc body =>
    unfold scanStep at h
    dsimp only at h
    split at h
    · cases h
    · split at h
      · cases h
      · cases h
  | oscEsc body =>
    unfold scanStep at h
    dsimp only at h
    split at h
    · cases h
    · exact hesc h
  | stale body =>
    unfold scanStep at h
    dsimp only at h
    split at h
    · cases h
    · exact hground h

theorem run_esc (hs : s.Resting) {data : JsString} (h : (scanner.run s data).1 = .esc) :
    ∃ before, data = before ++ [ESC] := by
  rcases eq_nil_or_concat data with rfl | ⟨before, u, rfl⟩
  · rw [show s = .esc from h] at hs
    exact hs.elim
  · rw [concat_eq_append, run_append] at h
    rw [concat_eq_append, step_esc (s := (scanner.run s before).1) h]
    exact ⟨before, rfl⟩

/-! ## Chunks -/

def CutsSequence : Prop :=
  ∃ before after text, chunks = before ++ after ∧ before.flatten = text ++ [ESC] ∧
    behindSequence (ESC :: after.flatten) ≠ none

theorem CutsSequence.cons {chunks : List JsString} (h : CutsSequence chunks) (chunk : JsString) :
    CutsSequence (chunk :: chunks) := by
  obtain ⟨before, after, text, rfl, hlast, hbehind⟩ := h
  refine ⟨chunk :: before, after, chunk ++ text, rfl, ?_, hbehind⟩
  rw [flatten_cons, hlast, append_assoc]

theorem open_pause {s : Scan} (h : s.Open) : (pause s).1.Open := by
  cases s with
  | ground | osc _ | oscEsc _ | stale _ => exact h
  | esc => exact trivial

theorem pause_strips (s : Scan) (more : JsString)
    (hcut : s = .esc → behindSequence (ESC :: more) = none) :
    withoutSequences (s.held ++ more) =
      textOf (pause s).2 ++ withoutSequences ((pause s).1.held ++ more) := by
  cases s with
  | ground | osc _ | oscEsc _ | stale _ => rfl
  | esc => exact withoutSequences_of_none (hcut rfl)

theorem pause_cancelled (s : Scan) {more : JsString} (h : ¬Cancelled (s.held ++ more)) :
    ¬Cancelled ((pause s).1.held ++ more) := by
  cases s with
  | ground | osc _ | oscEsc _ | stale _ => exact h
  | esc => exact fun hmore => h (hmore.append [ESC])

theorem feed_strips {s : Scan} (hs : s.Resting) (hopen : s.Open) {chunks : List JsString}
    (hgoes : ¬Cancelled (s.held ++ chunks.flatten)) (hcuts : ¬CutsSequence chunks) :
    (feed scanChunk s chunks).1.Open ∧ withoutSequences (s.held ++ chunks.flatten) =
      textOf (feed scanChunk s chunks).2 ++ (feed scanChunk s chunks).1.held := by
  induction chunks generalizing s with
  | nil =>
    refine ⟨hopen, ?_⟩
    show withoutSequences (s.held ++ []) = s.held
    rw [append_nil, withoutSequences_held hopen]
  | cons chunk chunks ih =>
    rw [flatten_cons] at hgoes ⊢
    obtain ⟨hopen', hgoes', hrun⟩ := run_strips hopen chunk chunks.flatten hgoes
    have hpause := pause_strips (scanner.run s chunk).1 chunks.flatten fun hesc => by
      obtain ⟨text, rfl⟩ := run_esc hs hesc
      by_contra hbehind
      refine hcuts ⟨[text ++ [ESC]], chunks, text, rfl, ?_, hbehind⟩
      rw [flatten_singleton]
    obtain ⟨hlast, hrest⟩ := ih (resting_pause _) (open_pause hopen')
      (pause_cancelled _ hgoes') fun h => hcuts (h.cons chunk)
    rw [feed_cons]
    refine ⟨hlast, ?_⟩
    rw [hrun, hpause, hrest, textOf_append]
    show _ = textOf ((scanner.run s chunk).2 ++ (pause (scanner.run s chunk).1).2) ++ _ ++ _
    rw [textOf_append, append_assoc, append_assoc]
    rfl

/-! ## A sequence that is given up shows -/

/-- The text that comes out, and what is held, against what should come out. -/
structure Bounded (given kept : JsString) : Prop where
  esc : given.count ESC ≤ kept.count ESC
  bel : kept.count BEL ≤ given.count BEL

structure Off (given kept : JsString) : Prop extends Bounded given kept where
  differs : given.count ESC < kept.count ESC ∨ kept.count BEL < given.count BEL

theorem Off.ne {given kept : JsString} (h : Off given kept) : given ≠ kept := by
  rintro rfl
  rcases h.differs with hlt | hlt
  · exact lt_irrefl _ hlt
  · exact lt_irrefl _ hlt

theorem Bounded.append {given kept : JsString} (h : Bounded given kept) (before : JsString) :
    Bounded (before ++ given) (before ++ kept) := by
  have hesc := h.esc
  have hbel := h.bel
  constructor
  · rw [count_append, count_append]
    omega
  · rw [count_append, count_append]
    omega

theorem Off.append {given kept : JsString} (h : Off given kept) (before : JsString) :
    Off (before ++ given) (before ++ kept) := by
  refine ⟨h.toBounded.append before, ?_⟩
  have hdiffers := h.differs
  simp only [count_append]
  omega

theorem count_body (hbody : body.all isBodyUnit = true) (hu : isBodyUnit u = false) :
    body.count u = 0 := by
  refine count_eq_zero_of_not_mem fun hmem => ?_
  rw [all_eq_true.mp hbody u hmem] at hu
  cases hu

theorem off_cancelled (hbody : body.all isBodyUnit = true) {given kept : JsString}
    (h : Bounded given kept) :
    Off (textOf (payloadItems body [BEL]) ++ given) (OSC_START ++ (body ++ kept)) := by
  have hesc := h.esc
  have hbel := h.bel
  have hbodyEsc := count_body (u := ESC) hbody rfl
  have hbodyBel := count_body (u := BEL) hbody rfl
  have hstartEsc : OSC_START.count ESC = 1 := rfl
  have hstartBel : OSC_START.count BEL = 0 := rfl
  have hlastEsc : ([BEL] : JsString).count ESC = 0 := rfl
  have hlastBel : ([BEL] : JsString).count BEL = 1 := rfl
  rw [textOf_payload]
  split
  · refine ⟨⟨?_, ?_⟩, .inl ?_⟩
    all_goals
      simp only [count_append, nil_append]
      omega
  · refine ⟨⟨?_, ?_⟩, .inr ?_⟩
    all_goals
      simp only [count_append]
      omega

/-- The text a run gives out, with what it holds at its end. -/
def given (s : Scan) (data : JsString) : JsString :=
  textOf (scanner.run s data).2 ++ (scanner.run s data).1.held

theorem given_cons (s : Scan) (u : CodeUnit) (rest : JsString) :
    given s (u :: rest) = textOf (scanStep s u).2 ++ given (scanStep s u).1 rest := by
  unfold given
  rw [run_cons, textOf_append, append_assoc]
  rfl

theorem given_cancelled (body : JsString) (hu : u ≠ BACKSLASH) (rest : JsString) :
    given (.oscEsc body) (u :: rest) =
      textOf (payloadItems body [BEL]) ++ given .esc (u :: rest) := by
  have hstep : scanStep (.oscEsc body) u =
      ((escStep u).1, payloadItems body [BEL] ++ (escStep u).2) := if_neg hu
  rw [given_cons, given_cons, hstep, textOf_append, append_assoc]
  rfl

def Scan.Fresh : Scan → Prop
  | .stale _ => False
  | _ => True

theorem fresh_step (h : s.Fresh) (u : CodeUnit) : (scanStep s u).1.Fresh := by
  have hground (u : CodeUnit) : (groundStep u).1.Fresh := by
    unfold groundStep
    split
    · trivial
    · trivial
  have hesc (u : CodeUnit) : (escStep u).1.Fresh := by
    unfold escStep
    split
    · trivial
    · exact hground u
  cases s with
  | ground => exact hground u
  | esc => exact hesc u
  | osc body =>
    unfold scanStep
    dsimp only
    split
    · trivial
    · split
      · trivial
      · trivial
  | oscEsc body =>
    unfold scanStep
    dsimp only
    split
    · trivial
    · exact hesc u
  | stale body => exact h.elim

theorem withoutSequences_cancelled (hbody : body.all isBodyUnit = true) (hu : u ≠ BACKSLASH)
    (rest : JsString) :
    withoutSequences (OSC_START ++ (body ++ ESC :: u :: rest)) =
      OSC_START ++ (body ++ withoutSequences (ESC :: u :: rest)) := by
  have hends : EndsBody (ESC :: u :: rest) := by
    intro v hv
    cases hv
    rfl
  have hterminated : terminated (ESC :: u :: rest) = none := by
    show (if ESC = BEL then some (u :: rest)
      else if ESC = ESC ∧ some u = some BACKSLASH then some rest else none) = none
    rw [if_neg (by decide), if_neg fun h => hu (Option.some.inj h.2)]
  refine withoutSequences_kept hbody ?_
  rw [behindSequence_body hbody hends, hterminated]
  exact ite_self none

theorem run_bounded {s : Scan} (hfresh : s.Fresh) (hopen : s.Open) (data : JsString) :
    Bounded (given s data) (withoutSequences (s.held ++ data)) ∧
      (Cancelled (s.held ++ data) → Off (given s data) (withoutSequences (s.held ++ data))) := by
  induction data generalizing s with
  | nil =>
    rw [append_nil, withoutSequences_held hopen]
    exact ⟨⟨le_refl _, le_refl _⟩, fun h => absurd h (not_cancelled_held hopen)⟩
  | cons u rest ih =>
    have hgoes {s : Scan} (hfresh : s.Fresh) (hopen : s.Open) (hnot : ¬s.Cancels u) :
        Bounded (given s (u :: rest)) (withoutSequences (s.held ++ u :: rest)) ∧
          (Cancelled (s.held ++ u :: rest) →
            Off (given s (u :: rest)) (withoutSequences (s.held ++ u :: rest))) := by
      obtain ⟨hopen', hstrips⟩ := step_strips hopen hnot rest
      obtain ⟨hbounded, hoff⟩ := ih (fresh_step hfresh u) hopen'
      rw [given_cons, hstrips]
      exact ⟨hbounded.append _, fun h => (hoff ((step_cancelled hopen hnot rest).mp h)).append _⟩
    by_cases hcancels : s.Cancels u
    · cases s with
      | ground | esc | osc _ => exact hcancels.elim
      | stale body => exact hfresh.elim
      | oscEsc body =>
        -- what the `ESC` gives up is off, and the rest is read from the `ESC` on
        obtain ⟨hbounded, -⟩ := hgoes (s := .esc) trivial trivial id
        have hoff := off_cancelled hopen hbounded
        have hkept : withoutSequences (OSC_START ++ (body ++ [ESC]) ++ u :: rest) =
            OSC_START ++ (body ++ withoutSequences (ESC :: u :: rest)) := by
          rw [append_assoc, append_assoc]
          exact withoutSequences_cancelled hopen hcancels rest
        rw [← given_cancelled body hcancels rest] at hoff
        show Bounded _ (withoutSequences (OSC_START ++ (body ++ [ESC]) ++ u :: rest)) ∧
          (_ → Off _ (withoutSequences (OSC_START ++ (body ++ [ESC]) ++ u :: rest)))
        rw [hkept]
        exact ⟨hoff.toBounded, fun _ => hoff⟩
    · exact hgoes hfresh hopen hcancels

/-! ## The theorem -/

def Osc633Parser.heldText (p : Osc633Parser) : JsString :=
  if p.inOsc then OSC_START ++ p.pendingOsc ++ (if p.pendingEscInOsc then [ESC] else [])
  else []

/-- The text of the stream, with what the parser holds at its end, is the stream without
its complete sequences. -/
def Transparent : Prop :=
  cleanedText (segmentsOf chunks) ++ (feed Osc633Parser.parseSegments {} chunks).1.heldText =
    withoutSequences chunks.flatten

theorem heldText_parserAt {s : Scan} (h : s.Resting) : (parserAt s).heldText = s.held := by
  cases s with
  | ground => rfl
  | esc | oscEsc _ => exact h.elim
  | osc body =>
    show OSC_START ++ body ++ [] = OSC_START ++ body
    rw [append_nil]
  | stale body =>
    show OSC_START ++ body ++ [ESC] = OSC_START ++ (body ++ [ESC])
    rw [append_assoc]

theorem parserAt_feed {s : Scan} (hs : s.Resting) (chunks : List JsString) :
    (feed Osc633Parser.parseSegments (parserAt s) chunks).1 = parserAt (feed scanChunk s chunks).1 ∧
      (feed scanChunk s chunks).1.Resting := by
  induction chunks generalizing s with
  | nil => exact ⟨rfl, hs⟩
  | cons chunk rest ih =>
    obtain ⟨hparser, -⟩ := parseSegments_spec hs chunk
    rw [feed_cons, feed_cons, hparser]
    exact ih (s := (scanChunk s chunk).1) (resting_pause _)

theorem transparent_iff_scan : Transparent chunks ↔
    textOf (feed scanChunk .ground chunks).2 ++ (feed scanChunk .ground chunks).1.held =
      withoutSequences chunks.flatten := by
  obtain ⟨hparser, hresting⟩ := parserAt_feed (s := .ground) trivial chunks
  unfold Transparent
  rw [cleanedText_eq, itemsOf_segmentsOf]
  show _ ++ (feed Osc633Parser.parseSegments (parserAt .ground) chunks).1.heldText = _ ↔ _
  rw [hparser, heldText_parserAt hresting]

theorem transparent_of_not_cancelled {chunks : List JsString} (hgoes : ¬Cancelled chunks.flatten)
    (hcuts : ¬CutsSequence chunks) : Transparent chunks := by
  rw [transparent_iff_scan]
  exact (feed_strips (s := .ground) trivial trivial hgoes hcuts).2.symm

theorem pause_held (s : Scan) : textOf (pause s).2 ++ (pause s).1.held = s.held := by
  cases s with
  | ground | esc | osc body | oscEsc body | stale body => rfl

theorem not_transparent_of_cancelled (h : Cancelled text) : ¬Transparent [text] := by
  have hoff := (run_bounded (s := .ground) trivial trivial text).2 h
  rw [transparent_iff_scan, flatten_singleton, feed_cons, feed_nil, append_nil]
  show textOf ((scanner.run .ground text).2 ++ (pause (scanner.run .ground text).1).2) ++
    (pause (scanner.run .ground text).1).1.held ≠ _
  rw [textOf_append, append_assoc, pause_held]
  exact hoff.ne

def SequenceFree (text : JsString) : Prop := ∀ after, after <:+ text → behindSequence after = none

theorem withoutSequences_eq {text : JsString} (h : SequenceFree text) :
    withoutSequences text = text := by
  induction text with
  | nil => exact withoutSequences_nil
  | cons u rest ih =>
    rw [withoutSequences_of_none (h _ suffix_rfl), ih fun after hafter => ?_]
    exact h after (hafter.trans (suffix_cons u rest))

theorem not_cutsSequence_one (text : JsString) : ¬CutsSequence [text] := by
  rintro ⟨before, after, text', heq, hlast, hbehind⟩
  cases before with
  | nil =>
    have hlength := congrArg length hlast
    rw [length_append] at hlength
    cases hlength
  | cons chunk before =>
    have hnil : before ++ after = [] := (cons_eq_cons.mp heq).2.symm
    rw [(append_eq_nil_iff.mp hnil).2] at hbehind
    exact hbehind rfl

def cancelledTitle : JsString := [ESC, 0x5d, 48, 59, 116, ESC, 0x5b, 48, 109]

end Osc633

end Fumie.AgentHost
