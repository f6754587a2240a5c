import Fumie.Editor.Model.PieceTreeTextBufferBuilder

/-!
# Which ways of cutting a text are loaded alike

`Holds` is carried through the chunks: every step keeps what is held and adds the
chunk, except where a unit is lost. The last step doubles a text that is only one
held back unit, so the buffer is that of the whole text exactly when no cut loses a
unit and no such doubling shows.
-/

namespace Fumie.Editor

open Fumie.Lib Fumie.Base List PieceTreeBase

namespace PieceTreeTextBufferBuilder

/-! ## Steps that lose a unit -/

variable {text : JsString}

theorem endsHeld_of_body_nil (hne : text ≠ []) (h : body text = []) :
    ∃ u, text = [u] ∧ heldBack u = true := by
  have htext := body_append_pending text
  rw [h, nil_append] at htext
  rcases pending_cases text with hnone | ⟨u, hone, hheld⟩
  · rw [hnone] at htext
    exact absurd htext.symm hne
  · exact ⟨u, htext.symm.trans hone, hheld⟩

variable {u : CodeUnit}

theorem endsHeld_single (h : heldBack u = true) : endsHeld [u] = true := h

theorem body_single (h : heldBack u = true) : body [u] = [] := by
  rw [body, endsHeld_single h]
  rfl

variable {content : JsString} {s : PieceTreeTextBufferBuilder} {chunk : JsString}

theorem holds_lossy (h : Holds content s) (hbody : body chunk = [])
    (hne : chunk ≠ [] ∨ body content = []) :
    Holds (body content ++ chunk) (s.acceptMarked chunk) := by
  rw [acceptMarked_eq, hbody, acceptChunk1_nil]
  by_cases hchunk : chunk = []
  · have hcontent : body content = [] := hne.resolve_left (fun hnot => hnot hchunk)
    rw [hchunk, hcontent]
    exact ⟨h.text.trans hcontent, rfl, (fun hprev => by cases hprev), h.nonempty, h.cuts⟩
  · refine ⟨?_, (endsHeld_append _ hchunk).symm, ?_, h.nonempty, h.cuts⟩
    · rw [body_append _ hchunk, hbody, append_nil]
      exact h.text
    · intro hends
      rw [pending_append _ hchunk, pending, if_pos hends]

theorem chunks_nil_iff (h : Holds content s) : s.chunks = [] ↔ body content = [] := by
  rw [← h.text]
  constructor
  · intro hnil
    rw [hnil]
    rfl
  · intro hnil
    cases hchunks : s.chunks with
    | nil => rfl
    | cons c rest =>
      rw [hchunks, flatMap_cons] at hnil
      have hc := h.nonempty c
      rw [hchunks] at hc
      exact absurd (append_eq_nil_iff.mp hnil).1 (hc mem_cons_self)

theorem holds_marked (h : Holds content s) (BOM : JsString) : Holds content { s with BOM := BOM } :=
  ⟨h.text, h.held, h.previous, h.nonempty, h.cuts⟩

theorem holds_acceptMarked_le (h : Holds content s) (hne : chunk ≠ [] ∨ body content = []) :
    ∃ content', Holds content' (s.acceptMarked chunk) ∧
      content'.length ≤ content.length + chunk.length ∧
      (endsHeld content = true → body chunk = [] →
        content'.length < content.length + chunk.length) := by
  by_cases hkept : endsHeld content = true ∧ body chunk = []
  · refine ⟨_, holds_lossy h hkept.2 hne, ?_⟩
    have hlen := congrArg length (body_append_pending content)
    rcases pending_cases content with hnone | ⟨u, hone, -⟩
    · rw [hnone, append_nil, body, hkept.1, if_pos rfl, length_dropLast] at hlen
      have hnil : content = [] := eq_nil_of_length_eq_zero (by omega)
      rw [hnil] at hkept
      cases hkept.1
    · rw [hone, length_append, length_singleton] at hlen
      rw [length_append]
      omega
  · refine ⟨_, holds_acceptMarked h hkept, ?_, fun hends hbody => absurd ⟨hends, hbody⟩ hkept⟩
    rw [length_append]

theorem length_drop_one (hne : chunk ≠ []) : (chunk.drop 1).length < chunk.length := by
  have := length_pos_iff.mpr hne
  rw [length_drop]
  omega

theorem acceptChunk_of_ne (hne : chunk ≠ []) (s : PieceTreeTextBufferBuilder) :
    s.acceptChunk chunk =
      if s.chunks = [] ∧ startsWithUTF8BOM chunk = true then
        acceptMarked { s with BOM := [UTF8_BOM] } (chunk.drop 1)
      else s.acceptMarked chunk := by
  have hpos : ¬chunk.length = 0 := fun hzero => hne (eq_nil_of_length_eq_zero hzero)
  rw [acceptChunk, if_neg hpos]
  simp only [length_eq_zero_iff]

theorem holds_acceptChunk_le (h : Holds content s) (hne : chunk ≠ []) :
    ∃ content', Holds content' (s.acceptChunk chunk) ∧
      content'.length ≤ content.length + chunk.length ∧
      (body content = [] ∧ startsWithUTF8BOM chunk = true ∨
          endsHeld content = true ∧ body chunk = [] →
        content'.length < content.length + chunk.length) := by
  rw [acceptChunk_of_ne hne]
  split
  · next hmarked =>
    obtain ⟨hnil, hbom⟩ := hmarked
    have hcontent := (chunks_nil_iff h).mp hnil
    have hmark : chunk.drop 1 ≠ [] ∨ body content = [] := .inr hcontent
    obtain ⟨content', hholds, hle, -⟩ := holds_acceptMarked_le (holds_marked h [UTF8_BOM]) hmark
    have hshort := length_drop_one hne
    exact ⟨content', hholds, by omega, fun _ => by omega⟩
  · next hplain =>
    obtain ⟨content', hholds, hle, hlt⟩ := holds_acceptMarked_le h (.inl hne)
    refine ⟨content', hholds, hle, fun hlost => ?_⟩
    rcases hlost with ⟨hcontent, hbom⟩ | ⟨hends, hbody⟩
    · exact absurd ⟨(chunks_nil_iff h).mpr hcontent, hbom⟩ hplain
    · exact hlt hends hbody

theorem holds_acceptChunks_le {content : JsString} {s : PieceTreeTextBufferBuilder}
    (h : Holds content s) (chunks : List JsString) :
    ∃ content', Holds content' (s.acceptChunks chunks) ∧
      content'.length ≤ content.length + chunks.flatten.length := by
  induction chunks generalizing content s with
  | nil => exact ⟨content, h, Nat.le_add_right _ _⟩
  | cons chunk rest ih =>
    rw [flatten_cons, length_append]
    by_cases hne : chunk = []
    · obtain ⟨content', hholds, hle⟩ := ih h
      rw [hne]
      exact ⟨content', hholds, by omega⟩
    · obtain ⟨middle, hmiddle, hle, -⟩ := holds_acceptChunk_le h hne
      obtain ⟨content', hholds, hle'⟩ := ih hmiddle
      exact ⟨content', hholds, by omega⟩

/-! ## Cuts that lose nothing -/

def leadingBOM (text : JsString) : JsString := if startsWithUTF8BOM text then [UTF8_BOM] else []

structure Reads (text : JsString) (s : PieceTreeTextBufferBuilder) : Prop where
  holds : Holds (stripUTF8BOM text) s
  bom : s.BOM = leadingBOM text

def KeepsCut (before chunk : JsString) : Prop :=
  before = [] ∨ ¬(body (stripUTF8BOM before) = [] ∧ startsWithUTF8BOM chunk = true) ∧
      ¬(endsHeld (stripUTF8BOM before) = true ∧ body chunk = [])

def KeepsCuts (before : JsString) : List JsString → Prop
  | [] => True
  | chunk :: rest => (chunk = [] ∨ KeepsCut before chunk) ∧ KeepsCuts (before ++ chunk) rest

variable {before : JsString}

theorem startsWithUTF8BOM_append (h : before ≠ []) (chunk : JsString) :
    startsWithUTF8BOM (before ++ chunk) = startsWithUTF8BOM before := by
  rw [startsWithUTF8BOM, startsWithUTF8BOM, head?_append_of_ne_nil _ h]

theorem stripUTF8BOM_append (h : before ≠ []) (chunk : JsString) :
    stripUTF8BOM (before ++ chunk) = stripUTF8BOM before ++ chunk := by
  rw [stripUTF8BOM, stripUTF8BOM, startsWithUTF8BOM_append h]
  split
  · exact drop_append_of_le_length (length_pos_iff.mpr h)
  · rfl

theorem leadingBOM_append (h : before ≠ []) (chunk : JsString) :
    leadingBOM (before ++ chunk) = leadingBOM before := by
  rw [leadingBOM, leadingBOM, startsWithUTF8BOM_append h]

theorem acceptChunk1_BOM (s : PieceTreeTextBufferBuilder) (chunk : JsString)
    (allowEmptyStrings : Bool) : (s.acceptChunk1 chunk allowEmptyStrings).BOM = s.BOM := by
  rw [acceptChunk1]
  split
  · rfl
  split
  · rfl
  · rfl

theorem acceptMarked_BOM (s : PieceTreeTextBufferBuilder) (chunk : JsString) :
    (s.acceptMarked chunk).BOM = s.BOM := by
  rw [acceptMarked_eq]
  exact acceptChunk1_BOM s (body chunk) false

theorem reads_new : Reads [] new := ⟨holds_new, rfl⟩

theorem reads_acceptChunk (h : Reads before s) (hne : chunk ≠ []) (hcut : KeepsCut before chunk) :
    Reads (before ++ chunk) (s.acceptChunk chunk) := by
  rw [acceptChunk_of_ne hne]
  by_cases hbefore : before = []
  · subst hbefore
    have hnil : s.chunks = [] := (chunks_nil_iff h.holds).mpr rfl
    have hkept : ∀ text, ¬(endsHeld ([] : JsString) = true ∧ body text = []) := by
      intro text hlost
      cases hlost.1
    rw [nil_append]
    cases hstart : startsWithUTF8BOM chunk with
    | true =>
      rw [if_pos ⟨hnil, rfl⟩]
      refine ⟨?_, ?_⟩
      · rw [stripUTF8BOM, if_pos hstart]
        exact holds_acceptMarked (holds_marked h.holds _) (hkept _)
      · rw [acceptMarked_BOM, leadingBOM, if_pos hstart]
    | false =>
      have hplain : stripUTF8BOM chunk = chunk := by
        rw [stripUTF8BOM, hstart]
        rfl
      rw [if_neg (by simp)]
      refine ⟨?_, ?_⟩
      · rw [hplain]
        exact holds_acceptMarked h.holds (hkept _)
      · have hnone : leadingBOM chunk = [] := by
          rw [leadingBOM, hstart]
          rfl
        rw [acceptMarked_BOM, h.bom, hnone]
        rfl
  · obtain ⟨hbom, hheld⟩ := hcut.resolve_left hbefore
    rw [← chunks_nil_iff h.holds] at hbom
    rw [if_neg hbom]
    refine ⟨?_, ?_⟩
    · rw [stripUTF8BOM_append hbefore]
      exact holds_acceptMarked h.holds hheld
    · rw [acceptMarked_BOM, leadingBOM_append hbefore]
      exact h.bom

theorem reads_acceptChunks {before : JsString} {s : PieceTreeTextBufferBuilder}
    (h : Reads before s) {chunks : List JsString} (hcuts : KeepsCuts before chunks) :
    Reads (before ++ chunks.flatten) (s.acceptChunks chunks) := by
  induction chunks generalizing before s with
  | nil =>
    rw [flatten_nil, append_nil]
    exact h
  | cons chunk rest ih =>
    rw [flatten_cons, ← append_assoc]
    by_cases hne : chunk = []
    · have hrest := hcuts.2
      rw [hne, append_nil] at hrest ⊢
      exact ih h hrest
    · exact ih (reads_acceptChunk h hne (hcuts.1.resolve_left hne)) hcuts.2

theorem length_of_not_keepsCuts {before : JsString} {s : PieceTreeTextBufferBuilder}
    (h : Reads before s) {chunks : List JsString} (hcuts : ¬KeepsCuts before chunks) :
    ∃ content, Holds content (s.acceptChunks chunks) ∧
      content.length < (stripUTF8BOM (before ++ chunks.flatten)).length := by
  induction chunks generalizing before s with
  | nil => exact absurd trivial hcuts
  | cons chunk rest ih =>
    rw [flatten_cons, ← append_assoc]
    by_cases hne : chunk = []
    · subst hne
      rw [append_nil]
      refine ih h fun hrest => hcuts ⟨.inl rfl, ?_⟩
      rw [append_nil]
      exact hrest
    by_cases hcut : KeepsCut before chunk
    · exact ih (reads_acceptChunk h hne hcut) fun hrest => hcuts ⟨.inr hcut, hrest⟩
    · rw [KeepsCut, not_or, not_and_or, not_not, not_not] at hcut
      obtain ⟨hbefore, hlost⟩ := hcut
      obtain ⟨middle, hmiddle, -, hlt⟩ := holds_acceptChunk_le h.holds hne
      obtain ⟨content, hholds, hle⟩ := holds_acceptChunks_le hmiddle rest
      have hshort := hlt hlost
      refine ⟨content, hholds, ?_⟩
      rw [stripUTF8BOM_append (append_ne_nil_of_left_ne_nil hbefore chunk),
        stripUTF8BOM_append hbefore, length_append, length_append]
      omega

/-! ## The last step -/

def finishedText (content : JsString) : JsString :=
  if body content = [] then content ++ content else content

structure Finished (text : JsString) (s : PieceTreeTextBufferBuilder) : Prop where
  content : s.chunks.flatMap StringBuffer.buffer = text
  creatable : Creatable s.chunks
  cuts : (s.chunks.map StringBuffer.buffer).IsChain SafeCut
  cr : s.cr = crCount (body text) + if text.getLast? = some carriageReturn then 1 else 0
  lf : s.lf = lfCount (body text)
  crlf : s.crlf = crlfCount (body text)
  basic : s.isBasicASCII = Editor.isBasicASCII (body text)
  rtl : s.containsRTL = Editor.containsRTL (body text)
  unusual : s.containsUnusualLineTerminators = Editor.containsUnusualLineTerminators (body text)

structure Whole (text : JsString) (s : PieceTreeTextBufferBuilder) : Prop where
  tallied : Tallied s
  content : s.chunks.flatMap StringBuffer.buffer = text
  creatable : Creatable s.chunks
  cuts : (s.chunks.map StringBuffer.buffer).IsChain SafeCut

variable {chunks : List StringBuffer}

theorem buffers_ne_nil (hne : ∀ c ∈ chunks, c.buffer ≠ []) :
    ∀ text ∈ chunks.map StringBuffer.buffer, text ≠ [] := by
  intro text hmem
  obtain ⟨c, hc, rfl⟩ := mem_map.mp hmem
  exact hne c hc

theorem textUnits_chunks (h : Creatable chunks)
    (hcuts : (chunks.map StringBuffer.buffer).IsChain SafeCut) :
    (chunks.flatMap fun c => textUnits c.buffer) =
      textUnits (chunks.flatMap StringBuffer.buffer) := by
  rcases h with hne | hone
  · have hflat := textUnits_flatten (buffers_ne_nil hne) hcuts
    rw [flatMap_def, flatMap_def, hflat, flatMap_def, map_map]
    rfl
  · obtain ⟨chunk, rfl⟩ := length_eq_one_iff.mp hone
    rw [flatMap_singleton, flatMap_singleton]

theorem containsRTL_chunks (h : Creatable chunks)
    (hcuts : (chunks.map StringBuffer.buffer).IsChain SafeCut) :
    (chunks.any fun c => Editor.containsRTL c.buffer) =
      Editor.containsRTL (chunks.flatMap StringBuffer.buffer) := by
  rcases h with hne | hone
  · have hflat := containsRTL_flatten (buffers_ne_nil hne) hcuts
    rw [flatMap_def, hflat, any_map]
    rfl
  · obtain ⟨chunk, rfl⟩ := length_eq_one_iff.mp hone
    rw [flatMap_singleton, any_cons, any_nil, Bool.or_false]

theorem Whole.counts (h : Whole text s) :
    s.cr = crCount text ∧ s.lf = lfCount text ∧ s.crlf = crlfCount text ∧
      s.isBasicASCII = Editor.isBasicASCII text ∧ s.containsRTL = Editor.containsRTL text ∧
      s.containsUnusualLineTerminators = Editor.containsUnusualLineTerminators text := by
  have hunits := textUnits_chunks h.creatable h.cuts
  rw [h.content] at hunits
  refine ⟨?_, ?_, ?_, ?_, ?_, ?_⟩
  · rw [h.tallied.cr, hunits, crCount]
  · rw [h.tallied.lf, hunits, lfCount]
  · rw [h.tallied.crlf, hunits, crlfCount]
  · rw [h.tallied.basic, hunits, Editor.isBasicASCII]
  · rw [h.tallied.rtl, containsRTL_chunks h.creatable h.cuts, h.content]
  · rw [h.tallied.unusual, ← h.content, flatMap_def, containsUnusualLineTerminators_flatten,
      any_map]
    rfl

theorem finished_whole (h : Whole text s) (hheld : endsHeld text = false) : Finished text s := by
  obtain ⟨hcr, hlf, hcrlf, hbasic, hrtl, hunusual⟩ := h.counts
  have hlast : text.getLast? ≠ some carriageReturn := by
    intro hcr
    rw [endsHeld, hcr] at hheld
    cases hheld
  have hbody := body_of_not_endsHeld hheld
  refine ⟨h.content, h.creatable, h.cuts, ?_, ?_, ?_, ?_, ?_, ?_⟩
  · rw [hbody, if_neg hlast]
    exact hcr
  · rw [hbody]; exact hlf
  · rw [hbody]; exact hcrlf
  · rw [hbody]; exact hbasic
  · rw [hbody]; exact hrtl
  · rw [hbody]; exact hunusual

theorem safeCut_extend {front last : JsString} (hlast : last ≠ []) (more : JsString)
    (h : SafeCut front last) : SafeCut front (last ++ more) := by
  intro u hu v hv
  rw [head?_append_of_ne_nil _ hlast] at hv
  exact h u hu v hv

theorem finished_held (h : Whole text s) (hne : ∀ c ∈ s.chunks, c.buffer ≠ [])
    (hchunks : s.chunks ≠ []) (hheld : heldBack u = true) (hprevious : s.previousChar = some u) :
    Finished (text ++ [u])
      { s with
        hasPreviousChar := false
        chunks := recreateLast s.chunks s.previousChar
        cr := if s.previousChar = some carriageReturn then s.cr + 1 else s.cr } := by
  obtain ⟨hcr, hlf, hcrlf, hbasic, hrtl, hunusual⟩ := h.counts
  have hbody : body (text ++ [u]) = text := by
    rw [body_append text (cons_ne_nil u []), body_single hheld, append_nil]
  have hsplit : s.chunks = s.chunks.dropLast ++ [s.chunks.getLast hchunks] :=
    (dropLast_append_getLast hchunks).symm
  have hlastne : (s.chunks.getLast hchunks).buffer ≠ [] := hne _ (getLast_mem hchunks)
  have hlast : recreateLast s.chunks s.previousChar =
      s.chunks.dropLast ++ [StringBuffer.ofText ((s.chunks.getLast hchunks).buffer ++ [u])] := by
    rw [recreateLast, getLast?_eq_some_getLast hchunks, hprevious]
    rfl
  refine ⟨?_, .inl ?_, ?_, ?_, ?_, ?_, ?_, ?_, ?_⟩
  · have htext := h.content
    rw [hsplit, flatMap_append, flatMap_singleton] at htext
    rw [hlast, flatMap_append, flatMap_singleton, ← htext, append_assoc]
    rfl
  · intro c hc
    rw [hlast] at hc
    rcases mem_append.mp hc with hc | hc
    · exact hne c (mem_of_mem_dropLast hc)
    · rw [mem_singleton.mp hc]
      exact append_ne_nil_of_left_ne_nil hlastne _
  · have hcuts := h.cuts
    rw [hsplit, map_append] at hcuts
    obtain ⟨hfront, -, hcut⟩ := isChain_append.mp hcuts
    rw [hlast, map_append]
    refine isChain_append.mpr ⟨hfront, isChain_singleton _, ?_⟩
    intro front hfront next hnext
    cases hnext
    exact safeCut_extend hlastne [u] (hcut front hfront _ rfl)
  · rw [hbody, getLast?_concat, hprevious]
    split
    · rw [← hcr]
    · rw [← hcr, Nat.add_zero]
  · rw [hbody]; exact hlf
  · rw [hbody]; exact hcrlf
  · rw [hbody]; exact hbasic
  · rw [hbody]; exact hrtl
  · rw [hbody]; exact hunusual

theorem finished_of_holds (h : Holds content s) (htallied : Tallied s) :
    Finished (finishedText content) s.finishChunks := by
  rw [finishChunks, finishedText]
  by_cases hbody : body content = []
  · -- nothing was pushed yet
    have hnil := (chunks_nil_iff h).mpr hbody
    have hpending := body_append_pending content
    rw [hbody, nil_append] at hpending
    have hpush : s.acceptChunk1 [] true = s.acceptChunk2 content := by
      rw [acceptChunk1_eq h (.inr rfl), append_nil, hpending]
    have hpushed : (s.acceptChunk2 content).chunks = [StringBuffer.ofText content] := by
      rw [acceptChunk2, hnil, nil_append]
      exact congrArg (fun c => [c]) (StringBuffer.eq_ofText _)
    have hwhole : Whole content (s.acceptChunk2 content) := by
      refine ⟨tallied_acceptChunk2 htallied content, ?_, .inr ?_, ?_⟩
      · rw [hpushed]
        exact flatMap_singleton _ _
      · rw [hpushed]
        rfl
      · rw [hpushed]
        exact isChain_singleton _
    rw [if_pos hbody, if_pos (length_eq_zero_iff.mpr hnil), hpush]
    by_cases hcontent : content = []
    · have hheld : s.hasPreviousChar = false := by
        rw [h.held, hcontent]
        rfl
      have hsame : (s.acceptChunk2 content).hasPreviousChar = false := hheld
      rw [hsame, if_neg Bool.false_ne_true]
      rw [hcontent] at hwhole ⊢
      exact finished_whole hwhole rfl
    · obtain ⟨u, rfl, hheld⟩ := endsHeld_of_body_nil hcontent hbody
      have hprev : (s.acceptChunk2 [u]).hasPreviousChar = true := by
        have : s.hasPreviousChar = true := by
          rw [h.held]
          exact hheld
        exact this
      have hchar : (s.acceptChunk2 [u]).previousChar = some u := by
        have hlist := h.previous hprev
        rw [hpending] at hlist
        have : s.previousChar = some u := by
          cases hc : s.previousChar with
          | none => rw [hc] at hlist; cases hlist
          | some v => rw [hc] at hlist; cases hlist; rfl
        exact this
      rw [hprev, if_pos rfl]
      refine finished_held hwhole ?_ ?_ hheld hchar
      · intro c hc
        rw [hpushed] at hc
        rw [mem_singleton.mp hc]
        exact cons_ne_nil _ _
      · rw [hpushed]
        exact cons_ne_nil _ _
  · have hchunks : s.chunks ≠ [] := fun hnil => hbody ((chunks_nil_iff h).mp hnil)
    have hwhole : Whole (body content) s := ⟨htallied, h.text, .inl h.nonempty, h.cuts⟩
    rw [if_neg hbody, if_neg fun hzero => hchunks (length_eq_zero_iff.mp hzero)]
    have hpending := body_append_pending content
    rcases pending_cases content with hnone | ⟨u, hone, hheld⟩
    · rw [hnone, append_nil] at hpending
      have hends : endsHeld content = false := by
        rw [← Bool.not_eq_true]
        intro hends
        have hlen := congrArg length hpending
        rw [body, hends, if_pos rfl, length_dropLast] at hlen
        rw [eq_nil_of_length_eq_zero (l := content) (by omega)] at hbody
        exact hbody rfl
      rw [h.held, hends, if_neg Bool.false_ne_true]
      rw [hpending] at hwhole
      exact finished_whole hwhole hends
    · have hends : endsHeld content = true := by
        cases hends : endsHeld content with
        | true => rfl
        | false => rw [pending_of_not_endsHeld hends] at hone; cases hone
      have hprev : s.hasPreviousChar = true := h.held.trans hends
      have hchar : s.previousChar = some u := by
        have hlist := h.previous hprev
        rw [hone] at hlist
        cases hc : s.previousChar with
        | none => rw [hc] at hlist; cases hlist
        | some v => rw [hc] at hlist; cases hlist; rfl
      have hfinished := finished_held hwhole h.nonempty hchunks hheld hchar
      rw [hone] at hpending
      rw [hpending] at hfinished
      rw [hprev, if_pos rfl]
      exact hfinished

theorem finishChunks_BOM (s : PieceTreeTextBufferBuilder) : s.finishChunks.BOM = s.BOM := by
  rw [finishChunks]
  split
  · split
    · exact acceptChunk1_BOM s [] true
    · exact acceptChunk1_BOM s [] true
  · split
    · rfl
    · rfl

end PieceTreeTextBufferBuilder

open PieceTreeTextBufferBuilder

/-! ## The buffer of a text -/

def textFactory (BOM text : JsString) (normalizeEOL : Bool) : PieceTreeTextBufferFactory where
  chunks := [StringBuffer.ofText text]
  bom := BOM
  cr := crCount (body text) + if text.getLast? = some carriageReturn then 1 else 0
  lf := lfCount (body text)
  crlf := crlfCount (body text)
  containsRTL := containsRTL (body text)
  containsUnusualLineTerminators := containsUnusualLineTerminators (body text)
  isBasicASCII := isBasicASCII (body text)
  normalizeEOL := normalizeEOL

theorem replaceEOL_ne_nil {text : JsString} (h : text ≠ []) (eol : EndOfLine) :
    replaceEOL eol text ≠ [] := by
  have heol : eol.text ≠ [] := by
    cases eol with
    | crlf | lf => exact cons_ne_nil _ _
  have hunit : ∀ unit, TextUnit.replaced eol unit ≠ [] := by
    intro unit
    cases unit with
    | crlf => exact heol
    | unit u =>
      rw [TextUnit.replaced]
      split
      · exact heol
      · exact cons_ne_nil _ _
  rw [replaceEOL]
  cases text with
  | nil => exact absurd rfl h
  | cons u rest =>
    cases rest with
    | nil => exact append_ne_nil_of_left_ne_nil (hunit _) _
    | cons v rest =>
      rw [textUnits]
      split
      · exact append_ne_nil_of_left_ne_nil (hunit _) _
      · exact append_ne_nil_of_left_ne_nil (hunit _) _

theorem replaceEOL_chunks {chunks : List StringBuffer} (h : Creatable chunks)
    (hcuts : (chunks.map StringBuffer.buffer).IsChain SafeCut) (eol : EndOfLine) :
    Creatable (chunks.map fun c => StringBuffer.ofText (replaceEOL eol c.buffer)) ∧
    (chunks.map fun c => StringBuffer.ofText (replaceEOL eol c.buffer)).flatMap
        StringBuffer.buffer = replaceEOL eol (chunks.flatMap StringBuffer.buffer) := by
  constructor
  · rcases h with hne | hone
    · refine .inl fun c hc => ?_
      obtain ⟨chunk, hchunk, rfl⟩ := mem_map.mp hc
      exact replaceEOL_ne_nil (hne chunk hchunk) eol
    · exact .inr (by rw [length_map]; exact hone)
  · rw [replaceEOL, ← textUnits_chunks h hcuts, flatMap_assoc, flatMap_map]
    rfl

theorem addChunks_EOL (i : Nat) (tree : PieceTreeBase) (chunks : List StringBuffer) :
    (tree.addChunks i chunks).EOL = tree.EOL := by
  induction chunks generalizing i tree with
  | nil => rfl
  | cons chunk rest ih =>
    rw [addChunks]
    split
    · rw [ih, addChunk]
    · rw [ih]

theorem facts_create (factory : PieceTreeTextBufferFactory) (h : Creatable factory.chunks)
    (hcuts : (factory.chunks.map StringBuffer.buffer).IsChain SafeCut)
    (defaultEOL : DefaultEndOfLine) :
    (factory.create defaultEOL).facts =
      { content := some (
          if factory.normalizes (factory.getEOL defaultEOL) then
            replaceEOL (factory.getEOL defaultEOL) (factory.chunks.flatMap StringBuffer.buffer)
          else factory.chunks.flatMap StringBuffer.buffer)
        BOM := factory.bom
        EOL := factory.getEOL defaultEOL
        mightContainRTL := factory.containsRTL
        mightContainUnusualLineTerminators := factory.containsUnusualLineTerminators
        mightContainNonBasicASCII := !factory.isBasicASCII } := by
  have heol : ∀ chunks eol, (PieceTreeBase.create chunks eol factory.normalizeEOL).EOL = eol :=
    fun chunks eol => addChunks_EOL 0 _ chunks
  obtain ⟨hreplaced, htext⟩ := replaceEOL_chunks h hcuts (factory.getEOL defaultEOL)
  rw [PieceTreeTextBufferFactory.create, PieceTreeTextBuffer.facts, PieceTreeTextBuffer.new]
  rw [heol]
  split
  · rw [getLinesRawContent_create hreplaced, htext]
  · rw [getLinesRawContent_create h]

theorem facts_finish {text : JsString} {s : PieceTreeTextBufferBuilder}
    (h : Finished text s.finishChunks) (normalizeEOL : Bool) (defaultEOL : DefaultEndOfLine) :
    ((s.finish normalizeEOL).create defaultEOL).facts =
      ((textFactory s.BOM text normalizeEOL).create defaultEOL).facts := by
  have hone : Creatable (textFactory s.BOM text normalizeEOL).chunks := .inr rfl
  have htext : (textFactory s.BOM text normalizeEOL).chunks.flatMap StringBuffer.buffer = text :=
    flatMap_singleton _ _
  have heol : (s.finish normalizeEOL).getEOL defaultEOL =
      (textFactory s.BOM text normalizeEOL).getEOL defaultEOL := by
    rw [PieceTreeTextBufferFactory.getEOL, PieceTreeTextBufferFactory.getEOL, finish, h.cr, h.lf,
      h.crlf]
    rfl
  have hnormalizes : ∀ eol, (s.finish normalizeEOL).normalizes eol =
      (textFactory s.BOM text normalizeEOL).normalizes eol := by
    intro eol
    rw [PieceTreeTextBufferFactory.normalizes, PieceTreeTextBufferFactory.normalizes, finish, h.cr,
      h.lf, h.crlf]
    rfl
  have hcontent : (s.finish normalizeEOL).chunks.flatMap StringBuffer.buffer = text := h.content
  rw [facts_create (s.finish normalizeEOL) h.creatable h.cuts defaultEOL,
    facts_create _ hone (isChain_singleton _) defaultEOL, heol, hnormalizes, hcontent, htext,
    finish, h.rtl, h.unusual, h.basic, finishChunks_BOM]
  rfl

variable {chunks : List JsString} {content : JsString}

theorem facts_load (h : Holds content (new.acceptChunks chunks)) (normalizeEOL : Bool)
    (defaultEOL : DefaultEndOfLine) :
    (loadChunks chunks normalizeEOL defaultEOL).facts =
      ((textFactory (new.acceptChunks chunks).BOM (finishedText content) normalizeEOL).create
        defaultEOL).facts :=
  facts_finish (finished_of_holds h (tallied_acceptChunks tallied_new chunks)) normalizeEOL
    defaultEOL

theorem content_load (h : Holds content (new.acceptChunks chunks)) (defaultEOL : DefaultEndOfLine) :
    (loadChunks chunks false defaultEOL).facts.content = some (finishedText content) := by
  rw [facts_load h, facts_create _ (.inr rfl) (isChain_singleton _)]
  exact congrArg some (flatMap_singleton _ _)

theorem finishedText_of_not_single (h : ¬∃ u, heldBack u = true ∧ content = [u]) :
    finishedText content = content := by
  rw [finishedText]
  split
  · next hbody =>
    by_cases hcontent : content = []
    · rw [hcontent]
      rfl
    · obtain ⟨u, hu, hheld⟩ := endsHeld_of_body_nil hcontent hbody
      exact absurd ⟨u, hheld, hu⟩ h
  · rfl

theorem finishedText_single {u : CodeUnit} (h : heldBack u = true) : finishedText [u] = [u, u] := by
  rw [finishedText, if_pos (body_single h)]
  rfl

def LoneHeldBack (text : JsString) : Prop := ∃ u, heldBack u = true ∧ stripUTF8BOM text = [u]

def TwiceHeldBack (text : JsString) : Prop := ∃ u, heldBack u = true ∧ stripUTF8BOM text = [u, u]

theorem keepsCuts_whole (text : JsString) : KeepsCuts [] [text] := ⟨.inr (.inl rfl), trivial⟩

theorem facts_of_keeps (hcuts : KeepsCuts [] chunks) (hlone : ¬LoneHeldBack chunks.flatten)
    (normalizeEOL : Bool) (defaultEOL : DefaultEndOfLine) :
    (loadChunks chunks normalizeEOL defaultEOL).facts =
      ((textFactory (leadingBOM chunks.flatten) (stripUTF8BOM chunks.flatten) normalizeEOL).create
        defaultEOL).facts := by
  have hreads := reads_acceptChunks reads_new hcuts
  rw [nil_append] at hreads
  rw [facts_load hreads.holds, finishedText_of_not_single hlone, hreads.bom]

theorem acceptChunks_empty (s : PieceTreeTextBufferBuilder) {chunks : List JsString}
    (h : chunks.flatten = []) : s.acceptChunks chunks = s := by
  induction chunks generalizing s with
  | nil => rfl
  | cons chunk rest ih =>
    rw [flatten_cons, append_eq_nil_iff] at h
    rw [h.1]
    exact ih s h.2

theorem holds_twice {before : JsString} {s : PieceTreeTextBufferBuilder} (h : Reads before s)
    {u : CodeUnit} (hheld : heldBack u = true) {chunks : List JsString}
    (htext : stripUTF8BOM (before ++ chunks.flatten) = [u, u]) :
    ∃ content, Holds content (s.acceptChunks chunks) ∧ finishedText content = [u, u] ∧
      (s.acceptChunks chunks).BOM = leadingBOM (before ++ chunks.flatten) := by
  induction chunks generalizing before s with
  | nil =>
    rw [flatten_nil, append_nil] at htext ⊢
    have hbody : body [u, u] = [u] := by
      rw [← singleton_append, body_append [u] (cons_ne_nil u []), body_single hheld]
      rfl
    refine ⟨_, h.holds, ?_, h.bom⟩
    rw [htext, finishedText, hbody]
    exact if_neg (cons_ne_nil u [])
  | cons chunk rest ih =>
    rw [flatten_cons, ← append_assoc] at htext ⊢
    by_cases hne : chunk = []
    · subst hne
      rw [append_nil] at htext ⊢
      exact ih h htext
    by_cases hcut : KeepsCut before chunk
    · exact ih (reads_acceptChunk h hne hcut) htext
    · rw [KeepsCut, not_or, not_and_or, not_not, not_not] at hcut
      obtain ⟨hbefore, hlost⟩ := hcut
      rw [stripUTF8BOM_append (append_ne_nil_of_left_ne_nil hbefore chunk),
        stripUTF8BOM_append hbefore] at htext
      rcases hlost with ⟨-, hbom⟩ | ⟨hends, hbody⟩
      · -- a byte order mark is not kept back
        exfalso
        cases chunk with
        | nil => cases hbom
        | cons v chunk =>
          have hv : v = UTF8_BOM := by
            rw [startsWithUTF8BOM, head?_cons, decide_eq_true_eq] at hbom
            exact Option.some.inj hbom
          have hmem : v ∈ [u, u] := by
            rw [← htext]
            exact mem_append_left _ (mem_append_right _ mem_cons_self)
          have hvu : v = u := by simpa using hmem
          rw [← hvu, hv] at hheld
          cases hheld
      · obtain ⟨v, rfl, -⟩ := endsHeld_of_body_nil hne hbody
        have hstrip : stripUTF8BOM before ≠ [] := by
          intro hnil
          rw [hnil] at hends
          cases hends
        have hparts : stripUTF8BOM before = [u] ∧ v = u ∧ rest.flatten = [] := by
          cases hs : stripUTF8BOM before with
          | nil => exact absurd hs hstrip
          | cons w more =>
            rw [hs, append_assoc, cons_append, singleton_append] at htext
            obtain ⟨rfl, hmore⟩ := cons.inj htext
            cases more with
            | nil =>
              obtain ⟨rfl, hrest⟩ := cons.inj hmore
              exact ⟨rfl, rfl, hrest⟩
            | cons x more =>
              have hlen := congrArg length hmore
              simp only [length_append, length_cons, length_nil] at hlen
              omega
        obtain ⟨hone, rfl, hrest⟩ := hparts
        have hbom : startsWithUTF8BOM [v] = false := by
          by_contra hnot
          have hv := Bool.of_not_eq_false hnot
          rw [startsWithUTF8BOM, head?_cons, decide_eq_true_eq] at hv
          rw [Option.some.inj hv] at hheld
          cases hheld
        have hstep : s.acceptChunk [v] = s.acceptMarked [v] := by
          rw [acceptChunk_of_ne hne, hbom]
          exact if_neg (by simp)
        have hholds := holds_lossy h.holds hbody (.inl hne)
        rw [hone, body_single hheld, nil_append] at hholds
        have hfold : s.acceptChunks ([v] :: rest) = s.acceptMarked [v] := by
          rw [← hstep]
          exact acceptChunks_empty _ hrest
        refine ⟨[v], ?_, finishedText_single hheld, ?_⟩
        · rw [hfold]
          exact hholds
        · rw [hfold, acceptMarked_BOM, h.bom, hrest, append_nil, leadingBOM_append hbefore]

theorem facts_of_twice (h : TwiceHeldBack chunks.flatten) (normalizeEOL : Bool)
    (defaultEOL : DefaultEndOfLine) :
    (loadChunks chunks normalizeEOL defaultEOL).facts =
      ((textFactory (leadingBOM chunks.flatten) (stripUTF8BOM chunks.flatten) normalizeEOL).create
        defaultEOL).facts := by
  obtain ⟨u, hheld, htext⟩ := h
  obtain ⟨content, hholds, hfinished, hbom⟩ := @holds_twice [] new reads_new u hheld chunks htext
  rw [facts_load hholds, hfinished, hbom, htext, nil_append]

/-! ## Loading does not depend on the chunks -/

def ChunkIndependent (chunks : List JsString) : Prop :=
  ∀ defaultEOL,
    (∀ normalizeEOL, (loadChunks chunks normalizeEOL defaultEOL).facts =
      (loadChunks [chunks.flatten] normalizeEOL defaultEOL).facts) ∧
    (loadChunks chunks false defaultEOL).facts.content = some (stripUTF8BOM chunks.flatten)

theorem chunkIndependent_of_facts
    (h : ∀ pieces : List JsString, pieces = chunks ∨ pieces = [chunks.flatten] →
      ∀ normalizeEOL defaultEOL, (loadChunks pieces normalizeEOL defaultEOL).facts =
        ((textFactory (leadingBOM chunks.flatten) (stripUTF8BOM chunks.flatten)
          normalizeEOL).create defaultEOL).facts) : ChunkIndependent chunks := by
  intro defaultEOL
  constructor
  · intro normalizeEOL
    rw [h chunks (.inl rfl), h _ (.inr rfl)]
  · rw [h chunks (.inl rfl), facts_create _ (.inr rfl) (isChain_singleton _)]
    exact congrArg some (flatMap_singleton _ _)

/-- A text is loaded alike whole and in chunks exactly when no cut loses a unit and the
text is not one held back unit, or when it is such a unit twice. -/
theorem chunkIndependent_iff (chunks : List JsString) :
    ChunkIndependent chunks ↔ TwiceHeldBack chunks.flatten ∨
      KeepsCuts [] chunks ∧ ¬LoneHeldBack chunks.flatten := by
  constructor
  · intro h
    by_cases htwice : TwiceHeldBack chunks.flatten
    · exact .inl htwice
    have hcontent := (h .LF).2
    refine .inr ⟨?_, ?_⟩
    · by_contra hcuts
      obtain ⟨content, hholds, hlt⟩ := length_of_not_keepsCuts reads_new hcuts
      rw [content_load hholds] at hcontent
      have htext := Option.some.inj hcontent
      rw [nil_append, ← htext] at hlt
      by_cases hlone : ∃ u, heldBack u = true ∧ content = [u]
      · obtain ⟨u, hheld, rfl⟩ := hlone
        rw [finishedText_single hheld] at htext
        exact htwice ⟨u, hheld, htext.symm⟩
      · rw [finishedText_of_not_single hlone] at hlt
        exact Nat.lt_irrefl _ hlt
    · rintro ⟨u, hheld, htext⟩
      by_cases hcuts : KeepsCuts [] chunks
      · have hholds := (reads_acceptChunks reads_new hcuts).holds
        rw [nil_append, htext] at hholds
        rw [content_load hholds, htext, finishedText_single hheld] at hcontent
        cases Option.some.inj hcontent
      · obtain ⟨content, hholds, hlt⟩ := length_of_not_keepsCuts reads_new hcuts
        rw [nil_append, htext, length_singleton] at hlt
        have hnil : content = [] := eq_nil_of_length_eq_zero (by omega)
        rw [content_load hholds, hnil, htext] at hcontent
        cases Option.some.inj hcontent
  · rintro (htwice | ⟨hcuts, hlone⟩)
    · refine chunkIndependent_of_facts fun pieces hpieces normalizeEOL defaultEOL => ?_
      rcases hpieces with rfl | rfl
      · exact facts_of_twice htwice _ _
      · have hwhole : [chunks.flatten].flatten = chunks.flatten := flatten_singleton
        rw [← hwhole] at htwice
        have hfacts := facts_of_twice htwice normalizeEOL defaultEOL
        rwa [hwhole] at hfacts
    · refine chunkIndependent_of_facts fun pieces hpieces normalizeEOL defaultEOL => ?_
      rcases hpieces with rfl | rfl
      · exact facts_of_keeps hcuts hlone _ _
      · have hwhole : [chunks.flatten].flatten = chunks.flatten := flatten_singleton
        have hfacts := facts_of_keeps (keepsCuts_whole chunks.flatten)
          (by rw [hwhole]; exact hlone) normalizeEOL defaultEOL
        rwa [hwhole] at hfacts

/-- A `\r` at the end of a chunk is lost when the next chunk is one `\r`. -/
theorem not_chunkIndependent : ¬∀ chunks, ChunkIndependent chunks := by
  intro h
  have hcontent := (h [[97, carriageReturn], [carriageReturn]] .LF).2
  cases hcontent

end Fumie.Editor
