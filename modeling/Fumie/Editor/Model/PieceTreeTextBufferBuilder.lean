import Fumie.Editor.Model.PieceTreeTextBuffer

/-!
# Loading a text in chunks

The builder holds back a `\r` or a high surrogate at the end of a chunk and puts it in
front of the next one. What it knows after some chunks is computed here from the text
they make up, as long as no cut loses a unit: a chunk that is only such a unit replaces
the one held back, and a byte order mark is taken off once more where nothing but held
back units and another mark came before.
-/

namespace Fumie.Editor

open Fumie.Lib Fumie.Base List TextUnit Bool

def UTF8_BOM : CodeUnit := 0xFEFF

def startsWithUTF8BOM (str : JsString) : Bool := str.head? = some UTF8_BOM

def stripUTF8BOM (str : JsString) : JsString := if startsWithUTF8BOM str then str.drop 1 else str

inductive DefaultEndOfLine
  | LF
  | CRLF
  deriving DecidableEq, Repr

structure PieceTreeTextBufferFactory where
  chunks : List StringBuffer
  bom : JsString
  cr : Nat
  lf : Nat
  crlf : Nat
  containsRTL : Bool
  containsUnusualLineTerminators : Bool
  isBasicASCII : Bool
  normalizeEOL : Bool

namespace PieceTreeTextBufferFactory

variable (factory : PieceTreeTextBufferFactory)

variable (defaultEOL : DefaultEndOfLine)

def getEOL : EndOfLine :=
  let totalEOLCount := factory.cr + factory.lf + factory.crlf
  let totalCRCount := factory.cr + factory.crlf
  if totalEOLCount = 0 then (if defaultEOL = .LF then .lf else .crlf)
  else if 2 * totalCRCount > totalEOLCount then .crlf
  else .lf

def normalizes (eol : EndOfLine) : Bool :=
  factory.normalizeEOL &&
    ((eol = .crlf && (factory.cr > 0 || factory.lf > 0)) ||
      (eol = .lf && (factory.cr > 0 || factory.crlf > 0)))

def create : PieceTreeTextBuffer :=
  let eol := factory.getEOL defaultEOL
  let chunks :=
    if factory.normalizes eol then
      factory.chunks.map fun chunk => StringBuffer.ofText (replaceEOL eol chunk.buffer)
    else factory.chunks
  PieceTreeTextBuffer.new chunks factory.bom eol factory.containsRTL
    factory.containsUnusualLineTerminators factory.isBasicASCII factory.normalizeEOL

end PieceTreeTextBufferFactory

/-- `previousChar` is `none` where the source has `NaN`. -/
structure PieceTreeTextBufferBuilder where
  chunks : List StringBuffer
  BOM : JsString
  hasPreviousChar : Bool
  previousChar : Option CodeUnit
  cr : Nat
  lf : Nat
  crlf : Nat
  containsRTL : Bool
  containsUnusualLineTerminators : Bool
  isBasicASCII : Bool

def fromCharCode (c : Option CodeUnit) : JsString := [c.getD 0]

def heldBack (u : CodeUnit) : Bool := u = carriageReturn || isHighSurrogate u

namespace PieceTreeTextBufferBuilder

def new : PieceTreeTextBufferBuilder where
  chunks := []
  BOM := []
  hasPreviousChar := false
  previousChar := some 0
  cr := 0
  lf := 0
  crlf := 0
  containsRTL := false
  containsUnusualLineTerminators := false
  isBasicASCII := true

variable (s : PieceTreeTextBufferBuilder)

section

variable (chunk : JsString)

def acceptChunk2 : PieceTreeTextBufferBuilder :=
  let lineStarts := createLineStarts chunk
  { s with
    chunks := s.chunks ++ [⟨chunk, lineStarts.lineStarts, (createLineStarts_fields chunk).2.2.2.2⟩]
    cr := s.cr + lineStarts.cr
    lf := s.lf + lineStarts.lf
    crlf := s.crlf + lineStarts.crlf
    isBasicASCII := if !lineStarts.isBasicASCII then false else s.isBasicASCII
    containsRTL :=
      if !lineStarts.isBasicASCII then
        (if !s.containsRTL then Editor.containsRTL chunk else s.containsRTL)
      else s.containsRTL
    containsUnusualLineTerminators :=
      if !lineStarts.isBasicASCII then
        (if !s.containsUnusualLineTerminators then Editor.containsUnusualLineTerminators chunk
        else s.containsUnusualLineTerminators)
      else s.containsUnusualLineTerminators }

def acceptChunk1 (allowEmptyStrings : Bool) : PieceTreeTextBufferBuilder :=
  if !allowEmptyStrings && chunk.length = 0 then s
  else if s.hasPreviousChar then s.acceptChunk2 (fromCharCode s.previousChar ++ chunk)
  else s.acceptChunk2 chunk

def acceptMarked : PieceTreeTextBufferBuilder :=
  let lastChar := chunk.getLast?
  if lastChar.any heldBack then
    { s.acceptChunk1 chunk.dropLast false with hasPreviousChar := true, previousChar := lastChar }
  else { s.acceptChunk1 chunk false with hasPreviousChar := false, previousChar := lastChar }

def acceptChunk : PieceTreeTextBufferBuilder :=
  if chunk.length = 0 then s
  else if s.chunks.length = 0 ∧ startsWithUTF8BOM chunk = true then
    acceptMarked { s with BOM := [UTF8_BOM] } (chunk.drop 1)
  else acceptMarked s chunk

end

def recreateLast (chunks : List StringBuffer) (previousChar : Option CodeUnit) : List StringBuffer :=
  match chunks.getLast? with
  | none => chunks
  | some lastChunk =>
    chunks.dropLast ++ [StringBuffer.ofText (lastChunk.buffer ++ fromCharCode previousChar)]

/-- `_finish`. -/
def finishChunks : PieceTreeTextBufferBuilder :=
  let s := if s.chunks.length = 0 then s.acceptChunk1 [] true else s
  if s.hasPreviousChar then
    { s with
      hasPreviousChar := false
      chunks := recreateLast s.chunks s.previousChar
      cr := if s.previousChar = some carriageReturn then s.cr + 1 else s.cr }
  else s

def finish (normalizeEOL : Bool) : PieceTreeTextBufferFactory :=
  let s := s.finishChunks
  { chunks := s.chunks
    bom := s.BOM
    cr := s.cr
    lf := s.lf
    crlf := s.crlf
    containsRTL := s.containsRTL
    containsUnusualLineTerminators := s.containsUnusualLineTerminators
    isBasicASCII := s.isBasicASCII
    normalizeEOL := normalizeEOL }

def acceptChunks (chunks : List JsString) : PieceTreeTextBufferBuilder := chunks.foldl acceptChunk s

end PieceTreeTextBufferBuilder

def loadChunks (chunks : List JsString) (normalizeEOL : Bool) (defaultEOL : DefaultEndOfLine) :
    PieceTreeTextBuffer :=
  ((PieceTreeTextBufferBuilder.new.acceptChunks chunks).finish normalizeEOL).create defaultEOL

structure BufferFacts where
  content : Option JsString
  BOM : JsString
  EOL : EndOfLine
  mightContainRTL : Bool
  mightContainUnusualLineTerminators : Bool
  mightContainNonBasicASCII : Bool
  deriving DecidableEq, Repr

def PieceTreeTextBuffer.facts (buffer : PieceTreeTextBuffer) : BufferFacts where
  content := buffer.pieceTree.getLinesRawContent
  BOM := buffer.BOM
  EOL := buffer.pieceTree.EOL
  mightContainRTL := buffer.mightContainRTL
  mightContainUnusualLineTerminators := buffer.mightContainUnusualLineTerminators
  mightContainNonBasicASCII := buffer.mightContainNonBasicASCII

/-! ## What is kept back of a text -/

def endsHeld (text : JsString) : Bool := text.getLast?.any heldBack

def body (text : JsString) : JsString := if endsHeld text then text.dropLast else text

def pending (text : JsString) : JsString := if endsHeld text then text.getLast?.toList else []

theorem body_append_pending (text : JsString) : body text ++ pending text = text := by
  unfold body pending
  split
  · next h =>
    cases hlast : text.getLast? with
    | none => rw [endsHeld, hlast] at h; cases h
    | some u =>
      have hne : text ≠ [] := by
        rintro rfl
        cases hlast
      rw [getLast?_eq_some_getLast hne] at hlast
      rw [Option.toList_some, ← Option.some.inj hlast, dropLast_append_getLast]
  · exact append_nil text

variable {text content : JsString}

theorem body_of_not_endsHeld (h : endsHeld text = false) : body text = text := by
  rw [body, h]
  rfl

theorem pending_of_not_endsHeld (h : endsHeld text = false) : pending text = [] := by
  rw [pending, h]
  rfl

variable (front : JsString) {back : JsString}

theorem endsHeld_append (h : back ≠ []) : endsHeld (front ++ back) = endsHeld back := by
  rw [endsHeld, endsHeld, getLast?_append_of_ne_nil _ h]

theorem body_append (h : back ≠ []) : body (front ++ back) = front ++ body back := by
  rw [body, body, endsHeld_append front h]
  split
  · exact dropLast_append_of_ne_nil h
  · rfl

theorem pending_append (h : back ≠ []) : pending (front ++ back) = pending back := by
  rw [pending, pending, endsHeld_append front h, getLast?_append_of_ne_nil _ h]

theorem pending_cases (text : JsString) :
    pending text = [] ∨ ∃ u, pending text = [u] ∧ heldBack u = true := by
  unfold pending
  split
  · next h =>
    rw [endsHeld] at h
    cases hlast : text.getLast? with
    | none => exact .inl rfl
    | some u =>
      rw [hlast, Option.any_some] at h
      exact .inr ⟨u, rfl, h⟩
  · exact .inl rfl

variable {u : CodeUnit}

theorem safeCut_held (h : heldBack u = true) (rest : JsString) : SafeCut front (u :: rest) := by
  intro v hv w hw
  cases hw
  rw [heldBack, or_eq_true, decide_eq_true_eq] at h
  rcases h with rfl | hhigh
  · refine ⟨fun hcrlf => absurd hcrlf.2 (by decide), fun hpair => absurd hpair.2 (by decide)⟩
  · simp only [isHighSurrogate, and_eq_true, decide_eq_true_eq] at hhigh
    refine ⟨fun hcrlf => ?_, fun hpair => ?_⟩
    · rw [hcrlf.2] at hhigh
      exact absurd hhigh (by decide)
    · have hlow := hpair.2
      simp only [isLowSurrogate, and_eq_true, decide_eq_true_eq] at hlow
      omega

theorem safeCut_whole {front : JsString} (h : endsHeld front = false) (back : JsString) :
    SafeCut front back := by
  intro u hu v hv
  rw [endsHeld, hu, Option.any_some, heldBack, Bool.or_eq_false_iff] at h
  refine ⟨fun hcrlf => of_decide_eq_false h.1 hcrlf.1, fun hpair => ?_⟩
  rw [h.2] at hpair
  cases hpair.1

theorem safeCut_body (text back : JsString) : SafeCut (body text) (pending text ++ back) := by
  cases h : endsHeld text with
  | false =>
    rw [body_of_not_endsHeld h]
    exact safeCut_whole h _
  | true =>
    rcases pending_cases text with hnone | ⟨u, hone, hheld⟩
    · have hbody := body_append_pending text
      rw [hnone, append_nil] at hbody
      have hlen := congrArg length hbody
      rw [body, h, if_pos rfl, length_dropLast] at hlen
      have hnil : text = [] := eq_nil_of_length_eq_zero (by omega)
      rw [hnil]
      exact SafeCut.nil_left _
    · rw [hone]
      exact safeCut_held _ hheld _

/-! ## Counts and flags -/

theorem isBasicASCII_cons {u : CodeUnit} {rest : JsString} (h : isBasicASCII (u :: rest) = true) :
    (TextUnit.unit u).isBasic = true ∧ isBasicASCII rest = true := by
  cases rest with
  | nil =>
    rw [isBasicASCII, textUnits, all_cons, and_eq_true] at h
    exact ⟨h.1, rfl⟩
  | cons v rest =>
    rw [isBasicASCII, textUnits] at h
    split at h
    · next hcrlf =>
      rw [all_cons, and_eq_true] at h
      refine ⟨by rw [hcrlf.1]; rfl, ?_⟩
      rw [isBasicASCII, textUnits_cons (by
        intro w _ hcr
        rw [hcrlf.2] at hcr
        exact absurd hcr.1 (by decide)), hcrlf.2, all_cons, and_eq_true]
      exact ⟨rfl, h.2⟩
    · rw [all_cons, and_eq_true] at h
      exact h

theorem lt_of_isBasic (h : (TextUnit.unit u).isBasic = true) : u.val < 127 := by
  rw [isBasic, or_eq_true, or_eq_true, decide_eq_true_eq, decide_eq_true_eq, isBasicUnit,
    or_eq_true, and_eq_true, decide_eq_true_eq, decide_eq_true_eq, decide_eq_true_eq] at h
  rcases h with (rfl | rfl) | rfl | ⟨-, hle⟩
  · decide
  · decide
  · decide
  · omega

theorem not_isRtlUnit (h : u.val < 127) : isRtlUnit u = false := by
  have hall : ∀ range ∈ rtlUnits, 127 ≤ range.1 := by decide
  by_contra hnot
  obtain ⟨range, hmem, hin⟩ := any_eq_true.mp (of_not_eq_false hnot)
  have hge := hall range hmem
  simp only [and_eq_true, decide_eq_true_eq] at hin
  omega

theorem not_isRtlPair (h : u.val < 127) (v : CodeUnit) : isRtlPair u v = false := by
  by_contra hnot
  have hhigh := (pair_of_isRtlPair (of_not_eq_false hnot)).1
  simp only [isHighSurrogate, and_eq_true, decide_eq_true_eq] at hhigh
  omega

theorem flags_of_isBasicASCII (h : isBasicASCII text = true) :
    containsRTL text = false ∧ containsUnusualLineTerminators text = false := by
  induction text with
  | nil => exact ⟨rfl, rfl⟩
  | cons u rest ih =>
    obtain ⟨hunit, hrest⟩ := isBasicASCII_cons h
    have hlt := lt_of_isBasic hunit
    obtain ⟨hrtl, hunusual⟩ := ih hrest
    constructor
    · cases rest with
      | nil => exact not_isRtlUnit hlt
      | cons v rest => rw [containsRTL, not_isRtlUnit hlt, not_isRtlPair hlt, hrtl]; rfl
    · rw [containsUnusualLineTerminators] at hunusual ⊢
      rw [any_cons, hunusual, Bool.or_false, Bool.or_eq_false_iff]
      exact ⟨decide_eq_false (by omega), decide_eq_false (by omega)⟩

theorem containsUnusualLineTerminators_flatten (texts : List JsString) :
    containsUnusualLineTerminators texts.flatten = texts.any containsUnusualLineTerminators := by
  rw [containsUnusualLineTerminators, any_flatten]
  rfl

/-- The counts and flags are those of the chunks there are. -/
structure Tallied (s : PieceTreeTextBufferBuilder) : Prop where
  cr : s.cr = (s.chunks.flatMap fun c => textUnits c.buffer).count (.unit carriageReturn)
  lf : s.lf = (s.chunks.flatMap fun c => textUnits c.buffer).count (.unit lineFeed)
  crlf : s.crlf = (s.chunks.flatMap fun c => textUnits c.buffer).count .crlf
  basic : s.isBasicASCII = (s.chunks.flatMap fun c => textUnits c.buffer).all isBasic
  rtl : s.containsRTL = s.chunks.any fun c => containsRTL c.buffer
  unusual : s.containsUnusualLineTerminators =
    s.chunks.any fun c => containsUnusualLineTerminators c.buffer

namespace PieceTreeTextBufferBuilder

theorem tallied_new : Tallied new := ⟨rfl, rfl, rfl, rfl, rfl, rfl⟩

theorem flag_next {old basic flag : Bool} (h : basic = true → flag = false) :
    (if !basic then (if !old then flag else old) else old) = (old || flag) := by
  cases basic with
  | true =>
    rw [h rfl, Bool.or_false]
    rfl
  | false =>
    cases old <;> rfl

variable {s : PieceTreeTextBufferBuilder}

theorem tallied_acceptChunk2 (h : Tallied s) (chunk : JsString) :
    Tallied (s.acceptChunk2 chunk) := by
  obtain ⟨hcr, hlf, hcrlf, hbasic, -⟩ := createLineStarts_fields chunk
  constructor
  · rw [acceptChunk2, hcr, h.cr, flatMap_append, count_append, flatMap_singleton]
    rfl
  · rw [acceptChunk2, hlf, h.lf, flatMap_append, count_append, flatMap_singleton]
    rfl
  · rw [acceptChunk2, hcrlf, h.crlf, flatMap_append, count_append, flatMap_singleton]
    rfl
  · rw [acceptChunk2, hbasic, h.basic, flatMap_append, all_append, flatMap_singleton]
    change _ = (_ && Editor.isBasicASCII chunk)
    cases Editor.isBasicASCII chunk with
    | true => exact (Bool.and_true _).symm
    | false => exact (Bool.and_false _).symm
  · rw [acceptChunk2, hbasic, flag_next fun hb => (flags_of_isBasicASCII hb).1, h.rtl, any_append]
    rw [any_cons, any_nil, Bool.or_false]
  · rw [acceptChunk2, hbasic, flag_next fun hb => (flags_of_isBasicASCII hb).2, h.unusual,
      any_append]
    rw [any_cons, any_nil, Bool.or_false]

theorem tallied_acceptChunk1 (h : Tallied s) (chunk : JsString) (allowEmptyStrings : Bool) :
    Tallied (s.acceptChunk1 chunk allowEmptyStrings) := by
  rw [acceptChunk1]
  split
  · exact h
  split
  · exact tallied_acceptChunk2 h _
  · exact tallied_acceptChunk2 h _

theorem tallied_acceptMarked (h : Tallied s) (chunk : JsString) :
    Tallied (s.acceptMarked chunk) := by
  rw [acceptMarked]
  split
  · obtain ⟨hcr, hlf, hcrlf, hbasic, hrtl, hunusual⟩ := tallied_acceptChunk1 h chunk.dropLast false
    exact ⟨hcr, hlf, hcrlf, hbasic, hrtl, hunusual⟩
  · obtain ⟨hcr, hlf, hcrlf, hbasic, hrtl, hunusual⟩ := tallied_acceptChunk1 h chunk false
    exact ⟨hcr, hlf, hcrlf, hbasic, hrtl, hunusual⟩

theorem tallied_acceptChunk (h : Tallied s) (chunk : JsString) : Tallied (s.acceptChunk chunk) := by
  rw [acceptChunk]
  split
  · exact h
  split
  · have hmarked : Tallied { s with BOM := [UTF8_BOM] } :=
      ⟨h.cr, h.lf, h.crlf, h.basic, h.rtl, h.unusual⟩
    exact tallied_acceptMarked hmarked _
  · exact tallied_acceptMarked h _

theorem tallied_acceptChunks {s : PieceTreeTextBufferBuilder} (h : Tallied s)
    (chunks : List JsString) : Tallied (s.acceptChunks chunks) := by
  induction chunks generalizing s with
  | nil => exact h
  | cons chunk rest ih => exact ih (tallied_acceptChunk h chunk)

/-! ## What a builder holds -/

structure Holds (content : JsString) (s : PieceTreeTextBufferBuilder) : Prop where
  text : s.chunks.flatMap StringBuffer.buffer = body content
  held : s.hasPreviousChar = endsHeld content
  previous : s.hasPreviousChar = true → s.previousChar.toList = pending content
  nonempty : ∀ c ∈ s.chunks, c.buffer ≠ []
  cuts : (s.chunks.map StringBuffer.buffer).IsChain SafeCut

theorem holds_new : Holds [] new := by
  refine ⟨rfl, rfl, nofun, nofun, isChain_nil⟩

theorem acceptChunk1_eq (h : Holds content s) {chunk : JsString} {allowEmptyStrings : Bool}
    (hchunk : chunk ≠ [] ∨ allowEmptyStrings = true) :
    s.acceptChunk1 chunk allowEmptyStrings = s.acceptChunk2 (pending content ++ chunk) := by
  have hgoes : ¬((!allowEmptyStrings && decide (chunk.length = 0)) = true) := by
    intro hskip
    rw [and_eq_true, not_eq_true', decide_eq_true_eq] at hskip
    rcases hchunk with hne | hallow
    · exact hne (eq_nil_of_length_eq_zero hskip.2)
    · rw [hallow] at hskip
      cases hskip.1
  rw [acceptChunk1, if_neg hgoes]
  cases hprev : s.hasPreviousChar with
  | true =>
    have hpending := h.previous hprev
    rw [if_pos rfl]
    cases hchar : s.previousChar with
    | none =>
      rw [hchar] at hpending
      rcases pending_cases content with hnone | ⟨u, hone, -⟩
      · have hheld := h.held
        rw [hprev] at hheld
        have hbody := body_append_pending content
        rw [hnone, append_nil, body, ← hheld, if_pos rfl] at hbody
        have hlen := congrArg length hbody
        rw [length_dropLast] at hlen
        rw [endsHeld, eq_nil_of_length_eq_zero (l := content) (by omega)] at hheld
        cases hheld
      · rw [hone] at hpending
        cases hpending
    | some u =>
      rw [hchar] at hpending
      rw [← hpending]
      rfl
  | false =>
    rw [pending_of_not_endsHeld (h.held.symm.trans hprev)]
    rfl

theorem holds_acceptChunk2 {chunk : JsString} (h : Holds content s)
    (hne : pending content ++ chunk ≠ []) :
    (∀ c ∈ (s.acceptChunk2 (pending content ++ chunk)).chunks, c.buffer ≠ []) ∧
    ((s.acceptChunk2 (pending content ++ chunk)).chunks.map StringBuffer.buffer).IsChain SafeCut ∧
    (s.acceptChunk2 (pending content ++ chunk)).chunks.flatMap StringBuffer.buffer =
      content ++ chunk := by
  refine ⟨?_, ?_, ?_⟩
  · intro c hc
    rcases mem_append.mp hc with hc | hc
    · exact h.nonempty c hc
    · rw [mem_singleton.mp hc]
      exact hne
  · rw [acceptChunk2, map_append]
    refine isChain_append.mpr ⟨h.cuts, isChain_singleton _, ?_⟩
    intro last hlast next hnext
    cases hnext
    -- the last chunk ends as the whole body does
    have hbody := safeCut_body content chunk
    rw [← h.text] at hbody
    have hsplit : s.chunks.map StringBuffer.buffer =
        (s.chunks.map StringBuffer.buffer).dropLast ++ [last] := by
      have hne : s.chunks.map StringBuffer.buffer ≠ [] := by
        intro hnil
        rw [hnil] at hlast
        cases hlast
      rw [getLast?_eq_some_getLast hne] at hlast
      rw [← Option.some.inj hlast, dropLast_append_getLast]
    have hmem : last ∈ s.chunks.map StringBuffer.buffer := by
      rw [hsplit]
      exact mem_append_right _ mem_cons_self
    obtain ⟨c, hc, hbuffer⟩ := mem_map.mp hmem
    have hlastne : last ≠ [] := by
      rw [← hbuffer]
      exact h.nonempty c hc
    intro u hu v hv
    refine hbody u ?_ v hv
    rw [flatMap_def, hsplit, flatten_append, flatten_singleton, getLast?_append_of_ne_nil _ hlastne]
    exact hu
  · rw [acceptChunk2, flatMap_append, flatMap_singleton, h.text, ← append_assoc,
      body_append_pending]

theorem acceptMarked_eq (s : PieceTreeTextBufferBuilder) (chunk : JsString) : s.acceptMarked chunk =
      { s.acceptChunk1 (body chunk) false with
        hasPreviousChar := endsHeld chunk
        previousChar := chunk.getLast? } := by
  rw [acceptMarked, body]
  cases h : endsHeld chunk with
  | true =>
    rw [endsHeld] at h
    rw [if_pos h, if_pos rfl]
  | false =>
    rw [endsHeld] at h
    rw [if_neg (by rw [h]; decide)]
    rfl

theorem acceptChunk1_nil (s : PieceTreeTextBufferBuilder) : s.acceptChunk1 [] false = s := rfl

theorem holds_acceptMarked {chunk : JsString} (h : Holds content s)
    (hkept : ¬(endsHeld content = true ∧ body chunk = [])) :
    Holds (content ++ chunk) (s.acceptMarked chunk) := by
  rw [acceptMarked_eq]
  by_cases hchunk : chunk = []
  · have hheld : endsHeld content = false := by
      rw [← not_eq_true]
      exact fun hends => hkept ⟨hends, by rw [hchunk]; rfl⟩
    rw [hchunk, append_nil]
    exact ⟨h.text, hheld.symm, nofun, h.nonempty, h.cuts⟩
  · have hprevious : endsHeld chunk = true → chunk.getLast?.toList = pending (content ++ chunk) := by
      intro hends
      rw [pending_append content hchunk, pending, if_pos hends]
    by_cases hbody : body chunk = []
    · have hheld : endsHeld content = false := by
        rw [← not_eq_true]
        exact fun hends => hkept ⟨hends, hbody⟩
      rw [hbody, acceptChunk1_nil]
      refine ⟨?_, (endsHeld_append content hchunk).symm, hprevious, h.nonempty, h.cuts⟩
      rw [body_append content hchunk, hbody, append_nil, ← body_of_not_endsHeld hheld]
      exact h.text
    · rw [acceptChunk1_eq h (.inl hbody)]
      obtain ⟨hnonempty, hcuts, htext⟩ :=
        holds_acceptChunk2 h (append_ne_nil_of_right_ne_nil (pending content) hbody)
      refine ⟨?_, (endsHeld_append content hchunk).symm, hprevious, hnonempty, hcuts⟩
      rw [body_append content hchunk]
      exact htext

end PieceTreeTextBufferBuilder

end Fumie.Editor
