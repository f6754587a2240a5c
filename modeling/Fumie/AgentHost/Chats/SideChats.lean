import Fumie.AgentHost.Terminal.Osc633Parser

/-!
# The context of a side chat

The first prompt of a side chat carries its context in front, between markers and behind
the length of the context, and the turns of the side chat are found again in the
provider's transcript: behind the inherited turn of the record, or else at the last turn
whose text begins with the marker. Where the inherited turn is known the context is
invisible whatever the texts are; without it every other turn must be free of markers.
-/

namespace Fumie.AgentHost.SideChats

open Fumie.Lib Fumie.Base List JsString Osc633

/-! ## Transcripts -/

inductive ResponsePart (ρ : Type) where
  | markdown (content : JsString)
  | other (part : ρ)

structure Turn (ρ τ : Type) where
  id : JsString
  text : JsString
  responseParts : List (ResponsePart ρ)
  fields : τ

structure PersistedSideChat where
  turnId : JsString
  selectionText : Option JsString := none
  inheritedTurnId : Option JsString := none
  partialResponse : Option JsString := none
  context : Option JsString := none

variable {ρ τ : Type}

/-! ## The prompt -/

def SIDE_CHAT_CONTEXT_START : JsString := ofString "<side-chat-context>"

def SIDE_CHAT_CONTEXT_END : JsString := ofString "</side-chat-context>"

def SIDE_CHAT_CONTEXT_LENGTH_PREFIX : JsString := ofString "length="

def SIDE_CHAT_GUIDANCE : JsString :=
  ofString ("This is a side conversation. Prefer explanation over action; do not make " ++
    "changes or carry out work unless the user explicitly asks.")

def newline : CodeUnit := 10

def joinLines (lines : List JsString) : JsString := intercalate [newline] lines

def decimal (n : Nat) : JsString := (Nat.toDigits 10 n).flatMap unitsOf

def truthy (text : Option JsString) : Option JsString := text.filter fun text => !text.isEmpty

def renderResponseMarkdown (parts : List (ResponsePart ρ)) : JsString :=
  let segments := parts.filterMap fun
    | .markdown content => truthy (some (trim content))
    | .other _ => none
  intercalate [newline, newline] segments

def contextBody (partialResponse sourceContext selectionText : Option JsString) : JsString :=
  let selected :=
    match truthy selectionText with
    | some text => [[], ofString "Selected text:", [], text]
    | none => []
  let source :=
    match truthy sourceContext with
    | some text =>
      [[], ofString "Source conversation up to the branching point:", [], text]
    | none => []
  let response :=
    match truthy partialResponse with
    | some text =>
      [[], ofString "The side chat was created while the source assistant was still responding.",
        ofString "The user-visible response had produced the following text at that moment:",
        [], text]
    | none => []
  joinLines ([SIDE_CHAT_GUIDANCE] ++ selected ++ source ++ response)

def injectSideChatContext (prompt : JsString)
    (partialResponse sourceContext selectionText : Option JsString) : JsString :=
  let body := contextBody partialResponse sourceContext selectionText
  joinLines
    [SIDE_CHAT_CONTEXT_START, SIDE_CHAT_CONTEXT_LENGTH_PREFIX ++ decimal body.length, body,
      SIDE_CHAT_CONTEXT_END, [], prompt]

/-- `text.lastIndexOf(needle)`, for a needle that is not empty. -/
def lastIndexOf (needle : JsString) : JsString → Option Nat
  | [] => none
  | u :: rest =>
    match lastIndexOf needle rest with
    | some i => some (i + 1)
    | none => if needle.isPrefixOf (u :: rest) then some 0 else none

def parseLengthHeader (text : JsString) : Option JsString :=
  let lengthHeaderStart := SIDE_CHAT_CONTEXT_START.length + 1
  let header := text.drop lengthHeaderStart
  if startsWith header SIDE_CHAT_CONTEXT_LENGTH_PREFIX then
    match indexOf [newline] header with
    | none => none
    | some lineEnd =>
      let digits := (header.take lineEnd).drop SIDE_CHAT_CONTEXT_LENGTH_PREFIX.length
      match parseInt10 digits with
      | none => none
      | some parsedLength =>
        if 0 ≤ parsedLength then
          let contextEnd := lengthHeaderStart + lineEnd + 1 + parsedLength.toNat
          let markerLength := SIDE_CHAT_CONTEXT_END.length + 1
          if (text.drop contextEnd).take markerLength = newline :: SIDE_CHAT_CONTEXT_END then
            some (trimStart (text.drop (contextEnd + markerLength)))
          else none
        else none
  else none

def parseSideChatSeed (text : JsString) : Option JsString :=
  if startsWith text SIDE_CHAT_CONTEXT_START then
    match parseLengthHeader text with
    | some prompt => some prompt
    | none =>
      (lastIndexOf SIDE_CHAT_CONTEXT_END text).map fun endIndex =>
        trimStart (text.drop (endIndex + SIDE_CHAT_CONTEXT_END.length))
  else none

/-! ## The boundary -/

def lastSeed : List (Turn ρ τ) → Option Nat
  | [] => none
  | turn :: rest =>
    match lastSeed rest with
    | some i => some (i + 1)
    | none => if (parseSideChatSeed turn.text).isSome then some 0 else none

section

variable (turns : List (Turn ρ τ))

def inheritedIndex (sideChat : PersistedSideChat) : Option Nat :=
  sideChat.inheritedTurnId.bind fun id => turns.findIdx? fun turn => turn.id = id

section

variable (sideChat : Option PersistedSideChat)

def resolveSideChatBoundary : Nat :=
  match sideChat with
  | none => 0
  | some sideChat =>
    match inheritedIndex turns sideChat with
    | some index => index + 1
    | none => (lastSeed turns).getD turns.length

def prepareSideChatPrompt (prompt : JsString) (turns : List (Turn ρ τ))
    (sideChat : Option PersistedSideChat) : JsString :=
  match sideChat with
  | none => prompt
  | some sideChat =>
    if turns.length > resolveSideChatBoundary turns (some sideChat) then prompt
    else
      let selectedSourceTurn := turns.find? fun turn => turn.id = sideChat.turnId
      let sourceContext := if selectedSourceTurn.isSome then none else sideChat.context
      let inheritedResponse :=
        (selectedSourceTurn.map fun turn => renderResponseMarkdown turn.responseParts).getD []
      let partialResponse :=
        (truthy sideChat.partialResponse).filter fun text => (indexOf text inheritedResponse).isNone
      injectSideChatContext prompt partialResponse sourceContext sideChat.selectionText

def stripSideChatContext : List (Turn ρ τ) :=
  match sideChat, turns with
  | some _, first :: rest =>
    match parseSideChatSeed first.text with
    | none => first :: rest
    | some userPrompt => { first with text := userPrompt } :: rest
  | _, turns => turns

def sliceSideChatTurns : List (Turn ρ τ) :=
  match sideChat with
  | none => turns
  | some sideChat =>
    let boundary := resolveSideChatBoundary turns (some sideChat)
    stripSideChatContext (turns.drop boundary) (some sideChat)

end

end

/-! ## Decimal numerals -/

def digitsValue (digits : JsString) : Int := digits.foldl (fun n u => 10 * n + (u.val - 48 : Nat)) 0

theorem decimal_of_lt {n : Nat} (h : n < 10) : decimal n = [Fin.ofNat 0x10000 (48 + n)] := by
  unfold decimal
  rw [Nat.toDigits_of_lt_base h]
  have hall : ∀ m < 10, [Nat.digitChar m].flatMap unitsOf = [Fin.ofNat 0x10000 (48 + m)] := by
    decide
  exact hall n h

theorem decimal_of_le {n : Nat} (h : 10 ≤ n) :
    decimal n = decimal (n / 10) ++ decimal (n % 10) := by
  unfold decimal
  rw [Nat.toDigits_of_base_le (by decide) h, flatMap_append,
    Nat.toDigits_of_lt_base (Nat.mod_lt n (by decide))]

theorem decimal_spec (n : Nat) :
    decimal n ≠ [] ∧ (decimal n).all isDecimalDigit = true ∧ digitsValue (decimal n) = n := by
  induction n using Nat.strong_induction_on with
  | _ n ih =>
    by_cases hlt : n < 10
    · rw [decimal_of_lt hlt]
      have hall : ∀ m < 10, ([Fin.ofNat 0x10000 (48 + m)] : JsString).all isDecimalDigit = true ∧
          digitsValue [Fin.ofNat 0x10000 (48 + m)] = m := by decide
      exact ⟨cons_ne_nil _ _, hall n hlt⟩
    · have hle : 10 ≤ n := Nat.le_of_not_lt hlt
      obtain ⟨hne, hdigits, hvalue⟩ := ih (n / 10) (by omega)
      obtain ⟨-, hlast, hlastValue⟩ := ih (n % 10) (by omega)
      rw [decimal_of_le hle]
      refine ⟨fun hnil => hne (append_eq_nil_iff.mp hnil).1, ?_, ?_⟩
      · rw [all_append, hdigits, hlast]
        rfl
      · have hlt' : n % 10 < 10 := Nat.mod_lt n (by decide)
        rw [decimal_of_lt hlt'] at hlastValue ⊢
        unfold digitsValue at hvalue hlastValue ⊢
        rw [foldl_append, hvalue]
        simp only [foldl_cons, foldl_nil] at hlastValue ⊢
        omega

theorem parseInt10_decimal (n : Nat) : parseInt10 (decimal n) = some (n : Int) := by
  obtain ⟨hne, hdigits, hvalue⟩ := decimal_spec n
  have hall : (decimal n).takeWhile isDecimalDigit = decimal n :=
    takeWhile_eq_self_iff.mpr (all_eq_true.mp hdigits)
  cases hdecimal : decimal n with
  | nil => exact absurd hdecimal hne
  | cons u rest =>
    rw [hdecimal] at hdigits hvalue hall
    rw [all_cons, Bool.and_eq_true] at hdigits
    have hval : 48 ≤ u.val ∧ u.val ≤ 57 := by
      have hu := hdigits.1
      unfold isDecimalDigit at hu
      rw [Bool.and_eq_true, decide_eq_true_eq, decide_eq_true_eq] at hu
      exact hu
    have hspace : isStrWhiteSpace u = false := by
      unfold isStrWhiteSpace
      simp only [mem_cons, not_mem_nil, or_false, Bool.or_eq_false_iff,
        decide_eq_false_iff_not, Bool.and_eq_false_iff]
      omega
    have hminus : u ≠ 45 := by
      rintro rfl
      exact absurd hval.1 (by decide)
    have hplus : u ≠ 43 := by
      rintro rfl
      exact absurd hval.1 (by decide)
    have htrim : trimStart (u :: rest) = u :: rest := by
      unfold trimStart
      rw [dropWhile_cons_of_neg]
      rw [hspace]
      exact Bool.false_ne_true
    unfold parseInt10
    rw [htrim]
    simp only [head?_cons, Option.some.injEq, hminus, hplus, or_self, if_false, hall]
    exact hvalue

/-! ## A seed is read back -/

theorem trimStart_length_le (text : JsString) : (trimStart text).length ≤ text.length :=
  (dropWhile_suffix isStrWhiteSpace).length_le

theorem trimStart_trimStart (text : JsString) : trimStart (trimStart text) = trimStart text :=
  dropWhile_idempotent isStrWhiteSpace text

theorem indexOf_newline {before : JsString} (h : newline ∉ before) (after : JsString) :
    indexOf [newline] (before ++ newline :: after) = some before.length := by
  induction before with
  | nil => rfl
  | cons u rest ih =>
    rw [mem_cons, not_or] at h
    have hne : (newline == u) = false := beq_eq_false_iff_ne.mpr h.1
    rw [cons_append, indexOf, ih h.2]
    have hfirst : isPrefixOf [newline] (u :: (rest ++ newline :: after)) = false := by
      rw [isPrefixOf_cons_cons, hne]
      rfl
    rw [hfirst]
    rfl

theorem newline_not_mem_decimal (n : Nat) : newline ∉ decimal n := by
  intro hmem
  have hdigit := all_eq_true.mp (decimal_spec n).2.1 newline hmem
  exact absurd hdigit (by decide)

theorem injectSideChatContext_eq (prompt : JsString)
    (partialResponse sourceContext selectionText : Option JsString) :
    injectSideChatContext prompt partialResponse sourceContext selectionText =
      SIDE_CHAT_CONTEXT_START ++ newline ::
        (SIDE_CHAT_CONTEXT_LENGTH_PREFIX ++
            decimal (contextBody partialResponse sourceContext selectionText).length ++ newline ::
          (contextBody partialResponse sourceContext selectionText ++ newline ::
            (SIDE_CHAT_CONTEXT_END ++ newline :: newline :: prompt))) := by
  unfold injectSideChatContext joinLines intercalate
  simp only [intersperse_cons_cons, intersperse_singleton, flatten_cons,
    flatten_nil, append_nil, nil_append, append_assoc, cons_append]

theorem drop_line (line rest : JsString) :
    (line ++ newline :: rest).drop (line.length + 1) = rest := by
  rw [drop_length_add_append]
  rfl

theorem parseLengthHeader_of_body (body after : JsString) :
    parseLengthHeader (SIDE_CHAT_CONTEXT_START ++ newline ::
      (SIDE_CHAT_CONTEXT_LENGTH_PREFIX ++ decimal body.length ++ newline ::
        (body ++ newline :: (SIDE_CHAT_CONTEXT_END ++ after)))) = some (trimStart after) := by
  let line := SIDE_CHAT_CONTEXT_LENGTH_PREFIX ++ decimal body.length
  let tail := newline :: (SIDE_CHAT_CONTEXT_END ++ after)
  let text := SIDE_CHAT_CONTEXT_START ++ newline :: (line ++ newline :: (body ++ tail))
  have hheader : text.drop (SIDE_CHAT_CONTEXT_START.length + 1) =
      line ++ newline :: (body ++ tail) := drop_line _ _
  have hline : newline ∉ line := by
    rw [mem_append, not_or]
    exact ⟨by decide, newline_not_mem_decimal _⟩
  have hstarts : startsWith (line ++ newline :: (body ++ tail)) SIDE_CHAT_CONTEXT_LENGTH_PREFIX =
      true := by
    refine isPrefixOf_iff_prefix.mpr ?_
    rw [append_assoc]
    exact prefix_append _ _
  have hlength : ((line ++ newline :: (body ++ tail)).take line.length).drop
      SIDE_CHAT_CONTEXT_LENGTH_PREFIX.length = decimal body.length := by
    rw [take_left, drop_left]
  have hend : text.drop (SIDE_CHAT_CONTEXT_START.length + 1 + line.length + 1 +
      ((body.length : Int)).toNat) = tail := by
    have hsum : SIDE_CHAT_CONTEXT_START.length + 1 + line.length + 1 + ((body.length : Int)).toNat =
        SIDE_CHAT_CONTEXT_START.length + 1 + ((line.length + 1) + body.length) := by omega
    rw [hsum, ← drop_drop, hheader, ← drop_drop, drop_line, drop_left]
  have hmarker : tail.take (SIDE_CHAT_CONTEXT_END.length + 1) =
      newline :: SIDE_CHAT_CONTEXT_END := by
    rw [take_succ_cons, take_left]
  have hafter : tail.drop (SIDE_CHAT_CONTEXT_END.length + 1) = after := by
    rw [drop_succ_cons, drop_left]
  unfold parseLengthHeader
  dsimp only
  rw [hheader, hstarts, indexOf_newline hline, if_pos rfl]
  dsimp only
  rw [hlength, parseInt10_decimal]
  dsimp only
  rw [if_pos (Int.natCast_nonneg _), hend, if_pos hmarker, ← List.drop_drop, hend, hafter]

theorem parseSideChatSeed_inject (prompt : JsString)
    (partialResponse sourceContext selectionText : Option JsString) :
    parseSideChatSeed (injectSideChatContext prompt partialResponse sourceContext selectionText) =
      some (trimStart prompt) := by
  rw [injectSideChatContext_eq]
  unfold parseSideChatSeed
  have hstarts (rest : JsString) :
      startsWith (SIDE_CHAT_CONTEXT_START ++ rest) SIDE_CHAT_CONTEXT_START = true :=
    isPrefixOf_iff_prefix.mpr (prefix_append _ _)
  rw [hstarts, if_pos rfl, parseLengthHeader_of_body]
  rfl

theorem parseSideChatSeed_drop {text prompt : JsString} (h : parseSideChatSeed text = some prompt) :
    startsWith text SIDE_CHAT_CONTEXT_START = true ∧
      ∃ n, 0 < n ∧ prompt = trimStart (text.drop n) := by
  have hheader {prompt : JsString} (h : parseLengthHeader text = some prompt) :
      ∃ n, 0 < n ∧ prompt = trimStart (text.drop n) := by
    unfold parseLengthHeader at h
    dsimp only at h
    split at h
    · split at h
      · cases h
      · split at h
        · cases h
        · split at h
          · split at h
            · refine ⟨_, Nat.add_pos_right _ (Nat.succ_pos _), (Option.some.inj h).symm⟩
            · cases h
          · cases h
    · cases h
  unfold parseSideChatSeed at h
  split at h
  · next hstarts =>
    refine ⟨hstarts, ?_⟩
    split at h
    · next hfound =>
      rw [← Option.some.inj h]
      exact hheader hfound
    · obtain ⟨endIndex, -, rfl⟩ := Option.map_eq_some_iff.mp h
      exact ⟨endIndex + SIDE_CHAT_CONTEXT_END.length, Nat.add_pos_right _ (by decide), rfl⟩
  · cases h

theorem parseSideChatSeed_ne {text prompt : JsString} (h : parseSideChatSeed text = some prompt) :
    trimStart prompt ≠ trimStart text := by
  obtain ⟨hstarts, n, hn, rfl⟩ := parseSideChatSeed_drop h
  obtain ⟨rest, rfl⟩ := isPrefixOf_iff_prefix.mp hstarts
  have hsame : trimStart (SIDE_CHAT_CONTEXT_START ++ rest) = SIDE_CHAT_CONTEXT_START ++ rest := rfl
  rw [trimStart_trimStart, hsame]
  intro heq
  have hlength := trimStart_length_le ((SIDE_CHAT_CONTEXT_START ++ rest).drop n)
  rw [heq, length_drop] at hlength
  have hpos : 0 < (SIDE_CHAT_CONTEXT_START ++ rest).length := by
    rw [length_append]
    exact Nat.add_pos_left (by decide) _
  omega

/-! ## The boundary of a transcript -/

theorem lastSeed_append (before after : List (Turn ρ τ)) : lastSeed (before ++ after) =
    ((lastSeed after).map (before.length + ·)).or (lastSeed before) := by
  induction before with
  | nil =>
    show lastSeed after = _
    cases lastSeed after with
    | none => rfl
    | some i => exact congrArg some (Nat.zero_add i).symm
  | cons turn rest ih =>
    rw [cons_append, lastSeed, ih]
    cases lastSeed after with
    | none => rfl
    | some i =>
      show some (rest.length + i + 1) = some (rest.length + 1 + i)
      exact congrArg some (by omega)

theorem lastSeed_lt {turns : List (Turn ρ τ)} {i : Nat} (h : lastSeed turns = some i) :
    i < turns.length := by
  induction turns generalizing i with
  | nil => cases h
  | cons turn rest ih =>
    rw [lastSeed] at h
    split at h
    · next j hj =>
      cases h
      exact Nat.succ_lt_succ (ih hj)
    · split at h
      · cases h
        exact Nat.succ_pos _
      · cases h

def FreeOfMarkers (turns : List (Turn ρ τ)) : Prop :=
  ∀ turn ∈ turns, parseSideChatSeed turn.text = none

theorem lastSeed_eq_none {turns : List (Turn ρ τ)} :
    lastSeed turns = none ↔ FreeOfMarkers turns := by
  induction turns with
  | nil => exact iff_of_true rfl nofun
  | cons turn rest ih =>
    unfold FreeOfMarkers at ih ⊢
    rw [forall_mem_cons, ← ih, lastSeed]
    cases lastSeed rest with
    | none =>
      cases parseSideChatSeed turn.text with
      | none => exact iff_of_true rfl ⟨rfl, rfl⟩
      | some prompt => exact iff_of_false (Option.some_ne_none _) fun h => by cases h.1
    | some i => exact iff_of_false (Option.some_ne_none _) fun h => by cases h.2

theorem inheritedIndex_append (before after : List (Turn ρ τ)) (sideChat : PersistedSideChat) :
    inheritedIndex (before ++ after) sideChat = (inheritedIndex before sideChat).or
      ((inheritedIndex after sideChat).map (· + before.length)) := by
  unfold inheritedIndex
  cases sideChat.inheritedTurnId with
  | none => rfl
  | some id => exact findIdx?_append

variable {sideChat : PersistedSideChat} {turns : List (Turn ρ τ)}

theorem boundary_of_index {index : Nat} (h : inheritedIndex turns sideChat = some index) :
    resolveSideChatBoundary turns (some sideChat) = index + 1 := by
  unfold resolveSideChatBoundary
  dsimp only
  rw [h]

theorem boundary_of_none (h : inheritedIndex turns sideChat = none) :
    resolveSideChatBoundary turns (some sideChat) = (lastSeed turns).getD turns.length := by
  unfold resolveSideChatBoundary
  dsimp only
  rw [h]

/-! ## The turns of a side chat -/

def Recovers (turns : List (Turn ρ τ)) (first : Turn ρ τ) (prompt : JsString)
    (rest : List (Turn ρ τ)) : Prop :=
  ∃ text, trimStart text = trimStart prompt ∧ turns = { first with text } :: rest

def Recoverable (inherited : List (Turn ρ τ)) (first : Turn ρ τ) (rest : List (Turn ρ τ))
    (sideChat : PersistedSideChat) : Prop :=
  (inheritedIndex inherited sideChat).map (· + 1) = some inherited.length ∨
    inheritedIndex (inherited ++ first :: rest) sideChat = none ∧
      FreeOfMarkers inherited ∧ FreeOfMarkers rest

theorem length_stripSideChatContext (turns : List (Turn ρ τ)) (sideChat : PersistedSideChat) :
    (stripSideChatContext turns (some sideChat)).length = turns.length := by
  cases turns with
  | nil => rfl
  | cons first rest =>
    unfold stripSideChatContext
    dsimp only
    split
    · rfl
    · rfl

section Slice

variable {inherited rest : List (Turn ρ τ)} {first : Turn ρ τ} {sideChat : PersistedSideChat}
  {prompt : JsString}

theorem recovers_iff : Recovers (sliceSideChatTurns (inherited ++ first :: rest) (some sideChat))
      first prompt rest ↔
    resolveSideChatBoundary (inherited ++ first :: rest) (some sideChat) = inherited.length ∧
      trimStart ((parseSideChatSeed first.text).getD first.text) = trimStart prompt := by
  have hstrip : stripSideChatContext (first :: rest) (some sideChat) =
      { first with text := (parseSideChatSeed first.text).getD first.text } :: rest := by
    unfold stripSideChatContext
    dsimp only
    cases parseSideChatSeed first.text with
    | none | some _ => rfl
  unfold sliceSideChatTurns
  dsimp only
  constructor
  · rintro ⟨text, htext, hturns⟩
    have hboundary : resolveSideChatBoundary (inherited ++ first :: rest) (some sideChat) =
        inherited.length := by
      have hlength := congrArg length hturns
      rw [length_stripSideChatContext, length_drop, length_append, length_cons,
        length_cons] at hlength
      omega
    rw [hboundary, List.drop_left, hstrip] at hturns
    have hfirst : (parseSideChatSeed first.text).getD first.text = text :=
      congrArg Turn.text (cons.inj hturns).1
    refine ⟨hboundary, ?_⟩
    rw [hfirst, htext]
  · rintro ⟨hboundary, htext⟩
    rw [hboundary, List.drop_left, hstrip]
    exact ⟨_, htext, rfl⟩

theorem parse_prepared (hboundary : resolveSideChatBoundary inherited (some sideChat) =
      inherited.length) :
    parseSideChatSeed (prepareSideChatPrompt prompt inherited (some sideChat)) =
      some (trimStart prompt) := by
  unfold prepareSideChatPrompt
  dsimp only
  rw [if_neg (by rw [hboundary]; exact lt_irrefl _)]
  exact parseSideChatSeed_inject _ _ _ _

theorem prepared_eq (hboundary : resolveSideChatBoundary inherited (some sideChat) <
      inherited.length) :
    prepareSideChatPrompt prompt inherited (some sideChat) = prompt := if_pos hboundary

/-- The context of a side chat is invisible again exactly where its boundary is found. -/
theorem recovers_iff_recoverable
    (hfirst : first.text = prepareSideChatPrompt prompt inherited (some sideChat)) :
    Recovers (sliceSideChatTurns (inherited ++ first :: rest) (some sideChat)) first prompt rest ↔
      Recoverable inherited first rest sideChat := by
  rw [recovers_iff]
  unfold Recoverable
  cases hinherited : inheritedIndex inherited sideChat with
  | some k =>
    -- the record's turn is found among the inherited ones
    have hall : inheritedIndex (inherited ++ first :: rest) sideChat = some k := by
      rw [inheritedIndex_append, hinherited]
      rfl
    have hpart := boundary_of_index hinherited
    rw [boundary_of_index hall, hall]
    constructor
    · exact fun h => .inl (congrArg some h.1)
    · rintro (h | ⟨h, -⟩)
      · have hk : k + 1 = inherited.length := Option.some.inj h
        refine ⟨hk, ?_⟩
        rw [hfirst, parse_prepared (hpart.trans hk)]
        exact trimStart_trimStart prompt
      · cases h
  | none =>
    cases hown : inheritedIndex (first :: rest) sideChat with
    | some j =>
      -- a turn of the side chat has the id
      have hall : inheritedIndex (inherited ++ first :: rest) sideChat =
          some (j + inherited.length) := by
        rw [inheritedIndex_append, hinherited, hown]
        rfl
      rw [boundary_of_index hall, hall]
      refine iff_of_false (fun h => ?_) (fun h => ?_)
      · have hlength := h.1
        omega
      · rcases h with h | ⟨h, -⟩
        · cases h
        · cases h
    | none =>
      -- the seeds decide
      have hall : inheritedIndex (inherited ++ first :: rest) sideChat = none := by
        rw [inheritedIndex_append, hinherited, hown]
        rfl
      have hpart := boundary_of_none hinherited
      rw [boundary_of_none hall, lastSeed_append, hall, ← lastSeed_eq_none, ← lastSeed_eq_none]
      cases hseed : lastSeed inherited with
      | some k =>
        -- an inherited seed is taken for the side chat's own
        have hk := lastSeed_lt hseed
        rw [hseed] at hpart
        have hplain : first.text = prompt := hfirst.trans (prepared_eq (by rw [hpart]; exact hk))
        refine iff_of_false ?_ ?_
        · rintro ⟨hboundary, htext⟩
          cases howns : lastSeed (first :: rest) with
          | none =>
            rw [howns] at hboundary
            exact absurd hboundary (Nat.ne_of_lt hk)
          | some i =>
            rw [howns] at hboundary
            have hi : i = 0 := Nat.add_left_cancel (hboundary : inherited.length + i = _)
            rw [hi, lastSeed] at howns
            cases hparse : parseSideChatSeed first.text with
            | none =>
              rw [hparse] at howns
              split at howns
              · cases howns
              · cases howns
            | some text =>
              rw [hparse] at htext
              rw [hplain] at hparse
              exact parseSideChatSeed_ne hparse htext
        · rintro (h | ⟨-, h, -⟩)
          · cases h
          · cases h
      | none =>
        rw [hseed] at hpart
        have hparse : parseSideChatSeed first.text = some (trimStart prompt) := by
          rw [hfirst]
          exact parse_prepared hpart
        rw [lastSeed, hparse]
        cases lastSeed rest with
        | none =>
          refine iff_of_true ⟨rfl, trimStart_trimStart prompt⟩ (.inr ⟨rfl, rfl, rfl⟩)
        | some i =>
          refine iff_of_false (fun h => ?_) (fun h => ?_)
          · have hlength : inherited.length + (i + 1) = inherited.length := h.1
            omega
          · rcases h with h | ⟨-, -, h⟩
            · cases h
            · cases h

end Slice

def textTurn (id : CodeUnit) (text : JsString) : Turn Unit Unit := ⟨[id], text, [], ()⟩

def markerPrompt : JsString := SIDE_CHAT_CONTEXT_START ++ SIDE_CHAT_CONTEXT_END

theorem recovers_iff_recoverable_sample :
    Recovers (sliceSideChatTurns ([textTurn 1 markerPrompt] ++
        textTurn 2 (prepareSideChatPrompt [104, 105] [textTurn 1 markerPrompt]
          (some { turnId := [1], inheritedTurnId := some [1] })) :: [textTurn 3 markerPrompt])
        (some { turnId := [1], inheritedTurnId := some [1] }))
      (textTurn 2 (prepareSideChatPrompt [104, 105] [textTurn 1 markerPrompt]
        (some { turnId := [1], inheritedTurnId := some [1] })))
      [104, 105] [textTurn 3 markerPrompt] :=
  (recovers_iff_recoverable rfl).mpr (.inl rfl)

/-- Without an inherited turn, a later prompt that begins with the marker hides the turns
in front of it. -/
theorem not_always_recovers : ¬∀ (inherited rest : List (Turn Unit Unit)) (first : Turn Unit Unit)
    (sideChat : PersistedSideChat) (prompt : JsString),
    first.text = prepareSideChatPrompt prompt inherited (some sideChat) →
      Recovers (sliceSideChatTurns (inherited ++ first :: rest) (some sideChat)) first prompt
        rest := by
  intro h
  let sideChat : PersistedSideChat := { turnId := [1] }
  let first := textTurn 2 (prepareSideChatPrompt [104, 105] [textTurn 1 []] (some sideChat))
  have hboundary := (recovers_iff.mp (h [textTurn 1 []] [textTurn 3 markerPrompt] first sideChat
    [104, 105] rfl)).1
  have hlast : lastSeed ([textTurn 1 [], first] ++ [textTurn 3 markerPrompt]) = some 2 := by
    have hseed : lastSeed [textTurn 3 markerPrompt] = some 0 := by decide
    rw [lastSeed_append, hseed]
    rfl
  have hnone : inheritedIndex ([textTurn 1 [], first] ++ [textTurn 3 markerPrompt]) sideChat =
      none := rfl
  have hresolved := boundary_of_none hnone
  rw [hlast] at hresolved
  exact absurd (hresolved.symm.trans hboundary) (by decide)

end Fumie.AgentHost.SideChats
