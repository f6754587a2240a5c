import Fumie.Base.BufferText
import Fumie.Base.UriText

/-!
# Chat URIs

A chat is addressed by `ahp-chat://<chatId>/<base64(session)>`, a subagent's chat by
`ahp-chat://subagent/<base64(session)>/<toolCallId>`. The tool call id is escaped once
and unescaped twice, by `URI.parse` and by `parseChatUri`, so an id with a percent sign
does not come back; the chat id stands in the authority as it is.
-/

namespace Fumie.AgentHost

open Fumie.Lib Fumie.Base JsString Option

variable {path chatId id id' session' : JsString}

namespace ChatUri

def AHP_CHAT_SCHEME : JsString := ofString "ahp-chat"

def SUBAGENT_CHAT_ID : JsString := ofString "subagent"

def chatPrefix : JsString := AHP_CHAT_SCHEME ++ [COLON, SLASH, SLASH]

def encodeSession (session : JsString) : JsString := encodeBase64UrlSafe (bufferFromString session)

def buildChatUri (session chatId : JsString) : JsString :=
  chatPrefix ++ chatId ++ [SLASH] ++ encodeSession session

def buildSubagentChatUri (session toolCallId : JsString) : Option JsString :=
  (encodeURIComponent toolCallId).map fun id =>
    chatPrefix ++ SUBAGENT_CHAT_ID ++ [SLASH] ++ encodeSession session ++ [SLASH] ++ id

def subagentChatId (toolCallId : JsString) : JsString := SUBAGENT_CHAT_ID ++ [SLASH] ++ toolCallId

def decodeSession (encoded : JsString) : Option JsString :=
  (decodeBase64 encoded).map bufferToString

def parseChat (authority encoded : JsString) : Option (JsString × JsString) :=
  if encoded = [] then none
  else if authority = SUBAGENT_CHAT_ID then
    let sessionPart := encoded.takeWhile fun u => !(u = SLASH)
    let toolCallId := (encoded.dropWhile fun u => !(u = SLASH)).drop 1
    if sessionPart = [] ∨ toolCallId = [] then none
    else
      (decodeSession sessionPart).bind fun session =>
        (decodeURIComponent toolCallId).map fun id => (session, subagentChatId id)
  else (decodeSession encoded).map fun session => (session, authority)

def parseChatUri (uri : JsString) : Option (JsString × JsString) :=
  (Uri.parse uri).bind fun parsed =>
    if parsed.scheme ≠ AHP_CHAT_SCHEME ∨ parsed.authority = [] then none
    else
      parseChat parsed.authority
        (if startsWith parsed.path [SLASH] then parsed.path.drop 1 else parsed.path)

/-! ## Sessions -/

def IsSession (session : JsString) : Prop := session ≠ [] ∧ isWellFormed session = true

variable (session : JsString)

theorem decodeSession_encode :
    decodeSession (encodeSession session) = some (unitsOfChars (scalars session)) := by
  rw [decodeSession, encodeSession, decodeBase64_urlSafe, map_some,
    bufferToString_fromString]

theorem mem_encodeSession {session : JsString} {u : CodeUnit} (h : u ∈ encodeSession session) :
    u ≠ PERCENT ∧ u ≠ SLASH ∧ u ≠ QUESTION ∧ u ≠ HASH :=
  mem_encodeBase64UrlSafe h

theorem percent_notMem_encodeSession : PERCENT ∉ encodeSession session :=
  fun h => (mem_encodeSession h).1 rfl

theorem length_le_scalars (session : JsString) : session.length ≤ 2 * (scalars session).length := by
  fun_induction scalars session with
  | case1 => exact Nat.le_refl 0
  | case2 u => simp
  | case3 u v rest hpair ih => simp only [List.length_cons]; omega
  | case4 u v rest hpair hlone ih => simp only [List.length_cons] at ih ⊢; omega
  | case5 u v rest hpair hlone ih => simp only [List.length_cons] at ih ⊢; omega

theorem length_utf8Encode (text : List Char) : text.length ≤ (utf8Encode text).length := by
  induction text with
  | nil => exact Nat.le_refl 0
  | cons c text ih =>
    have hpos := c.utf8Size_pos
    rw [utf8Encode] at ih ⊢
    rw [List.flatMap_cons, List.length_append, String.length_utf8EncodeChar, List.length_cons]
    omega

theorem length_encodeSession : session.length ≤ 2 * (encodeSession session).length := by
  have hscalars := length_le_scalars session
  have hbytes := length_utf8Encode (scalars session)
  have hdigits := length_encodeBase64UrlSafe (bufferFromString session)
  rw [bufferFromString] at hdigits
  rw [encodeSession, bufferFromString]
  omega

theorem encodeSession_ne_nil {session : JsString} (h : session ≠ []) :
    encodeSession session ≠ [] := by
  intro hnil
  have hlength := length_encodeSession session
  rw [hnil, List.length_nil] at hlength
  exact h (List.eq_nil_of_length_eq_zero (Nat.le_zero.mp hlength))

/-! ## The parts of a chat URI -/

def endsAuthority (u : CodeUnit) : Bool := u = SLASH || u = QUESTION || u = HASH

def endsPath (u : CodeUnit) : Bool := u = QUESTION || u = HASH

def rawAuthority (rest : JsString) : JsString := rest.takeWhile fun u => !endsAuthority u

def rawPath (rest : JsString) : JsString :=
  ((rest.dropWhile fun u => !endsAuthority u).takeWhile fun u => !endsPath u).drop 1

variable (rest : JsString)

theorem uriParts_chatPrefix : (uriParts (chatPrefix ++ rest)).scheme = AHP_CHAT_SCHEME ∧
      (uriParts (chatPrefix ++ rest)).authority = rawAuthority rest ∧
      (uriParts (chatPrefix ++ rest)).path =
        (rest.dropWhile fun u => !endsAuthority u).takeWhile fun u => !endsPath u :=
  ⟨rfl, rfl, rfl⟩

theorem path_cases :
    (rest.dropWhile fun u => !endsAuthority u).takeWhile (fun u => !endsPath u) = [] ∨
      (rest.dropWhile fun u => !endsAuthority u).takeWhile (fun u => !endsPath u) =
        SLASH :: rawPath rest := by
  unfold rawPath
  cases hdrop : rest.dropWhile fun u => !endsAuthority u with
  | nil => exact .inl rfl
  | cons u behind =>
    have hends : endsAuthority u = true := by
      have := List.head?_dropWhile_not (p := fun u => !endsAuthority u) (l := rest)
      rw [hdrop] at this
      simpa using this
    unfold endsAuthority at hends
    rw [Bool.or_assoc, Bool.or_eq_true] at hends
    rcases hends with hslash | hpath
    · rw [of_decide_eq_true hslash]
      exact .inr rfl
    · have hends : endsPath u = true := hpath
      exact .inl (List.takeWhile_cons_of_neg (by rw [hends]; decide))

theorem new_chat (authority path query fragment : JsString) :
    Uri.new AHP_CHAT_SCHEME authority path query fragment =
      if validateUri ⟨AHP_CHAT_SCHEME, authority, path, query, fragment⟩ then
        some ⟨AHP_CHAT_SCHEME, authority, path, query, fragment⟩ else none := by
  have hfix : schemeFix AHP_CHAT_SCHEME = AHP_CHAT_SCHEME := by decide
  have hresolve : referenceResolution AHP_CHAT_SCHEME path = path := if_neg (by decide)
  rw [Uri.new, hfix, hresolve]

variable {authority : JsString}

theorem valid_chat (h : authority ≠ []) (hpath : path = [] ∨ ∃ behind, path = SLASH :: behind)
    (query fragment : JsString) :
    validateUri ⟨AHP_CHAT_SCHEME, authority, path, query, fragment⟩ = true := by
  have hscheme : schemePattern AHP_CHAT_SCHEME = true := by decide
  have hauthority : authority.isEmpty = false := by
    cases authority with
    | nil => exact absurd rfl h
    | cons u authority => rfl
  rcases hpath with rfl | ⟨behind, rfl⟩
  · simp [validateUri, hscheme]
  · simp [validateUri, hscheme, hauthority, startsWith]

theorem parseChatUri_chatPrefix : parseChatUri (chatPrefix ++ rest) =
      if percentDecode (rawAuthority rest) = [] then none
      else parseChat (percentDecode (rawAuthority rest)) (percentDecode (rawPath rest)) := by
  obtain ⟨hscheme, hauthority, hpath⟩ := uriParts_chatPrefix rest
  have hnil : percentDecode [] = [] := by rw [percentDecode]
  rw [parseChatUri, Uri.parse, hscheme, hauthority, hpath, new_chat]
  by_cases hempty : percentDecode (rawAuthority rest) = []
  · rw [if_pos hempty, hempty]
    split
    · rw [bind_some]
      exact if_pos (.inr rfl)
    · rfl
  · rw [if_neg hempty]
    rcases path_cases rest with hnone | hslash
    · have hraw : rawPath rest = [] := by
        unfold rawPath
        rw [hnone]
        rfl
      rw [hnone, hnil, if_pos (valid_chat hempty (.inl rfl) _ _), bind_some,
        if_neg (by simp [hempty]), hraw, hnil]
      rfl
    · rw [hslash, percentDecode_cons (by decide),
        if_pos (valid_chat hempty (.inr ⟨_, rfl⟩) _ _), bind_some,
        if_neg (by simp [hempty])]
      rfl

/-! ## Addresses that are read back -/

theorem rawAuthority_slash (h : ∀ u ∈ authority, endsAuthority u = false) (path : JsString) :
    rawAuthority (authority ++ SLASH :: path) = authority := by
  rw [rawAuthority, List.takeWhile_append_of_pos (by simpa using h),
    List.takeWhile_cons_of_neg (by decide), List.append_nil]

theorem rawPath_takeWhile (h : ∀ u ∈ authority, endsAuthority u = false) (path : JsString) :
    rawPath (authority ++ SLASH :: path) = path.takeWhile fun u => !endsPath u := by
  rw [rawPath, List.dropWhile_append_of_pos (by simpa using h),
    List.dropWhile_cons_of_neg (by decide), List.takeWhile_cons_of_pos (by decide)]
  rfl

theorem rawPath_slash (h : ∀ u ∈ authority, endsAuthority u = false)
    (hpath : ∀ u ∈ path, endsPath u = false) : rawPath (authority ++ SLASH :: path) = path := by
  have hall : path.takeWhile (fun u => !endsPath u) = path := by
    rw [List.takeWhile_eq_self_iff]
    simpa using hpath
  rw [rawPath_takeWhile h, hall]

theorem not_endsPath_encodeSession {session : JsString} :
    ∀ u ∈ encodeSession session, endsPath u = false := by
  intro u hmem
  obtain ⟨-, -, hquestion, hhash⟩ := mem_encodeSession hmem
  simp [endsPath, hquestion, hhash]

structure PlainChatId (chatId : JsString) : Prop where
  nonempty : chatId ≠ []
  whole : ∀ u ∈ chatId, endsAuthority u = false
  plain : percentDecode chatId = chatId
  notSubagent : chatId ≠ SUBAGENT_CHAT_ID

def ChatRoundTrip (session chatId : JsString) : Prop :=
  parseChatUri (buildChatUri session chatId) = some (session, chatId)

theorem percentDecode_encodeSession :
    percentDecode (encodeSession session) = encodeSession session := by
  have h := percentDecode_append_plain (percent_notMem_encodeSession session) []
  have hnil : percentDecode [] = [] := by rw [percentDecode]
  rwa [List.append_nil, hnil, List.append_nil] at h

theorem chatRoundTrip_of_plain {session : JsString} (hsession : IsSession session)
    (h : PlainChatId chatId) : ChatRoundTrip session chatId := by
  have hencoded := decodeSession_encode session
  rw [(unitsOfChars_scalars session).mpr hsession.2] at hencoded
  rw [ChatRoundTrip, buildChatUri, List.append_assoc, List.append_assoc, List.singleton_append,
    parseChatUri_chatPrefix, rawAuthority_slash h.whole,
    rawPath_slash h.whole not_endsPath_encodeSession, h.plain, percentDecode_encodeSession,
    if_neg h.nonempty, parseChat, if_neg (encodeSession_ne_nil hsession.1), if_neg h.notSubagent,
    hencoded]
  rfl

/-! ## Subagents -/

def SubagentRoundTrip (session toolCallId : JsString) : Prop :=
  (buildSubagentChatUri session toolCallId).bind parseChatUri =
    some (session, subagentChatId toolCallId)

theorem not_endsAuthority_hexDigit : ∀ n < 16, endsAuthority (upperHexDigit n) = false := by
  decide

variable (text : List Char)

theorem not_endsAuthority_encoded : ∀ u ∈ text.flatMap encodeChar, endsAuthority u = false := by
  intro u hmem
  obtain ⟨c, -, hchar⟩ := List.mem_flatMap.mp hmem
  cases h : isUnescaped c with
  | true =>
    obtain ⟨v, hunits, -, hslash, hquestion, hhash⟩ := unitsOf_unescaped h
    rw [encodeChar_of_unescaped h, hunits, List.mem_singleton] at hchar
    simp [endsAuthority, hchar, hslash, hquestion, hhash]
  | false =>
    rw [encodeChar_of_escaped h] at hchar
    obtain ⟨b, -, hbyte⟩ := List.mem_flatMap.mp hchar
    have hb := b.toNat_lt
    rw [escapeByte, List.mem_cons, List.mem_cons, List.mem_singleton] at hbyte
    rcases hbyte with rfl | rfl | rfl
    · decide
    · exact not_endsAuthority_hexDigit _ (by omega)
    · exact not_endsAuthority_hexDigit _ (by omega)

theorem not_endsPath_encoded : ∀ u ∈ text.flatMap encodeChar, endsPath u = false := by
  intro u hmem
  have hends := not_endsAuthority_encoded text u hmem
  rw [endsAuthority, Bool.or_assoc, Bool.or_eq_false_iff] at hends
  exact hends.2

theorem subagent_whole : ∀ u ∈ SUBAGENT_CHAT_ID, endsAuthority u = false := by
  have hall : (SUBAGENT_CHAT_ID.all fun u => !endsAuthority u) = true := rfl
  simpa using hall

theorem percentDecode_subagent : percentDecode SUBAGENT_CHAT_ID = SUBAGENT_CHAT_ID := by
  have hplain := @percentDecode_append_plain SUBAGENT_CHAT_ID (by decide) []
  have hnil : percentDecode [] = [] := by rw [percentDecode]
  rwa [List.append_nil, hnil, List.append_nil] at hplain

theorem parse_subagentChatUri {session toolCallId : JsString} (h : isWellFormed toolCallId = true) :
    (buildSubagentChatUri session toolCallId).bind parseChatUri =
      if encodeSession session = [] ∨ toolCallId = [] then none
      else
        (decodeURIComponent toolCallId).map fun id =>
          (unitsOfChars (scalars session), subagentChatId id) := by
  have hid := percentDecode_encoded (scalars toolCallId)
  rw [(unitsOfChars_scalars toolCallId).mpr h] at hid
  have hpath : ∀ u ∈ encodeSession session ++ SLASH :: (scalars toolCallId).flatMap encodeChar,
      endsPath u = false := by
    intro u hmem
    rcases List.mem_append.mp hmem with hmem | hmem
    · exact not_endsPath_encodeSession u hmem
    · rcases List.mem_cons.mp hmem with rfl | hmem
      · decide
      · exact not_endsPath_encoded _ u hmem
  have hslash : ∀ u ∈ encodeSession session, (!decide (u = SLASH)) = true := by
    intro u hmem
    simp [(mem_encodeSession hmem).2.1]
  have hbuild : chatPrefix ++ SUBAGENT_CHAT_ID ++ [SLASH] ++ encodeSession session ++ [SLASH] ++
      (scalars toolCallId).flatMap encodeChar =
        chatPrefix ++ (SUBAGENT_CHAT_ID ++ SLASH :: (encodeSession session ++
          SLASH :: (scalars toolCallId).flatMap encodeChar)) := by
    simp only [List.append_assoc, List.cons_append, List.nil_append]
  rw [buildSubagentChatUri, encodeURIComponent, if_pos h, map_some, bind_some, hbuild,
    parseChatUri_chatPrefix, rawAuthority_slash subagent_whole,
    rawPath_slash subagent_whole hpath, percentDecode_subagent,
    percentDecode_append_plain (percent_notMem_encodeSession session),
    percentDecode_cons (by decide), hid, if_neg (by decide), parseChat, if_neg (by simp),
    if_pos rfl, List.takeWhile_append_of_pos hslash, List.takeWhile_cons_of_neg (by decide),
    List.dropWhile_append_of_pos hslash, List.dropWhile_cons_of_neg (by decide), List.append_nil,
    List.drop_one, List.tail_cons]
  dsimp only
  rw [decodeSession_encode, bind_some]

theorem subagentChatId_inj (h : subagentChatId id = subagentChatId id') : id = id' :=
  List.append_cancel_left h

theorem subagentRoundTrip_iff (toolCallId : JsString) :
    SubagentRoundTrip session toolCallId ↔ IsSession session ∧ toolCallId ≠ [] ∧
      PERCENT ∉ toolCallId ∧ isWellFormed toolCallId = true := by
  constructor
  · intro h
    rw [SubagentRoundTrip] at h
    have hformed : isWellFormed toolCallId = true := by
      by_contra hnot
      rw [buildSubagentChatUri, encodeURIComponent, if_neg hnot] at h
      cases h
    rw [parse_subagentChatUri hformed] at h
    split at h
    · cases h
    · next hparts =>
      obtain ⟨id, hdecode, heq⟩ := map_eq_some_iff.mp h
      obtain ⟨hsession, hid⟩ := Prod.mk.inj heq
      rw [not_or] at hparts
      rw [subagentChatId_inj hid] at hdecode
      refine ⟨⟨fun hnil => hparts.1 (by rw [hnil]; rfl), (unitsOfChars_scalars session).mp hsession⟩,
        hparts.2, (decodeURIComponent_self_iff _).mp hdecode, hformed⟩
  · rintro ⟨⟨hne, hsession⟩, hid, hplain, hformed⟩
    rw [SubagentRoundTrip, parse_subagentChatUri hformed,
      if_neg (by rw [not_or]; exact ⟨encodeSession_ne_nil hne, hid⟩),
      decodeURIComponent_plain hplain, (unitsOfChars_scalars session).mpr hsession]
    rfl

/-! ## Chat ids that are read back from every session -/

theorem length_dropWhile_slash (text rest : JsString) :
    rest.length ≤ (((text ++ SLASH :: rest).dropWhile fun u => !(u = SLASH)).drop 1).length := by
  induction text with
  | nil =>
    rw [List.nil_append, List.dropWhile_cons_of_neg (by decide)]
    exact Nat.le_refl _
  | cons u text ih =>
    rw [List.cons_append]
    by_cases hu : u = SLASH
    · rw [List.dropWhile_cons_of_neg (by simp [hu]), List.drop_one, List.tail_cons,
        List.length_append, List.length_cons]
      exact Nat.le_trans (Nat.le_succ _) (Nat.le_add_left _ _)
    · rw [List.dropWhile_cons_of_pos (by simp [hu])]
      exact ih

theorem length_drop_slash (text : JsString) :
    ((text.dropWhile fun u => !(u = SLASH)).drop 1).length ≤ text.length - 1 := by
  have hle := (List.dropWhile_suffix (l := text) fun u => !decide (u = SLASH)).length_le
  rw [List.length_drop]
  omega

theorem length_takeWhile_lt {text : JsString} (h : ¬∀ u ∈ text, endsPath u = false)
    (rest : JsString) : ((text ++ rest).takeWhile fun u => !endsPath u).length < text.length := by
  induction text with
  | nil => exact absurd (fun u hmem => absurd hmem List.not_mem_nil) h
  | cons u text ih =>
    rw [List.cons_append]
    cases hu : endsPath u with
    | true =>
      rw [List.takeWhile_cons_of_neg (by simp [hu])]
      exact Nat.succ_pos _
    | false =>
      rw [List.takeWhile_cons_of_pos (by simp [hu])]
      refine Nat.succ_lt_succ (ih fun hall => h ?_)
      intro v hmem
      rcases List.mem_cons.mp hmem with rfl | hmem
      · exact hu
      · exact hall v hmem

theorem rawAuthority_le (chatId rest : JsString) :
    rawAuthority (chatId ++ SLASH :: rest) <+: chatId := by
  induction chatId with
  | nil =>
    rw [List.nil_append, rawAuthority, List.takeWhile_cons_of_neg (by decide)]
  | cons u chatId ih =>
    rw [List.cons_append, rawAuthority]
    by_cases hu : endsAuthority u
    · rw [List.takeWhile_cons_of_neg (by simp [hu])]
      exact List.nil_prefix
    · rw [List.takeWhile_cons_of_pos (by simp [hu])]
      exact List.cons_prefix_cons.mpr ⟨rfl, ih⟩

theorem endsAuthority_of_mem_rawAuthority {rest : JsString} {u : CodeUnit}
    (h : u ∈ rawAuthority rest) : endsAuthority u = false := by
  have := List.mem_takeWhile_imp h
  simpa using this

theorem not_roundTrip_subagent {session : JsString} (hlong : 24 * id.length < session.length) :
    ¬ChatRoundTrip session (subagentChatId id) := by
  intro h
  have henc := length_encodeSession session
  have hbuild : buildChatUri session (subagentChatId id) =
      chatPrefix ++ (SUBAGENT_CHAT_ID ++ SLASH :: (id ++ SLASH :: encodeSession session)) := by
    rw [buildChatUri, subagentChatId]
    simp only [List.append_assoc, List.cons_append, List.nil_append]
  rw [ChatRoundTrip, hbuild, parseChatUri_chatPrefix, rawAuthority_slash subagent_whole,
    rawPath_takeWhile subagent_whole, percentDecode_subagent, if_neg (by decide), parseChat,
    if_pos rfl] at h
  split at h
  · cases h
  dsimp only at h
  split at h
  · cases h
  obtain ⟨session', -, hrest⟩ := bind_eq_some_iff.mp h
  obtain ⟨id', hdecode, heq⟩ := map_eq_some_iff.mp hrest
  rw [subagentChatId_inj (Prod.mk.inj heq).2] at hdecode
  obtain ⟨hle, hge, -⟩ := length_decodeURIComponent hdecode
  by_cases hwhole : ∀ u ∈ id, endsPath u = false
  · have hall : ∀ u ∈ id ++ SLASH :: encodeSession session, (!endsPath u) = true := by
      intro u hmem
      rw [Bool.not_eq_true']
      rcases List.mem_append.mp hmem with hmem | hmem
      · exact hwhole u hmem
      · rcases List.mem_cons.mp hmem with rfl | hmem
        · decide
        · exact not_endsPath_encodeSession u hmem
    rw [List.takeWhile_eq_self_iff.mpr hall, percentDecode_slash, percentDecode_encodeSession] at hge
    have htail := length_dropWhile_slash (percentDecode id) (encodeSession session)
    omega
  · have hshort := length_takeWhile_lt hwhole (SLASH :: encodeSession session)
    have hpath := length_percentDecode ((id ++ SLASH :: encodeSession session).takeWhile
      fun u => !endsPath u)
    have htail := length_drop_slash (percentDecode ((id ++ SLASH :: encodeSession session).takeWhile
      fun u => !endsPath u))
    omega

theorem plain_of_roundTrip {session chatId : JsString} (hlong : 24 * chatId.length < session.length)
    (h : ChatRoundTrip session chatId) : PlainChatId chatId := by
  have hbuild : buildChatUri session chatId =
      chatPrefix ++ (chatId ++ SLASH :: encodeSession session) := by
    rw [buildChatUri]
    simp only [List.append_assoc, List.singleton_append]
  have hread := h
  rw [ChatRoundTrip, hbuild, parseChatUri_chatPrefix] at hread
  have hwithin := rawAuthority_le chatId (encodeSession session)
  split at hread
  · cases hread
  · next hnonempty =>
    rw [parseChat] at hread
    split at hread
    · cases hread
    split at hread
    · -- the id would be a subagent's
      next hsub =>
      exfalso
      dsimp only at hread
      split at hread
      · cases hread
      obtain ⟨session', -, hrest⟩ := bind_eq_some_iff.mp hread
      obtain ⟨id, -, heq⟩ := map_eq_some_iff.mp hrest
      have hid := (Prod.mk.inj heq).2
      rw [← hid] at h
      refine not_roundTrip_subagent ?_ h
      rw [← hid, subagentChatId, List.length_append] at hlong
      omega
    · next hother =>
      obtain ⟨session', -, heq⟩ := map_eq_some_iff.mp hread
      have hid := (Prod.mk.inj heq).2
      have hdecoded := length_percentDecode (rawAuthority (chatId ++ SLASH :: encodeSession session))
      rw [hid] at hdecoded
      have hraw := hwithin.eq_of_length_le hdecoded
      rw [hraw] at hid
      refine ⟨?_, ?_, hid, ?_⟩
      · rw [hraw, hid] at hnonempty
        exact hnonempty
      · intro u hmem
        rw [← hraw] at hmem
        exact endsAuthority_of_mem_rawAuthority hmem
      · rw [hraw, hid] at hother
        exact hother

def longSession (n : Nat) : JsString := List.replicate (n + 1) 97

theorem isSession_longSession (n : Nat) : IsSession (longSession n) := by
  refine ⟨List.cons_ne_nil _ _, ?_⟩
  have hformed : ∀ n, isWellFormed (List.replicate n 97) = true := by
    intro n
    induction n with
    | zero => rfl
    | succ n ih =>
      cases n with
      | zero => rfl
      | succ n =>
        rw [List.replicate_succ, List.replicate_succ, isWellFormed, if_neg (by decide),
          ← List.replicate_succ, ih]
        rfl
  exact hformed (n + 1)

theorem plain_iff (chatId : JsString) :
    (∀ session, IsSession session → ChatRoundTrip session chatId) ↔ PlainChatId chatId := by
  constructor
  · intro h
    refine @plain_of_roundTrip (longSession (24 * chatId.length)) chatId ?_
      (h _ (isSession_longSession _))
    rw [longSession, List.length_replicate]
    exact Nat.lt_succ_self _
  · intro h session hsession
    exact chatRoundTrip_of_plain hsession h

/-! ## Different addresses -/

theorem slash_notMem_encodeSession : SLASH ∉ encodeSession session :=
  fun h => (mem_encodeSession h).2.1 rfl

theorem slash_notMem_encoded : SLASH ∉ text.flatMap encodeChar := by
  intro h
  have hends := not_endsAuthority_encoded text SLASH h
  cases hends

theorem lastSlash_inj {a b x y : JsString} (hx : SLASH ∉ x) (hy : SLASH ∉ y)
    (h : a ++ [SLASH] ++ x = b ++ [SLASH] ++ y) : a = b ∧ x = y := by
  rw [List.append_assoc, List.append_assoc, List.singleton_append, List.singleton_append] at h
  rcases List.append_eq_append_iff.mp h with ⟨t, hb, hcut⟩ | ⟨t, ha, hcut⟩
  · cases t with
    | nil =>
      rw [List.append_nil] at hb
      exact ⟨hb.symm, (List.cons.inj hcut).2⟩
    | cons u t =>
      refine absurd ?_ hx
      rw [(List.cons.inj hcut).2]
      exact List.mem_append_right _ List.mem_cons_self
  · cases t with
    | nil =>
      rw [List.append_nil] at ha
      exact ⟨ha, (List.cons.inj hcut).2.symm⟩
    | cons u t =>
      refine absurd ?_ hy
      rw [(List.cons.inj hcut).2]
      exact List.mem_append_right _ List.mem_cons_self

theorem encodeSession_inj {session : JsString} (h : IsSession session) (h' : IsSession session')
    (heq : encodeSession session = encodeSession session') : session = session' := by
  have hread := decodeSession_encode session
  rw [heq, decodeSession_encode, (unitsOfChars_scalars session).mpr h.2,
    (unitsOfChars_scalars session').mpr h'.2] at hread
  exact (Option.some.inj hread).symm

theorem buildChatUri_inj {session chatId' : JsString} (h : IsSession session)
    (h' : IsSession session') (heq : buildChatUri session chatId = buildChatUri session' chatId') :
    session = session' ∧ chatId = chatId' := by
  obtain ⟨hid, hsession⟩ := lastSlash_inj (slash_notMem_encodeSession session)
    (slash_notMem_encodeSession session') heq
  exact ⟨encodeSession_inj h h' hsession, List.append_cancel_left hid⟩

theorem buildSubagentChatUri_inj {session : JsString} (h : IsSession session)
    (h' : IsSession session') (hid : isWellFormed id = true) (hid' : isWellFormed id' = true)
    (heq : buildSubagentChatUri session id = buildSubagentChatUri session' id') :
    session = session' ∧ id = id' := by
  rw [buildSubagentChatUri, buildSubagentChatUri, encodeURIComponent, encodeURIComponent,
    if_pos hid, if_pos hid', map_some, map_some] at heq
  obtain ⟨hfront, htext⟩ := lastSlash_inj (slash_notMem_encoded _) (slash_notMem_encoded _)
    (Option.some.inj heq)
  obtain ⟨-, hsession⟩ := lastSlash_inj (slash_notMem_encodeSession session)
    (slash_notMem_encodeSession session') hfront
  refine ⟨encodeSession_inj h h' hsession, ?_⟩
  have hread := decodeURIComponent_encoded (scalars id)
  rw [htext, decodeURIComponent_encoded, (unitsOfChars_scalars id).mpr hid,
    (unitsOfChars_scalars id').mpr hid'] at hread
  exact (Option.some.inj hread).symm

theorem buildChatUri_ne_subagent (h : SLASH ∉ chatId) (session session' id : JsString) :
    buildSubagentChatUri session' id ≠ some (buildChatUri session chatId) := by
  intro heq
  rw [buildSubagentChatUri, encodeURIComponent] at heq
  split at heq
  · rw [map_some] at heq
    obtain ⟨hfront, -⟩ := lastSlash_inj (slash_notMem_encoded _)
      (slash_notMem_encodeSession session) (Option.some.inj heq)
    rw [List.append_assoc, List.append_assoc] at hfront
    refine h ?_
    rw [← List.append_cancel_left hfront]
    exact List.mem_append_right _ (List.mem_append_left _ List.mem_cons_self)
  · cases heq

def ChatsDistinct : Prop :=
  (∀ session session' chatId chatId', IsSession session → IsSession session' →
    buildChatUri session chatId = buildChatUri session' chatId' →
      session = session' ∧ chatId = chatId') ∧
  (∀ session session' id id', IsSession session → IsSession session' →
    isWellFormed id = true → isWellFormed id' = true →
    buildSubagentChatUri session id = buildSubagentChatUri session' id' →
      session = session' ∧ id = id')

/-- Which chat URIs are read back: a subagent's when its tool call id has no percent sign
and no lone surrogate, a chat's, whatever the session, when its id stands for itself. -/
theorem chatUris_readBack (session toolCallId chatId : JsString) :
    (SubagentRoundTrip session toolCallId ↔
      IsSession session ∧ toolCallId ≠ [] ∧ PERCENT ∉ toolCallId ∧ isWellFormed toolCallId = true) ∧
    ((∀ session, IsSession session → ChatRoundTrip session chatId) ↔ PlainChatId chatId) ∧
    ChatsDistinct ∧
    (PlainChatId chatId → ∀ session session' toolCallId,
      buildSubagentChatUri session' toolCallId ≠ some (buildChatUri session chatId)) := by
  refine ⟨subagentRoundTrip_iff session toolCallId, plain_iff chatId, ⟨?_, ?_⟩, ?_⟩
  · intro session session' chatId chatId' h h' heq
    exact buildChatUri_inj h h' heq
  · intro session session' id id' h h' hid hid' heq
    exact buildSubagentChatUri_inj h h' hid hid' heq
  · intro hplain session session' toolCallId
    refine buildChatUri_ne_subagent ?_ session session' toolCallId
    intro hslash
    cases hplain.whole SLASH hslash

theorem chatUris_readBack_sample :
    SubagentRoundTrip [97] [SLASH, HASH, 0x4e2d] ∧ ChatRoundTrip [97] [98] := by
  have hne : ([98] : JsString) ≠ SUBAGENT_CHAT_ID := by
    intro h
    cases congrArg List.length h
  have hplain : PlainChatId [98] := by
    refine ⟨List.cons_ne_nil _ _, ?_, ?_, hne⟩
    · intro u hmem
      rw [List.mem_singleton.mp hmem]
      decide
    · rw [percentDecode_cons (by decide), percentDecode]
  obtain ⟨hsubagent, hchat, -⟩ := chatUris_readBack [97] [SLASH, HASH, 0x4e2d] [98]
  exact ⟨hsubagent.mpr ⟨⟨by decide, by decide⟩, by decide, by decide, by decide⟩,
    hchat.mpr hplain [97] ⟨by decide, by decide⟩⟩

/-- The tool call id `%41` does not come back. -/
theorem percent_notReadBack : ¬∀ session toolCallId, IsSession session → toolCallId ≠ [] →
      isWellFormed toolCallId = true → SubagentRoundTrip session toolCallId := by
  intro h
  have hread := h [97] [PERCENT, 52, 49] ⟨by decide, by decide⟩ (by decide) (by decide)
  exact ((subagentRoundTrip_iff _ _).mp hread).2.2.1 List.mem_cons_self

end ChatUri

end Fumie.AgentHost
