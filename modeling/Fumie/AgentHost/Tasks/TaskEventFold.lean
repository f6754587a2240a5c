import Fumie.AgentHost.Tasks.TaskEventDecode

/-!
# Replaying the logs

The fold of a session routes every envelope to one of its accumulators: the session state,
the state of a chat, the default chat. Each accumulator is the fold of its own envelopes.
With what the decoding leaves of each log this is what a replay yields, and a replay that
yields anything met no gap in the sequence numbers of a session.
-/

namespace Fumie.AgentHost

open Fumie.Lib Fumie.Base JsString List

variable {field : String} {known : Option SessionReplayState} {α β ε : Type} {log : SessionLog}

variable {f : α → β → Except ε α}

namespace Tasks

/-! ## The fold of a session -/

section

variable {σ χ : Type} (reducers : Reducers σ χ) (session modifiedAt : JsString)

def sessionActions (envelopes : List ActionEnvelope) : List ActionEnvelope :=
  envelopes.filter (isSessionAction session)

def chatActions (channel : JsString) (envelopes : List ActionEnvelope) : List ActionEnvelope :=
  envelopes.filter fun envelope => isChatAction envelope && envelope.channel == channel

def announcements (envelopes : List ActionEnvelope) : List ActionEnvelope :=
  (sessionActions session envelopes).filter fun envelope =>
    envelope.type = SESSION_DEFAULT_CHAT_CHANGED

def foldSessionActions (state : σ) (envelopes : List ActionEnvelope) : σ :=
  envelopes.foldl (fun state envelope => reducers.sessionReducer state envelope.action) state

def foldChatActions (state : χ) (envelopes : List ActionEnvelope) : χ :=
  envelopes.foldl (fun state envelope => reducers.chatReducer state envelope.action) state

structure IsReplay (envelopes : List ActionEnvelope) (replayed : ReplayedSession σ χ) : Prop where
  state : replayed.state = foldSessionActions reducers reducers.seedSessionState
    (sessionActions replayed.session envelopes)
  defaultChat : replayed.defaultChat =
    ((announcements replayed.session envelopes).getLast?.map
      fun envelope => announcedChat replayed.session envelope.action).getD
        (fallbackChat replayed.session)
  chats : ∀ channel, replayed.chats.get channel =
    if chatActions channel envelopes = [] ∧ channel ≠ replayed.defaultChat then none
    else some (foldChatActions reducers (reducers.seedChatState channel replayed.modifiedAt)
      (chatActions channel envelopes))

variable (channel : JsString) (envelopes : List ActionEnvelope) (acc : SessionFold σ χ)

theorem foldl_foldEnvelope_state :
    (envelopes.foldl (foldEnvelope reducers session modifiedAt) acc).state =
      foldSessionActions reducers acc.state (sessionActions session envelopes) := by
  induction envelopes generalizing acc with
  | nil => rfl
  | cons envelope rest ih =>
    rw [foldl_cons, ih]
    unfold foldEnvelope sessionActions
    rw [filter_cons]
    split_ifs <;> rfl

theorem foldl_foldEnvelope_defaultChat :
    (envelopes.foldl (foldEnvelope reducers session modifiedAt) acc).defaultChat =
      ((announcements session envelopes).getLast?.map
        fun envelope => announcedChat session envelope.action).getD acc.defaultChat := by
  induction envelopes generalizing acc with
  | nil => rfl
  | cons envelope rest ih =>
    rw [foldl_cons, ih]
    unfold foldEnvelope announcements sessionActions
    rw [filter_cons]
    split_ifs with hsession htype hchat
    · rw [filter_cons, if_pos (by simpa using htype), getLast?_cons]
      cases (filter _ _).getLast? <;> rfl
    · rw [filter_cons, if_neg (by simpa using htype)]
    · rfl
    · rfl

theorem isChatAction_of_isSessionAction {envelope : ActionEnvelope}
    (h : isSessionAction session envelope = true) : isChatAction envelope = false := by
  unfold isSessionAction at h
  unfold isChatAction
  rw [Bool.and_eq_true] at h
  by_contra hchat
  rw [Bool.not_eq_false] at hchat
  obtain ⟨rest, hrest⟩ := isPrefixOf_iff_prefix.mp h.1
  obtain ⟨rest', hrest'⟩ := isPrefixOf_iff_prefix.mp hchat
  have hheads := congrArg head? (hrest.trans hrest'.symm)
  have hsession : (ofString "session/" ++ rest).head? = (ofString "session/").head? := rfl
  have hchat : (ofString "chat/" ++ rest').head? = (ofString "chat/").head? := rfl
  rw [hsession, hchat] at hheads
  revert hheads
  decide

theorem foldl_foldEnvelope_chats :
    (envelopes.foldl (foldEnvelope reducers session modifiedAt) acc).chats.get channel =
      if chatActions channel envelopes = [] then acc.chats.get channel
      else some (foldChatActions reducers
        ((acc.chats.get channel).getD (reducers.seedChatState channel modifiedAt))
        (chatActions channel envelopes)) := by
  induction envelopes generalizing acc with
  | nil => rfl
  | cons envelope rest ih =>
    rw [foldl_cons, ih]
    have hcons : chatActions channel (envelope :: rest) =
        if (isChatAction envelope && envelope.channel == channel) = true
        then envelope :: chatActions channel rest else chatActions channel rest := filter_cons
    rw [hcons]
    unfold foldEnvelope
    by_cases hsession : isSessionAction session envelope = true
    · have hchat := isChatAction_of_isSessionAction session hsession
      rw [if_pos hsession, hchat]
      rfl
    · rw [if_neg hsession]
      by_cases hchat : isChatAction envelope = true
      · rw [if_pos hchat, hchat, Bool.true_and, Record.get_set]
        by_cases hchannel : envelope.channel = channel
        · subst hchannel
          simp only [beq_self_eq_true, if_true, Option.getD_some]
          rw [if_neg (cons_ne_nil _ _)]
          by_cases hrest : chatActions envelope.channel rest = []
          · rw [if_pos hrest, hrest]
            rfl
          · rw [if_neg hrest]
            rfl
        · have hother : (envelope.channel == channel) = false := beq_eq_false_iff_ne.mpr hchannel
          rw [if_neg hchannel, hother]
          rfl
      · rw [Bool.not_eq_true] at hchat
        rw [hchat]
        rfl

theorem get_withDefault {chats : Record JsString χ} {defaultChat : JsString} {seed : χ} :
    (if (chats.get defaultChat).isSome then chats else chats.set defaultChat seed).get channel =
      if chats.get channel = none ∧ channel = defaultChat then some seed
      else chats.get channel := by
  by_cases hdefault : channel = defaultChat
  · subst hdefault
    cases hget : chats.get channel with
    | none =>
      rw [Option.isSome_none, if_neg Bool.false_ne_true, Record.get_set, if_pos rfl,
        if_pos ⟨rfl, rfl⟩]
    | some state =>
      rw [Option.isSome_some, if_pos rfl, hget, if_neg (fun h => Option.some_ne_none _ h.1)]
  · have hother : ¬(chats.get channel = none ∧ channel = defaultChat) := fun h => hdefault h.2
    rw [if_neg hother]
    split
    · rfl
    · rw [Record.get_set, if_neg (Ne.symm hdefault)]

theorem foldSession_isReplay (entry : SessionReplayState) :
    IsReplay reducers entry.envelopes (foldSession reducers session entry) where
  state := foldl_foldEnvelope_state reducers session entry.modifiedAt _ _
  defaultChat := foldl_foldEnvelope_defaultChat reducers session entry.modifiedAt _ _
  chats channel := by
    have hchats := foldl_foldEnvelope_chats reducers session entry.modifiedAt channel
      entry.envelopes
      { state := reducers.seedSessionState, chats := .empty, defaultChat := fallbackChat session }
    rw [Record.get_empty, Option.getD_none] at hchats
    unfold foldSession
    rw [get_withDefault, hchats]
    by_cases hactions : chatActions channel entry.envelopes = []
    · rw [if_pos hactions, hactions]
      split_ifs with hdefault hother hother
      · exact absurd hdefault.2 hother.2
      · obtain ⟨-, rfl⟩ := hdefault
        rfl
      · rfl
      · exact absurd ⟨rfl, not_not.mp fun hne => hother ⟨rfl, hne⟩⟩ hdefault
    · rw [if_neg hactions, if_neg (fun h => Option.some_ne_none _ h.1),
        if_neg (fun h => hactions h.1)]

end

/-! ## The sessions of a history -/

variable {value : Option JsonValue}

theorem requireNonEmptyString_eq_ok {eventIndex : Nat} {s : JsString} :
    requireNonEmptyString value field eventIndex = .ok s ↔
      value = some (.string s) ∧ trim s ≠ [] := by
  constructor
  · intro h
    unfold requireNonEmptyString at h
    split at h
    · next s' =>
      split_ifs at h with hblank
      obtain rfl := Except.ok.inj h
      exact ⟨rfl, hblank⟩
    · cases h
  · rintro ⟨rfl, hblank⟩
    exact requireNonEmptyString_ok hblank

theorem eventSession_eq_ok {event : JsonValue × Nat} {session : JsString} :
    eventSession event = .ok session ↔ isRecord event.1 = true ∧
      event.1.field? (ofString "ns") = some (.string (ofString "ahp")) ∧
      ∃ id, event.1.field? (ofString "session_id") = some (.string id) ∧ trim id ≠ [] ∧
        sessionChannelFor id = session := by
  unfold eventSession
  cases hrecord : isRecord event.1 with
  | false =>
    constructor
    · intro h
      cases h
    · intro h
      cases h.1
  | true =>
    constructor
    · intro h
      simp only [Bool.not_true, Bool.false_eq_true, if_false, bind, Except.bind] at h
      split at h
      · next ns hns =>
        split_ifs at h with hahp
        rw [ne_eq, not_not] at hahp
        subst hahp
        cases hid : requireNonEmptyString (event.1.field? (ofString "session_id"))
            "session_id" event.2 with
        | error e =>
          rw [hid] at h
          cases h
        | ok id =>
          rw [hid] at h
          obtain ⟨hfield, hblank⟩ := requireNonEmptyString_eq_ok.mp hid
          exact ⟨rfl, hns, id, hfield, hblank, Except.ok.inj h⟩
      · cases h
    · rintro ⟨-, hns, id, hid, hblank, hsession⟩
      rw [hns, hid, requireNonEmptyString_ok hblank]
      simp only [Bool.not_true, Bool.false_eq_true, if_false, bind, Except.bind, ne_eq,
        not_true_eq_false]
      rw [hsession]

variable {event : JsonValue} {session : JsString}

theorem eventSession_index {i : Nat} (h : eventSession (event, i) = .ok session) (j : Nat) :
    eventSession (event, j) = .ok session := by
  rw [eventSession_eq_ok] at h ⊢
  exact h

theorem sessionOf?_eq_some (i : Nat) :
    sessionOf? event = some session ↔ eventSession (event, i) = .ok session := by
  unfold sessionOf?
  constructor
  · intro h
    cases hsession : eventSession (event, 0) with
    | error e =>
      rw [hsession] at h
      cases h
    | ok session' =>
      rw [hsession] at h
      obtain rfl := Option.some.inj h
      exact eventSession_index hsession i
  · intro h
    rw [eventSession_index h 0]
    rfl

theorem map_itemsOf_zipIdx (session : JsString) (events : List JsonValue) (start : Nat) :
    (Record.itemsOf eventSession session (events.zipIdx start)).map Prod.fst =
      eventsOf session events := by
  induction events generalizing start with
  | nil => rfl
  | cons event rest ih =>
    have hcons : eventsOf session (event :: rest) =
        if sessionOf? event = some session then event :: eventsOf session rest
        else eventsOf session rest := by
      unfold eventsOf
      rw [filter_cons]
      simp
    rw [hcons, zipIdx_cons, ← ih (start + 1)]
    cases hsession : eventSession (event, start) with
    | ok session' =>
      rw [Record.itemsOf_cons hsession, (sessionOf?_eq_some start).mpr hsession]
      split_ifs with hsame hsome hsome
      · rfl
      · exact absurd (congrArg some hsame) hsome
      · exact absurd (Option.some.inj hsome) hsame
      · rfl
    | error e =>
      have hnone : sessionOf? event ≠ some session := by
        intro h
        rw [(sessionOf?_eq_some start).mp h] at hsession
        cases hsession
      rw [if_neg hnone]
      unfold Record.itemsOf
      rw [filter_cons, hsession]
      rfl

variable {entry : SessionReplayState}

theorem reassemble_eq_ok {event : JsonValue × Nat} {now : Int} {entry' : SessionReplayState}
    (h : entry.reassemble session event now = .ok entry') :
    entry'.modifiedAt = entry.modifiedAt ∧ entry'.nextSeq = entry.nextSeq := by
  unfold SessionReplayState.reassemble at h
  split at h
  · cases h
  · obtain rfl := Except.ok.inj h
    exact ⟨rfl, rfl⟩
  · next r reassembled _ _ =>
    cases hparse : parseActionEnvelope reassembled event.2 with
    | error e =>
      rw [hparse] at h
      cases h
    | ok envelope =>
      rw [hparse] at h
      obtain rfl := Except.ok.inj h
      exact ⟨rfl, rfl⟩

theorem requireNonNegativeInteger_eq_ok {eventIndex n : Nat}
    (h : requireNonNegativeInteger value field eventIndex = .ok n) :
    value = some (.number (.integer n)) := by
  unfold requireNonNegativeInteger at h
  split at h
  · obtain rfl := Except.ok.inj h
    rfl
  · cases h

theorem expects {entry : SessionReplayState} {seq : Nat}
    (h : ¬(seq ≠ entry.nextSeq ∧ startsRestartEpoch seq entry.nextSeq = false)) :
    (if startsRestartEpoch seq entry.nextSeq then entry.restart seq else entry).nextSeq = seq ∧
      (if startsRestartEpoch seq entry.nextSeq then entry.restart seq else entry).modifiedAt =
        entry.modifiedAt ∧ seq ≤ entry.nextSeq := by
  cases hrestart : startsRestartEpoch seq entry.nextSeq with
  | true =>
    refine ⟨rfl, rfl, ?_⟩
    unfold startsRestartEpoch at hrestart
    simp only [Bool.and_eq_true, decide_eq_true_eq] at hrestart
    omega
  | false =>
    have hsame : seq = entry.nextSeq := not_not.mp fun hne => h ⟨hne, hrestart⟩
    exact ⟨hsame.symm, rfl, Nat.le_of_eq hsame⟩

variable {clock : Nat → Int}

theorem ingestEvent_eq_ok {event : JsonValue × Nat}
    (h : ingestEvent clock session known event = .ok entry) :
    event.1.field? (ofString "at") = some (.string entry.modifiedAt) ∧
      ∃ seq : Nat, event.1.field? (ofString "seq") = some (.number (.integer seq)) ∧
        entry.nextSeq = seq + 1 ∧ ∀ before, known = some before → seq ≤ before.nextSeq := by
  unfold ingestEvent at h
  cases hseq : requireNonNegativeInteger (event.1.field? (ofString "seq")) "seq" event.2 with
  | error e =>
    rw [hseq] at h
    cases h
  | ok seq =>
    cases hat : requireNonEmptyString (event.1.field? (ofString "at")) "at" event.2 with
    | error e =>
      rw [hseq, hat] at h
      cases h
    | ok at' =>
      rw [hseq, hat] at h
      simp only [bind, Except.bind] at h
      split at h
      · cases h
      · next hexpected =>
        obtain ⟨hmodified, hnext⟩ := reassemble_eq_ok h
        obtain ⟨hseqNext, hmodifiedNext, hle⟩ :=
          @expects { known.getD (.fresh seq at') with modifiedAt := at' } seq hexpected
        refine ⟨?_, seq, requireNonNegativeInteger_eq_ok hseq, hnext.trans ?_, ?_⟩
        · rw [hmodified.trans hmodifiedNext]
          exact (requireNonEmptyString_eq_ok.mp hat).1
        · exact congrArg (· + 1) hseqNext
        · rintro before rfl
          exact hle

/-! ## Gaps -/

def HasGap (session : JsString) (events : List JsonValue) : Prop :=
  ∃ before event next after, ∃ seq seq' : Nat,
    eventsOf session events = before ++ event :: next :: after ∧
    event.field? (ofString "seq") = some (.number (.integer seq)) ∧
    next.field? (ofString "seq") = some (.number (.integer seq')) ∧ seq + 1 < seq'

theorem foldlM_append_ok {items more : List β} {a c : α} (h : (items ++ more).foldlM f a = .ok c) :
    ∃ b, items.foldlM f a = .ok b ∧ more.foldlM f b = .ok c := by
  rw [foldlM_append] at h
  cases hitems : items.foldlM f a with
  | error e =>
    rw [hitems] at h
    cases h
  | ok b =>
    rw [hitems] at h
    exact ⟨b, rfl, h⟩

theorem foldlM_cons_ok {item : β} {rest : List β} {a c : α}
    (h : (item :: rest).foldlM f a = .ok c) : ∃ b, f a item = .ok b ∧ rest.foldlM f b = .ok c := by
  rw [foldlM_cons] at h
  cases hitem : f a item with
  | error e =>
    rw [hitem] at h
    cases h
  | ok b =>
    rw [hitem] at h
    exact ⟨b, rfl, h⟩

theorem entryStep_ok {clock : Nat → Int} {session : JsString} {known' : Option SessionReplayState}
    {event : JsonValue × Nat} (h : (ingestEvent clock session known event).map some = .ok known') :
    ∃ entry, known' = some entry ∧ ingestEvent clock session known event = .ok entry := by
  cases hevent : ingestEvent clock session known event with
  | error e =>
    rw [hevent] at h
    cases h
  | ok entry =>
    rw [hevent] at h
    exact ⟨entry, (Except.ok.inj h).symm, rfl⟩

variable {decoded : Record JsString SessionReplayState}

theorem not_hasGap_of_decodeEvents {events : List JsonValue}
    (h : decodeEvents clock events = .ok decoded) (session : JsString) :
    ¬HasGap session events := by
  rintro ⟨before, event, next, after, seq, seq', hevents, hseq, hseq', hgap⟩
  have hfold := Record.entryFold_of_foldlM h session
  rw [← map_itemsOf_zipIdx session events 0] at hevents
  obtain ⟨items, more, hitems, rfl, hmore⟩ := map_eq_append_iff.mp hevents
  obtain ⟨item, more', rfl, rfl, hmore'⟩ := map_eq_cons_iff.mp hmore
  obtain ⟨item', rest, rfl, rfl, -⟩ := map_eq_cons_iff.mp hmore'
  rw [hitems] at hfold
  obtain ⟨known, -, hfold₁⟩ := foldlM_append_ok hfold
  obtain ⟨known₁, hstep, hfold₂⟩ := foldlM_cons_ok hfold₁
  obtain ⟨entry₁, rfl, hevent⟩ := entryStep_ok hstep
  obtain ⟨known₂, hstep', -⟩ := foldlM_cons_ok hfold₂
  obtain ⟨entry₂, rfl, hnext⟩ := entryStep_ok hstep'
  obtain ⟨-, n, hn, hnextSeq, -⟩ := ingestEvent_eq_ok hevent
  obtain ⟨-, n', hn', -, hbefore⟩ := ingestEvent_eq_ok hnext
  have hle := hbefore entry₁ rfl
  rw [hseq] at hn
  rw [hseq'] at hn'
  simp only [Option.some.injEq, JsonValue.number.injEq, JsNumber.integer.injEq] at hn hn'
  omega

theorem modifiedAt_last {events : List (JsonValue × Nat)} {last : JsonValue × Nat}
    (h : Record.entryFold (ingestEvent clock) session none (events ++ [last]) = .ok (some entry)) :
    last.1.field? (ofString "at") = some (.string entry.modifiedAt) := by
  obtain ⟨known, -, hfold⟩ := foldlM_append_ok h
  obtain ⟨known', hstep, hnil⟩ := foldlM_cons_ok hfold
  obtain ⟨entry', rfl, hlast⟩ := entryStep_ok hstep
  obtain rfl := Option.some.inj (Except.ok.inj hnil)
  exact (ingestEvent_eq_ok hlast).1

/-! ## The replay -/

section

variable {σ χ : Type} (reducers : Reducers σ χ) (clock : Nat → Int)

def lastAt (session : JsString) (events : List JsonValue) : Option JsonValue :=
  (eventsOf session events).getLast?.bind fun event => event.field? (ofString "at")

def Replays (logs : JsString → SessionLog) (events : List JsonValue) :
    Option (ReplayedTaskHistory σ χ) → Prop
  | none => ∀ session, (logs session).epochs = []
  | some history =>
    history.sessions ≠ [] ∧ (history.sessions.map ReplayedSession.session).Nodup ∧
      (∀ session, session ∈ history.sessions.map ReplayedSession.session ↔
        (logs session).epochs ≠ []) ∧
      (∀ replayed ∈ history.sessions, IsReplay reducers (logs replayed.session).envelopes replayed ∧
          lastAt replayed.session events = some (.string replayed.modifiedAt)) ∧
      (history.truncated = true ↔ ∃ session, (logs session).isTruncated = true)

variable {events : List JsonValue} {logs : JsString → SessionLog}

theorem decodeEvents_of_recorded (h : Recorded logs events) :
    ∃ decoded, decodeEvents clock events = .ok decoded ∧
      ∀ session, Decoded (logs session) (decoded.get session) := by
  have hkeys : ∀ event ∈ events.zipIdx, ∃ session, eventSession event = .ok session := by
    intro event hevent
    obtain ⟨session, hsession⟩ := h.session event.1 (fst_mem_of_mem_zipIdx hevent)
    exact ⟨session, (sessionOf?_eq_some event.2).mp hsession⟩
  have hlogs : ∀ session, ∃ known, Record.entryFold (ingestEvent clock) session none
      (Record.itemsOf eventSession session events.zipIdx) = .ok known ∧
        Decoded (logs session) known := by
    intro session
    have hevents := h.events session
    rw [← map_itemsOf_zipIdx session events 0, forall₂_map_right_iff] at hevents
    exact decodes_log (logs session) hevents
  choose goal hgoal using hlogs
  obtain ⟨decoded, hdecoded, hget⟩ := Record.foldlM_keyedStep (r := .empty) hkeys
    (fun session => (hgoal session).1)
  refine ⟨decoded, hdecoded, fun session => ?_⟩
  rw [hget]
  exact (hgoal session).2

theorem lastAt_eq (h : decodeEvents clock events = .ok decoded)
    (hget : decoded.get session = some entry) :
    lastAt session events = some (.string entry.modifiedAt) := by
  have hfold := Record.entryFold_of_foldlM h session
  rw [hget] at hfold
  unfold lastAt
  rw [← map_itemsOf_zipIdx session events 0]
  cases eq_nil_or_concat (Record.itemsOf eventSession session events.zipIdx) with
  | inl hnil =>
    rw [hnil] at hfold
    cases Except.ok.inj hfold
  | inr hlast =>
    obtain ⟨items, last, hitems⟩ := hlast
    rw [concat_eq_append] at hitems
    rw [hitems] at hfold ⊢
    rw [map_append, map_cons, map_nil, getLast?_concat]
    exact modifiedAt_last hfold

theorem map_session_foldSession (decoded : Record JsString SessionReplayState) :
    (decoded.entries.map fun entry => foldSession reducers entry.1 entry.2).map
      ReplayedSession.session = decoded.keys := by
  rw [map_map]
  rfl

theorem Decoded.epochs_ne_nil_iff (h : Decoded log known) :
    (∃ entry, known = some entry) ↔ log.epochs ≠ [] := by
  cases known with
  | none =>
    constructor
    · rintro ⟨entry, hentry⟩
      cases hentry
    · intro hne
      exact absurd h hne
  | some entry => exact ⟨fun _ => h.1, fun _ => ⟨entry, rfl⟩⟩

theorem replays_of_recorded (h : Recorded logs events) :
    ∃ history?, replayTaskAhpEvents reducers clock events = .ok history? ∧
      Replays reducers logs events history? := by
  obtain ⟨decoded, hdecoded, hlogs⟩ := decodeEvents_of_recorded clock h
  have hlog : ∀ {session entry}, (session, entry) ∈ decoded.entries →
      Decoded (logs session) (some entry) := by
    intro session entry hmem
    have hsession := hlogs session
    rwa [Record.get_of_mem hmem] at hsession
  unfold replayTaskAhpEvents
  simp only [hdecoded, bind, Except.bind]
  cases hempty : decoded.isEmpty with
  | true =>
    refine ⟨none, if_pos rfl, fun session => ?_⟩
    have hentries : decoded.entries = [] := isEmpty_iff.mp hempty
    have hnone : decoded.get session = none := by
      unfold Record.get
      rw [hentries]
      rfl
    have hsession := hlogs session
    rwa [hnone] at hsession
  | false =>
    refine ⟨_, if_neg Bool.false_ne_true, ?_, ?_, fun session => ?_, ?_, ?_⟩
    · intro hnil
      have hentries := map_eq_nil_iff.mp hnil
      have hisEmpty : decoded.isEmpty = true := isEmpty_iff.mpr hentries
      rw [hempty] at hisEmpty
      cases hisEmpty
    · rw [map_session_foldSession]
      exact decoded.nodup
    · rw [map_session_foldSession, Record.mem_keys_iff]
      exact (hlogs session).epochs_ne_nil_iff
    · intro replayed hreplayed
      obtain ⟨⟨session, entry⟩, hmem, rfl⟩ := mem_map.mp hreplayed
      have henvelopes : entry.envelopes = (logs session).envelopes := (hlog hmem).2.1
      refine ⟨?_, lastAt_eq clock hdecoded (Record.get_of_mem hmem)⟩
      show IsReplay reducers (logs session).envelopes (foldSession reducers session entry)
      rw [← henvelopes]
      exact foldSession_isReplay reducers session entry
    · rw [any_eq_true]
      constructor
      · rintro ⟨⟨session, entry⟩, hmem, htruncated⟩
        refine ⟨session, ?_⟩
        rw [← (hlog hmem).2.2]
        exact htruncated
      · rintro ⟨session, htruncated⟩
        have hne : (logs session).epochs ≠ [] := by
          intro hnil
          unfold SessionLog.isTruncated at htruncated
          rw [hnil] at htruncated
          cases htruncated
        obtain ⟨entry, hentry⟩ := (hlogs session).epochs_ne_nil_iff.mpr hne
        have hmem := Record.mem_of_get hentry
        refine ⟨(session, entry), hmem, ?_⟩
        rw [(hlog hmem).2.2]
        exact htruncated

theorem error_of_hasGap {session : JsString} {events : List JsonValue} (h : HasGap session events) :
    ∃ e, replayTaskAhpEvents reducers clock events = .error e := by
  cases hdecoded : decodeEvents clock events with
  | error e =>
    refine ⟨e, ?_⟩
    unfold replayTaskAhpEvents
    rw [hdecoded]
    rfl
  | ok decoded => exact absurd h (not_hasGap_of_decodeEvents hdecoded session)

end

/-! ## A missing event -/

def MidEpoch (log : SessionLog) (place : Nat) : Prop :=
  ∃ earlier e later, log.epochs = earlier ++ e :: later ∧
    (earlier.flatMap Epoch.numbered).length < place ∧
    place + 1 < (earlier.flatMap Epoch.numbered).length + e.numbered.length

theorem forall₂_getElem? {R : α → β → Prop} {xs : List α} {ys : List β} (h : List.Forall₂ R xs ys)
    {k : Nat} {x : α} (hx : xs[k]? = some x) : ∃ y, ys[k]? = some y ∧ R x y := by
  induction h generalizing k with
  | nil => cases hx
  | cons hxy _ ih =>
    cases k with
    | zero =>
      obtain rfl := Option.some.inj hx
      exact ⟨_, rfl, hxy⟩
    | succ k => exact ih hx

theorem numbered_getElem? {earlier later : List Epoch} {e : Epoch}
    (h : log.epochs = earlier ++ e :: later) {m : Nat} (hm : m < e.numbered.length) :
    ∃ frame, log.numbered[(earlier.flatMap Epoch.numbered).length + m]? =
      some (frame, e.start + m) := by
  have hframes : m < e.frames.length := by rwa [← e.length_numbered]
  refine ⟨e.frames[m], ?_⟩
  unfold SessionLog.numbered
  rw [h, flatMap_append, flatMap_cons, List.getElem?_append_right (Nat.le_add_right _ _),
    Nat.add_sub_cancel_left, List.getElem?_append_left hm]
  unfold Epoch.numbered
  rw [List.getElem?_zipIdx, List.getElem?_eq_getElem hframes]
  rfl

theorem hasGap_of_missing {logs : JsString → SessionLog} {before after : List JsonValue}
    (h : Recorded logs (before ++ event :: after)) (hevent : sessionOf? event = some session)
    (hmid : MidEpoch (logs session) (eventsOf session before).length) :
    HasGap session (before ++ after) := by
  obtain ⟨earlier, e, later, hepochs, hfirst, hlast⟩ := hmid
  obtain ⟨m, hm⟩ : ∃ m, (eventsOf session before).length =
      (earlier.flatMap Epoch.numbered).length + (m + 1) :=
    ⟨(eventsOf session before).length - (earlier.flatMap Epoch.numbered).length - 1, by omega⟩
  have hevents := h.events session
  have hsplit : eventsOf session (before ++ event :: after) =
      eventsOf session before ++ event :: eventsOf session after := by
    unfold eventsOf
    rw [filter_append, filter_cons_of_pos (by simpa using hevent)]
  have hremaining : eventsOf session (before ++ after) =
      eventsOf session before ++ eventsOf session after := filter_append ..
  rw [hsplit] at hevents
  obtain ⟨frame, hframe⟩ := numbered_getElem? hepochs (m := m) (by omega)
  obtain ⟨frame', hframe'⟩ := numbered_getElem? hepochs (m := m + 2) (by omega)
  obtain ⟨previous, hprevious, hpreviousEvent⟩ := forall₂_getElem? hevents hframe
  obtain ⟨next, hnext, hnextEvent⟩ := forall₂_getElem? hevents hframe'
  rw [List.getElem?_append_left (by omega)] at hprevious
  have hplace : (earlier.flatMap Epoch.numbered).length + (m + 2) =
      (eventsOf session before).length + 1 := by omega
  rw [hplace, List.getElem?_append_right (Nat.le_add_right _ _), Nat.add_sub_cancel_left,
    List.getElem?_cons_succ] at hnext
  have hdrop : (eventsOf session before).drop ((earlier.flatMap Epoch.numbered).length + m) =
      [previous] := by
    obtain ⟨hlt, hget⟩ := List.getElem?_eq_some_iff.mp hprevious
    rw [drop_eq_getElem_cons hlt, hget, drop_of_length_le (by omega)]
  have hnext' : eventsOf session after = next :: (eventsOf session after).drop 1 := by
    obtain ⟨hlt, hget⟩ := List.getElem?_eq_some_iff.mp hnext
    rw [← hget, ← drop_eq_getElem_cons hlt, drop_zero]
  refine ⟨(eventsOf session before).take ((earlier.flatMap Epoch.numbered).length + m), previous,
    next, (eventsOf session after).drop 1, e.start + m, e.start + (m + 2), ?_,
    hpreviousEvent.seq, hnextEvent.seq, by omega⟩
  have hbefore := take_append_drop ((earlier.flatMap Epoch.numbered).length + m)
    (eventsOf session before)
  rw [hdrop] at hbefore
  calc eventsOf session (before ++ after)
      = eventsOf session before ++ eventsOf session after := hremaining
    _ = ((eventsOf session before).take ((earlier.flatMap Epoch.numbered).length + m) ++
          [previous]) ++ next :: (eventsOf session after).drop 1 := by rw [hbefore, ← hnext']
    _ = _ := append_assoc ..

def greeting : JsonValue :=
  .object
    [(ofString "channel", .string (ofString "ahp-session:/s")),
     (ofString "serverSeq", .number (.integer 0)),
     (ofString "action", .object [(ofString "type", .string (ofString "session/titleChanged"))])]

def greetingEvent : JsonValue :=
  .object
    [(ofString "ns", .string (ofString "ahp")), (ofString "session_id", .string (ofString "s")),
     (ofString "seq", .number (.integer 0)),
     (ofString "at", .string (ofString "2026-01-01")),
     (ofString "payload", (ChunkEnvelope.message greeting).toJson)]

def greetingPublication : Publication where
  payload := greeting
  options := ⟨none, ofString "g"⟩
  frames := [.message greeting]
  envelope := ⟨ofString "ahp-session:/s",
    .object [(ofString "type", .string (ofString "session/titleChanged"))],
    ofString "session/titleChanged", none⟩
  chunked := by rfl
  proper := by
    refine ⟨by decide, trivial, trivial, ⟨by decide, trivial, trivial⟩, trivial⟩
  parses eventIndex := by rfl

def greetingLog : SessionLog where
  epochs := [⟨0, [greetingPublication], 1⟩]
  recorded := by
    intro e he
    obtain rfl := mem_singleton.mp he
    exact cons_ne_nil _ _
  restarts := by simp
  minted := nodup_nil

def emptyLog : SessionLog where
  epochs := []
  recorded := by simp
  restarts := by simp
  minted := nodup_nil

def greetingLogs (session : JsString) : SessionLog :=
  if session = ofString "ahp-session:/s" then greetingLog else emptyLog

def counting : Reducers Nat Nat where
  seedSessionState := 0
  sessionReducer n _ := n + 1
  seedChatState _ _ := 0
  chatReducer n _ := n + 1

theorem sessionOf?_greetingEvent :
    sessionOf? greetingEvent = some (ofString "ahp-session:/s") := by rfl

theorem recorded_greeting : Recorded greetingLogs [greetingEvent] where
  session event hevent := by
    obtain rfl := mem_singleton.mp hevent
    exact ⟨_, sessionOf?_greetingEvent⟩
  events session := by
    have hevents : eventsOf session [greetingEvent] =
        if sessionOf? greetingEvent = some session then [greetingEvent] else [] := by
      unfold eventsOf
      rw [filter_cons, filter_nil]
      simp
    rw [hevents, sessionOf?_greetingEvent]
    unfold greetingLogs
    by_cases hsession : session = ofString "ahp-session:/s"
    · subst hsession
      rw [if_pos rfl, if_pos rfl]
      refine List.Forall₂.cons ⟨rfl, by rfl, ⟨_, by rfl, by decide, by rfl⟩, by rfl,
        ⟨_, by rfl, by decide⟩, by rfl⟩ List.Forall₂.nil
    · rw [if_neg hsession, if_neg (fun heq => hsession (Option.some.inj heq).symm)]
      exact List.Forall₂.nil

end Tasks

end Fumie.AgentHost
