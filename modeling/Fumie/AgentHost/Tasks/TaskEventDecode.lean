import Fumie.AgentHost.Tasks.TaskEventLogs

/-!
# Decoding a log

The events of one session go through `ingestEvent` in order. Within an epoch every frame
finds its sequence number expected, so the reassembler alone decides what comes of it: the
last frame of an envelope gives the envelope, the others give nothing. Between epochs the
reassembler is replaced, unless the process before wrote the one event `0` and the next
starts at `1`; its group then stays in flight, which is no less a truncation.
-/

namespace Fumie.AgentHost

open Fumie.Lib Fumie.Base JsString Record Reassembler

variable {start k : Nat} {groupId : JsString} {parts : List Bytes} {before : List Epoch}

namespace Tasks

variable {clock : Nat → Int} {session : JsString}

def kept (published : List Publication) : List ActionEnvelope :=
  (published.map Publication.envelope).filter fun envelope => envelope.rejectionReason.isNone

theorem kept_append (published more : List Publication) :
    kept (published ++ more) = kept published ++ kept more := by
  unfold kept
  rw [List.map_append, List.filter_append]

theorem kept_singleton (p : Publication) :
    kept [p] = if p.envelope.rejectionReason.isNone then [p.envelope] else [] :=
  List.filter_cons

structure Progress (entry entry' : SessionReplayState) (events : Nat)
    (envelopes : List ActionEnvelope) : Prop where
  nextSeq : entry'.nextSeq = entry.nextSeq + events
  envelopes : entry'.envelopes = entry.envelopes ++ envelopes
  abandonedChunkGroup : entry'.abandonedChunkGroup = entry.abandonedChunkGroup

theorem Progress.refl (entry : SessionReplayState) : Progress entry entry 0 [] where
  nextSeq := rfl
  envelopes := (List.append_nil _).symm
  abandonedChunkGroup := rfl

theorem Progress.trans {entry entry₁ entry₂ : SessionReplayState} {m n : Nat}
    {envelopes more : List ActionEnvelope} (h : Progress entry entry₁ m envelopes)
    (h' : Progress entry₁ entry₂ n more) : Progress entry entry₂ (m + n) (envelopes ++ more) where
  nextSeq := by rw [h'.nextSeq, h.nextSeq, Nat.add_assoc]
  envelopes := by rw [h'.envelopes, h.envelopes, List.append_assoc]
  abandonedChunkGroup := h'.abandonedChunkGroup.trans h.abandonedChunkGroup

/-! ## One event -/

theorem Publication.payload_object (p : Publication) : ∃ fields, p.payload = .object fields := by
  have hparses := p.parses 0
  cases hpayload : p.payload with
  | object fields => exact ⟨fields, rfl⟩
  | null | boolean | number | string | array =>
    rw [hpayload] at hparses
    cases hparses

theorem requireNonEmptyString_ok {s : JsString} {field : String} {eventIndex : Nat}
    (h : trim s ≠ []) :
    requireNonEmptyString (some (.string s)) field eventIndex = .ok s := if_neg h

theorem startsRestartEpoch_self (seq : Nat) : startsRestartEpoch seq seq = false := by
  unfold startsRestartEpoch
  simp

theorem ingestEvent_next {entry : SessionReplayState} {frame : ChunkEnvelope}
    {event : JsonValue × Nat} (h : IsTaskEvent session (frame, entry.nextSeq) event.1)
    {at' : JsString} (hat : event.1.field? (ofString "at") = some (.string at'))
    (hblank : trim at' ≠ []) :
    ingestEvent clock session (some entry) event =
      { entry with modifiedAt := at', nextSeq := entry.nextSeq + 1 }.reassemble session event
        (clock event.2) := by
  have hseq : requireNonNegativeInteger (some (.number (.integer entry.nextSeq))) "seq" event.2 =
      .ok entry.nextSeq := rfl
  unfold ingestEvent
  rw [h.seq, hat, hseq, requireNonEmptyString_ok hblank]
  simp only [bind, Except.bind, Option.getD_some]
  rw [if_neg (fun hne => hne.1 rfl), startsRestartEpoch_self]
  rfl

variable {entry : SessionReplayState} {frame : ChunkEnvelope} {event : JsonValue × Nat}
    {r : Reassembler}

theorem reassemble_pending {seq : Nat} {now : Int} (h : IsTaskEvent session (frame, seq) event.1)
    (hingest : entry.reassembler.ingest frame.toJson now = (r, .ok .null)) :
    entry.reassemble session event now = .ok { entry with reassembler := r } := by
  have hpayload : ingestPayload entry.reassembler
      (event.1.field? (ofString "payload")) now = (r, .ok .null) := by
    rw [h.payload]
    exact hingest
  unfold SessionReplayState.reassemble
  rw [hpayload]

variable {p : Publication}

theorem reassemble_payload {seq : Nat} {now : Int} (h : IsTaskEvent session (frame, seq) event.1)
    (hingest : entry.reassembler.ingest frame.toJson now = (r, .ok p.payload)) :
    entry.reassemble session event now =
      .ok { entry with reassembler := r, envelopes := entry.envelopes ++ kept [p] } := by
  have hparses := p.parses event.2
  obtain ⟨fields, hfields⟩ := p.payload_object
  have hpayload : ingestPayload entry.reassembler
      (event.1.field? (ofString "payload")) now = (r, .ok p.payload) := by
    rw [h.payload]
    exact hingest
  unfold SessionReplayState.reassemble
  rw [hfields] at hparses hpayload
  rw [hpayload]
  dsimp only
  rw [hparses, kept_singleton]
  simp only [bind, Except.bind]
  split
  · rfl
  · rw [List.append_nil]

theorem ingestEvent_pending (h : IsTaskEvent session (frame, entry.nextSeq) event.1)
    (hingest : entry.reassembler.ingest frame.toJson (clock event.2) = (r, .ok .null)) :
    ∃ entry', ingestEvent clock session (some entry) event = .ok entry' ∧
      Progress entry entry' 1 [] ∧ entry'.reassembler = r := by
  obtain ⟨at', hat, hblank⟩ := h.at'
  have hnext := @ingestEvent_next clock _ _ _ _ h _ hat hblank
  exact ⟨_, hnext.trans (reassemble_pending h hingest), ⟨rfl, (List.append_nil _).symm, rfl⟩, rfl⟩

theorem ingestEvent_payload (h : IsTaskEvent session (frame, entry.nextSeq) event.1)
    (hingest : entry.reassembler.ingest frame.toJson (clock event.2) = (r, .ok p.payload)) :
    ∃ entry', ingestEvent clock session (some entry) event = .ok entry' ∧
      Progress entry entry' 1 (kept [p]) ∧ entry'.reassembler = r := by
  obtain ⟨at', hat, hblank⟩ := h.at'
  have hnext := @ingestEvent_next clock _ _ _ _ h _ hat hblank
  exact ⟨_, hnext.trans (reassemble_payload h hingest), ⟨rfl, rfl, rfl⟩, rfl⟩

/-! ## The frames of one envelope -/

def Decodes (clock : Nat → Int) (session : JsString) (entry : SessionReplayState)
    (events : List (JsonValue × Nat)) (entry' : SessionReplayState) : Prop :=
  entryFold (ingestEvent clock) session (some entry) events = .ok (some entry')

theorem Decodes.nil (entry : SessionReplayState) : Decodes clock session entry [] entry := rfl

theorem Decodes.cons {entry entry₁ entry' : SessionReplayState} {event : JsonValue × Nat}
    {events : List (JsonValue × Nat)}
    (hevent : ingestEvent clock session (some entry) event = .ok entry₁)
    (h : Decodes clock session entry₁ events entry') :
    Decodes clock session entry (event :: events) entry' :=
  (entryFold_cons hevent).trans h

variable {events : List (JsonValue × Nat)}

theorem Decodes.append {entry₁ entry' : SessionReplayState} {more : List (JsonValue × Nat)}
    (h : Decodes clock session entry events entry₁) (h' : Decodes clock session entry₁ more entry') :
    Decodes clock session entry (events ++ more) entry' := by
  unfold Decodes entryFold at *
  rw [List.foldlM_append, h]
  exact h'

def Records (session : JsString) (frames : List ChunkEnvelope) (start : Nat)
    (events : List (JsonValue × Nat)) : Prop :=
  List.Forall₂ (fun frame event => IsTaskEvent session frame event.1) (frames.zipIdx start) events

theorem Records.cons {frame : ChunkEnvelope} {frames : List ChunkEnvelope} {start : Nat}
    {events : List (JsonValue × Nat)} (h : Records session (frame :: frames) start events) :
    ∃ event rest, events = event :: rest ∧ IsTaskEvent session (frame, start) event.1 ∧
      Records session frames (start + 1) rest := by
  unfold Records at h
  rw [List.zipIdx_cons] at h
  cases h with
  | cons hevent hrest => exact ⟨_, _, rfl, hevent, hrest⟩

theorem forall₂_append_left {α β : Type} {R : α → β → Prop} {xs ys : List α} {zs : List β}
    (h : List.Forall₂ R (xs ++ ys) zs) :
    ∃ zs₁ zs₂, zs = zs₁ ++ zs₂ ∧ List.Forall₂ R xs zs₁ ∧ List.Forall₂ R ys zs₂ := by
  have htake := List.forall₂_take xs.length h
  have hdrop := List.forall₂_drop xs.length h
  rw [List.take_left] at htake
  rw [List.drop_left] at hdrop
  exact ⟨_, _, (List.take_append_drop xs.length zs).symm, htake, hdrop⟩

theorem Records.append {frames more : List ChunkEnvelope}
    (h : Records session (frames ++ more) start events) :
    ∃ events₁ events₂, events = events₁ ++ events₂ ∧ Records session frames start events₁ ∧
      Records session more (start + frames.length) events₂ := by
  unfold Records at h
  rw [List.zipIdx_append] at h
  exact forall₂_append_left h

theorem Records.length {frames : List ChunkEnvelope} (h : Records session frames start events) :
    events.length = frames.length := by
  rw [← List.Forall₂.length_eq h, List.length_zipIdx]

def groupFrames (groupId : JsString) (parts : List Bytes) : List ChunkEnvelope :=
  parts.zipIdx.map fun part => .chunk groupId part.2 parts.length (encodeBase64 part.1)

inductive Publication.Framed (p : Publication) : Prop where
  | message : p.frames = [.message p.payload] → Framed p
  | group (parts : List Bytes) : p.frames = groupFrames p.options.newGroupId parts →
      parts.flatten = utf8Encode p.payload.stringify → parts ≠ [] →
      p.options.newGroupId ≠ [] → Framed p

theorem Publication.framed (p : Publication) : p.Framed := by
  cases chunk_cases p.chunked with
  | inl h => exact .message h
  | inr h =>
    obtain ⟨parts, hflatten, hparts, hid, hframes⟩ := h
    exact .group parts hframes hflatten hparts hid

theorem length_groupFrames (groupId : JsString) (parts : List Bytes) :
    (groupFrames groupId parts).length = parts.length := by
  unfold groupFrames
  rw [List.length_map, List.length_zipIdx]

theorem getElem?_groupFrames (hk : k < parts.length) :
    (groupFrames groupId parts)[k]? =
      some (.chunk groupId k parts.length (encodeBase64 parts[k])) := by
  unfold groupFrames
  rw [List.getElem?_map, List.getElem?_zipIdx, List.getElem?_eq_getElem hk]
  simp

structure Room (groups : List JsString) (bytes : Nat) (groupId : JsString) : Prop where
  notMem : groupId ∉ groups
  length : groups.length ≤ 1
  bytes : bytes ≤ groups.length * DEFAULT_MAX_REASSEMBLY_BYTES

variable {groups : List JsString} {bytes : Nat}

theorem Room.fits (h : Room groups bytes groupId) {more : Nat}
    (hmore : more ≤ DEFAULT_MAX_REASSEMBLY_BYTES) :
    bytes + more ≤ DEFAULT_MAX_REASSEMBLY_TOTAL_BYTES := by
  have hone : bytes ≤ 1 * DEFAULT_MAX_REASSEMBLY_BYTES :=
    h.bytes.trans (Nat.mul_le_mul_right _ h.length)
  have htwo : 1 * DEFAULT_MAX_REASSEMBLY_BYTES + DEFAULT_MAX_REASSEMBLY_BYTES =
      DEFAULT_MAX_REASSEMBLY_TOTAL_BYTES := by decide
  omega

theorem decodes_segments (hframes : p.frames = groupFrames p.options.newGroupId parts)
    (hflatten : parts.flatten = utf8Encode p.payload.stringify) (hid : p.options.newGroupId ≠ [])
    (hroom : Room groups bytes p.options.newGroupId) (n : Nat) (hk : k < parts.length)
    (hn : k + n ≤ parts.length)
    (hstage : entry.reassembler.Stage groups bytes p.options.newGroupId parts k)
    (h : Records session ((p.frames.drop k).take n) entry.nextSeq events) :
    ∃ entry', Decodes clock session entry events entry' ∧
      ((k + n < parts.length ∧ Progress entry entry' n [] ∧
          entry'.reassembler.Stage groups bytes p.options.newGroupId parts (k + n)) ∨
        (k + n = parts.length ∧ Progress entry entry' n (kept [p]) ∧
          entry'.reassembler.InFlight groups bytes)) := by
  obtain ⟨hbytes, hcount⟩ := chunk_bounds p.chunked
  rw [hframes, length_groupFrames] at hcount
  rw [← hflatten] at hbytes
  induction n generalizing k entry events with
  | zero =>
    rw [List.take_zero] at h
    cases h
    exact ⟨entry, .nil entry, .inl ⟨hk, .refl entry, hstage⟩⟩
  | succ n ih =>
    have hlength : k < p.frames.length := by rwa [hframes, length_groupFrames]
    have hframe : p.frames[k] =
        .chunk p.options.newGroupId k parts.length (encodeBase64 parts[k]) := by
      apply Option.some.inj
      rw [← List.getElem?_eq_getElem hlength, hframes]
      exact getElem?_groupFrames hk
    rw [List.drop_eq_getElem_cons hlength, List.take_succ_cons] at h
    obtain ⟨event, rest, rfl, hevent, hrest⟩ := h.cons
    rw [hframe] at hevent
    have hslots : groups.length < DEFAULT_MAX_CONCURRENT_GROUPS :=
      Nat.lt_of_le_of_lt hroom.length (by decide)
    obtain ⟨r, hingest⟩ := hstage.ingest hid hroom.notMem hslots hk hcount p.proper hflatten
      hbytes (hroom.fits hbytes) (clock event.2)
    rcases hingest with ⟨hmore, hnext, hnull⟩ | ⟨hlast, hnext, hpayload⟩
    · obtain ⟨entry₁, hstep, hprogress, rfl⟩ := ingestEvent_pending hevent hnull
      rw [← hprogress.nextSeq] at hrest
      obtain ⟨entry', hdecodes, hcases⟩ := ih hmore (by omega) hnext hrest
      have hadd : k + 1 + n = k + (n + 1) := by omega
      have hevents : 1 + n = n + 1 := Nat.add_comm 1 n
      rw [hadd] at hcases
      refine ⟨entry', .cons hstep hdecodes, hcases.imp ?_ ?_⟩
      · rintro ⟨hlt, hprogress', hstage'⟩
        exact ⟨hlt, hevents ▸ hprogress.trans hprogress', hstage'⟩
      · rintro ⟨heq, hprogress', hflight⟩
        exact ⟨heq, hevents ▸ hprogress.trans hprogress', hflight⟩
    · obtain ⟨entry', hstep, hprogress, rfl⟩ := ingestEvent_payload hevent hpayload
      obtain rfl : n = 0 := by omega
      rw [List.take_zero] at hrest
      cases hrest
      exact ⟨entry', .cons hstep (.nil entry'), .inr ⟨hlast, hprogress, hnext⟩⟩

theorem Publication.groupOf_frames (p : Publication)
    (hframes : p.frames = groupFrames p.options.newGroupId parts) (hparts : parts ≠ []) :
    groupOf p.frames = [p.options.newGroupId] := by
  cases parts with
  | nil => exact absurd rfl hparts
  | cons part parts =>
    rw [hframes]
    rfl

structure Flight (entry : SessionReplayState) (groups : List JsString) (bytes : Nat) : Prop where
  inFlight : entry.reassembler.InFlight groups bytes
  bytes : bytes ≤ groups.length * DEFAULT_MAX_REASSEMBLY_BYTES

theorem decodes_publication (p : Publication) {groups : List JsString} {bytes : Nat}
    {entry : SessionReplayState} {events : List (JsonValue × Nat)} (hflight : Flight entry groups bytes)
    (hlength : groups.length ≤ 1) (hnew : ∀ g ∈ groupOf p.frames, g ∉ groups)
    (h : Records session p.frames entry.nextSeq events) :
    ∃ entry', Decodes clock session entry events entry' ∧
      Progress entry entry' p.frames.length (kept [p]) ∧ Flight entry' groups bytes := by
  cases p.framed with
  | message hframes =>
    rw [hframes] at h ⊢
    obtain ⟨event, rest, rfl, hevent, hrest⟩ := h.cons
    cases hrest
    obtain ⟨entry', hstep, hprogress, hr⟩ :=
      ingestEvent_payload hevent (ingest_message p.payload (clock event.2))
    exact ⟨entry', .cons hstep (.nil entry'), hprogress, hr ▸ hflight.inFlight, hflight.bytes⟩
  | group parts hframes hflatten hparts hid =>
    have hpos : 0 < parts.length := List.length_pos_iff.mpr hparts
    have hroom : Room groups bytes p.options.newGroupId := by
      refine ⟨hnew _ ?_, hlength, hflight.bytes⟩
      rw [p.groupOf_frames hframes hparts]
      exact List.mem_singleton_self _
    have hstage : entry.reassembler.Stage groups bytes p.options.newGroupId parts 0 :=
      hflight.inFlight
    have hall : (p.frames.drop 0).take parts.length = p.frames := by
      rw [List.drop_zero]
      refine List.take_of_length_le ?_
      rw [hframes, length_groupFrames]
    rw [← hall] at h
    obtain ⟨entry', hdecodes, hcases⟩ := decodes_segments hframes hflatten hid hroom
      parts.length hpos (by omega) hstage h
    rcases hcases with ⟨hlt, -⟩ | ⟨-, hprogress, hdone⟩
    · omega
    · refine ⟨entry', hdecodes, ?_, hdone, hflight.bytes⟩
      rw [hframes, length_groupFrames]
      exact hprogress

theorem decodes_unfinished (p : Publication) {groups : List JsString} {bytes n : Nat}
    {entry : SessionReplayState} {events : List (JsonValue × Nat)} (hflight : Flight entry groups bytes)
    (hlength : groups.length ≤ 1) (hnew : ∀ g ∈ groupOf p.frames, g ∉ groups) (hpos : 0 < n)
    (hn : n < p.frames.length) (h : Records session (p.frames.take n) entry.nextSeq events) :
    ∃ entry', Decodes clock session entry events entry' ∧ Progress entry entry' n [] ∧
      ∃ g ∈ groupOf p.frames, ∃ bytes', Flight entry' (groups ++ [g]) bytes' := by
  cases p.framed with
  | message hframes =>
    rw [hframes, List.length_singleton] at hn
    omega
  | group parts hframes hflatten hparts hid =>
    have hgroup := p.groupOf_frames hframes hparts
    have hroom : Room groups bytes p.options.newGroupId := by
      refine ⟨hnew _ ?_, hlength, hflight.bytes⟩
      rw [hgroup]
      exact List.mem_singleton_self _
    have hn' : n < parts.length := by rwa [hframes, length_groupFrames] at hn
    have hstage : entry.reassembler.Stage groups bytes p.options.newGroupId parts 0 :=
      hflight.inFlight
    obtain ⟨entry', hdecodes, hcases⟩ :=
      decodes_segments hframes hflatten hid hroom n (by omega) (by omega) hstage h
    rw [Nat.zero_add] at hcases
    rcases hcases with ⟨-, hprogress, hstage⟩ | ⟨heq, -⟩
    · obtain ⟨m, rfl⟩ : ∃ m, n = m + 1 := ⟨n - 1, by omega⟩
      refine ⟨entry', hdecodes, hprogress, p.options.newGroupId, ?_, _, hstage.1, ?_⟩
      · rw [hgroup]
        exact List.mem_singleton_self _
      · have htaken := taken_le parts (m + 1)
        have hbytes := (chunk_bounds p.chunked).1
        rw [← hflatten] at hbytes
        have hflightBytes := hflight.bytes
        rw [List.length_append, List.length_singleton, Nat.add_mul]
        omega
    · omega

/-! ## An epoch -/

def LeavesInFlight (published : List Publication) (n : Nat) (groups groups' : List JsString) :
    Prop :=
  (endsWithin published n = false ∧ groups' = groups) ∨
    (endsWithin published n = true ∧
      ∃ g ∈ published.flatMap fun p => groupOf p.frames, groups' = groups ++ [g])

theorem decodes_published (published : List Publication) (n : Nat) {groups : List JsString}
    {bytes : Nat} {entry : SessionReplayState} {events : List (JsonValue × Nat)}
    (hflight : Flight entry groups bytes) (hlength : groups.length ≤ 1)
    (hnew : ∀ g ∈ published.flatMap fun p => groupOf p.frames, g ∉ groups)
    (h : Records session ((published.flatMap Publication.frames).take n) entry.nextSeq events) :
    ∃ entry' groups' bytes', Decodes clock session entry events entry' ∧
      Progress entry entry' events.length (kept (completed published n)) ∧
      Flight entry' groups' bytes' ∧ LeavesInFlight published n groups groups' := by
  induction published generalizing n entry events with
  | nil =>
    rw [List.flatMap_nil, List.take_nil] at h
    cases h
    exact ⟨entry, groups, bytes, .nil entry, .refl entry, hflight, .inl ⟨rfl, rfl⟩⟩
  | cons p rest ih =>
    unfold LeavesInFlight completed endsWithin
    rw [List.flatMap_cons] at h hnew ⊢
    by_cases hwhole : p.frames.length ≤ n
    · rw [List.take_append, List.take_of_length_le hwhole] at h
      obtain ⟨events₁, events₂, rfl, h₁, h₂⟩ := h.append
      obtain ⟨entry₁, hdecodes, hprogress, hflight₁⟩ := decodes_publication p hflight hlength
        (fun g hg => hnew g (List.mem_append_left _ hg)) h₁
      rw [← hprogress.nextSeq] at h₂
      obtain ⟨entry', groups', bytes', hdecodes', hprogress', hflight', hleaves⟩ := ih _ hflight₁
        (fun g hg => hnew g (List.mem_append_right _ hg)) h₂
      refine ⟨entry', groups', bytes', hdecodes.append hdecodes', ?_, hflight', ?_⟩
      · rw [if_pos hwhole, List.length_append, h₁.length]
        have hkept : kept (p :: completed rest (n - p.frames.length)) =
            kept [p] ++ kept (completed rest (n - p.frames.length)) := kept_append [p] _
        rw [hkept]
        exact hprogress.trans hprogress'
      · rw [if_pos hwhole]
        refine hleaves.imp_right ?_
        rintro ⟨hends, g, hg, hgroups⟩
        exact ⟨hends, g, List.mem_append_right _ hg, hgroups⟩
    · rw [List.take_append_of_le_length (by omega)] at h
      rw [if_neg hwhole, if_neg hwhole]
      cases n with
      | zero =>
        rw [List.take_zero] at h
        cases h
        exact ⟨entry, groups, bytes, .nil entry, .refl entry, hflight, .inl ⟨rfl, rfl⟩⟩
      | succ n =>
        obtain ⟨entry', hdecodes, hprogress, g, hg, bytes', hflight'⟩ := decodes_unfinished p hflight
          hlength (fun g hg => hnew g (List.mem_append_left _ hg)) (Nat.succ_pos n) (by omega) h
        have hevents : events.length = n + 1 := by
          rw [h.length, List.length_take]
          omega
        rw [hevents]
        exact ⟨entry', _, bytes', hdecodes, hprogress, hflight',
          .inr ⟨decide_eq_true (Nat.succ_pos n), g, List.mem_append_left _ hg, rfl⟩⟩

structure Holds (epochs : List Epoch) (entry : SessionReplayState) (groups : List JsString)
    (bytes : Nat) : Prop where
  envelopes : entry.envelopes = kept (epochs.flatMap Epoch.completed)
  flight : Flight entry groups bytes
  minted : groups ⊆ epochs.flatMap Epoch.groups
  truncated : (entry.abandonedChunkGroup || decide (groups.length > 0)) =
    epochs.any Epoch.endsWithin

structure Opened (before : List Epoch) (e : Epoch) (entry : SessionReplayState)
    (groups : List JsString) (bytes : Nat) : Prop extends Holds before entry groups bytes where
  nextSeq : entry.nextSeq = e.start
  length : groups.length ≤ 1
  zero : e.start = 0 → groups = []

structure Closed (epochs : List Epoch) (entry : SessionReplayState) (groups : List JsString)
    (bytes : Nat) : Prop extends Holds epochs entry groups bytes where
  nextSeq : 1 ≤ entry.nextSeq
  one : entry.nextSeq = 1 → groups.length ≤ 1

theorem decodes_epoch {e : Epoch} {entry : SessionReplayState} {groups : List JsString}
    {bytes : Nat} {events : List (JsonValue × Nat)} (hopened : Opened before e entry groups bytes)
    (hminted : ((before ++ [e]).flatMap Epoch.groups).Nodup) (hframes : e.frames ≠ [])
    (h : Records session e.frames e.start events) :
    ∃ entry' groups' bytes', Decodes clock session entry events entry' ∧
      Closed (before ++ [e]) entry' groups' bytes' := by
  rw [List.flatMap_append, List.flatMap_cons, List.flatMap_nil, List.append_nil] at hminted
  have hnew : ∀ g ∈ e.groups, g ∉ groups := fun g hg hmem =>
    (List.nodup_append.mp hminted).2.2 g (hopened.minted hmem) g hg rfl
  have hpos : 0 < events.length := by
    rw [h.length]
    exact List.length_pos_iff.mpr hframes
  rw [← hopened.nextSeq] at h
  obtain ⟨entry', groups', bytes', hdecodes, hprogress, hflight, hleaves⟩ :=
    decodes_published e.published e.recorded hopened.flight hopened.length hnew h
  have hnext := hprogress.nextSeq
  have hlength : groups'.length ≤ groups.length + 1 := by
    rcases hleaves with ⟨-, rfl⟩ | ⟨-, g, -, rfl⟩
    · exact Nat.le_succ _
    · rw [List.length_append, List.length_singleton]
  refine ⟨entry', groups', bytes', hdecodes, ⟨?_, hflight, ?_, ?_⟩, by omega, fun hone => ?_⟩
  · rw [hprogress.envelopes, hopened.envelopes, List.flatMap_append, kept_append]
    simp only [List.flatMap_cons, List.flatMap_nil, List.append_nil]
    rfl
  · intro g hg
    rw [List.flatMap_append, List.flatMap_cons, List.flatMap_nil, List.append_nil]
    rcases hleaves with ⟨-, rfl⟩ | ⟨-, g', hg', rfl⟩
    · exact List.mem_append_left _ (hopened.minted hg)
    · cases List.mem_append.mp hg with
      | inl hold => exact List.mem_append_left _ (hopened.minted hold)
      | inr hlast =>
        obtain rfl := List.mem_singleton.mp hlast
        exact List.mem_append_right _ hg'
  · have hbefore := hopened.truncated
    rw [List.any_append, List.any_cons, List.any_nil, Bool.or_false, ← hbefore,
      hprogress.abandonedChunkGroup]
    rcases hleaves with ⟨hends, rfl⟩ | ⟨hends, g, -, rfl⟩
    · have hnone : e.endsWithin = false := hends
      rw [hnone, Bool.or_false]
    · have hsome : e.endsWithin = true := hends
      rw [hsome, List.length_append]
      simp
  · have hzero : e.start = 0 := by
      rw [← hopened.nextSeq]
      omega
    rw [hopened.zero hzero] at hlength
    exact hlength

/-! ## Between epochs -/

def SessionReplayState.fresh (seq : Nat) (at' : JsString) : SessionReplayState where
  envelopes := []
  modifiedAt := at'
  nextSeq := seq
  reassembler := .new {}
  abandonedChunkGroup := false

theorem ingestEvent_none {frame : ChunkEnvelope} {seq : Nat} {event : JsonValue × Nat}
    (h : IsTaskEvent session (frame, seq) event.1) :
    ∃ at', ingestEvent clock session none event =
      ingestEvent clock session (some (.fresh seq at')) event := by
  obtain ⟨at', hat, hblank⟩ := h.at'
  refine ⟨at', ?_⟩
  have hseq : requireNonNegativeInteger (some (.number (.integer seq))) "seq" event.2 = .ok seq :=
    rfl
  unfold ingestEvent
  rw [h.seq, hat, hseq, requireNonEmptyString_ok hblank]
  rfl

variable {seq : Nat}

theorem ingestEvent_restart {frame : ChunkEnvelope} (h : IsTaskEvent session (frame, seq) event.1)
    (hrestart : startsRestartEpoch seq entry.nextSeq = true) :
    ingestEvent clock session (some entry) event =
      ingestEvent clock session (some (entry.restart seq)) event := by
  obtain ⟨at', hat, hblank⟩ := h.at'
  have hseq : requireNonNegativeInteger (some (.number (.integer seq))) "seq" event.2 = .ok seq :=
    rfl
  have hnext : IsTaskEvent session (frame, (entry.restart seq).nextSeq) event.1 := h
  rw [ingestEvent_next hnext hat hblank]
  unfold ingestEvent
  rw [h.seq, hat, hseq, requireNonEmptyString_ok hblank]
  simp only [bind, Except.bind, Option.getD_some]
  rw [hrestart, if_neg (by simp), if_pos rfl]
  rfl

theorem Closed.open {entry : SessionReplayState} {groups : List JsString} {bytes : Nat}
    (h : Closed before entry groups bytes) {e : Epoch}
    (hstart : e.start ≤ MAX_RESTART_EPOCH_INITIAL_SEQUENCE) {frame : ChunkEnvelope}
    {event : JsonValue × Nat} (hevent : IsTaskEvent session (frame, e.start) event.1) :
    ∃ entry₁ groups₁ bytes₁, Opened before e entry₁ groups₁ bytes₁ ∧
      ingestEvent clock session (some entry) event =
        ingestEvent clock session (some entry₁) event := by
  cases hrestart : startsRestartEpoch e.start entry.nextSeq with
  | true =>
    refine ⟨entry.restart e.start, [], 0, ⟨⟨h.envelopes, ⟨inFlight_new, Nat.zero_le _⟩,
      List.nil_subset _, ?_⟩, rfl, Nat.zero_le _, fun _ => rfl⟩, ingestEvent_restart hevent hrestart⟩
    rw [← h.truncated, ← h.flight.inFlight.count]
    show ((entry.abandonedChunkGroup || decide (entry.reassembler.inFlightGroupCount > 0)) ||
      false) = _
    rw [Bool.or_false]
  | false =>
    have hone : e.start ≤ 1 := hstart
    have hnext := h.nextSeq
    have hsame : entry.nextSeq = e.start := by
      by_contra hne
      have hrestarts : startsRestartEpoch e.start entry.nextSeq = true := by
        unfold startsRestartEpoch
        simp only [Bool.and_eq_true, decide_eq_true_eq]
        exact ⟨⟨fun heq => hne heq.symm, by omega⟩, hstart⟩
      rw [hrestart] at hrestarts
      cases hrestarts
    exact ⟨entry, groups, bytes, ⟨h.toHolds, hsame, h.one (by omega), by omega⟩, rfl⟩

/-! ## A log -/

theorem entryFold_congr {known : Option SessionReplayState}
    (h : ingestEvent clock session known event = ingestEvent clock session (some entry) event) :
    entryFold (ingestEvent clock) session known (event :: events) =
      entryFold (ingestEvent clock) session (some entry) (event :: events) := by
  unfold entryFold
  rw [List.foldlM_cons, List.foldlM_cons, h]

theorem decodes_epochs (rest : List Epoch) {entry : SessionReplayState} {groups : List JsString}
    {bytes : Nat} {events : List (JsonValue × Nat)} (hclosed : Closed before entry groups bytes)
    (hframes : ∀ e ∈ rest, e.frames ≠ [])
    (hstart : ∀ e ∈ rest, e.start ≤ MAX_RESTART_EPOCH_INITIAL_SEQUENCE)
    (hminted : ((before ++ rest).flatMap Epoch.groups).Nodup)
    (h : List.Forall₂ (fun frame event => IsTaskEvent session frame event.1)
      (rest.flatMap Epoch.numbered) events) :
    ∃ entry' groups' bytes', Decodes clock session entry events entry' ∧
      Closed (before ++ rest) entry' groups' bytes' := by
  induction rest generalizing before entry groups bytes events with
  | nil =>
    cases h
    rw [List.append_nil]
    exact ⟨entry, groups, bytes, .nil entry, hclosed⟩
  | cons e rest ih =>
    have hassoc : before ++ e :: rest = (before ++ [e]) ++ rest := by simp
    rw [List.flatMap_cons] at h
    obtain ⟨events₁, events₂, rfl, h₁, h₂⟩ := forall₂_append_left h
    have hrecords : Records session e.frames e.start events₁ := h₁
    have hne := hframes e List.mem_cons_self
    obtain ⟨frame, frames, hcons⟩ := List.exists_cons_of_ne_nil hne
    rw [hcons] at hrecords
    obtain ⟨event, events₁, rfl, hevent, -⟩ := hrecords.cons
    obtain ⟨entry₁, groups₁, bytes₁, hopened, hfirst⟩ :=
      hclosed.open (hstart e List.mem_cons_self) hevent
    have hbefore : ((before ++ [e]).flatMap Epoch.groups).Nodup := by
      rw [hassoc, List.flatMap_append] at hminted
      exact (List.nodup_append.mp hminted).1
    obtain ⟨entry₂, groups₂, bytes₂, hdecodes, hclosed₂⟩ := decodes_epoch hopened hbefore hne h₁
    obtain ⟨entry', groups', bytes', hdecodes', hclosed'⟩ := ih hclosed₂
      (fun e' he' => hframes e' (List.mem_cons_of_mem _ he'))
      (fun e' he' => hstart e' (List.mem_cons_of_mem _ he')) (hassoc ▸ hminted) h₂
    have hdecodes₁ : Decodes clock session entry (event :: events₁) entry₂ :=
      (entryFold_congr hfirst).trans hdecodes
    exact ⟨entry', groups', bytes', hdecodes₁.append hdecodes', hassoc ▸ hclosed'⟩

def Decoded (log : SessionLog) : Option SessionReplayState → Prop
  | none => log.epochs = []
  | some entry => log.epochs ≠ [] ∧ entry.envelopes = log.envelopes ∧
    entry.isTruncated = log.isTruncated

theorem Closed.decoded {log : SessionLog} (hne : log.epochs ≠ [])
    (h : Closed log.epochs entry groups bytes) : Decoded log (some entry) := by
  refine ⟨hne, h.envelopes, ?_⟩
  unfold SessionReplayState.isTruncated
  rw [h.flight.inFlight.count]
  exact h.truncated

theorem decodes_log (log : SessionLog)
    (h : List.Forall₂ (fun frame event => IsTaskEvent session frame event.1) log.numbered events) :
    ∃ known, entryFold (ingestEvent clock) session none events = .ok known ∧ Decoded log known := by
  unfold SessionLog.numbered at h
  have hframes := log.recorded
  have hstart := log.restarts
  have hminted := log.minted
  cases hepochs : log.epochs with
  | nil =>
    rw [hepochs] at h
    cases h
    exact ⟨none, rfl, hepochs⟩
  | cons e rest =>
    rw [hepochs] at h hframes hstart hminted
    rw [List.flatMap_cons] at h
    obtain ⟨events₁, events₂, rfl, h₁, h₂⟩ := forall₂_append_left h
    have hrecords : Records session e.frames e.start events₁ := h₁
    have hne := hframes e List.mem_cons_self
    obtain ⟨frame, frames, hcons⟩ := List.exists_cons_of_ne_nil hne
    rw [hcons] at hrecords
    obtain ⟨event, events₁, rfl, hevent, -⟩ := hrecords.cons
    obtain ⟨at', hfirst⟩ := @ingestEvent_none clock _ _ _ _ hevent
    have hopened : Opened [] e (.fresh e.start at') [] 0 :=
      ⟨⟨rfl, ⟨inFlight_new, Nat.zero_le _⟩, List.nil_subset _, rfl⟩, rfl,
        Nat.zero_le _, fun _ => rfl⟩
    have hbefore : (([] ++ [e]).flatMap Epoch.groups).Nodup := by
      rw [List.flatMap_cons] at hminted
      rw [List.nil_append, List.flatMap_cons, List.flatMap_nil, List.append_nil]
      exact (List.nodup_append.mp hminted).1
    obtain ⟨entry₁, groups₁, bytes₁, hdecodes, hclosed⟩ := decodes_epoch hopened hbefore hne h₁
    obtain ⟨entry', groups', bytes', hdecodes', hclosed'⟩ := decodes_epochs rest hclosed
      (fun e' he' => hframes e' (List.mem_cons_of_mem _ he')) hstart hminted h₂
    refine ⟨some entry', ?_, ?_⟩
    · exact (entryFold_congr hfirst).trans (hdecodes.append hdecodes')
    · have hall : [] ++ [e] ++ rest = log.epochs := by
        rw [hepochs]
        rfl
      rw [hall] at hclosed'
      refine hclosed'.decoded ?_
      rw [hepochs]
      exact List.cons_ne_nil e rest

end Tasks

end Fumie.AgentHost
