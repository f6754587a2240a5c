import Fumie.AgentHost.WebPubSub.Framing
import Fumie.AgentHost.WebPubSub.Accounting
import Fumie.Base.BufferText
import Fumie.Lib.JsonText

/-!
# Chunked publishes arrive

A family of payloads is published and its frames reach one reassembler in any order. The
invariant of the run says of each group in flight that its buffer holds the slice of every
segment that has arrived and nothing else; since the segments are distinct numbers below
`total`, their count reaches `total` exactly at the last missing one, and the slices in
order are the bytes of the payload.

What `ingest` returns for a complete payload `null` is what it returns for a segment that
completes nothing, so that payload alone is reported as pending.
-/

namespace Fumie.AgentHost

open Fumie.Lib Option Record JsString
open Fumie.Base

/-! ## What `chunk` gives -/

variable (rawBytes : Bytes) (rawBudget n : Nat)

theorem flatten_slices : (slices rawBytes rawBudget n).flatten = rawBytes.take (n * rawBudget) := by
  induction n with
  | zero => simp [slices]
  | succ n ih =>
    have hsucc : slices rawBytes rawBudget (n + 1) =
        slices rawBytes rawBudget n ++ [(rawBytes.drop (n * rawBudget)).take rawBudget] := by
      unfold slices
      rw [List.range_succ, List.map_append]
      rfl
    rw [hsucc, List.flatten_append, ih, Nat.succ_mul, List.take_add]
    simp

theorem length_slices : (slices rawBytes rawBudget n).length = n := by
  simp [slices]

theorem utf8Encode_ne_nil {text : List Char} (h : text ≠ []) : utf8Encode text ≠ [] := by
  cases text with
  | nil => exact absurd rfl h
  | cons c rest =>
    intro hnil
    have hc : String.utf8EncodeChar c = [] := (List.append_eq_nil_iff.mp hnil).1
    have := String.length_utf8EncodeChar c
    rw [hc] at this
    have hpos := c.utf8Size_pos
    simp at this
    omega

variable {envelopes : List ChunkEnvelope} {payload : JsonValue}

theorem chunk_cases {options : ChunkOptions} (h : chunk payload options = .ok envelopes) :
    envelopes = [.message payload] ∨
      ∃ parts : List Bytes, parts.flatten = utf8Encode payload.stringify ∧ parts ≠ [] ∧
        options.newGroupId ≠ [] ∧
        envelopes = parts.zipIdx.map fun part =>
          .chunk options.newGroupId part.2 parts.length (encodeBase64 part.1) := by
  unfold chunk at h
  dsimp only at h
  split_ifs at h with hpositive hlong hsingle hid hquantum hmany
  · cases h
    exact .inl rfl
  · cases h
    right
    obtain ⟨budget, hbudget⟩ : ∃ n : Nat, n = ((options.maxChunkBytes.getD
        DEFAULT_MAX_CHUNK_BYTES - byteLength (ChunkEnvelope.chunk options.newGroupId
          (DEFAULT_MAX_SEGMENTS_PER_GROUP - 1) DEFAULT_MAX_SEGMENTS_PER_GROUP []).toJson) / 4 * 4 /
            4 * 3).toNat := ⟨_, rfl⟩
    rw [← hbudget]
    have hbudgetPos : 0 < budget := by omega
    obtain ⟨raw, hraw⟩ : ∃ raw, raw = utf8Encode payload.stringify := ⟨_, rfl⟩
    rw [← hraw]
    have hrawPos : 0 < raw.length := by
      refine List.length_pos_iff.mpr ?_
      rw [hraw]
      refine utf8Encode_ne_nil fun hnil => ?_
      have := JsonValue.stringify_length_pos payload
      rw [hnil] at this
      exact Nat.lt_irrefl _ this
    have hdiv := Nat.div_add_mod (raw.length + budget - 1) budget
    have hmod := Nat.mod_lt (raw.length + budget - 1) hbudgetPos
    have htotal : raw.length ≤ (raw.length + budget - 1) / budget * budget := by
      rw [Nat.mul_comm]
      omega
    refine ⟨slices raw budget ((raw.length + budget - 1) / budget), ?_, ?_, ?_, ?_⟩
    · rw [flatten_slices, List.take_of_length_le htotal]
    · intro hnil
      have hlength := length_slices raw budget ((raw.length + budget - 1) / budget)
      rw [hnil] at hlength
      rw [← show 0 = (raw.length + budget - 1) / budget from hlength] at htotal
      omega
    · intro hnil
      rw [hnil] at hid
      exact hid rfl
    · rw [length_slices]

/-! ## One segment -/

theorem isBase64Digit_digit : ∀ n < 64, isBase64Digit (base64Digit n) = true := by
  decide +kernel

theorem isCanonicalBase64_encodeBase64 (bytes : Bytes) :
    isCanonicalBase64 (encodeBase64 bytes) = true := by
  fun_induction encodeBase64 bytes with
  | case1 a b c rest ih =>
    rw [isCanonicalBase64, isBase64Digit_digit _ (high_bits a), isBase64Digit_digit _ (and_63_lt _),
      isBase64Digit_digit _ (and_63_lt _), isBase64Digit_digit _ (and_63_lt _), ih]
    rfl
  | case2 a b =>
    rw [isCanonicalBase64, isBase64Digit_digit _ (high_bits a), isBase64Digit_digit _ (and_63_lt _),
      isBase64Digit_digit _ (and_63_lt _)]
    have hpad : decide ((61 : CodeUnit).val = 61) = true := rfl
    simp only [hpad, List.isEmpty_nil, Bool.true_and, Bool.or_true]
  | case3 a =>
    rw [isCanonicalBase64, isBase64Digit_digit _ (high_bits a), isBase64Digit_digit _ (and_63_lt _)]
    decide
  | case4 => rfl

theorem length_ge_iff {α : Type} {r : Record Nat α} {n : Nat} (h : ∀ j, (r.get j).isSome → j < n) :
    n ≤ r.entries.length ↔ ∀ j < n, (r.get j).isSome := by
  have hkeys : ∀ j, j ∈ r.entries.map Prod.fst ↔ (r.get j).isSome := by
    intro j
    rw [isSome_iff_exists]
    exact mem_keys_iff
  have hsub : r.entries.map Prod.fst ⊆ List.range n := fun j hj =>
    List.mem_range.mpr (h j ((hkeys j).mp hj))
  constructor
  · intro hlen j hj
    have hperm := (r.nodup.subperm hsub).perm_of_length_le (by simpa using hlen)
    exact (hkeys j).mp (hperm.mem_iff.mpr (List.mem_range.mpr hj))
  · intro hall
    have hsup : List.range n ⊆ r.entries.map Prod.fst := fun j hj =>
      (hkeys j).mpr (hall j (List.mem_range.mp hj))
    have hlen := (List.nodup_range.subperm hsup).length_le
    simpa using hlen

namespace Reassembler

/-- The refusals of the reassembler that depend on its ceilings. -/
def IsCeiling : ChunkingError → Prop
  | .totalExceeds .. | .tooManyGroups .. | .bufferCeiling .. | .totalCeiling .. => True
  | _ => False

def Holds (parts : List Bytes) (arrived : Nat → Prop) : Option ReassemblyBuffer → Prop
  | none => (∀ j, ¬ arrived j) ∨ ∀ j < parts.length, arrived j
  | some buffer => buffer.total = parts.length ∧
      ∀ j, (arrived j → buffer.segments.get j = parts[j]?) ∧
        (¬ arrived j → buffer.segments.get j = none)

variable {r : Reassembler} {parts : List Bytes} {arrived : Nat → Prop} {groupId : JsString}

variable {f : ChunkFields} {j : Nat}

theorem openBuffer_holds (hholds : Holds parts arrived (r.buffers.get groupId))
    (hgroup : f.groupId = groupId) (htotal : f.total = parts.length) (hj : j < parts.length)
    (hmissing : ¬ arrived j) (now : Int) :
    (∃ e, (r.openBuffer f now).2 = .error e ∧ IsCeiling e) ∨
      ∃ buffer, (r.openBuffer f now).2 = .ok buffer ∧ Holds parts arrived (some buffer) := by
  subst hgroup
  unfold openBuffer
  cases hget : r.buffers.get f.groupId with
  | none =>
    rw [hget] at hholds
    split_ifs
    · exact .inl ⟨_, rfl, trivial⟩
    · refine .inr ⟨_, rfl, htotal, fun k => ⟨fun hk => ?_, fun _ => rfl⟩⟩
      rcases hholds with hnone | hall
      · exact absurd hk (hnone k)
      · exact absurd (hall j hj) hmissing
  | some buffer =>
    rw [hget] at hholds
    have hsame : ¬ buffer.total ≠ f.total := fun hne => hne (hholds.1.trans htotal.symm)
    dsimp only
    rw [if_neg hsame]
    exact .inr ⟨buffer, rfl, hholds⟩

variable {buffer : ReassemblyBuffer}

theorem segment_holds (hholds : Holds parts arrived (some buffer))
    (hseq : f.seq = some (.number (.integer j))) (htotal : f.total = parts.length)
    (hj : j < parts.length) (hmissing : ¬ arrived j) (hbytes : f.bytes = encodeBase64 parts[j]) :
    (∃ e, r.segment f buffer = .error e ∧ IsCeiling e) ∨
      r.segment f buffer = .ok (j, parts[j]) := by
  have hrange : seqInRange? f.seq f.total = some j := by
    rw [hseq, htotal]
    exact if_pos hj
  have hnew := (hholds.2 j).2 hmissing
  unfold segment
  rw [hrange, hbytes, isCanonicalBase64_encodeBase64, decodeBase64_encodeBase64]
  dsimp only
  rw [hnew]
  simp only [isSome_none, Bool.false_eq_true, if_false, Bool.not_true]
  split_ifs
  · exact .inl ⟨_, rfl, trivial⟩
  · exact .inl ⟨_, rfl, trivial⟩
  · exact .inr rfl

theorem addSegment_holds (hholds : Holds parts arrived (some buffer)) (hj : j < parts.length) :
    Holds parts (fun k => k = j ∨ arrived k) (some (addSegment buffer j parts[j])) := by
  refine ⟨hholds.1, fun k => ?_⟩
  have hget : (addSegment buffer j parts[j]).segments.get k =
      if j = k then some parts[j] else buffer.segments.get k := get_set _ _ _ _
  rw [hget]
  by_cases hk : j = k
  · subst hk
    rw [if_pos rfl]
    exact ⟨fun _ => (List.getElem?_eq_getElem hj).symm, fun h => absurd (.inl rfl) h⟩
  · rw [if_neg hk]
    refine ⟨fun h => ?_, fun h => (hholds.2 k).2 fun ha => h (.inr ha)⟩
    rcases h with rfl | ha
    · exact absurd rfl hk
    · exact (hholds.2 k).1 ha

theorem isSome_of_holds (hholds : Holds parts arrived (some buffer))
    (harrived : ∀ j, arrived j → j < parts.length) (j : Nat) :
    (buffer.segments.get j).isSome ↔ arrived j := by
  by_cases h : arrived j
  · rw [(hholds.2 j).1 h, List.getElem?_eq_getElem (harrived j h)]
    exact ⟨fun _ => h, fun _ => rfl⟩
  · rw [(hholds.2 j).2 h]
    exact ⟨nofun, fun ha => absurd ha h⟩

theorem complete_holds (hholds : Holds parts arrived (some buffer))
    (hall : ∀ j < parts.length, arrived j) (hproper : payload.Proper)
    (hparts : parts.flatten = utf8Encode payload.stringify) :
    complete groupId buffer = .ok payload := by
  have hmap : (List.range buffer.total).mapM buffer.segments.get = some parts := by
    rw [hholds.1]
    have hslices : ∀ n ≤ parts.length,
        (List.range n).mapM buffer.segments.get = some (parts.take n) := by
      intro n hn
      induction n with
      | zero => rfl
      | succ n ih =>
        have hget := (hholds.2 n).1 (hall n hn)
        rw [List.getElem?_eq_getElem hn] at hget
        rw [List.range_succ, List.mapM_append, ih (Nat.le_of_succ_le hn), List.take_succ_eq_append_getElem hn]
        simp [hget]
    rw [hslices _ (Nat.le_refl _), List.take_length]
  have hbom : payload.stringify.head? ≠ some '\uFEFF' := by
    obtain ⟨c, rest, htext, -, -, hc⟩ := payload.stringify_starts
    rw [htext]
    exact fun h => hc (Option.some.inj h)
  unfold complete payloadOf
  rw [hmap]
  dsimp only
  rw [hparts, utf8Decode_utf8Encode hbom]
  dsimp only
  rw [JsonValue.parse_stringify hproper]

theorem ingestChunk_holds (hr : r.Accounted) (hholds : Holds parts arrived (r.buffers.get groupId))
    (harrived : ∀ k, arrived k → k < parts.length) (hgroup : f.groupId = groupId)
    (htotal : f.total = parts.length) (hseq : f.seq = some (.number (.integer j)))
    (hj : j < parts.length) (hmissing : ¬ arrived j) (hbytes : f.bytes = encodeBase64 parts[j])
    (hproper : payload.Proper) (hparts : parts.flatten = utf8Encode payload.stringify) (now : Int) :
    (∃ e, (r.ingestChunk f now).2 = .error e ∧ IsCeiling e) ∨
      Holds parts (fun k => k = j ∨ arrived k) ((r.ingestChunk f now).1.buffers.get groupId) ∧
        ((∀ k < parts.length, k = j ∨ arrived k) → (r.ingestChunk f now).2 = .ok payload) ∧
        (¬ (∀ k < parts.length, k = j ∨ arrived k) → (r.ingestChunk f now).2 = .ok .null) := by
  have hopened := openBuffer_spec hr (f := f) (htotal ▸ Nat.zero_lt_of_lt hj) now
  have hopen := openBuffer_holds hholds hgroup htotal hj hmissing now
  unfold ingestChunk
  rcases hr₁ : r.openBuffer f now with ⟨r₁, e | buffer⟩
  · rw [hr₁] at hopen
    rcases hopen with ⟨e', he, hceiling⟩ | ⟨buffer, hok, -⟩
    · cases he
      exact .inl ⟨e, rfl, hceiling⟩
    · cases hok
  rw [hr₁] at hopen hopened
  obtain ⟨hopened, -⟩ := hopened
  have hbuffer : Holds parts arrived (some buffer) := by
    rcases hopen with ⟨e', he, -⟩ | ⟨buffer', hok, hbuffer⟩
    · cases he
    · cases hok
      exact hbuffer
  dsimp only
  rcases segment_holds (r := r₁) hbuffer hseq htotal hj hmissing hbytes with
    ⟨e, he, hceiling⟩ | hsegment
  · rw [he]
    exact .inl ⟨e, rfl, hceiling⟩
  rw [hsegment]
  dsimp only
  have hnext := addSegment_holds hbuffer hj
  have hnextArrived : ∀ k, (k = j ∨ arrived k) → k < parts.length := by
    rintro k (rfl | hk)
    · exact hj
    · exact harrived k hk
  have hreceived : (addSegment buffer j parts[j]).received =
      (addSegment buffer j parts[j]).segments.entries.length := by
    have hcount := (hopened.accounted.buffers _ _ hopened.get).segments
    show buffer.received + 1 = (buffer.segments.set j parts[j]).entries.length
    rw [length_set_of_none _ ((hbuffer.2 j).2 hmissing), hcount]
  have hfull : parts.length ≤ (addSegment buffer j parts[j]).received ↔
      ∀ k < parts.length, k = j ∨ arrived k := by
    have hsome := isSome_of_holds hnext hnextArrived
    rw [hreceived, length_ge_iff fun k hk => hnextArrived k ((hsome k).mp hk)]
    exact forall₂_congr fun k _ => hsome k
  have htotal' : (addSegment buffer j parts[j]).total = parts.length := hbuffer.1
  right
  rw [htotal']
  split
  · rename_i hlt
    have hnot : ¬ ∀ k < parts.length, k = j ∨ arrived k := fun hall =>
      Nat.not_lt.mpr (hfull.mpr hall) hlt
    refine ⟨?_, fun hall => absurd hall hnot, fun _ => rfl⟩
    have hget : (r₁.buffers.set f.groupId (addSegment buffer j parts[j])).get groupId =
        some (addSegment buffer j parts[j]) := by
      rw [get_set, if_pos hgroup]
    rw [hget]
    exact hnext
  · rename_i hge
    have hall := hfull.mp (Nat.le_of_not_lt hge)
    refine ⟨?_, fun _ => complete_holds hnext hall hproper hparts, fun hnot => absurd hall hnot⟩
    rw [get_dropBuffer, if_pos hgroup]
    exact .inr hall

end Reassembler

/-! ## One frame -/

variable {r : Reassembler}

theorem ingest_message (data : JsonValue) (now : Int) :
    r.ingest (ChunkEnvelope.message data).toJson now = (r, .ok data) := rfl

theorem ingest_toJson_chunk (r : Reassembler) (groupId : JsString) (seq total : Nat)
    (bytes : JsString) (now : Int) :
    r.ingest (ChunkEnvelope.chunk groupId seq total bytes).toJson now =
      match r.chunkFields (ChunkEnvelope.chunk groupId seq total bytes).toJson with
      | .error e => (r, .error e)
      | .ok f => r.ingestChunk f now := rfl

theorem ingest_chunk (r : Reassembler) {groupId : JsString} (hid : groupId ≠ []) (seq : Nat)
    {total : Nat} (htotal : 0 < total) (bytes : JsString) (now : Int) :
    (∃ e, r.ingest (ChunkEnvelope.chunk groupId seq total bytes).toJson now = (r, .error e) ∧
        Reassembler.IsCeiling e) ∨
      r.ingest (ChunkEnvelope.chunk groupId seq total bytes).toJson now =
        r.ingestChunk ⟨groupId, some (.number (.integer seq)), total, bytes⟩ now := by
  obtain ⟨n, rfl⟩ : ∃ n, total = n + 1 := ⟨total - 1, by omega⟩
  obtain ⟨u, id, rfl⟩ := List.exists_cons_of_ne_nil hid
  have hfields : r.chunkFields (ChunkEnvelope.chunk (u :: id) seq (n + 1) bytes).toJson =
      if n + 1 > r.maxSegmentsPerGroup then .error (.totalExceeds (n + 1) r.maxSegmentsPerGroup)
      else .ok ⟨u :: id, some (.number (.integer seq)), n + 1, bytes⟩ := rfl
  rw [ingest_toJson_chunk, hfields]
  split_ifs
  · exact .inl ⟨_, rfl, trivial⟩
  · exact .inr rfl

theorem inboundEnvelope_groupMessage_eq (command : SendToGroupCommand)
    (validation : ParseGroupNameOptions) :
    inboundEnvelope command.groupMessage validation =
      if !isObject command.data.toJson then .error .missingData
      else
        match parseGroupName command.group validation with
        | .error e => .error (.groupName e)
        | .ok group => .ok (some (group, command.data.toJson)) := rfl

variable {command : SendToGroupCommand} {validation : ParseGroupNameOptions} {group : ParsedGroup}

theorem inboundEnvelope_groupMessage (h : parseGroupName command.group validation = .ok group) :
    inboundEnvelope command.groupMessage validation = .ok (some (group, command.data.toJson)) := by
  have hobject : isObject command.data.toJson = true := by
    cases command.data with
    | message _ | chunk _ _ _ _ => rfl
  rw [inboundEnvelope_groupMessage_eq, hobject, h]
  rfl

/-! ## A family of publications -/

def commandsOf (p : BuildPublishOptions) : List SendToGroupCommand :=
  (buildPublish p).toOption.getD []

/-- A command of the family by publication and number. -/
def frame? (publications : List BuildPublishOptions) (frame : Nat × Nat) : Option JsonValue :=
  publications[frame.1]?.bind fun p => (commandsOf p)[frame.2]?.map SendToGroupCommand.groupMessage

structure Arrival where
  frame : Nat × Nat
  now : Int

def receive (publications : List BuildPublishOptions) (validation : ParseGroupNameOptions) :
    Reassembler → List Arrival → List (Except InboundError InboundResult)
  | _, [] => []
  | r, arrival :: rest =>
    let out := parseInbound ((frame? publications arrival.frame).getD .null) validation r arrival.now
    out.2 :: receive publications validation out.1 rest

/-- The publish minted a `group_id`. -/
def Minted (p : BuildPublishOptions) : Prop :=
  ∃ command ∈ commandsOf p, ∃ seq total bytes,
    command.data = .chunk p.chunkOptions.newGroupId seq total bytes

structure Published (publications : List BuildPublishOptions)
    (validation : ParseGroupNameOptions) : Prop where
  proper : ∀ p ∈ publications, p.payload.Proper
  accepted : ∀ p ∈ publications, ∃ envelopes, chunk p.payload p.chunkOptions = .ok envelopes
  groups : ∀ p ∈ publications, ∃ group, parseGroupName p.group validation = .ok group
  distinct : ∀ (i j : Nat) (p q : BuildPublishOptions), publications[i]? = some p → publications[j]? = some q → Minted p →
    Minted q → p.chunkOptions.newGroupId = q.chunkOptions.newGroupId → i = j

structure Delivered (publications : List BuildPublishOptions) (arrivals : List Arrival) :
    Prop where
  once : (arrivals.map Arrival.frame).Nodup
  all : ∀ frame, frame ∈ arrivals.map Arrival.frame ↔ (frame? publications frame).isSome

def NoCeiling (results : List (Except InboundError InboundResult)) : Prop :=
  ∀ e, .error (.chunking e) ∈ results → ¬ Reassembler.IsCeiling e

def AllArrived (i : Nat) (p : BuildPublishOptions) (frames : List (Nat × Nat)) : Prop :=
  ∀ j < (commandsOf p).length, (i, j) ∈ frames

/-- The result of a frame: the payload with the last missing frame, pending before. -/
def ReportedAs (i : Nat) (p : BuildPublishOptions) (validation : ParseGroupNameOptions)
    (frames : List (Nat × Nat)) (result : Option (Except InboundError InboundResult)) : Prop :=
  ∀ group, parseGroupName p.group validation = .ok group →
    (AllArrived i p frames → result = some (.ok (.payload group p.payload))) ∧
      (¬ AllArrived i p frames → result = some (.ok (.pending group)))

def Reported (publications : List BuildPublishOptions) (validation : ParseGroupNameOptions)
    (arrivals : List Arrival) (results : List (Except InboundError InboundResult)) : Prop :=
  ∀ k arrival p, arrivals[k]? = some arrival → publications[arrival.frame.1]? = some p →
    ReportedAs arrival.frame.1 p validation ((arrivals.take (k + 1)).map Arrival.frame) results[k]?

structure Sliced (p : BuildPublishOptions) (parts : List Bytes) : Prop where
  commands : (commandsOf p).map SendToGroupCommand.data = parts.zipIdx.map fun part =>
    .chunk p.chunkOptions.newGroupId part.2 parts.length (encodeBase64 part.1)
  flatten : parts.flatten = utf8Encode p.payload.stringify
  nonempty : parts ≠ []
  groupId : p.chunkOptions.newGroupId ≠ []

variable {p : BuildPublishOptions}

theorem commandsOf_eq (h : chunk p.payload p.chunkOptions = .ok envelopes) :
    commandsOf p = envelopes.zipIdx.map fun envelope =>
      ⟨p.group, p.nextAckId + envelope.2, envelope.1⟩ := by
  unfold commandsOf buildPublish
  rw [h]
  rfl

theorem group_of_mem_commandsOf (h : chunk p.payload p.chunkOptions = .ok envelopes)
    (hmem : command ∈ commandsOf p) : command.group = p.group := by
  rw [commandsOf_eq h] at hmem
  obtain ⟨envelope, -, rfl⟩ := List.mem_map.mp hmem
  rfl

theorem commandsOf_cases (h : chunk p.payload p.chunkOptions = .ok envelopes) :
    (commandsOf p).map SendToGroupCommand.data = [.message p.payload] ∨
      ∃ parts, Sliced p parts := by
  have hdata : (commandsOf p).map SendToGroupCommand.data = envelopes := by
    rw [commandsOf_eq h, List.map_map]
    exact List.zipIdx_map_fst 0 envelopes
  rcases chunk_cases h with hmessage | ⟨parts, hflatten, hne, hid, henvelopes⟩
  · exact .inl (hdata.trans hmessage)
  · exact .inr ⟨parts, hdata.trans henvelopes, hflatten, hne, hid⟩

variable {parts : List Bytes}

theorem Sliced.length (h : Sliced p parts) : (commandsOf p).length = parts.length := by
  have := congrArg List.length h.commands
  simpa using this

theorem Sliced.getElem (h : Sliced p parts) {j : Nat} (hcommand : (commandsOf p)[j]? = some command) :
    ∃ hj : j < parts.length,
      command.data = .chunk p.chunkOptions.newGroupId j parts.length (encodeBase64 parts[j]) := by
  have hdata : ((commandsOf p).map SendToGroupCommand.data)[j]? = some command.data := by
    rw [List.getElem?_map, hcommand]
    rfl
  rw [h.commands, List.getElem?_map] at hdata
  obtain ⟨part, hpart, heq⟩ := map_eq_some_iff.mp hdata
  rw [List.getElem?_zipIdx] at hpart
  obtain ⟨bytes, hbytes, hpart⟩ := map_eq_some_iff.mp hpart
  obtain ⟨hj, hget⟩ := List.getElem?_eq_some_iff.mp hbytes
  refine ⟨hj, ?_⟩
  rw [← heq, ← hpart, hget]
  simp

theorem Sliced.unique {parts' : List Bytes} (h : Sliced p parts) (h' : Sliced p parts') :
    parts = parts' := by
  refine List.ext_getElem (h.length.symm.trans h'.length) fun j hj hj' => ?_
  have hlt : j < (commandsOf p).length := by rwa [h.length]
  obtain ⟨hk, hdata⟩ := h.getElem (List.getElem?_eq_getElem hlt)
  obtain ⟨hk', hdata'⟩ := h'.getElem (List.getElem?_eq_getElem hlt)
  have hbytes : encodeBase64 parts[j] = encodeBase64 parts'[j] := by
    rw [hdata] at hdata'
    exact (ChunkEnvelope.chunk.inj hdata').2.2.2
  have hdecoded := congrArg decodeBase64 hbytes
  rw [decodeBase64_encodeBase64, decodeBase64_encodeBase64] at hdecoded
  exact Option.some.inj hdecoded

theorem Sliced.minted (h : Sliced p parts) : Minted p := by
  have hpos : 0 < (commandsOf p).length := by
    rw [h.length]
    exact List.length_pos_iff.mpr h.nonempty
  obtain ⟨hj, hdata⟩ := h.getElem (List.getElem?_eq_getElem hpos)
  exact ⟨_, List.getElem_mem hpos, _, _, _, hdata⟩

/-! ## Runs -/

structure Receiving (publications : List BuildPublishOptions) (done : List (Nat × Nat))
    (r : Reassembler) : Prop where
  accounted : r.Accounted
  holds : ∀ (i : Nat) (p : BuildPublishOptions) (parts : List Bytes),
    publications[i]? = some p → Sliced p parts →
    Reassembler.Holds parts (fun j => (i, j) ∈ done) (r.buffers.get p.chunkOptions.newGroupId)

theorem Reassembler.Holds.congr {arrived arrived' : Nat → Prop} {buffer? : Option ReassemblyBuffer}
    (h : Reassembler.Holds parts arrived buffer?) (hiff : ∀ j, arrived' j ↔ arrived j) :
    Reassembler.Holds parts arrived' buffer? := by
  have heq : arrived' = arrived := funext fun j => propext (hiff j)
  rw [heq]
  exact h

variable {now : Int}

variable {r' : Reassembler}

theorem parseInbound_pending (hgroup : parseGroupName command.group validation = .ok group)
    (h : r.ingest command.data.toJson now = (r', .ok .null)) :
    parseInbound command.groupMessage validation r now = (r', .ok (.pending group)) := by
  unfold parseInbound
  rw [inboundEnvelope_groupMessage hgroup]
  dsimp only
  rw [h]

theorem parseInbound_payload (hgroup : parseGroupName command.group validation = .ok group)
    (hnull : payload ≠ .null) (h : r.ingest command.data.toJson now = (r', .ok payload)) :
    parseInbound command.groupMessage validation r now = (r', .ok (.payload group payload)) := by
  unfold parseInbound
  rw [inboundEnvelope_groupMessage hgroup]
  dsimp only
  rw [h]
  cases payload with
  | null => exact absurd rfl hnull
  | _ => rfl

theorem parseInbound_of_error (hgroup : parseGroupName command.group validation = .ok group)
    {e : ChunkingError} (h : (r.ingest command.data.toJson now).2 = .error e) :
    (parseInbound command.groupMessage validation r now).2 = .error (.chunking e) := by
  unfold parseInbound
  rw [inboundEnvelope_groupMessage hgroup]
  dsimp only
  rcases hr : r.ingest command.data.toJson now with ⟨r', result⟩
  rw [hr] at h
  cases h
  rfl

variable {publications : List BuildPublishOptions}

theorem Receiving.frame {done : List (Nat × Nat)} (h : Receiving publications done r)
    (hpublished : Published publications validation)
    (hdone : ∀ f ∈ done, (frame? publications f).isSome) {i j : Nat} (hnew : (i, j) ∉ done)
    (hp : publications[i]? = some p) (hnull : p.payload ≠ .null)
    (hcommand : (commandsOf p)[j]? = some command) (now : Int) :
    (∃ e, (parseInbound command.groupMessage validation r now).2 = .error (.chunking e) ∧
        Reassembler.IsCeiling e) ∨
      Receiving publications (done ++ [(i, j)])
          (parseInbound command.groupMessage validation r now).1 ∧
        ReportedAs i p validation (done ++ [(i, j)])
          (some (parseInbound command.groupMessage validation r now).2) := by
  have hmem := List.mem_of_getElem? hp
  obtain ⟨envelopes, hchunk⟩ := hpublished.accepted p hmem
  obtain ⟨group, hgroup⟩ := hpublished.groups p hmem
  have hgroup' : parseGroupName command.group validation = .ok group := by
    rw [group_of_mem_commandsOf hchunk (List.mem_of_getElem? hcommand)]
    exact hgroup
  have hother : ∀ i' j', i' ≠ i → ((i', j') ∈ done ++ [(i, j)] ↔ (i', j') ∈ done) := by
    intro i' j' hne
    simp [hne]
  rcases commandsOf_cases hchunk with hmessage | ⟨parts, hsliced⟩
  · have hlength : (commandsOf p).length = 1 := by simpa using congrArg List.length hmessage
    have hdata : command.data = .message p.payload := by
      have hget := congrArg (fun l => l[j]?) hmessage
      simp only [List.getElem?_map, hcommand, map_some] at hget
      exact List.mem_singleton.mp (List.mem_of_getElem? hget.symm)
    obtain rfl : j = 0 := by
      have := (List.getElem?_eq_some_iff.mp hcommand).1
      omega
    have hingest : r.ingest command.data.toJson now = (r, .ok p.payload) := by
      rw [hdata]
      exact ingest_message _ _
    have hparse := parseInbound_payload hgroup' hnull hingest
    right
    rw [hparse]
    refine ⟨⟨h.accounted, fun i' p' parts' hp' hsliced' => ?_⟩, fun group' hgroup'' => ⟨?_, ?_⟩⟩
    · refine (h.holds i' p' parts' hp' hsliced').congr fun j' => hother i' j' ?_
      rintro rfl
      cases hp.symm.trans hp'
      obtain ⟨hj', hchunked⟩ := hsliced'.getElem hcommand
      rw [hdata] at hchunked
      cases hchunked
    · intro _
      cases hgroup.symm.trans hgroup''
      rfl
    · intro hmissing
      refine absurd (fun k hk => ?_) hmissing
      obtain rfl : k = 0 := by omega
      simp
  · obtain ⟨hj, hdata⟩ := hsliced.getElem hcommand
    rcases ingest_chunk r hsliced.groupId j (Nat.zero_lt_of_lt hj) (encodeBase64 parts[j]) now with
      ⟨e, he, hceiling⟩ | hingest
    · left
      refine ⟨e, parseInbound_of_error hgroup' ?_, hceiling⟩
      rw [hdata, he]
    rw [← hdata] at hingest
    have harrived : ∀ k, (i, k) ∈ done → k < parts.length := by
      intro k hk
      have hsome := hdone (i, k) hk
      unfold frame? at hsome
      rw [show publications[(i, k).1]? = some p from hp] at hsome
      rw [← hsliced.length]
      by_contra hge
      rw [bind_some, List.getElem?_eq_none (Nat.le_of_not_lt hge)] at hsome
      cases hsome
    obtain ⟨f, hf⟩ : ∃ f : ChunkFields, f = ⟨p.chunkOptions.newGroupId,
      some (.number (.integer j)), parts.length, encodeBase64 parts[j]⟩ := ⟨_, rfl⟩
    rw [← hf] at hingest
    have hspec := Reassembler.ingestChunk_spec h.accounted (f := f) (hf ▸ Nat.zero_lt_of_lt hj) now
    obtain ⟨haccounted, -, houtcome⟩ := hspec
    rcases Reassembler.ingestChunk_holds h.accounted (h.holds i p parts hp hsliced) harrived
      (f := f) (by rw [hf]) (by rw [hf]) (by rw [hf]) hj hnew (by rw [hf])
      (hpublished.proper p hmem) hsliced.flatten now with
      ⟨e, he, hceiling⟩ | ⟨hholds, hcomplete, hpending⟩
    · left
      refine ⟨e, parseInbound_of_error hgroup' ?_, hceiling⟩
      rw [hingest, he]
    have hall : AllArrived i p (done ++ [(i, j)]) ↔ ∀ k < parts.length, k = j ∨ (i, k) ∈ done := by
      unfold AllArrived
      rw [hsliced.length]
      refine forall₂_congr fun k _ => ?_
      simp [or_comm]
    have hreceiving : Receiving publications (done ++ [(i, j)]) (r.ingestChunk f now).1 := by
      refine ⟨haccounted, fun i' p' parts' hp' hsliced' => ?_⟩
      by_cases hi : i' = i
      · subst hi
        cases hp.symm.trans hp'
        obtain rfl := hsliced.unique hsliced'
        exact hholds.congr fun k => by simp [or_comm]
      · have hid : p'.chunkOptions.newGroupId ≠ p.chunkOptions.newGroupId := fun heq =>
          hi (hpublished.distinct i' i p' p hp' hp hsliced'.minted hsliced.minted heq)
        have hkept : (r.ingestChunk f now).1.buffers.get p'.chunkOptions.newGroupId =
            r.buffers.get p'.chunkOptions.newGroupId := houtcome.kept _ (by rwa [hf])
        rw [hkept]
        exact (h.holds i' p' parts' hp' hsliced').congr fun k => hother i' k hi
    right
    by_cases harrive : AllArrived i p (done ++ [(i, j)])
    · have hparse := parseInbound_payload hgroup' hnull
        (hingest.trans (Prod.ext rfl (hcomplete (hall.mp harrive))))
      rw [hparse]
      refine ⟨hreceiving, fun group' hgroup'' => ⟨fun _ => ?_, fun hnot => absurd harrive hnot⟩⟩
      cases hgroup.symm.trans hgroup''
      rfl
    · have hparse := parseInbound_pending hgroup'
        (hingest.trans (Prod.ext rfl (hpending fun hk => harrive (hall.mpr hk))))
      rw [hparse]
      refine ⟨hreceiving, fun group' hgroup'' => ⟨fun hk => absurd hk harrive, fun _ => ?_⟩⟩
      cases hgroup.symm.trans hgroup''
      rfl

theorem frame?_eq {frame : Nat × Nat} (h : (frame? publications frame).isSome) :
    ∃ p command, publications[frame.1]? = some p ∧ (commandsOf p)[frame.2]? = some command ∧
      frame? publications frame = some command.groupMessage := by
  obtain ⟨message, hmessage⟩ := isSome_iff_exists.mp h
  obtain ⟨p, hp, hcommand⟩ := bind_eq_some_iff.mp hmessage
  obtain ⟨command, hcommand, heq⟩ := map_eq_some_iff.mp hcommand
  exact ⟨p, command, hp, hcommand, by rw [hmessage, heq]⟩

theorem Receiving.run {publications : List BuildPublishOptions}
    {validation : ParseGroupNameOptions} (hpublished : Published publications validation)
    (hnull : ∀ p ∈ publications, p.payload ≠ .null) {done : List (Nat × Nat)} {r : Reassembler}
    (h : Receiving publications done r) (hdone : ∀ f ∈ done, (frame? publications f).isSome)
    (arrivals : List Arrival) (honce : (done ++ arrivals.map Arrival.frame).Nodup)
    (hframes : ∀ arrival ∈ arrivals, (frame? publications arrival.frame).isSome)
    (hceiling : NoCeiling (receive publications validation r arrivals)) (k : Nat)
    (arrival : Arrival) (p : BuildPublishOptions) (harrival : arrivals[k]? = some arrival)
    (hp : publications[arrival.frame.1]? = some p) :
    ReportedAs arrival.frame.1 p validation (done ++ (arrivals.take (k + 1)).map Arrival.frame)
      (receive publications validation r arrivals)[k]? := by
  induction arrivals generalizing done r k with
  | nil => cases harrival
  | cons first rest ih =>
    obtain ⟨q, command, hq, hcommand, hframe⟩ := frame?_eq (hframes first List.mem_cons_self)
    have hnew : first.frame ∉ done := fun hmem =>
      (List.nodup_append.mp honce).2.2 _ hmem _ List.mem_cons_self rfl
    have hreceive : receive publications validation r (first :: rest) =
        (parseInbound command.groupMessage validation r first.now).2 ::
          receive publications validation
            (parseInbound command.groupMessage validation r first.now).1 rest := by
      rw [receive, hframe]
      rfl
    rw [hreceive] at hceiling ⊢
    rcases h.frame hpublished hdone hnew hq (hnull q (List.mem_of_getElem? hq)) hcommand
      first.now with ⟨e, he, hbad⟩ | ⟨hnext, hreported⟩
    · rw [he] at hceiling
      exact absurd hbad (hceiling e List.mem_cons_self)
    · cases k with
      | zero =>
        cases harrival
        cases hq.symm.trans hp
        exact hreported
      | succ k =>
        have hdone' : ∀ f ∈ done ++ [first.frame], (frame? publications f).isSome := by
          intro f hf
          rcases List.mem_append.mp hf with hf | hf
          · exact hdone f hf
          · rw [List.mem_singleton.mp hf]
            exact hframes first List.mem_cons_self
        have honce' : ((done ++ [first.frame]) ++ rest.map Arrival.frame).Nodup := by
          rwa [List.append_assoc]
        have hrest := ih hnext hdone' honce' (fun a ha => hframes a (List.mem_cons_of_mem _ ha))
          (fun e he => hceiling e (List.mem_cons_of_mem _ he)) k harrival
        rw [List.append_assoc] at hrest
        exact hrest

theorem receiving_new (publications : List BuildPublishOptions) (options : ReassemblerOptions) :
    Receiving publications [] (.new options) :=
  ⟨Reassembler.accounted_new options, fun _ _ _ _ _ => .inl nofun⟩

theorem parseInbound_ne_null (frame : JsonValue) (validation : ParseGroupNameOptions)
    (r : Reassembler) (now : Int) (group : ParsedGroup) :
    (parseInbound frame validation r now).2 ≠ .ok (.payload group .null) := by
  unfold parseInbound
  split
  · nofun
  · nofun
  · split
    · nofun
    · nofun
    · rename_i hnot _
      intro heq
      cases heq
      exact hnot rfl

theorem receive_ne_null (publications : List BuildPublishOptions)
    (validation : ParseGroupNameOptions) (r : Reassembler) (arrivals : List Arrival)
    (group : ParsedGroup) :
    .ok (.payload group .null) ∉ receive publications validation r arrivals := by
  induction arrivals generalizing r with
  | nil => exact List.not_mem_nil
  | cons first rest ih =>
    intro hmem
    rcases List.mem_cons.mp hmem with hmem | hmem
    · exact parseInbound_ne_null _ _ _ _ _ hmem.symm
    · exact ih _ hmem

theorem commandsOf_length_pos (h : chunk p.payload p.chunkOptions = .ok envelopes) :
    0 < (commandsOf p).length := by
  rcases commandsOf_cases h with hmessage | ⟨parts, hsliced⟩
  · have hlength : (commandsOf p).length = 1 := by simpa using congrArg List.length hmessage
    omega
  · rw [hsliced.length]
    exact List.length_pos_iff.mpr hsliced.nonempty

open Classical in
theorem Delivered.last {arrivals : List Arrival} (h : Delivered publications arrivals) {i : Nat}
    (hp : publications[i]? = some p) (hpos : 0 < (commandsOf p).length) :
    ∃ k arrival, arrivals[k]? = some arrival ∧ arrival.frame.1 = i ∧
      AllArrived i p ((arrivals.take (k + 1)).map Arrival.frame) := by
  have harrives : ∀ j < (commandsOf p).length, ∃ k : Nat, ∃ arrival, arrivals[k]? = some arrival ∧
      arrival.frame = (i, j) := by
    intro j hj
    have hframe : (frame? publications (i, j)).isSome := by
      unfold frame?
      rw [show publications[(i, j).1]? = some p from hp, bind_some,
        show (commandsOf p)[(i, j).2]? = some (commandsOf p)[j] from List.getElem?_eq_getElem hj]
      rfl
    obtain ⟨arrival, hmem, heq⟩ := List.mem_map.mp ((h.all (i, j)).mpr hframe)
    obtain ⟨k, hk⟩ := List.mem_iff_getElem?.mp hmem
    exact ⟨k, arrival, hk, heq⟩
  let ofPublication (k : Nat) : Prop := ∃ arrival, arrivals[k]? = some arrival ∧ arrival.frame.1 = i
  have hbound : ∀ k, ofPublication k → k ≤ arrivals.length := by
    rintro k ⟨arrival, hk, -⟩
    exact Nat.le_of_lt (List.getElem?_eq_some_iff.mp hk).1
  obtain ⟨k₀, first, hfirst, hframe₀⟩ := harrives 0 hpos
  have hk₀ : ofPublication k₀ := ⟨first, hfirst, congrArg Prod.fst hframe₀⟩
  obtain ⟨arrival, hk, hi⟩ := Nat.findGreatest_spec (hbound k₀ hk₀) hk₀
  refine ⟨_, arrival, hk, hi, fun j hj => ?_⟩
  obtain ⟨k', arrival', hk', hframe⟩ := harrives j hj
  have hof : ofPublication k' := ⟨arrival', hk', congrArg Prod.fst hframe⟩
  have hle := Nat.le_findGreatest (hbound k' hof) hof
  refine List.mem_map.mpr ⟨arrival', ?_, hframe⟩
  refine List.mem_iff_getElem?.mpr ⟨k', ?_⟩
  rw [List.getElem?_take_of_lt (Nat.lt_succ_of_le hle)]
  exact hk'

def onePublish (payload : JsonValue) : List BuildPublishOptions :=
  [⟨ofString "user.u.env.e.root", 0, payload, ⟨none, ofString "g"⟩⟩]

theorem published_onePublish {payload : JsonValue} (hproper : payload.Proper)
    (haccepted : chunk payload ⟨none, ofString "g"⟩ = .ok [.message payload]) :
    Published (onePublish payload) {} ∧ Delivered (onePublish payload) [⟨(0, 0), 0⟩] := by
  have hcommands : ∀ p ∈ onePublish payload, (commandsOf p).length = 1 := by
    intro p hp
    obtain rfl := List.mem_singleton.mp hp
    rw [commandsOf_eq haccepted]
    rfl
  refine ⟨⟨?_, ?_, ?_, ?_⟩, List.nodup_singleton _, fun frame => ⟨fun h => ?_, fun h => ?_⟩⟩
  · intro p hp
    obtain rfl := List.mem_singleton.mp hp
    exact hproper
  · intro p hp
    obtain rfl := List.mem_singleton.mp hp
    exact ⟨_, haccepted⟩
  · intro p hp
    obtain rfl := List.mem_singleton.mp hp
    exact ⟨⟨.env .root, [117], [101]⟩, by rfl⟩
  · intro i j p q hi hj _ _ _
    have hi' := (List.getElem?_eq_some_iff.mp hi).1
    have hj' := (List.getElem?_eq_some_iff.mp hj).1
    have hlength : (onePublish payload).length = 1 := rfl
    omega
  · obtain rfl := List.mem_singleton.mp h
    obtain ⟨p, hmem, hp⟩ : ∃ p, p ∈ onePublish payload ∧ (onePublish payload)[0]? = some p :=
      ⟨_, List.mem_cons_self, rfl⟩
    unfold frame?
    rw [show (onePublish payload)[(0, 0).1]? = some p from hp, bind_some, isSome_map]
    simp [hcommands p hmem]
  · obtain ⟨p, command, hp, hcommand, -⟩ := frame?_eq h
    have hfirst := (List.getElem?_eq_some_iff.mp hp).1
    have hsecond := (List.getElem?_eq_some_iff.mp hcommand).1
    rw [hcommands p (List.mem_of_getElem? hp)] at hsecond
    have hlength : (onePublish payload).length = 1 := rfl
    refine List.mem_singleton.mpr (Prod.ext ?_ ?_)
    · show frame.1 = 0
      omega
    · show frame.2 = 0
      omega

end Fumie.AgentHost
