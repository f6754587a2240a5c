import Fumie.AgentHost.WebPubSub.RoundTrip
import Fumie.Lib.KeyedFold

/-!
# Segments in order

The segments of one group reach a reassembler one after the other, while a few groups
that never completed stay in flight. Every segment but the last gives nothing, the last
gives the payload, and no ceiling is met: a payload is no larger than the ceiling of one
buffer, and two such buffers fit under the ceiling of all.
-/

namespace Fumie.AgentHost

open Fumie.Lib Fumie.Base Record

theorem chunk_bounds {payload : JsonValue} {options : ChunkOptions}
    {envelopes : List ChunkEnvelope} (h : chunk payload options = .ok envelopes) :
    (utf8Encode payload.stringify).length ≤ DEFAULT_MAX_REASSEMBLY_BYTES ∧
      envelopes.length ≤ DEFAULT_MAX_SEGMENTS_PER_GROUP := by
  unfold chunk at h
  dsimp only at h
  split_ifs at h with hpositive hlong hsingle hid hquantum hmany
  · cases h
    refine ⟨Nat.le_of_not_lt hlong, ?_⟩
    show 1 ≤ DEFAULT_MAX_SEGMENTS_PER_GROUP
    decide
  · cases h
    refine ⟨Nat.le_of_not_lt hlong, ?_⟩
    rw [List.length_map, List.length_zipIdx, length_slices]
    exact Nat.le_of_not_lt hmany

namespace Reassembler

def segmentsOf (parts : List Bytes) : Nat → Record Nat Bytes
  | 0 => .empty
  | k + 1 => (segmentsOf parts k).set k (parts[k]?.getD [])

theorem get_segmentsOf (parts : List Bytes) (k j : Nat) :
    (segmentsOf parts k).get j = if j < k then some (parts[j]?.getD []) else none := by
  induction k with
  | zero => rfl
  | succ k ih =>
    have hget : (segmentsOf parts (k + 1)).get j =
        if k = j then some (parts[k]?.getD []) else (segmentsOf parts k).get j :=
      get_set _ _ _ _
    rw [hget, ih]
    by_cases hj : k = j
    · subst hj
      rw [if_pos rfl, if_pos (Nat.lt_succ_self k)]
    · rw [if_neg hj]
      by_cases hlt : j < k
      · rw [if_pos hlt, if_pos (by omega)]
      · rw [if_neg hlt, if_neg (by omega)]

def taken (parts : List Bytes) (k : Nat) : Nat := (parts.take k).flatten.length

theorem taken_succ {parts : List Bytes} {k : Nat} (hk : k < parts.length) :
    taken parts (k + 1) = taken parts k + parts[k].length := by
  unfold taken
  rw [List.take_succ_eq_append_getElem hk, List.flatten_append, List.length_append]
  simp

theorem taken_le (parts : List Bytes) (k : Nat) : taken parts k ≤ parts.flatten.length := by
  have hsplit : parts.flatten = (parts.take k).flatten ++ (parts.drop k).flatten := by
    rw [← List.flatten_append, List.take_append_drop]
  unfold taken
  rw [hsplit, List.length_append]
  omega

def groupBuffer (parts : List Bytes) (k : Nat) (startedAt : Int) : ReassemblyBuffer where
  total := parts.length
  received := k
  segments := segmentsOf parts k
  accumulatedBytes := taken parts k
  startedAt

structure InFlight (r : Reassembler) (groups : List JsString) (bytes : Nat) : Prop where
  options : SameOptions (new {}) r
  keys : r.buffers.keys = groups
  accumulated : r.accumulatedBytes = bytes

theorem inFlight_new : InFlight (new {}) [] 0 where
  options := ⟨rfl, rfl, rfl, rfl, rfl⟩
  keys := rfl
  accumulated := rfl

theorem InFlight.count {r : Reassembler} {groups : List JsString} {bytes : Nat}
    (h : InFlight r groups bytes) : r.inFlightGroupCount = groups.length := by
  rw [← h.keys]
  exact List.length_map .. |>.symm

def Stage (r : Reassembler) (groups : List JsString) (bytes : Nat) (groupId : JsString)
    (parts : List Bytes) : Nat → Prop
  | 0 => InFlight r groups bytes
  | k + 1 => InFlight r (groups ++ [groupId]) (bytes + taken parts (k + 1)) ∧
    ∃ startedAt, r.buffers.get groupId = some (groupBuffer parts (k + 1) startedAt)

section

variable {r : Reassembler} {groups : List JsString} {bytes : Nat} {groupId : JsString}
  {parts : List Bytes} {k : Nat}

theorem Stage.openBuffer (h : Stage r groups bytes groupId parts k) (hnew : groupId ∉ groups)
    (hroom : groups.length < DEFAULT_MAX_CONCURRENT_GROUPS) {f : ChunkFields}
    (hgroup : f.groupId = groupId) (htotal : f.total = parts.length) (now : Int) :
    ∃ r' startedAt, r.openBuffer f now = (r', .ok (groupBuffer parts k startedAt)) ∧
      InFlight r' (groups ++ [groupId]) (bytes + taken parts k) ∧
      r'.buffers.get groupId = some (groupBuffer parts k startedAt) := by
  subst hgroup
  unfold Reassembler.openBuffer
  cases k with
  | zero =>
    have hnone : r.buffers.get f.groupId = none := by
      apply get_of_notMem_keys
      rw [h.keys]
      exact hnew
    have hfits : ¬r.inFlightGroupCount ≥ r.maxConcurrentGroups := by
      rw [h.count, h.options.2.2.2.1]
      exact Nat.not_le.mpr hroom
    rw [hnone]
    rw [if_neg hfits, htotal]
    refine ⟨_, now, rfl, ⟨h.options, ?_, ?_⟩, ?_⟩
    · exact (keys_set_of_none _ hnone).trans (by rw [h.keys])
    · exact h.accumulated
    · exact (get_set _ _ _ _).trans (if_pos rfl)
  | succ k =>
    obtain ⟨hflight, startedAt, hget⟩ := h
    have hsame : ¬(groupBuffer parts (k + 1) startedAt).total ≠ f.total := fun hne =>
      hne htotal.symm
    rw [hget]
    dsimp only
    rw [if_neg hsame]
    exact ⟨r, startedAt, rfl, hflight, hget⟩

theorem InFlight.segment (h : InFlight r (groups ++ [groupId]) (bytes + taken parts k))
    (hk : k < parts.length) (hparts : parts.flatten.length ≤ DEFAULT_MAX_REASSEMBLY_BYTES)
    (htotal : bytes + parts.flatten.length ≤ DEFAULT_MAX_REASSEMBLY_TOTAL_BYTES) (startedAt : Int) :
    r.segment ⟨groupId, some (.number (.integer k)), parts.length, encodeBase64 parts[k]⟩
      (groupBuffer parts k startedAt) = .ok (k, parts[k]) := by
  have hrange : seqInRange? (some (.number (.integer (k : Int)))) parts.length = some k := if_pos hk
  have hnone : (groupBuffer parts k startedAt).segments.get k = none :=
    (get_segmentsOf parts k k).trans (if_neg (Nat.lt_irrefl k))
  have hbytes : (groupBuffer parts k startedAt).accumulatedBytes = taken parts k := rfl
  have hsucc := taken_succ hk
  have hle := taken_le parts (k + 1)
  unfold Reassembler.segment
  rw [hrange]
  dsimp only
  rw [hnone, isCanonicalBase64_encodeBase64, decodeBase64_encodeBase64]
  simp only [Option.isSome_none, Bool.false_eq_true, if_false, Bool.not_true]
  rw [hbytes, h.accumulated, h.options.2.1, h.options.2.2.1]
  have hbuffer : ¬taken parts k + parts[k].length > (new {}).maxBufferBytes := by
    show ¬taken parts k + parts[k].length > DEFAULT_MAX_REASSEMBLY_BYTES
    omega
  have hall : ¬((bytes + taken parts k : Nat) : Int) + (parts[k].length : Nat) >
      ((new {}).maxTotalBufferBytes : Nat) := by
    show ¬((bytes + taken parts k : Nat) : Int) + (parts[k].length : Nat) >
      (DEFAULT_MAX_REASSEMBLY_TOTAL_BYTES : Nat)
    omega
  rw [if_neg hbuffer, if_neg hall]

theorem addSegment_groupBuffer (hk : k < parts.length) (startedAt : Int) :
    addSegment (groupBuffer parts k startedAt) k parts[k] = groupBuffer parts (k + 1) startedAt := by
  unfold addSegment groupBuffer
  rw [taken_succ hk]
  simp only [segmentsOf, List.getElem?_eq_getElem hk, Option.getD_some]

theorem holds_groupBuffer (startedAt : Int) :
    Holds parts (fun j => j < parts.length) (some (groupBuffer parts parts.length startedAt)) := by
  refine ⟨rfl, fun j => ?_⟩
  have hget : (groupBuffer parts parts.length startedAt).segments.get j =
      if j < parts.length then some (parts[j]?.getD []) else none := get_segmentsOf parts _ j
  rw [hget]
  constructor
  · intro hj
    rw [if_pos hj, List.getElem?_eq_getElem hj]
    rfl
  · intro hj
    rw [if_neg hj]

theorem InFlight.dropBuffer {buffer : ReassemblyBuffer}
    (h : InFlight r (groups ++ [groupId]) (bytes + buffer.accumulatedBytes))
    (hget : r.buffers.get groupId = some buffer) (hnew : groupId ∉ groups) :
    InFlight (r.dropBuffer groupId) groups bytes := by
  unfold Reassembler.dropBuffer
  rw [hget]
  refine ⟨h.options, ?_, ?_⟩
  · have hothers : ∀ g ∈ groups, decide (g ≠ groupId) = true := by
      intro g hg
      rw [decide_eq_true_eq]
      rintro rfl
      exact hnew hg
    rw [keys_delete, h.keys, List.filter_append, List.filter_eq_self.mpr hothers]
    simp
  · show r.accumulatedBytes - (buffer.accumulatedBytes : Int) = bytes
    rw [h.accumulated]
    omega

theorem Stage.ingest (h : Stage r groups bytes groupId parts k) (hid : groupId ≠ [])
    (hnew : groupId ∉ groups) (hroom : groups.length < DEFAULT_MAX_CONCURRENT_GROUPS)
    (hk : k < parts.length) (hcount : parts.length ≤ DEFAULT_MAX_SEGMENTS_PER_GROUP)
    {payload : JsonValue} (hproper : payload.Proper)
    (hpayload : parts.flatten = utf8Encode payload.stringify)
    (hparts : parts.flatten.length ≤ DEFAULT_MAX_REASSEMBLY_BYTES)
    (htotal : bytes + parts.flatten.length ≤ DEFAULT_MAX_REASSEMBLY_TOTAL_BYTES) (now : Int) :
    ∃ r', (k + 1 < parts.length ∧ Stage r' groups bytes groupId parts (k + 1) ∧
        r.ingest (ChunkEnvelope.chunk groupId k parts.length (encodeBase64 parts[k])).toJson now =
          (r', .ok .null)) ∨
      (k + 1 = parts.length ∧ InFlight r' groups bytes ∧
        r.ingest (ChunkEnvelope.chunk groupId k parts.length (encodeBase64 parts[k])).toJson now =
          (r', .ok payload)) := by
  have hsegments : r.maxSegmentsPerGroup = DEFAULT_MAX_SEGMENTS_PER_GROUP := by
    cases k with
    | zero => exact h.options.2.2.2.2
    | succ k => exact h.1.options.2.2.2.2
  have hingest : r.ingest (ChunkEnvelope.chunk groupId k parts.length
      (encodeBase64 parts[k])).toJson now =
      r.ingestChunk ⟨groupId, some (.number (.integer k)), parts.length, encodeBase64 parts[k]⟩
        now := by
    obtain ⟨n, hn⟩ : ∃ n, parts.length = n + 1 := ⟨parts.length - 1, by omega⟩
    obtain ⟨u, id, rfl⟩ := List.exists_cons_of_ne_nil hid
    rw [ingest_toJson_chunk]
    have hfields : r.chunkFields (ChunkEnvelope.chunk (u :: id) k parts.length
        (encodeBase64 parts[k])).toJson =
        .ok ⟨u :: id, some (.number (.integer k)), parts.length, encodeBase64 parts[k]⟩ := by
      rw [hn] at hcount ⊢
      have hfits : ¬n + 1 > r.maxSegmentsPerGroup := by
        rw [hsegments]
        omega
      exact if_neg hfits
    rw [hfields]
  rw [hingest]
  obtain ⟨r₁, startedAt, hopen, hflight, hget⟩ := h.openBuffer hnew hroom
    (f := ⟨groupId, some (.number (.integer k)), parts.length, encodeBase64 parts[k]⟩) rfl rfl now
  unfold ingestChunk
  rw [hopen]
  dsimp only
  rw [hflight.segment hk hparts htotal startedAt]
  dsimp only
  rw [addSegment_groupBuffer hk startedAt]
  have hstored : InFlight { r₁ with
      buffers := r₁.buffers.set groupId (groupBuffer parts (k + 1) startedAt)
      accumulatedBytes := r₁.accumulatedBytes + (parts[k].length : Nat) }
      (groups ++ [groupId]) (bytes + taken parts (k + 1)) := by
    refine ⟨hflight.options, (keys_set _ hget).trans hflight.keys, ?_⟩
    rw [hflight.accumulated, taken_succ hk]
    push_cast
    omega
  have hstoredGet : (r₁.buffers.set groupId (groupBuffer parts (k + 1) startedAt)).get groupId =
      some (groupBuffer parts (k + 1) startedAt) := (get_set _ _ _ _).trans (if_pos rfl)
  by_cases hlast : k + 1 < parts.length
  · refine ⟨_, .inl ⟨hlast, ⟨hstored, startedAt, hstoredGet⟩, ?_⟩⟩
    exact if_pos hlast
  · have hall : k + 1 = parts.length := by omega
    have hdropped := @InFlight.dropBuffer _ groups bytes groupId
      (groupBuffer parts (k + 1) startedAt) hstored hstoredGet hnew
    refine ⟨_, .inr ⟨hall, hdropped, ?_⟩⟩
    rw [if_neg (by exact hlast)]
    refine Prod.ext rfl ?_
    rw [hall]
    exact complete_holds (holds_groupBuffer startedAt) (fun j hj => hj) hproper hpayload

end

end Reassembler

end Fumie.AgentHost
