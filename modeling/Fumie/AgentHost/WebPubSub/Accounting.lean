import Fumie.AgentHost.WebPubSub.Chunking
import Fumie.Lib.RecordSum

/-!
# Accounting of the reassembler

The counter of retained bytes is updated where a segment is stored and where a buffer is
dropped. `Counted` says that it agrees with the buffers and that every ceiling holds;
storing a segment keeps it because the ceilings are tested first, and dropping a buffer
keeps it because the buffer's own count is what is subtracted. `Accounted` adds that no
buffer is complete. In the middle of an `ingest` only `Counted` holds, and the completed
buffer is the one that is dropped.
-/

namespace Fumie.AgentHost

open Fumie.Lib List JsString Option Record
open Fumie.Base

def ReassemblyBuffer.bytes (buffer : ReassemblyBuffer) : Nat := buffer.segments.sumOf length

structure ReassemblyBuffer.Counted (maxBufferBytes : Nat) (buffer : ReassemblyBuffer) :
    Prop where
  bytes : buffer.accumulatedBytes = buffer.bytes
  segments : buffer.received = buffer.segments.entries.length
  ceiling : buffer.bytes ≤ maxBufferBytes

variable {decoded : Bytes}

theorem ReassemblyBuffer.Counted.addSegment {max seq : Nat} {buffer : ReassemblyBuffer}
    (h : buffer.Counted max) (hnew : buffer.segments.get seq = none)
    (hmax : buffer.accumulatedBytes + decoded.length ≤ max) :
    (Reassembler.addSegment buffer seq decoded).Counted max ∧
      (Reassembler.addSegment buffer seq decoded).bytes = buffer.bytes + decoded.length := by
  have hbytes : (Reassembler.addSegment buffer seq decoded).bytes =
      buffer.bytes + decoded.length := sumOf_set_of_none _ _ hnew
  have hcount := h.bytes
  refine ⟨⟨?_, ?_, ?_⟩, hbytes⟩
  · rw [hbytes, ← hcount]
    rfl
  · show buffer.received + 1 = (buffer.segments.set seq decoded).entries.length
    rw [length_set_of_none _ hnew, h.segments]
  · omega

variable (options : ReassemblerOptions)

namespace Reassembler

def bufferedBytes (r : Reassembler) : Nat := r.buffers.sumOf ReassemblyBuffer.bytes

def groupBytes (r : Reassembler) (groupId : JsString) : Nat :=
  match r.buffers.get groupId with
  | none => 0
  | some buffer => buffer.bytes

structure Counted (r : Reassembler) : Prop where
  bytes : r.inFlightBytes = r.bufferedBytes
  buffers : ∀ groupId buffer, r.buffers.get groupId = some buffer → buffer.Counted r.maxBufferBytes
  groups : r.inFlightGroupCount ≤ r.maxConcurrentGroups
  ceiling : r.inFlightBytes ≤ r.maxTotalBufferBytes

/-- The counters agree with the buffers, no ceiling is exceeded, and every group in flight
still misses a segment. -/
structure Accounted (r : Reassembler) : Prop extends Counted r where
  incomplete : ∀ groupId buffer, r.buffers.get groupId = some buffer →
    buffer.segments.entries.length < buffer.total

def OthersKept (groupId : JsString) (r r' : Reassembler) : Prop :=
  ∀ other, other ≠ groupId → r'.buffers.get other = r.buffers.get other

def SameOptions (r r' : Reassembler) : Prop :=
  r'.timeoutMs = r.timeoutMs ∧ r'.maxBufferBytes = r.maxBufferBytes ∧
    r'.maxTotalBufferBytes = r.maxTotalBufferBytes ∧
    r'.maxConcurrentGroups = r.maxConcurrentGroups ∧
    r'.maxSegmentsPerGroup = r.maxSegmentsPerGroup

variable {r : Reassembler}

/-! ## Dropping a buffer -/

theorem dropBuffer_sameOptions (r : Reassembler) (groupId : JsString) :
    SameOptions r (r.dropBuffer groupId) := by
  unfold dropBuffer
  split
  · exact ⟨rfl, rfl, rfl, rfl, rfl⟩
  · exact ⟨rfl, rfl, rfl, rfl, rfl⟩

theorem get_dropBuffer (r : Reassembler) (groupId other : JsString) :
    (r.dropBuffer groupId).buffers.get other =
      if groupId = other then none else r.buffers.get other := by
  unfold dropBuffer
  cases hget : r.buffers.get groupId with
  | none =>
    by_cases h : groupId = other
    · subst h
      rw [if_pos rfl]
      exact hget
    · rw [if_neg h]
  | some buffer => exact get_delete _ _ _

theorem dropBuffer_inFlightBytes (h : r.Counted) (groupId : JsString) :
    (r.dropBuffer groupId).inFlightBytes = r.inFlightBytes - r.groupBytes groupId := by
  unfold dropBuffer groupBytes
  cases hget : r.buffers.get groupId with
  | none => simp
  | some buffer =>
    show r.accumulatedBytes - _ = r.accumulatedBytes - _
    rw [(h.buffers groupId buffer hget).bytes]

theorem dropBuffer_bufferedBytes (r : Reassembler) (groupId : JsString) :
    (r.dropBuffer groupId).bufferedBytes + r.groupBytes groupId = r.bufferedBytes := by
  unfold dropBuffer groupBytes
  cases hget : r.buffers.get groupId with
  | none => rfl
  | some buffer => exact sumOf_delete _ hget

theorem Counted.dropBuffer (h : r.Counted) (groupId : JsString) :
    (r.dropBuffer groupId).Counted := by
  obtain ⟨-, hmax, hmaxTotal, hmaxGroups, -⟩ := dropBuffer_sameOptions r groupId
  have hbytes := h.bytes
  have hdrop := dropBuffer_inFlightBytes h groupId
  have hsum := dropBuffer_bufferedBytes r groupId
  refine ⟨by omega, fun other buffer hother => ?_, ?_, ?_⟩
  · rw [get_dropBuffer] at hother
    obtain ⟨-, hother⟩ := ite_none_left_eq_some.mp hother
    rw [hmax]
    exact h.buffers other buffer hother
  · rw [hmaxGroups]
    refine Nat.le_trans ?_ h.groups
    unfold Reassembler.dropBuffer
    split
    · exact Nat.le_refl _
    · exact length_delete_le _ _
  · rw [hmaxTotal]
    have := h.ceiling
    omega

theorem Accounted.dropBuffer (h : r.Accounted) (groupId : JsString) :
    (r.dropBuffer groupId).Accounted := by
  refine ⟨h.toCounted.dropBuffer groupId, fun other buffer hother => ?_⟩
  rw [get_dropBuffer] at hother
  exact h.incomplete other buffer (ite_none_left_eq_some.mp hother).2

theorem othersKept_dropBuffer (r : Reassembler) (groupId : JsString) :
    OthersKept groupId r (r.dropBuffer groupId) := by
  intro other hother
  rw [get_dropBuffer, if_neg (Ne.symm hother)]

/-! ## Taking a segment -/

inductive Outcome (groupId : JsString) (r : Reassembler) :
    Reassembler × Except ChunkingError JsonValue → Prop where
  | pending {r' : Reassembler} (added : Nat) (kept : OthersKept groupId r r')
      (inFlight : (r'.buffers.get groupId).isSome)
      (bytes : r'.inFlightBytes = r.inFlightBytes + added)
      (group : r'.groupBytes groupId = r.groupBytes groupId + added) :
      Outcome groupId r (r', .ok .null)
  | dropped {r' : Reassembler} {result : Except ChunkingError JsonValue}
      (kept : OthersKept groupId r r') (gone : r'.buffers.get groupId = none)
      (bytes : r'.inFlightBytes = r.inFlightBytes - r.groupBytes groupId) :
      Outcome groupId r (r', result)

theorem Outcome.kept {groupId : JsString} {out : Reassembler × Except ChunkingError JsonValue}
    (h : Outcome groupId r out) : OthersKept groupId r out.1 := by
  cases h with
  | pending _ kept _ _ _ | dropped kept _ _ => exact kept

structure Opened (r : Reassembler) (f : ChunkFields) (buffer : ReassemblyBuffer)
    (r' : Reassembler) : Prop where
  accounted : r'.Accounted
  get : r'.buffers.get f.groupId = some buffer
  total : buffer.total = f.total
  kept : OthersKept f.groupId r r'
  bytes : r'.inFlightBytes = r.inFlightBytes
  group : r'.groupBytes f.groupId = r.groupBytes f.groupId

variable {buffer : ReassemblyBuffer} {groupId : JsString}

theorem groupBytes_of_get (h : r.buffers.get groupId = some buffer) :
    r.groupBytes groupId = buffer.bytes := by
  unfold groupBytes
  rw [h]

theorem groupBytes_of_none (h : r.buffers.get groupId = none) : r.groupBytes groupId = 0 := by
  unfold groupBytes
  rw [h]

variable {f : ChunkFields}

theorem Accounted.newBuffer (h : r.Accounted) {now : Int} (hnone : r.buffers.get f.groupId = none)
    (hroom : r.inFlightGroupCount < r.maxConcurrentGroups) (htotal : 0 < f.total) :
    Opened r f ⟨f.total, 0, .empty, 0, now⟩
      { r with buffers := r.buffers.set f.groupId ⟨f.total, 0, .empty, 0, now⟩ } := by
  have hget : ∀ other, (r.buffers.set f.groupId ⟨f.total, 0, .empty, 0, now⟩).get other =
      if f.groupId = other then some ⟨f.total, 0, .empty, 0, now⟩ else r.buffers.get other :=
    fun other => get_set _ _ _ _
  have hself := (hget f.groupId).trans (if_pos rfl)
  refine ⟨⟨⟨?_, ?_, ?_, h.ceiling⟩, ?_⟩, hself, rfl, ?_, rfl, ?_⟩
  · refine h.bytes.trans (congrArg Int.ofNat ?_)
    exact (sumOf_set_of_none ReassemblyBuffer.bytes ⟨f.total, 0, .empty, 0, now⟩ hnone).symm
  · intro other buffer hother
    rw [hget] at hother
    split at hother
    · cases hother
      exact ⟨rfl, rfl, Nat.zero_le _⟩
    · exact h.buffers other buffer hother
  · show (r.buffers.set _ _).entries.length ≤ _
    rw [length_set_of_none _ hnone]
    exact hroom
  · intro other buffer hother
    rw [hget] at hother
    split at hother
    · cases hother
      exact htotal
    · exact h.incomplete other buffer hother
  · intro other hother
    rw [hget, if_neg (Ne.symm hother)]
  · rw [groupBytes_of_none hnone, groupBytes_of_get hself]
    rfl

theorem openBuffer_spec (h : r.Accounted) (htotal : 0 < f.total) (now : Int) :
    match r.openBuffer f now with
    | (r', .ok buffer) => Opened r f buffer r' ∧ SameOptions r r'
    | (r', .error _) => r'.Accounted ∧ SameOptions r r' ∧ OthersKept f.groupId r r' ∧
        r'.buffers.get f.groupId = none ∧
        r'.inFlightBytes = r.inFlightBytes - r.groupBytes f.groupId := by
  have hsame : SameOptions r r := ⟨rfl, rfl, rfl, rfl, rfl⟩
  unfold openBuffer
  cases hget : r.buffers.get f.groupId with
  | none =>
    by_cases hroom : r.inFlightGroupCount ≥ r.maxConcurrentGroups
    · simp only [if_pos hroom]
      refine ⟨h, hsame, fun _ _ => rfl, hget, ?_⟩
      rw [groupBytes_of_none hget]
      simp
    · simp only [if_neg hroom]
      exact ⟨h.newBuffer hget (Nat.lt_of_not_le hroom) htotal, hsame⟩
  | some buffer =>
    by_cases hmismatch : buffer.total ≠ f.total
    · simp only [if_pos hmismatch]
      exact ⟨h.dropBuffer _, dropBuffer_sameOptions _ _, othersKept_dropBuffer _ _,
        by rw [get_dropBuffer, if_pos rfl], dropBuffer_inFlightBytes h.toCounted _⟩
    · simp only [if_neg hmismatch]
      exact ⟨⟨h, hget, Decidable.not_not.mp hmismatch, fun _ _ => rfl, rfl, rfl⟩, hsame⟩

theorem segment_ok {seq : Nat} (h : r.segment f buffer = .ok (seq, decoded)) :
    seq < f.total ∧ buffer.segments.get seq = none ∧
      buffer.accumulatedBytes + decoded.length ≤ r.maxBufferBytes ∧
      r.accumulatedBytes + decoded.length ≤ r.maxTotalBufferBytes := by
  unfold segment at h
  split at h
  · cases h
  · rename_i n hseq
    split_ifs at h with hdup hcanonical
    split at h
    · cases h
    · rename_i bytes hbytes
      split_ifs at h with hmax htotal
      obtain ⟨rfl, rfl⟩ := Prod.mk.inj (Except.ok.inj h)
      refine ⟨?_, ?_, Nat.le_of_not_lt hmax, Int.not_lt.mp htotal⟩
      · unfold seqInRange? at hseq
        split at hseq
        · obtain ⟨hlt, heq⟩ := ite_none_right_eq_some.mp hseq
          cases heq
          exact hlt
        · cases hseq
      · simpa using hdup

structure Stored (r : Reassembler) (groupId : JsString) (buffer : ReassemblyBuffer)
    (added : Nat) (r' : Reassembler) : Prop where
  counted : r'.Counted
  get : r'.buffers.get groupId = some buffer
  kept : OthersKept groupId r r'
  bytes : r'.inFlightBytes = r.inFlightBytes + added
  group : r'.groupBytes groupId = r.groupBytes groupId + added

theorem Counted.store (h : r.Counted) {seq : Nat} (hget : r.buffers.get groupId = some buffer)
    (hnew : buffer.segments.get seq = none)
    (hmax : buffer.accumulatedBytes + decoded.length ≤ r.maxBufferBytes)
    (htotal : r.accumulatedBytes + decoded.length ≤ r.maxTotalBufferBytes) :
    Stored r groupId (addSegment buffer seq decoded) decoded.length
      { r with
        buffers := r.buffers.set groupId (addSegment buffer seq decoded)
        accumulatedBytes := r.accumulatedBytes + decoded.length } := by
  obtain ⟨hcounted, hbytes⟩ := (h.buffers groupId buffer hget).addSegment hnew hmax
  have hgetset : ∀ other, (r.buffers.set groupId (addSegment buffer seq decoded)).get other =
      if groupId = other then some (addSegment buffer seq decoded) else r.buffers.get other :=
    fun other => get_set _ _ _ _
  have hself := (hgetset groupId).trans (if_pos rfl)
  refine ⟨⟨?_, ?_, ?_, htotal⟩, hself, ?_, rfl, ?_⟩
  · show r.accumulatedBytes + decoded.length =
      ((r.buffers.set groupId (addSegment buffer seq decoded)).sumOf ReassemblyBuffer.bytes : Nat)
    have hsum := sumOf_set ReassemblyBuffer.bytes (addSegment buffer seq decoded) hget
    have hr : r.accumulatedBytes = (r.buffers.sumOf ReassemblyBuffer.bytes : Nat) := h.bytes
    omega
  · intro other b hother
    rw [hgetset] at hother
    split at hother
    · cases hother
      exact hcounted
    · exact h.buffers other b hother
  · show (r.buffers.set _ _).entries.length ≤ _
    rw [length_set _ hget]
    exact h.groups
  · intro other hother
    rw [hgetset, if_neg (Ne.symm hother)]
  · rw [groupBytes_of_get hself, groupBytes_of_get hget, hbytes]

theorem ingestChunk_spec (h : r.Accounted) (htotal : 0 < f.total) (now : Int) :
    (r.ingestChunk f now).1.Accounted ∧ SameOptions r (r.ingestChunk f now).1 ∧
      Outcome f.groupId r (r.ingestChunk f now) := by
  have hopen := openBuffer_spec h htotal now
  unfold ingestChunk
  rcases hr₁ : r.openBuffer f now with ⟨r₁, e | buffer⟩
  · rw [hr₁] at hopen
    obtain ⟨haccounted, hsame, hkept, hgone, hbytes⟩ := hopen
    exact ⟨haccounted, hsame, .dropped hkept hgone hbytes⟩
  rw [hr₁] at hopen
  obtain ⟨hopen, hsame⟩ := hopen
  have hdropKept : ∀ {r₂ : Reassembler}, OthersKept f.groupId r r₂ →
      OthersKept f.groupId r (r₂.dropBuffer f.groupId) := fun hkept other hother =>
    (othersKept_dropBuffer _ _ other hother).trans (hkept other hother)
  dsimp only
  rcases hseg : r₁.segment f buffer with e | ⟨seq, decoded⟩
  · refine ⟨hopen.accounted.dropBuffer _, ?_, .dropped (hdropKept hopen.kept) ?_ ?_⟩
    · obtain ⟨h₁, h₂, h₃, h₄, h₅⟩ := dropBuffer_sameOptions r₁ f.groupId
      obtain ⟨k₁, k₂, k₃, k₄, k₅⟩ := hsame
      exact ⟨h₁.trans k₁, h₂.trans k₂, h₃.trans k₃, h₄.trans k₄, h₅.trans k₅⟩
    · rw [get_dropBuffer, if_pos rfl]
    · rw [dropBuffer_inFlightBytes hopen.accounted.toCounted, hopen.bytes, hopen.group]
  · obtain ⟨-, hnew, hmax, hceiling⟩ := segment_ok hseg
    have hstored := hopen.accounted.toCounted.store hopen.get hnew hmax hceiling
    obtain ⟨r₂, hr₂⟩ : ∃ r₂ : Reassembler, r₂ = { r₁ with
        buffers := r₁.buffers.set f.groupId (addSegment buffer seq decoded)
        accumulatedBytes := r₁.accumulatedBytes + decoded.length } := ⟨_, rfl⟩
    have hsame₂ : SameOptions r r₂ := by rw [hr₂]; exact hsame
    dsimp only
    rw [← hr₂] at hstored ⊢
    have hkept : OthersKept f.groupId r r₂ := fun other hother =>
      (hstored.kept other hother).trans (hopen.kept other hother)
    split
    · rename_i hincomplete
      refine ⟨⟨hstored.counted, fun other b hother => ?_⟩, hsame₂,
        .pending decoded.length hkept (by rw [hstored.get]; rfl) ?_ ?_⟩
      · by_cases hne : other = f.groupId
        · subst hne
          rw [hstored.get] at hother
          cases hother
          rw [← (hstored.counted.buffers _ _ hstored.get).segments]
          exact hincomplete
        · rw [hstored.kept other hne] at hother
          exact hopen.accounted.incomplete other b hother
      · rw [hstored.bytes, hopen.bytes]
      · rw [hstored.group, hopen.group]
    · refine ⟨⟨hstored.counted.dropBuffer _, fun other b hother => ?_⟩, ?_,
        .dropped (hdropKept hkept) ?_ ?_⟩
      · rw [get_dropBuffer] at hother
        obtain ⟨hne, hother⟩ := ite_none_left_eq_some.mp hother
        rw [hstored.kept other (Ne.symm hne)] at hother
        exact hopen.accounted.incomplete other b hother
      · obtain ⟨h₁, h₂, h₃, h₄, h₅⟩ := dropBuffer_sameOptions r₂ f.groupId
        obtain ⟨k₁, k₂, k₃, k₄, k₅⟩ := hsame₂
        exact ⟨h₁.trans k₁, h₂.trans k₂, h₃.trans k₃, h₄.trans k₄, h₅.trans k₅⟩
      · rw [get_dropBuffer, if_pos rfl]
      · rw [dropBuffer_inFlightBytes hstored.counted, hstored.bytes, hstored.group, hopen.bytes,
          hopen.group]
        push_cast
        omega

theorem chunkFields_ok {envelope : JsonValue} (h : r.chunkFields envelope = .ok f) :
    0 < f.total ∧ envelope.field? (ofString "group_id") = some (.string f.groupId) := by
  unfold chunkFields at h
  split at h
  · cases h
  · rename_i total htotal
    split_ifs at h
    split at h
    · rename_i u groupId hgroup
      split at h
      · cases h
        refine ⟨?_, hgroup⟩
        unfold positiveInteger? at htotal
        split at htotal
        · cases htotal
          exact Nat.succ_pos _
        · cases htotal
      · cases h
    · cases h

theorem ingest_cases (r : Reassembler) (envelope : JsonValue) (now : Int) :
    (r.ingest envelope now).1 = r ∨
      ∃ f, r.chunkFields envelope = .ok f ∧ r.ingest envelope now = r.ingestChunk f now := by
  unfold ingest
  split
  · exact .inl rfl
  · split
    · split_ifs
      · split
        · exact .inl rfl
        · exact .inl rfl
      · cases hf : r.chunkFields _ with
        | error e => exact .inl rfl
        | ok f => exact .inr ⟨f, rfl, rfl⟩
      · exact .inl rfl
    · exact .inl rfl
  · exact .inl rfl

theorem Accounted.ingest (h : r.Accounted) (envelope : JsonValue) (now : Int) :
    (r.ingest envelope now).1.Accounted ∧ SameOptions r (r.ingest envelope now).1 := by
  rcases ingest_cases r envelope now with hsame | ⟨f, hf, hchunk⟩
  · rw [hsame]
    exact ⟨h, rfl, rfl, rfl, rfl, rfl⟩
  · obtain ⟨haccounted, hsame, -⟩ := ingestChunk_spec h (chunkFields_ok hf).1 now
    rw [hchunk]
    exact ⟨haccounted, hsame⟩

theorem Accounted.sweep {r₁ : Reassembler} (h : r₁.Accounted) (hsame : SameOptions r r₁)
    (cutoff : Int) (entries : List (JsString × ReassemblyBuffer)) (dropped : List JsString) :
    let out := entries.foldl
      (fun (r, dropped) entry =>
        if entry.2.startedAt ≤ cutoff then (Reassembler.dropBuffer r entry.1, dropped ++ [entry.1])
        else (r, dropped))
      (r₁, dropped)
    out.1.Accounted ∧ SameOptions r out.1 := by
  induction entries generalizing r₁ dropped with
  | nil => exact ⟨h, hsame⟩
  | cons entry rest ih =>
    rw [foldl_cons]
    dsimp only
    split
    · refine ih (h.dropBuffer _) ?_ _
      obtain ⟨h₁, h₂, h₃, h₄, h₅⟩ := dropBuffer_sameOptions r₁ entry.1
      obtain ⟨k₁, k₂, k₃, k₄, k₅⟩ := hsame
      exact ⟨h₁.trans k₁, h₂.trans k₂, h₃.trans k₃, h₄.trans k₄, h₅.trans k₅⟩
    · exact ih h hsame _

theorem Accounted.sweepExpired (h : r.Accounted) (now : Int) :
    (r.sweepExpired now).1.Accounted ∧ SameOptions r (r.sweepExpired now).1 :=
  h.sweep ⟨rfl, rfl, rfl, rfl, rfl⟩ _ _ _

/-! ## Runs -/

theorem accounted_new : (new options).Accounted :=
  ⟨⟨rfl, nofun, Nat.zero_le _, Int.natCast_nonneg _⟩, nofun⟩

end Reassembler

/-- A call at a reading of the clock. -/
inductive ReassemblerEvent where
  | ingest (envelope : JsonValue) (now : Int)
  | sweepExpired (now : Int)

def Reassembler.after (r : Reassembler) : ReassemblerEvent → Reassembler
  | .ingest envelope now => (r.ingest envelope now).1
  | .sweepExpired now => (r.sweepExpired now).1

def reassembling : System Reassembler ReassemblerEvent :=
  .ofStep (· = .new options) fun r event => some (r.after event)

/-- In every run the byte counter is the sum over the buffers, no ceiling is exceeded, no
buffer is complete, and the next `ingest`, whatever its envelope, changes nothing or only
the group it names: the group is pending with the bytes that were added, or it is gone and
the counter is lower by exactly what it held. -/
theorem reassembler_accounting {options : ReassemblerOptions} {r : Reassembler}
    (hr : (reassembling options).Reachable r) :
    r.Accounted ∧ Reassembler.SameOptions (.new options) r ∧ ∀ envelope now,
      (r.ingest envelope now).1 = r ∨ ∃ groupId,
        envelope.field? (ofString "group_id") = some (.string groupId) ∧
          Reassembler.Outcome groupId r (r.ingest envelope now) := by
  have hinv : r.Accounted ∧ Reassembler.SameOptions (.new options) r := by
    refine @System.ReachableVia.invariant _ _ _ _
      (fun r => r.Accounted ∧ Reassembler.SameOptions (.new options) r) ?_ ?_ _ hr
    · rintro s rfl
      exact ⟨Reassembler.accounted_new options, rfl, rfl, rfl, rfl, rfl⟩
    · rintro s event s' ⟨haccounted, h₁, h₂, h₃, h₄, h₅⟩ - hstep
      cases Option.some.inj hstep
      have hnext : (s.after event).Accounted ∧ Reassembler.SameOptions s (s.after event) := by
        cases event with
        | ingest envelope now => exact haccounted.ingest envelope now
        | sweepExpired now => exact haccounted.sweepExpired now
      obtain ⟨hnext, k₁, k₂, k₃, k₄, k₅⟩ := hnext
      exact ⟨hnext, k₁.trans h₁, k₂.trans h₂, k₃.trans h₃, k₄.trans h₄, k₅.trans h₅⟩
  refine ⟨hinv.1, hinv.2, fun envelope now => ?_⟩
  rcases Reassembler.ingest_cases r envelope now with hsame | ⟨f, hf, hchunk⟩
  · exact .inl hsame
  · obtain ⟨htotal, hgroup⟩ := Reassembler.chunkFields_ok hf
    refine .inr ⟨f.groupId, hgroup, ?_⟩
    rw [hchunk]
    exact (Reassembler.ingestChunk_spec hinv.1 htotal now).2.2

def oneSegment : Reassembler :=
  (Reassembler.new {}).after (.ingest (ChunkEnvelope.chunk [103] 0 2 [81, 85, 74, 68]).toJson 0)

theorem reassembler_accounting_oneSegment : oneSegment.inFlightBytes = 3 ∧ oneSegment.Accounted :=
  ⟨by decide +kernel, (@reassembler_accounting {} _ (.step (.init rfl) trivial rfl)).1⟩

end Fumie.AgentHost
