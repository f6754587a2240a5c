import Fumie.AgentHost.WebPubSub.RoundTrip
import Mathlib.Data.Rat.Floor

/-!
# Bounds of chunk envelopes

The ceiling may be any finite number, so it is a rational here; where a payload does not
fit one frame the ceiling is below `2^53` and the arithmetic of the source is exact. An
envelope is as long as the widest empty one and its digits, since no sequence field takes
more places than the widest one's.
-/

namespace Fumie.AgentHost

open Fumie.Lib JsonValue
open Fumie.Base

inductive ChunkFailure where
  | maxChunkBytesNotPositive (maxChunkBytes : ℚ)
  | notSerialisable
  | payloadTooLong (bytes : Nat)
  | emptyGroupId
  | noQuantum (maxChunkBytes : ℚ) (overhead : Nat)
  | tooManyChunks (total : Nat)

def chunkWithin (payload : Option JsonValue) (maxChunkBytes : ℚ) (newGroupId : JsString) :
    Except ChunkFailure (List ChunkEnvelope) :=
  if maxChunkBytes ≤ 0 then .error (.maxChunkBytesNotPositive maxChunkBytes)
  else
    match payload with
    | none => .error .notSerialisable
    | some payload =>
      let rawBytes := utf8Encode payload.stringify
      if rawBytes.length > DEFAULT_MAX_REASSEMBLY_BYTES then
        .error (.payloadTooLong rawBytes.length)
      else if (byteLength (ChunkEnvelope.message payload).toJson : ℚ) ≤ maxChunkBytes then
        .ok [.message payload]
      else if newGroupId.isEmpty then .error .emptyGroupId
      else
        let overhead := byteLength (ChunkEnvelope.chunk newGroupId
          (DEFAULT_MAX_SEGMENTS_PER_GROUP - 1) DEFAULT_MAX_SEGMENTS_PER_GROUP []).toJson
        let encodedBudget := ⌊(maxChunkBytes - overhead) / 4⌋ * 4
        if encodedBudget < 4 then .error (.noQuantum maxChunkBytes overhead)
        else
          let rawBudget := (encodedBudget / 4 * 3).toNat
          let total := (rawBytes.length + rawBudget - 1) / rawBudget
          if total > DEFAULT_MAX_SEGMENTS_PER_GROUP then .error (.tooManyChunks total)
          else
            .ok ((slices rawBytes rawBudget total).zipIdx.map fun slice =>
              .chunk newGroupId slice.2 total (encodeBase64 slice.1))

/-! ## Lengths of texts -/

def encodedLength (text : List Char) : Nat := (utf8Encode text).length

theorem encodedLength_append (text more : List Char) :
    encodedLength (text ++ more) = encodedLength text + encodedLength more := by
  unfold encodedLength utf8Encode
  rw [List.flatMap_append, List.length_append]

theorem encodedLength_cons (c : Char) (text : List Char) :
    encodedLength (c :: text) = c.utf8Size + encodedLength text := by
  rw [← String.length_utf8EncodeChar, ← List.flatMap_singleton String.utf8EncodeChar c]
  exact encodedLength_append [c] text

theorem encodedLength_ascii {text : List Char} (h : ∀ c ∈ text, c.toNat < 0x80) :
    encodedLength text = text.length := by
  induction text with
  | nil => rfl
  | cons c rest ih =>
    have hc : c.utf8Size = 1 := by
      have hlt := h c List.mem_cons_self
      unfold Char.utf8Size
      rw [if_pos (by rw [UInt32.le_iff_toNat_le]; exact Nat.le_of_lt_succ hlt)]
    rw [encodedLength_cons, hc, ih fun c hc => h c (List.mem_cons_of_mem _ hc), List.length_cons,
      Nat.add_comm]

theorem encodedLength_digits {n k : Nat} (hk : 0 < k) (h : n < 10 ^ k) :
    encodedLength (Nat.toDigits 10 n) ≤ k := by
  rw [encodedLength_ascii fun c hc => ?_]
  · exact (Nat.length_toDigits_le_iff (by decide) hk).mpr h
  · have hdigit := Nat.isDigit_of_mem_toDigits (by decide) (by decide) hc
    unfold Char.isDigit at hdigit
    rw [Bool.and_eq_true, decide_eq_true_iff, decide_eq_true_iff, UInt32.le_iff_toNat_le] at hdigit
    exact Nat.lt_of_le_of_lt hdigit.2 (by decide)

def IsPlain (u : CodeUnit) : Prop := 0x23 ≤ u.val ∧ u.val < 0x80 ∧ u.val ≠ 0x5C

theorem quoteUnit_plain {u : CodeUnit} (h : IsPlain u) : quoteUnit u = [Char.ofNat u.val] := by
  obtain ⟨hlow, hhigh, hslash⟩ := h
  have hsurrogates : (isHighSurrogate u || isLowSurrogate u) = false := by
    unfold isHighSurrogate isLowSurrogate
    rw [Bool.or_eq_false_iff, Bool.and_eq_false_iff, Bool.and_eq_false_iff]
    exact ⟨.inl (decide_eq_false (by omega)), .inl (decide_eq_false (by omega))⟩
  unfold quoteUnit
  rw [if_neg (by omega), if_neg hslash, if_neg (by omega), if_neg (by omega), if_neg (by omega),
    if_neg (by omega), if_neg (by omega), Bool.or_assoc, hsurrogates, Bool.or_false,
    decide_eq_false (by omega), if_neg Bool.false_ne_true]

theorem quoteUnits_plain {s : JsString} (h : ∀ u ∈ s, IsPlain u) :
    quoteUnits s = s.map fun u => Char.ofNat u.val := by
  induction s with
  | nil => rfl
  | cons u rest ih =>
    have hu := h u List.mem_cons_self
    have hrest := ih fun v hv => h v (List.mem_cons_of_mem _ hv)
    cases rest with
    | nil => exact quoteUnit_plain hu
    | cons v rest =>
      have hhigh : isHighSurrogate u = false := by
        unfold isHighSurrogate
        rw [Bool.and_eq_false_iff]
        exact .inl (decide_eq_false (by have := hu.2.1; omega))
      unfold quoteUnits
      rw [hhigh, Bool.false_and, if_neg Bool.false_ne_true, hrest, quoteUnit_plain hu]
      rfl

theorem encodedLength_quote {s : JsString} (h : ∀ u ∈ s, IsPlain u) :
    encodedLength (quote s) = s.length + 2 := by
  unfold quote
  rw [quoteUnits_plain h, encodedLength_ascii fun c hc => ?_]
  · rw [List.length_append, List.length_cons, List.length_map]
    rfl
  · rcases List.mem_append.mp hc with hc | hc
    · rcases List.mem_cons.mp hc with rfl | hc
      · decide
      · obtain ⟨u, hu, rfl⟩ := List.mem_map.mp hc
        have hlt := (h u hu).2.1
        rw [toNat_ofNat_of_lt (by omega)]
        exact hlt
    · rw [List.mem_singleton.mp hc]
      decide

/-! ## base64 -/

theorem isPlain_digit : ∀ n < 64, IsPlain (base64Digit n) := by
  unfold IsPlain
  decide +kernel

theorem isPlain_encodeBase64 {bytes : Bytes} {u : CodeUnit} (h : u ∈ encodeBase64 bytes) :
    IsPlain u := by
  have hpad : IsPlain 61 := by
    unfold IsPlain
    decide
  fun_induction encodeBase64 bytes with
  | case1 a b c rest ih =>
    simp only [List.mem_cons] at h
    rcases h with rfl | rfl | rfl | rfl | h
    · exact isPlain_digit _ (high_bits a)
    · exact isPlain_digit _ (and_63_lt _)
    · exact isPlain_digit _ (and_63_lt _)
    · exact isPlain_digit _ (and_63_lt _)
    · exact ih h
  | case2 a b =>
    simp only [List.mem_cons, List.not_mem_nil, or_false] at h
    rcases h with rfl | rfl | rfl | rfl
    · exact isPlain_digit _ (high_bits a)
    · exact isPlain_digit _ (and_63_lt _)
    · exact isPlain_digit _ (and_63_lt _)
    · exact hpad
  | case3 a =>
    simp only [List.mem_cons, List.not_mem_nil, or_false] at h
    rcases h with rfl | rfl | rfl | rfl
    · exact isPlain_digit _ (high_bits a)
    · exact isPlain_digit _ (and_63_lt _)
    · exact hpad
    · exact hpad
  | case4 => exact absurd h List.not_mem_nil

theorem length_encodeBase64 (bytes : Bytes) :
    (encodeBase64 bytes).length = (bytes.length + 2) / 3 * 4 := by
  fun_induction encodeBase64 bytes with
  | case1 a b c rest ih =>
    simp only [List.length_cons, ih]
    omega
  | case2 a b =>
    simp only [List.length_cons, List.length_nil]
  | case3 a =>
    simp only [List.length_cons, List.length_nil]
  | case4 => rfl

/-! ## Envelopes -/

variable (groupId : JsString)

theorem byteLength_chunk (seq total seq' total' : Nat) (bytes : JsString) :
    byteLength (ChunkEnvelope.chunk groupId seq total bytes).toJson +
        (encodedLength (Nat.toDigits 10 seq') + encodedLength (Nat.toDigits 10 total') +
          encodedLength (quote [])) =
      byteLength (ChunkEnvelope.chunk groupId seq' total' []).toJson +
        (encodedLength (Nat.toDigits 10 seq) + encodedLength (Nat.toDigits 10 total) +
          encodedLength (quote bytes)) := by
  have hlength (value : JsonValue) : byteLength value = encodedLength value.stringify := rfl
  have hnumber (n : Nat) : printNumber (.integer n) = Nat.toDigits 10 n := rfl
  rw [hlength, hlength]
  simp only [ChunkEnvelope.toJson, JsonValue.stringify, stringifyEntries, hnumber,
    encodedLength_cons, encodedLength_append]
  omega

theorem byteLength_chunk_le {seq total : Nat} (hseq : seq < total)
    (htotal : total ≤ DEFAULT_MAX_SEGMENTS_PER_GROUP) (bytes : Bytes) :
    byteLength (ChunkEnvelope.chunk groupId seq total (encodeBase64 bytes)).toJson ≤
      byteLength (ChunkEnvelope.chunk groupId (DEFAULT_MAX_SEGMENTS_PER_GROUP - 1)
        DEFAULT_MAX_SEGMENTS_PER_GROUP []).toJson + (bytes.length + 2) / 3 * 4 := by
  have hsame := byteLength_chunk groupId seq total (DEFAULT_MAX_SEGMENTS_PER_GROUP - 1)
    DEFAULT_MAX_SEGMENTS_PER_GROUP (encodeBase64 bytes)
  have hwide : encodedLength (Nat.toDigits 10 (DEFAULT_MAX_SEGMENTS_PER_GROUP - 1)) = 4 ∧
      encodedLength (Nat.toDigits 10 DEFAULT_MAX_SEGMENTS_PER_GROUP) = 4 := by decide
  have hbound : DEFAULT_MAX_SEGMENTS_PER_GROUP < 10 ^ 4 := by decide
  have hseqDigits : encodedLength (Nat.toDigits 10 seq) ≤ 4 :=
    encodedLength_digits (by decide) (by omega)
  have htotalDigits : encodedLength (Nat.toDigits 10 total) ≤ 4 :=
    encodedLength_digits (by decide) (by omega)
  rw [encodedLength_quote fun u hu => isPlain_encodeBase64 hu,
    encodedLength_quote fun u hu => absurd hu List.not_mem_nil, length_encodeBase64] at hsame
  simp only [List.length_nil] at hsame
  omega

/-! ## What `chunk` gives -/

structure SlicedWithin (payload : JsonValue) (ceiling : ℚ) (groupId : JsString)
    (envelopes : List ChunkEnvelope) (parts : List Bytes) : Prop where
  parts_pos : 1 ≤ parts.length
  parts_le : parts.length ≤ DEFAULT_MAX_SEGMENTS_PER_GROUP
  whole : parts.flatten = utf8Encode payload.stringify
  nonempty : ∀ part ∈ parts, part ≠ []
  envelopes_eq : envelopes = parts.zipIdx.map fun part =>
    .chunk groupId part.2 parts.length (encodeBase64 part.1)
  fits : ∀ envelope ∈ envelopes, (byteLength envelope.toJson : ℚ) ≤ ceiling

theorem mem_slices {rawBytes part : Bytes} {rawBudget n : Nat}
    (h : part ∈ slices rawBytes rawBudget n) :
    part.length ≤ rawBudget ∧ ((n - 1) * rawBudget < rawBytes.length → 0 < rawBudget → part ≠ []) := by
  obtain ⟨i, hi, rfl⟩ := List.mem_map.mp h
  have hlt := List.mem_range.mp hi
  refine ⟨?_, fun hlast hpos => ?_⟩
  · rw [List.length_take]
    exact Nat.min_le_left _ _
  · have hle : i * rawBudget ≤ (n - 1) * rawBudget := Nat.mul_le_mul_right _ (by omega)
    refine List.ne_nil_of_length_pos ?_
    rw [List.length_take, List.length_drop]
    omega

variable {newGroupId : JsString}

variable {maxChunkBytes : ℚ}

theorem slicedWithin_of {data : JsonValue} {rawBytes : Bytes}
    (hraw : rawBytes = utf8Encode data.stringify) {quanta total : Nat} (hquanta : 0 < quanta)
    (hfits : (byteLength (ChunkEnvelope.chunk newGroupId (DEFAULT_MAX_SEGMENTS_PER_GROUP - 1)
      DEFAULT_MAX_SEGMENTS_PER_GROUP []).toJson : ℚ) + (quanta * 4 : Nat) ≤ maxChunkBytes)
    (htotal : total = (rawBytes.length + quanta * 3 - 1) / (quanta * 3))
    (hmany : total ≤ DEFAULT_MAX_SEGMENTS_PER_GROUP) :
    SlicedWithin data maxChunkBytes newGroupId
      ((slices rawBytes (quanta * 3) total).zipIdx.map fun slice =>
        .chunk newGroupId slice.2 total (encodeBase64 slice.1))
      (slices rawBytes (quanta * 3) total) := by
  have hrawPos : 0 < rawBytes.length := by
    rw [hraw]
    refine List.length_pos_iff.mpr (utf8Encode_ne_nil fun hnil => ?_)
    have hpos := stringify_length_pos data
    rw [hnil] at hpos
    exact Nat.lt_irrefl _ hpos
  have hbudget : 0 < quanta * 3 := by omega
  have hdiv := Nat.div_add_mod (rawBytes.length + quanta * 3 - 1) (quanta * 3)
  have hmod := Nat.mod_lt (rawBytes.length + quanta * 3 - 1) hbudget
  rw [← htotal, Nat.mul_comm] at hdiv
  have htotalPos : 1 ≤ total := by
    refine Nat.one_le_iff_ne_zero.mpr fun hzero => ?_
    rw [hzero, Nat.zero_mul] at hdiv
    omega
  have hlast : (total - 1) * (quanta * 3) < rawBytes.length := by
    rw [Nat.sub_mul]
    omega
  have hlength := length_slices rawBytes (quanta * 3) total
  refine ⟨?_, ?_, ?_, fun part hpart => ?_, ?_, fun envelope henvelope => ?_⟩
  · rw [hlength]
    exact htotalPos
  · rw [hlength]
    exact hmany
  · rw [flatten_slices, List.take_of_length_le (by omega), hraw]
  · exact (mem_slices hpart).2 hlast hbudget
  · rw [hlength]
  · obtain ⟨part, hpart, rfl⟩ := List.mem_map.mp henvelope
    obtain ⟨hseq, hmem⟩ : part.2 < total ∧ part.1 ∈ slices rawBytes (quanta * 3) total := by
      obtain ⟨-, hlt, hget⟩ := List.mem_zipIdx hpart
      rw [Nat.zero_add, hlength] at hlt
      exact ⟨hlt, hget ▸ List.getElem_mem _⟩
    have hle := byteLength_chunk_le newGroupId hseq hmany part.1
    have hpartLength := (mem_slices hmem).1
    refine le_trans ?_ hfits
    rw [← Nat.cast_add]
    exact Nat.cast_le.mpr (hle.trans (Nat.add_le_add_left (by omega) _))

theorem chunkWithin_cases {payload : Option JsonValue} {envelopes : List ChunkEnvelope}
    (h : chunkWithin payload maxChunkBytes newGroupId = .ok envelopes) :
    ∃ data, payload = some data ∧
      ((envelopes = [.message data] ∧
          (byteLength (ChunkEnvelope.message data).toJson : ℚ) ≤ maxChunkBytes) ∨
        ∃ parts, SlicedWithin data maxChunkBytes newGroupId envelopes parts) := by
  unfold chunkWithin at h
  split at h
  · cases h
  · cases payload with
    | none => cases h
    | some data =>
      refine ⟨data, rfl, ?_⟩
      dsimp only at h
      split_ifs at h with hlong hsingle hid hquantum hmany
      · cases h
        exact .inl ⟨rfl, hsingle⟩
      · right
        obtain ⟨quanta, hquanta⟩ : ∃ n : Nat, (n : Int) = ⌊(maxChunkBytes -
            byteLength (ChunkEnvelope.chunk newGroupId (DEFAULT_MAX_SEGMENTS_PER_GROUP - 1)
              DEFAULT_MAX_SEGMENTS_PER_GROUP []).toJson) / 4⌋ :=
          ⟨_, Int.toNat_of_nonneg (by omega)⟩
        rw [← hquanta] at h hquantum hmany
        have hbudget : ((quanta : Int) * 4 / 4 * 3).toNat = quanta * 3 := by omega
        rw [hbudget] at h hmany
        cases h
        refine ⟨_, slicedWithin_of rfl (by omega) ?_ rfl (Nat.le_of_not_gt hmany)⟩
        have hfloor := Int.floor_le ((maxChunkBytes -
          byteLength (ChunkEnvelope.chunk newGroupId (DEFAULT_MAX_SEGMENTS_PER_GROUP - 1)
            DEFAULT_MAX_SEGMENTS_PER_GROUP []).toJson) / 4)
        rw [← hquanta] at hfloor
        push_cast at hfloor ⊢
        linarith

theorem chunkWithin_bounds {payload : Option JsonValue} {maxChunkBytes : ℚ}
    {newGroupId : JsString} {envelopes : List ChunkEnvelope}
    (h : chunkWithin payload maxChunkBytes newGroupId = .ok envelopes) :
    ∃ data, payload = some data ∧
      (∀ envelope ∈ envelopes, (byteLength envelope.toJson : ℚ) ≤ maxChunkBytes) ∧
      (envelopes = [.message data] ∨
        ∃ parts : List Bytes, 1 ≤ parts.length ∧ parts.length ≤ DEFAULT_MAX_SEGMENTS_PER_GROUP ∧
          (∀ part ∈ parts, part ≠ []) ∧ parts.flatten = utf8Encode data.stringify ∧
          envelopes.length = parts.length ∧
          ∀ (seq : Nat) part, parts[seq]? = some part → ∃ bytes,
            envelopes[seq]? = some (ChunkEnvelope.chunk newGroupId seq parts.length bytes) ∧
              decodeBase64 bytes = some part) := by
  obtain ⟨data, rfl, ⟨rfl, hfits⟩ | ⟨parts, hsliced⟩⟩ := chunkWithin_cases h
  · refine ⟨data, rfl, fun envelope henvelope => ?_, .inl rfl⟩
    rw [List.mem_singleton.mp henvelope]
    exact hfits
  · refine ⟨data, rfl, hsliced.fits, .inr ⟨parts, hsliced.parts_pos, hsliced.parts_le,
      hsliced.nonempty, hsliced.whole, ?_, fun seq part hpart => ?_⟩⟩
    · rw [hsliced.envelopes_eq, List.length_map, List.length_zipIdx]
    · refine ⟨encodeBase64 part, ?_, decodeBase64_encodeBase64 part⟩
      rw [hsliced.envelopes_eq, List.getElem?_map, List.getElem?_zipIdx, hpart]
      show some (ChunkEnvelope.chunk newGroupId (0 + seq) parts.length (encodeBase64 part)) = _
      rw [Nat.zero_add]

/-- A string of a hundred letters under a ceiling of 100.5 bytes. -/
theorem chunkWithin_bounds_sample : ∃ envelopes : List ChunkEnvelope, envelopes.length = 5 ∧
    ∀ envelope ∈ envelopes, (byteLength envelope.toJson : ℚ) ≤ 201 / 2 := by
  have hsplit : ((chunkWithin (some (.string (List.replicate 100 97))) (201 / 2) [103]).toOption.map
      List.length) = some 5 := by
    decide +kernel
  obtain ⟨envelopes, hchunk, hlength⟩ := Option.map_eq_some_iff.mp hsplit
  cases hresult : chunkWithin (some (.string (List.replicate 100 97))) (201 / 2) [103] with
  | error failure =>
    rw [hresult] at hchunk
    cases hchunk
  | ok envelopes' =>
    rw [hresult] at hchunk
    cases hchunk
    obtain ⟨_, -, hfits, -⟩ := chunkWithin_bounds hresult
    exact ⟨envelopes, hlength, hfits⟩

end Fumie.AgentHost
