import Fumie.Base.WebSocketFraming
import Fumie.Lib.Transducer

/-!
# Frames written are read back

`encodeWebSocketFrame` writes a header in one of three lengths and the payload, masked
where the frame is. Behind each written frame the parser goes on with the next one,
wherever the chunks were cut, and masking a second time unmasks.
-/

namespace Fumie.Base

open Fumie.Lib List ItemReader ChunkStream

/-! ## The encoder -/

def WebSocketOpcode.number : WebSocketOpcode → Nat
  | continuation => 0x0
  | text => 0x1
  | binary => 0x2
  | close => 0x8
  | ping => 0x9
  | pong => 0xA

structure WebSocketFrameOptions where
  final : Option Bool
  compressed : Option Bool
  opcode : WebSocketOpcode
  mask : Option Nat

inductive WebSocketEncodeError where
  | frame (error : WebSocketFrameError)
  | maskRange
  deriving DecidableEq

namespace WebSocketEncodeError

def message : WebSocketEncodeError → String
  | frame error => error.message
  | maskRange => "WebSocket masks must be unsigned 32-bit integers."

end WebSocketEncodeError

def validateMask (mask : Option Nat) : Except WebSocketEncodeError Unit :=
  if ∃ m ∈ mask, m > maximum32BitPayloadLength then .error .maskRange else .ok ()

def getHeaderLength (payloadLength : Nat) (masked : Bool) : Except WebSocketFrameError Nat :=
  if payloadLength > maximum32BitPayloadLength then .error .lengthNotSupported
  else if payloadLength < 126 then .ok (2 + if masked then 4 else 0)
  else if payloadLength < 2 ^ 16 then .ok (4 + if masked then 4 else 0)
  else .ok (10 + if masked then 4 else 0)

def flagByte (final compressed : Bool) (opcode : WebSocketOpcode) : Nat :=
  (if final then 0x80 else 0) ||| (if compressed then 0x40 else 0) ||| opcode.number

def lengthBytes (masked : Bool) (payloadLength : Nat) : Bytes :=
  let maskFlag := if masked then 0x80 else 0
  if payloadLength < 126 then [toByte (maskFlag ||| payloadLength : Nat)]
  else if payloadLength < 2 ^ 16 then
    [toByte (maskFlag ||| 126 : Nat), toByte (shiftRightUnsigned payloadLength 8),
      toByte payloadLength]
  else toByte (maskFlag ||| 127 : Nat) :: (writeUInt32BE 0 ++ writeUInt32BE payloadLength)

def encodeWebSocketFrame (payload : Bytes) (options : WebSocketFrameOptions) :
    Except WebSocketEncodeError Bytes :=
  let final := options.final.getD true
  let compressed := options.compressed.getD false
  let flags := flagByte final compressed options.opcode
  ((validateOpcode options.opcode.number).mapError .frame).bind fun _ =>
    (validateMask options.mask).bind fun _ =>
      ((validateFrame flags payload.length).mapError .frame).bind fun _ =>
        ((getHeaderLength payload.length options.mask.isSome).mapError .frame).bind fun _ =>
          let header := toByte flags :: lengthBytes options.mask.isSome payload.length
          match options.mask with
          | none => .ok (header ++ payload)
          | some mask => .ok (header ++ writeUInt32BE mask ++ applyWebSocketMask payload mask)

/-! ## Words -/

variable (a : UInt8) (mask n payloadLength : Nat) (b : UInt8) (opcode : WebSocketOpcode)
  (c d : UInt8)

theorem toNat_toByte : (toByte n).toNat = n % 256 := by
  have hmod : (n : Int) % 256 = (n % 256 : Nat) := by omega
  rw [toByte, hmod, Int.toNat_natCast, UInt8.toNat_ofNat']
  omega

theorem toByte_of_emod_eq {v w : Int} (h : v % 256 = w % 256) : toByte v = toByte w := by
  rw [toByte, toByte, h]

theorem writeUInt32BE_congr {v w : Int} (h : v % 2 ^ 32 = w % 2 ^ 32) :
    writeUInt32BE v = writeUInt32BE w := by
  have hlow : v % 256 = w % 256 := by omega
  simp only [writeUInt32BE, shiftRightUnsigned, h, toByte_of_emod_eq hlow]

theorem toInt32_emod : toInt32 n % 2 ^ 32 = (n : Int) % 2 ^ 32 := by
  unfold toInt32
  split
  · omega
  · omega

theorem writeUInt32BE_natCast {n : Nat} (h : n < 2 ^ 32) :
    writeUInt32BE n = [toByte (n / 2 ^ 24 : Nat), toByte (n / 2 ^ 16 : Nat),
      toByte (n / 2 ^ 8 : Nat), toByte n] := by
  simp only [writeUInt32BE, shiftRightUnsigned]
  have hmod : (n : Int) % 2 ^ 32 = n := by omega
  have h₂ : (n : Int) / 2 ^ 8 = (n / 2 ^ 8 : Nat) := by omega
  have h₁ : ((n / 2 ^ 8 : Nat) : Int) % 2 ^ 32 / 2 ^ 8 = (n / 2 ^ 16 : Nat) := by omega
  have h₀ : ((n / 2 ^ 16 : Nat) : Int) % 2 ^ 32 / 2 ^ 8 = (n / 2 ^ 24 : Nat) := by omega
  rw [hmod, h₂, h₁, h₀]

theorem readUInt32BE_write {n : Nat} (h : n < 2 ^ 32) (before behind : Bytes) :
    readUInt32BE (before ++ writeUInt32BE n ++ behind) before.length = n := by
  have hbyte (i : Nat) : readUInt8 (before ++ writeUInt32BE n ++ behind) (before.length + i) =
      readUInt8 (writeUInt32BE n ++ behind) i := by
    rw [readUInt8, readUInt8, append_assoc, getD_append_right _ _ _ _ (by omega),
      Nat.add_sub_cancel_left]
  have hzero := hbyte 0
  rw [Nat.add_zero] at hzero
  rw [readUInt32BE, hzero, hbyte, hbyte, hbyte, writeUInt32BE_natCast h]
  simp only [readUInt8, cons_append, nil_append, getD_cons_zero, getD_cons_succ, toNat_toByte]
  omega

theorem readUInt32BE_lt : readUInt32BE [a, b, c, d] 0 < 2 ^ 32 := by
  have ha := a.toNat_lt
  have hb := b.toNat_lt
  have hc := c.toNat_lt
  have hd := d.toNat_lt
  simp only [readUInt32BE, readUInt8, getD_cons_zero, getD_cons_succ]
  omega

theorem writeUInt32BE_read : writeUInt32BE (readUInt32BE [a, b, c, d] 0) = [a, b, c, d] := by
  have ha := a.toNat_lt
  have hb := b.toNat_lt
  have hc := c.toNat_lt
  have hd := d.toNat_lt
  rw [writeUInt32BE_natCast (readUInt32BE_lt a b c d)]
  simp only [readUInt32BE, readUInt8, getD_cons_zero, getD_cons_succ]
  have hbyte {n : Nat} {x : UInt8} (h : n % 256 = x.toNat) : toByte n = x := by
    refine UInt8.toNat_inj.mp ?_
    rw [toNat_toByte, h]
  rw [hbyte (x := a) (by omega), hbyte (x := b) (by omega), hbyte (x := c) (by omega),
    hbyte (x := d) (by omega)]

/-! ## Masking twice -/

theorem xor_byte_twice (m : Nat) :
    UInt8.ofNat ((UInt8.ofNat (a.toNat ^^^ (m &&& 0xff))).toNat ^^^ (m &&& 0xff)) = a := by
  have hm : m &&& 0xff < 2 ^ 8 := Nat.lt_succ_of_le Nat.and_le_right
  have hxor : a.toNat ^^^ (m &&& 0xff) < 2 ^ 8 := Nat.xor_lt_two_pow a.toNat_lt hm
  rw [UInt8.toNat_ofNat', Nat.mod_eq_of_lt hxor, Nat.xor_xor_cancel_right]
  exact UInt8.ofNat_toNat

theorem mask_word_twice {mask : Nat} (h : mask < 2 ^ 32) (a b c d : UInt8) (rest : Bytes) :
    maskWords mask (writeUInt32BE (toInt32 (readUInt32BE [a, b, c, d] 0 ^^^ mask)) ++ rest) =
      [a, b, c, d] ++ maskWords mask rest := by
  have hxor : readUInt32BE [a, b, c, d] 0 ^^^ mask < 2 ^ 32 :=
    Nat.xor_lt_two_pow (readUInt32BE_lt a b c d) h
  have hread := readUInt32BE_write hxor [] []
  rw [writeUInt32BE_congr (toInt32_emod _)]
  rw [writeUInt32BE_natCast hxor] at hread ⊢
  rw [nil_append, append_nil, length_nil] at hread
  simp only [cons_append, nil_append, maskWords]
  rw [hread, Nat.xor_xor_cancel_right, writeUInt32BE_congr (toInt32_emod _), writeUInt32BE_read]
  rfl

theorem maskWords_twice {mask : Nat} (h : mask < 2 ^ 32) (payload : Bytes) :
    maskWords mask (maskWords mask payload) = payload := by
  fun_induction maskWords mask payload with
  | case1 a b c d rest ih => rw [mask_word_twice h, ih]; rfl
  | case2 a b c => simp only [maskWords, xor_byte_twice]
  | case3 a b => simp only [maskWords, xor_byte_twice]
  | case4 a => simp only [maskWords, xor_byte_twice]
  | case5 => rfl

theorem length_maskWords (payload : Bytes) : (maskWords mask payload).length = payload.length := by
  fun_induction maskWords mask payload with
  | case1 a b c d rest ih =>
    rw [length_append, ih]
    simp only [writeUInt32BE, length_cons, length_nil]
    omega
  | case2 a b c => rfl
  | case3 a b => rfl
  | case4 a => rfl
  | case5 => rfl

theorem applyWebSocketMask_twice {mask : Nat} (h : mask < 2 ^ 32) (payload : Bytes) :
    applyWebSocketMask (applyWebSocketMask payload mask) mask = payload := by
  unfold applyWebSocketMask
  split
  · rfl
  · exact maskWords_twice h payload

theorem length_applyWebSocketMask (payload : Bytes) :
    (applyWebSocketMask payload mask).length = payload.length := by
  unfold applyWebSocketMask
  split
  · rfl
  · exact length_maskWords mask payload

/-! ## One frame -/

structure Sendable (maxPayloadLength : Nat) (payload : Bytes) (options : WebSocketFrameOptions) :
    Prop where
  control : isControlOpcode options.opcode.number → options.final.getD true = true ∧
    options.compressed.getD false = false ∧ payload.length ≤ 125
  mask : ∀ mask, options.mask = some mask → mask < 2 ^ 32
  length : payload.length ≤ maxPayloadLength

def sentFrame (payload : Bytes) (options : WebSocketFrameOptions) : WebSocketFrame where
  final := options.final.getD true
  compressed := options.compressed.getD false
  opcode := options.opcode
  payload := payload
  mask := options.mask

theorem flagByte_spec (final compressed : Bool) (opcode : WebSocketOpcode) :
    flagByte final compressed opcode < 256 ∧ flagByte final compressed opcode &&& 0x30 = 0 ∧
      flagByte final compressed opcode &&& 0xf = opcode.number ∧
      decide (flagByte final compressed opcode &&& 0x80 ≠ 0) = final ∧
      decide (flagByte final compressed opcode &&& 0x40 ≠ 0) = compressed := by
  cases final <;> cases compressed <;> cases opcode <;> decide

theorem validateOpcode_number : validateOpcode opcode.number = .ok opcode := by
  cases opcode <;> rfl

theorem validateFrame_ok {final compressed : Bool} {opcode : WebSocketOpcode} {length : Nat}
    (h : isControlOpcode opcode.number → final = true ∧ compressed = false ∧ length ≤ 125) :
    validateFrame (flagByte final compressed opcode) length = .ok () := by
  obtain ⟨-, hreserved, hopcode, hfinal, hcompressed⟩ := flagByte_spec final compressed opcode
  rw [validateFrame, if_neg (by simp [hreserved]), hopcode, validateOpcode_number]
  show (if isControlOpcode opcode.number = true then _ else _) = _
  split
  · next hcontrol =>
    obtain ⟨rfl, rfl, hlength⟩ := h hcontrol
    rw [if_neg (of_decide_eq_true hfinal), if_neg (Nat.not_lt.mpr hlength),
      if_neg (of_decide_eq_false hcompressed)]
  · rfl

def markerOf (payloadLength : Nat) : Nat :=
  if payloadLength < 126 then payloadLength else if payloadLength < 2 ^ 16 then 126 else 127

theorem markerOf_lt : markerOf payloadLength < 128 := by
  unfold markerOf
  split
  · omega
  · split <;> omega

theorem second_byte_spec : ∀ masked : Bool, ∀ marker < 128,
    ((if masked then 0x80 else 0) ||| marker) % 256 &&& 0x7f = marker ∧
      decide (((if masked then 0x80 else 0) ||| marker) % 256 &&& 0x80 ≠ 0) = masked := by
  decide +kernel

theorem lengthBytes_eq (masked : Bool) (payloadLength : Nat) :
    ∃ extension, lengthBytes masked payloadLength =
        toByte ((if masked then 0x80 else 0) ||| markerOf payloadLength : Nat) :: extension ∧
      extension.length = (if markerOf payloadLength = 126 then 2
        else if markerOf payloadLength = 127 then 8 else 0) := by
  unfold lengthBytes markerOf
  by_cases hshort : payloadLength < 126
  · rw [if_pos hshort, if_pos hshort]
    refine ⟨[], rfl, ?_⟩
    rw [if_neg (by omega), if_neg (by omega)]
    rfl
  · rw [if_neg hshort, if_neg hshort]
    by_cases hmedium : payloadLength < 2 ^ 16
    · rw [if_pos hmedium, if_pos hmedium]
      exact ⟨_, rfl, rfl⟩
    · rw [if_neg hmedium, if_neg hmedium]
      exact ⟨_, rfl, rfl⟩

theorem getPayloadLength_encoded {payloadLength : Nat} (h : payloadLength < 2 ^ 32)
    (first : UInt8) (masked : Bool) (behind : Bytes) :
    getPayloadLength (first :: lengthBytes masked payloadLength ++ behind)
      (markerOf payloadLength) = .ok payloadLength := by
  unfold getPayloadLength lengthBytes markerOf
  by_cases hshort : payloadLength < 126
  · rw [if_pos hshort, if_pos hshort]
  · rw [if_neg hshort, if_neg hshort]
    by_cases hmedium : payloadLength < 2 ^ 16
    · rw [if_pos hmedium, if_pos hmedium, if_neg (by omega), if_pos rfl]
      have hhigh : shiftRightUnsigned payloadLength 8 = (payloadLength / 2 ^ 8 : Nat) := by
        unfold shiftRightUnsigned
        omega
      simp only [readUInt8, cons_append, nil_append, getD_cons_succ,
        getD_cons_zero, hhigh, toNat_toByte]
      congr 1
      omega
    · rw [if_neg hmedium, if_neg hmedium, if_neg (by omega), if_neg (by omega)]
      have hhigh := readUInt32BE_write (n := 0) (by omega)
        [first, toByte ((if masked then 0x80 else 0) ||| 127 : Nat)]
        (writeUInt32BE payloadLength ++ behind)
      have hlow := readUInt32BE_write h
        ([first, toByte ((if masked then 0x80 else 0) ||| 127 : Nat)] ++ writeUInt32BE 0) behind
      simp only [cons_append, nil_append, append_assoc] at hhigh hlow ⊢
      rw [if_neg (by rw [not_not]; exact hhigh)]
      exact congrArg _ hlow

variable {maxPayloadLength : Nat} {payload : Bytes} {options : WebSocketFrameOptions}

def maskBytes (options : WebSocketFrameOptions) : Bytes := options.mask.elim [] fun mask => writeUInt32BE mask

def maskedPayload (payload : Bytes) (options : WebSocketFrameOptions) : Bytes :=
  options.mask.elim payload (applyWebSocketMask payload)

def encodedHeader (payload : Bytes) (options : WebSocketFrameOptions) : Bytes :=
  toByte (flagByte (options.final.getD true) (options.compressed.getD false) options.opcode) ::
    lengthBytes options.mask.isSome payload.length ++ maskBytes options

theorem encodeWebSocketFrame_ok (h : Sendable maxPayloadLength payload options)
    (hlimit : maxPayloadLength ≤ maximum32BitPayloadLength) :
    encodeWebSocketFrame payload options =
      .ok (encodedHeader payload options ++ maskedPayload payload options) := by
  have hmask : validateMask options.mask = .ok () := by
    rw [validateMask, if_neg]
    rintro ⟨mask, hmem, hlarge⟩
    have := h.mask mask hmem
    rw [maximum32BitPayloadLength] at hlarge
    omega
  have hheader : ∃ length, getHeaderLength payload.length options.mask.isSome = .ok length := by
    rw [getHeaderLength, if_neg (Nat.not_lt.mpr (Nat.le_trans h.length hlimit))]
    split
    · exact ⟨_, rfl⟩
    · split <;> exact ⟨_, rfl⟩
  obtain ⟨length, hheader⟩ := hheader
  unfold encodeWebSocketFrame
  dsimp only
  rw [validateOpcode_number, hmask, validateFrame_ok h.control, hheader]
  unfold encodedHeader maskBytes maskedPayload
  cases options.mask with
  | none | some _ => simp [Except.mapError, Except.bind]

theorem length_maskBytes (options : WebSocketFrameOptions) :
    (maskBytes options).length = if options.mask.isSome then 4 else 0 := by
  unfold maskBytes
  cases options.mask with
  | none | some _ => rfl

theorem length_maskedPayload (payload : Bytes) (options : WebSocketFrameOptions) :
    (maskedPayload payload options).length = payload.length := by
  unfold maskedPayload
  cases options.mask with
  | none => rfl
  | some mask => exact length_applyWebSocketMask mask payload

theorem second_byte_encoded (payload : Bytes) (options : WebSocketFrameOptions) (more : Bytes) :
    payloadLengthMarker (readUInt8 (encodedHeader payload options ++ more) 1) =
        markerOf payload.length ∧
      isMasked (readUInt8 (encodedHeader payload options ++ more) 1) = options.mask.isSome ∧
      headerLength (readUInt8 (encodedHeader payload options ++ more) 1) =
        (encodedHeader payload options).length := by
  obtain ⟨extension, hbytes, hextension⟩ := lengthBytes_eq options.mask.isSome payload.length
  obtain ⟨hmarker, hmasked⟩ :=
    second_byte_spec options.mask.isSome (markerOf payload.length) (markerOf_lt _)
  have hsecond : readUInt8 (encodedHeader payload options ++ more) 1 =
      ((if options.mask.isSome then 0x80 else 0) ||| markerOf payload.length) % 256 := by
    rw [encodedHeader, hbytes]
    exact toNat_toByte _
  have hlength : (encodedHeader payload options).length =
      2 + extension.length + (maskBytes options).length := by
    rw [encodedHeader, hbytes, length_append, length_cons, length_cons]
    omega
  rw [hsecond, hlength, hextension, length_maskBytes]
  refine ⟨hmarker, hmasked, ?_⟩
  unfold headerLength payloadLengthMarker isMasked
  rw [hmarker, hmasked]

def sentHeader (payload : Bytes) (options : WebSocketFrameOptions) : FrameHeader where
  final := options.final.getD true
  compressed := options.compressed.getD false
  opcode := options.opcode
  payloadLength := payload.length
  mask := options.mask

theorem parseHeader_encoded (h : Sendable maxPayloadLength payload options)
    (hlimit : maxPayloadLength ≤ maximum32BitPayloadLength) :
    parseHeader maxPayloadLength (encodedHeader payload options) =
      .ok (sentHeader payload options) := by
  obtain ⟨hmarker, hmasked, -⟩ := second_byte_encoded payload options []
  rw [append_nil] at hmarker hmasked
  obtain ⟨hbyte, -, hopcode, hfinal, hcompressed⟩ :=
    flagByte_spec (options.final.getD true) (options.compressed.getD false) options.opcode
  have hfirst : readUInt8 (encodedHeader payload options) 0 =
      flagByte (options.final.getD true) (options.compressed.getD false) options.opcode := by
    rw [encodedHeader]
    exact (toNat_toByte _).trans (Nat.mod_eq_of_lt hbyte)
  have hsmall : payload.length < 2 ^ 32 := by
    have := Nat.le_trans h.length hlimit
    rw [maximum32BitPayloadLength] at this
    omega
  have hlength : getPayloadLength (encodedHeader payload options) (markerOf payload.length) =
      .ok payload.length :=
    getPayloadLength_encoded hsmall _ _ _
  have hmask : (if options.mask.isSome then
      some (readUInt32BE (encodedHeader payload options)
        ((encodedHeader payload options).length - 4)) else none) = options.mask := by
    unfold encodedHeader maskBytes
    cases hmask : options.mask with
    | none => rfl
    | some mask =>
      have hread := readUInt32BE_write (h.mask mask hmask)
        (toByte (flagByte (options.final.getD true) (options.compressed.getD false)
          options.opcode) :: lengthBytes true payload.length) []
      rw [append_nil] at hread
      have hend (header : Bytes) : (header ++ writeUInt32BE mask).length - 4 = header.length := by
        rw [length_append]
        exact Nat.add_sub_cancel _ _
      simp only [Option.isSome_some, if_true, Option.elim_some, hend]
      exact congrArg _ hread
  unfold parseHeader
  dsimp only
  rw [hmarker, hlength, hfirst, hopcode, hmasked, hmask, hfinal, hcompressed, validateOpcode_number]
  show (if payload.length > maxPayloadLength then _ else _) = _
  rw [if_neg (Nat.not_lt.mpr h.length), validateFrame_ok h.control]
  rfl

theorem readFrame_encoded (h : Sendable maxPayloadLength payload options)
    (hlimit : maxPayloadLength ≤ maximum32BitPayloadLength) (more : Bytes) :
    readFrame maxPayloadLength
        (encodedHeader payload options ++ maskedPayload payload options ++ more) =
      .item (sentFrame payload options) more := by
  obtain ⟨-, -, hlength⟩ :=
    second_byte_encoded payload options (maskedPayload payload options ++ more)
  refine readFrame_item.mpr ⟨sentHeader payload options, ?_, ?_, ?_, ?_⟩
  · have hpayload : (sentHeader payload options).payloadLength = payload.length := rfl
    rw [append_assoc, hlength, length_append, length_append, length_maskedPayload, hpayload]
    omega
  · rw [append_assoc, hlength, take_left]
    exact parseHeader_encoded h hlimit
  · rw [append_assoc, hlength, drop_left]
    have htake : (maskedPayload payload options ++ more).take
        (sentHeader payload options).payloadLength = maskedPayload payload options :=
      take_left' (length_maskedPayload _ _)
    have hpayload : options.mask.elim (maskedPayload payload options)
        (applyWebSocketMask (maskedPayload payload options)) = payload := by
      unfold maskedPayload
      cases hmask : options.mask with
      | none => rfl
      | some mask => exact applyWebSocketMask_twice (h.mask mask hmask) payload
    rw [htake, sentFrame, FrameHeader.frame, sentHeader, hpayload]
  · rw [append_assoc, hlength, ← append_assoc, drop_left']
    rw [length_append, length_maskedPayload]
    rfl

/-! ## Frames in chunks -/

theorem drain_encoded (hlimit : maxPayloadLength ≤ maximum32BitPayloadLength)
    (sent : List (Bytes × WebSocketFrameOptions))
    (h : ∀ frame ∈ sent, Sendable maxPayloadLength frame.1 frame.2) :
    (frameReader maxPayloadLength).drain
        (sent.flatMap fun frame => encodedHeader frame.1 frame.2 ++ maskedPayload frame.1 frame.2) =
      ⟨sent.map fun frame => sentFrame frame.1 frame.2, [], none⟩ := by
  induction sent with
  | nil => exact drain_of_wait rfl
  | cons frame sent ih =>
    have hread := readFrame_encoded (h frame (mem_cons_self ..)) hlimit
      (sent.flatMap fun frame => encodedHeader frame.1 frame.2 ++ maskedPayload frame.1 frame.2)
    rw [flatMap_cons, drain_of_item (r := frameReader maxPayloadLength) hread,
      ih fun frame hmem => h frame (mem_cons_of_mem _ hmem)]
    rfl

namespace WebSocketFrameParser

variable (chunks : List Bytes) (parser : WebSocketFrameParser)

def acceptChunks (chunks : List Bytes) :
    WebSocketFrameParser × List (Except WebSocketFrameError (List WebSocketFrame)) :=
  feed (fun parser chunk => ((parser.acceptChunk chunk).1, [(parser.acceptChunk chunk).2]))
    parser chunks

theorem acceptChunks_eq
    (hwait : readFrame parser.maxPayloadLength parser.incomingData.bytes = .wait)
    (h : ((frameReader parser.maxPayloadLength).drain
      (parser.incomingData.bytes ++ chunks.flatten)).error = none) :
    ∃ frames : List (List WebSocketFrame), (parser.acceptChunks chunks).2 = frames.map .ok ∧
        frames.flatten = ((frameReader parser.maxPayloadLength).drain
          (parser.incomingData.bytes ++ chunks.flatten)).items ∧
        (parser.acceptChunks chunks).1.incomingData.bytes =
          ((frameReader parser.maxPayloadLength).drain
            (parser.incomingData.bytes ++ chunks.flatten)).left := by
  induction chunks generalizing parser with
  | nil =>
    rw [flatten_nil, append_nil, drain_of_wait (r := frameReader parser.maxPayloadLength) hwait]
    exact ⟨[], rfl, rfl, rfl⟩
  | cons chunk chunks ih =>
    obtain ⟨hmax, hleft, hresult⟩ := parser.acceptChunk_eq hwait chunk
    rw [flatten_cons, ← append_assoc] at h ⊢
    have hnone : ((frameReader parser.maxPayloadLength).drain
        (parser.incomingData.bytes ++ chunk)).error = none := by
      cases herror : ((frameReader parser.maxPayloadLength).drain
          (parser.incomingData.bytes ++ chunk)).error with
      | none => rfl
      | some error =>
        rw [drain_append_of_error herror] at h
        cases h
    rw [hnone, Option.elim_none] at hresult
    rw [drain_append hnone] at h ⊢
    have hwait' := (frameReader parser.maxPayloadLength).read_left
      (parser.incomingData.bytes ++ chunk)
    rw [hnone, Option.elim_none] at hwait'
    obtain ⟨frames, hframes, hflatten, hrest⟩ := ih (parser.acceptChunk chunk).1
      (by rw [hmax, hleft]; exact hwait') (by rw [hmax, hleft]; exact h)
    rw [hmax, hleft] at hflatten hrest
    refine ⟨((frameReader parser.maxPayloadLength).drain
      (parser.incomingData.bytes ++ chunk)).items :: frames, ?_, ?_, hrest⟩
    · rw [acceptChunks, feed_cons, hresult]
      exact congrArg _ hframes
    · rw [flatten_cons, hflatten]

/-- A rejected frame stays in front: every later chunk with bytes throws its error again. -/
theorem acceptChunks_stuck {error : WebSocketFrameError}
    (h : readFrame parser.maxPayloadLength parser.incomingData.bytes = .reject error) :
    ∀ result ∈ (parser.acceptChunks chunks).2, result = .error error ∨ result = .ok [] := by
  induction chunks generalizing parser with
  | nil =>
    intro result hmem
    cases hmem
  | cons chunk chunks ih =>
    intro result hmem
    rw [acceptChunks, feed_cons, mem_append, mem_singleton] at hmem
    by_cases hempty : chunk.length = 0
    · have hcall : parser.acceptChunk chunk = (parser, .ok []) := if_pos hempty
      rw [hcall] at hmem
      exact hmem.elim .inr (ih parser h result)
    · obtain ⟨-, hleft, herror⟩ :=
        takeFrames_eq parser.maxPayloadLength (parser.incomingData.acceptChunk chunk)
      have hreject := readFrame_reject_append h chunk
      rw [ChunkStream.bytes_acceptChunk,
        drain_of_reject (r := frameReader parser.maxPayloadLength) hreject] at hleft herror
      have hcall : (parser.acceptChunk chunk).2 = .error error := by
        rw [acceptChunk, if_neg hempty]
        dsimp only
        rw [herror]
        rfl
      have hrest : readFrame (parser.acceptChunk chunk).1.maxPayloadLength
          (parser.acceptChunk chunk).1.incomingData.bytes = .reject error := by
        rw [acceptChunk, if_neg hempty]
        dsimp only
        rw [hleft]
        exact hreject
      rw [hcall] at hmem
      exact hmem.elim .inl (ih _ hrest result)

/-- Where the bytes hold a rejected frame, the calls before its last byte give frames, and the
call with that byte throws. -/
theorem acceptChunks_rejected {error : WebSocketFrameError}
    (hwait : readFrame parser.maxPayloadLength parser.incomingData.bytes = .wait)
    (h : ((frameReader parser.maxPayloadLength).drain
      (parser.incomingData.bytes ++ chunks.flatten)).error = some error) :
    ∃ (frames : List (List WebSocketFrame)) (later : _),
      (parser.acceptChunks chunks).2 = frames.map .ok ++ .error error :: later ∧
      ∀ result ∈ later, result = .error error ∨ result = .ok [] := by
  induction chunks generalizing parser with
  | nil =>
    rw [flatten_nil, append_nil, drain_of_wait (r := frameReader parser.maxPayloadLength) hwait] at h
    cases h
  | cons chunk chunks ih =>
    obtain ⟨hmax, hleft, hresult⟩ := parser.acceptChunk_eq hwait chunk
    rw [flatten_cons, ← append_assoc] at h
    have hbehind := (frameReader parser.maxPayloadLength).read_left
      (parser.incomingData.bytes ++ chunk)
    cases hnow : ((frameReader parser.maxPayloadLength).drain
        (parser.incomingData.bytes ++ chunk)).error with
    | some thrown =>
      rw [drain_append_of_error hnow] at h
      cases h
      rw [hnow, Option.elim_some] at hresult hbehind
      refine ⟨[], (acceptChunks (parser.acceptChunk chunk).1 chunks).2, ?_, ?_⟩
      · rw [acceptChunks, feed_cons, hresult]
        rfl
      · exact acceptChunks_stuck chunks _ (by rw [hmax, hleft]; exact hbehind)
    | none =>
      rw [hnow, Option.elim_none] at hresult hbehind
      rw [drain_append hnow] at h
      obtain ⟨frames, later, hframes, hlater⟩ := ih (parser.acceptChunk chunk).1
        (by rw [hmax, hleft]; exact hbehind) (by rw [hmax, hleft]; exact h)
      refine ⟨((frameReader parser.maxPayloadLength).drain
        (parser.incomingData.bytes ++ chunk)).items :: frames, later, ?_, hlater⟩
      rw [acceptChunks, feed_cons, hresult]
      exact congrArg _ hframes

end WebSocketFrameParser

/-- Frames written with `encodeWebSocketFrame` come out of a parser as they were, however
the bytes are cut, and masking twice gives back the payload. -/
theorem webSocketFrame_roundTrip :
    (∀ (maxPayloadLength : Nat) (limited : maxPayloadLength ≤ maximum32BitPayloadLength)
      (sent : List (Bytes × WebSocketFrameOptions)),
      (∀ frame ∈ sent, Sendable maxPayloadLength frame.1 frame.2) → ∃ encodings : List Bytes,
          sent.map (fun frame => encodeWebSocketFrame frame.1 frame.2) = encodings.map .ok ∧
          ∀ chunks : List Bytes, chunks.flatten = encodings.flatten →
            ∃ frames : List (List WebSocketFrame),
              ((WebSocketFrameParser.new maxPayloadLength limited).acceptChunks chunks).2 =
                  frames.map .ok ∧
                frames.flatten = sent.map (fun frame => sentFrame frame.1 frame.2) ∧
                ((WebSocketFrameParser.new maxPayloadLength limited).acceptChunks
                  chunks).1.incomingData.byteLength = 0) ∧
      ∀ (payload : Bytes) (mask : Nat), mask ≤ maximum32BitPayloadLength →
        applyWebSocketMask (applyWebSocketMask payload mask) mask = payload := by
  constructor
  · intro maxPayloadLength limited sent h
    refine ⟨sent.map fun frame => encodedHeader frame.1 frame.2 ++ maskedPayload frame.1 frame.2,
      ?_, ?_⟩
    · rw [map_map]
      exact map_congr_left fun frame hmem => encodeWebSocketFrame_ok (h frame hmem) limited
    · intro chunks hchunks
      have hdrain := drain_encoded limited sent h
      rw [flatMap_def, ← hchunks] at hdrain
      obtain ⟨frames, hresults, hframes, hleft⟩ :=
        (WebSocketFrameParser.new maxPayloadLength limited).acceptChunks_eq chunks rfl (by
          rw [WebSocketFrameParser.new, bytes_empty, nil_append, hdrain])
      rw [WebSocketFrameParser.new, bytes_empty, nil_append, hdrain] at hframes
      refine ⟨frames, hresults, hframes, ?_⟩
      rw [byteLength_eq, hleft]
      rw [WebSocketFrameParser.new, bytes_empty, nil_append, hdrain]
      rfl
  · intro payload mask h
    apply applyWebSocketMask_twice
    rw [maximum32BitPayloadLength] at h
    omega

/-- A masked text and a ping without a mask, with the flags left at their defaults. -/
def sampleFrames : List (Bytes × WebSocketFrameOptions) :=
  [([104, 105], ⟨none, none, .text, some 0xfedcba98⟩), ([], ⟨none, none, .ping, none⟩)]

theorem webSocketFrame_roundTrip_sample :
    (∃ encodings : List Bytes,
      sampleFrames.map (fun frame => encodeWebSocketFrame frame.1 frame.2) = encodings.map .ok ∧
      ∀ chunks : List Bytes, chunks.flatten = encodings.flatten →
        ∃ frames : List (List WebSocketFrame),
          ((WebSocketFrameParser.new 125 (by decide)).acceptChunks chunks).2 = frames.map .ok ∧
            frames.flatten = sampleFrames.map (fun frame => sentFrame frame.1 frame.2) ∧
            ((WebSocketFrameParser.new 125 (by decide)).acceptChunks
              chunks).1.incomingData.byteLength = 0) ∧
      applyWebSocketMask (applyWebSocketMask [104, 105] 0xfedcba98) 0xfedcba98 = [104, 105] := by
  constructor
  · apply webSocketFrame_roundTrip.1 125 (by decide) sampleFrames
    intro frame hmem
    rw [sampleFrames, mem_cons, mem_singleton] at hmem
    rcases hmem with rfl | rfl
    · exact ⟨by decide, by simp, by decide⟩
    · exact ⟨by decide, by simp, by decide⟩
  · exact webSocketFrame_roundTrip.2 [104, 105] 0xfedcba98 (by decide)

end Fumie.Base
