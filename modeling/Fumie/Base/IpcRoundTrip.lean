import Fumie.Base.IpcValues

/-!
# Values read back

A value is read back from what was written for it, whatever stands before and behind,
exactly when its strings have no lone surrogate and its lengths fit a signed 32-bit
number. A sequence of such values is then read back value by value.
-/

namespace Fumie.Base

open Fumie.Lib List DataType Option IpcValue JsString

section

variable {J : Type} (json : JsonText J)

/-! ## Induction over values -/

theorem IpcValue.inductOn {motive : IpcValue J → Prop} (undefined : motive .undefined)
    (string : ∀ text, motive (.string text)) (buffer : ∀ bytes, motive (.buffer bytes))
    (vsBuffer : ∀ bytes, motive (.vsBuffer bytes))
    (array : ∀ items, (∀ item ∈ items, motive item) → motive (.array items))
    (object : ∀ value, motive (.object value)) (integer : ∀ value, motive (.integer value))
    (value : IpcValue J) : motive value := by
  refine @IpcValue.rec J motive (fun items => ∀ item ∈ items, motive item) undefined string buffer
    vsBuffer array object integer ?_ ?_ value
  · intro item hmem
    exact absurd hmem not_mem_nil
  · intro head tail hhead htail item hmem
    rcases mem_cons.mp hmem with rfl | hmem
    · exact hhead
    · exact htail item hmem

/-! ## The condition -/

mutual

def Sendable32 : IpcValue J → Prop
  | .undefined => True
  | .string text => isWellFormed text ∧ (bufferFromString text).length < 2 ^ 31
  | .buffer bytes => bytes.length < 2 ^ 31
  | .vsBuffer bytes => bytes.length < 2 ^ 31
  | .array items => items.length < 2 ^ 31 ∧ SendableItems items
  | .object value => (bufferFromString (json.stringify value)).length < 2 ^ 31
  | .integer _ => True

def SendableItems : List (IpcValue J) → Prop
  | [] => True
  | item :: items => Sendable32 item ∧ SendableItems items

end

mutual

def TextsFit : IpcValue J → Prop
  | .undefined => True
  | .string text => (bufferFromString text).length < 2 ^ 31
  | .buffer _ => True
  | .vsBuffer _ => True
  | .array items => TextsFitItems items
  | .object value => (bufferFromString (json.stringify value)).length < 2 ^ 31
  | .integer _ => True

def TextsFitItems : List (IpcValue J) → Prop
  | [] => True
  | item :: items => TextsFit item ∧ TextsFitItems items

end

def ReadBack (value : IpcValue J) : Prop :=
  ∀ before more, deserialize json (readerAt before (serialize json value ++ more)) =
    some (value, readerAt (before ++ serialize json value) more)

variable {json}

/-! ## What is written -/

theorem serialize_undefined : serialize json .undefined = [DataType.undefined] := rfl

theorem serialize_string (text : JsString) :
    serialize json (.string text) = writeBytes DataType.string (bufferFromString text) := rfl

theorem serialize_buffer (bytes : Bytes) :
    serialize json (.buffer bytes) = writeBytes DataType.buffer bytes := rfl

theorem serialize_vsBuffer (bytes : Bytes) :
    serialize json (.vsBuffer bytes) = writeBytes DataType.vsBuffer bytes := rfl

theorem serialize_array (items : List (IpcValue J)) : serialize json (.array items) =
    DataType.array :: (writeInt32VQL (BitVec.ofNat 32 items.length) ++ serializeItems json items) :=
  rfl

theorem serialize_object (value : J) : serialize json (.object value) =
    writeBytes DataType.object (bufferFromString (json.stringify value)) := rfl

theorem serialize_integer (value : BitVec 32) :
    serialize json (.integer value) = int :: writeInt32VQL value := rfl

theorem serializeItems_nil : serializeItems json [] = [] := rfl

theorem serializeItems_cons (item : IpcValue J) (items : List (IpcValue J)) :
    serializeItems json (item :: items) = serialize json item ++ serializeItems json items := rfl

/-! ## Types -/

variable (before : Bytes) (type : UInt8) (rest : Bytes)

theorem read_type :
    (readerAt before (type :: rest)).read 1 = ([type], readerAt (before ++ [type]) rest) :=
  read_at before [type] rest

variable (depth : Nat)

theorem deserializeTo_type (before : Bytes) (type : UInt8) (rest : Bytes) :
    deserializeTo json (depth + 1) (readerAt before (type :: rest)) =
      let reader := readerAt (before ++ [type]) rest
      if type = DataType.string then
        some (.string (bufferToString (readBytes reader).1), (readBytes reader).2)
      else if type = DataType.buffer then
        some (.buffer (readBytes reader).1, (readBytes reader).2)
      else if type = DataType.vsBuffer then
        some (.vsBuffer (readBytes reader).1, (readBytes reader).2)
      else if type = DataType.array then
        (readItems (deserializeTo json depth) (readIntVQL reader).1.toNat (readIntVQL reader).2).map
          fun items => (.array items.1, items.2)
      else if type = DataType.object then
        (json.parse (bufferToString (readBytes reader).1)).map
          fun value => (.object value, (readBytes reader).2)
      else if type = int then
        some (.integer (BitVec.ofInt 32 (readIntVQL reader).1), (readIntVQL reader).2)
      else some (.undefined, reader) := by
  rw [deserializeTo, read_type]

theorem deserializeTo_string (before rest : Bytes) :
    deserializeTo json (depth + 1) (readerAt before (DataType.string :: rest)) =
      some (.string (bufferToString (readBytes (readerAt (before ++ [DataType.string]) rest)).1),
        (readBytes (readerAt (before ++ [DataType.string]) rest)).2) := by
  rw [deserializeTo_type]
  rfl

theorem deserializeTo_buffer (before rest : Bytes) :
    deserializeTo json (depth + 1) (readerAt before (DataType.buffer :: rest)) =
      some (.buffer (readBytes (readerAt (before ++ [DataType.buffer]) rest)).1,
        (readBytes (readerAt (before ++ [DataType.buffer]) rest)).2) := by
  rw [deserializeTo_type]
  rfl

theorem deserializeTo_vsBuffer (before rest : Bytes) :
    deserializeTo json (depth + 1) (readerAt before (DataType.vsBuffer :: rest)) =
      some (.vsBuffer (readBytes (readerAt (before ++ [DataType.vsBuffer]) rest)).1,
        (readBytes (readerAt (before ++ [DataType.vsBuffer]) rest)).2) := by
  rw [deserializeTo_type]
  rfl

theorem deserializeTo_array (before rest : Bytes) :
    deserializeTo json (depth + 1) (readerAt before (DataType.array :: rest)) =
      (readItems (deserializeTo json depth)
        (readIntVQL (readerAt (before ++ [DataType.array]) rest)).1.toNat
        (readIntVQL (readerAt (before ++ [DataType.array]) rest)).2).map
          fun items => (.array items.1, items.2) := by
  rw [deserializeTo_type]
  rfl

theorem deserializeTo_object (before rest : Bytes) :
    deserializeTo json (depth + 1) (readerAt before (DataType.object :: rest)) =
      (json.parse (bufferToString (readBytes (readerAt (before ++ [DataType.object]) rest)).1)).map
        fun value => (.object value, (readBytes (readerAt (before ++ [DataType.object]) rest)).2) := by
  rw [deserializeTo_type]
  rfl

theorem deserializeTo_int (before rest : Bytes) :
    deserializeTo json (depth + 1) (readerAt before (int :: rest)) =
      some (.integer (BitVec.ofInt 32 (readIntVQL (readerAt (before ++ [int]) rest)).1),
        (readIntVQL (readerAt (before ++ [int]) rest)).2) := by
  rw [deserializeTo_type]
  rfl

variable {bytes : Bytes}

theorem readBytes_written (h : bytes.length < 2 ^ 31) (before : Bytes) (type : UInt8) (more : Bytes) :
    readBytes (readerAt (before ++ [type])
        (writeInt32VQL (BitVec.ofNat 32 bytes.length) ++ bytes ++ more)) =
      (bytes, readerAt (before ++ writeBytes type bytes) more) := by
  rw [readBytes_at h, append_assoc]
  rfl

/-! ## Values that come back -/

variable (json) in
def ReadsTo (value : IpcValue J) : Prop :=
  ∀ depth before more,
    (∀ result, deserializeTo json depth (readerAt before (serialize json value ++ more)) =
      some result → result = (value, readerAt (before ++ serialize json value) more)) ∧
    ((serialize json value).length ≤ depth →
      deserializeTo json depth (readerAt before (serialize json value ++ more)) =
        some (value, readerAt (before ++ serialize json value) more))

theorem readsTo_of_succ {value : IpcValue J} (hne : serialize json value ≠ [])
    (h : ∀ depth before more,
      deserializeTo json (depth + 1) (readerAt before (serialize json value ++ more)) =
        some (value, readerAt (before ++ serialize json value) more)) :
    ReadsTo json value := by
  intro depth before more
  cases depth with
  | zero =>
    constructor
    · intro result hread
      cases hread
    · intro hlength
      exact absurd (eq_nil_of_length_eq_zero (Nat.le_zero.mp hlength)) hne
  | succ depth =>
    rw [h depth before more]
    exact ⟨fun result hread => (Option.some.inj hread).symm, fun _ => rfl⟩

theorem serialize_ne_nil (value : IpcValue J) : serialize json value ≠ [] := by
  cases value <;> exact cons_ne_nil _ _

theorem readsTo_undefined : ReadsTo json .undefined := by
  refine readsTo_of_succ (serialize_ne_nil _) fun depth before more => ?_
  rw [serialize_undefined, singleton_append, deserializeTo_type]
  rfl

variable {text : JsString} {items : List (IpcValue J)}

theorem readsTo_string (h : Sendable32 json (.string text)) : ReadsTo json (.string text) := by
  obtain ⟨hformed, hlength⟩ := h
  refine readsTo_of_succ (serialize_ne_nil _) fun depth before more => ?_
  rw [serialize_string, writeBytes, cons_append, deserializeTo_string, readBytes_written hlength,
    bufferToString_fromString, (unitsOfChars_scalars text).mpr hformed]
  rfl

theorem readsTo_buffer (h : Sendable32 json (.buffer bytes)) : ReadsTo json (.buffer bytes) := by
  refine readsTo_of_succ (serialize_ne_nil _) fun depth before more => ?_
  rw [serialize_buffer, writeBytes, cons_append, deserializeTo_buffer, readBytes_written h]
  rfl

theorem readsTo_vsBuffer (h : Sendable32 json (.vsBuffer bytes)) :
    ReadsTo json (.vsBuffer bytes) := by
  refine readsTo_of_succ (serialize_ne_nil _) fun depth before more => ?_
  rw [serialize_vsBuffer, writeBytes, cons_append, deserializeTo_vsBuffer, readBytes_written h]
  rfl

theorem readsTo_object {value : J} (h : Sendable32 json (.object value)) :
    ReadsTo json (.object value) := by
  refine readsTo_of_succ (serialize_ne_nil _) fun depth before more => ?_
  rw [serialize_object, writeBytes, cons_append, deserializeTo_object, readBytes_written h,
    bufferToString_fromString, (unitsOfChars_scalars _).mpr (json.wellFormed value),
    json.parse_stringify]
  rfl

theorem readsTo_integer (value : BitVec 32) : ReadsTo json (.integer value) := by
  refine readsTo_of_succ (serialize_ne_nil _) fun depth before more => ?_
  rw [serialize_integer, cons_append, deserializeTo_int, readIntVQL_at, BitVec.ofInt_toInt,
    append_assoc]
  rfl

theorem readItems_written (h : ∀ item ∈ items, ReadsTo json item) (depth : Nat)
    (before more : Bytes) :
    (∀ result, readItems (deserializeTo json depth) items.length
        (readerAt before (serializeItems json items ++ more)) = some result →
      result = (items, readerAt (before ++ serializeItems json items) more)) ∧
    ((serializeItems json items).length ≤ depth → readItems (deserializeTo json depth) items.length
          (readerAt before (serializeItems json items ++ more)) =
        some (items, readerAt (before ++ serializeItems json items) more)) := by
  induction items generalizing before with
  | nil =>
    rw [serializeItems_nil, append_nil]
    exact ⟨fun result hread => (Option.some.inj hread).symm, fun _ => rfl⟩
  | cons item items ih =>
    obtain ⟨hgiven, htotal⟩ :=
      h item (mem_cons_self ..) depth before (serializeItems json items ++ more)
    obtain ⟨hgiven', htotal'⟩ := ih (fun item hmem => h item (mem_cons_of_mem _ hmem))
      (before ++ serialize json item)
    rw [serializeItems_cons, length_cons, append_assoc]
    constructor
    · intro result hread
      obtain ⟨first, hfirst, hread⟩ := bind_eq_some_iff.mp hread
      rw [hgiven first hfirst] at hread
      obtain ⟨rest, hrest, rfl⟩ := map_eq_some_iff.mp hread
      rw [hgiven' rest hrest, append_assoc]
    · intro hdepth
      rw [length_append] at hdepth
      rw [readItems, htotal (by omega), bind_some, htotal' (by omega), append_assoc]
      rfl

theorem readsTo_array (hlength : items.length < 2 ^ 31) (h : ∀ item ∈ items, ReadsTo json item) :
    ReadsTo json (.array items) := by
  intro depth before more
  cases depth with
  | zero =>
    constructor
    · intro result hread
      cases hread
    · intro hdepth
      exact absurd (eq_nil_of_length_eq_zero (Nat.le_zero.mp hdepth)) (serialize_ne_nil _)
  | succ depth =>
    obtain ⟨hgiven, htotal⟩ := readItems_written h depth
      (before ++ [DataType.array] ++ writeInt32VQL (BitVec.ofNat 32 items.length)) more
    have hread : deserializeTo json (depth + 1)
        (readerAt before (serialize json (.array items) ++ more)) =
        (readItems (deserializeTo json depth) items.length
          (readerAt (before ++ [DataType.array] ++ writeInt32VQL (BitVec.ofNat 32 items.length))
            (serializeItems json items ++ more))).map fun items => (.array items.1, items.2) := by
      rw [serialize_array, cons_append, append_assoc, deserializeTo_array, readIntVQL_at,
        toInt_ofNat hlength, Int.toNat_natCast]
    have hbehind : before ++ [DataType.array] ++ writeInt32VQL (BitVec.ofNat 32 items.length) ++
        serializeItems json items = before ++ serialize json (.array items) := by
      rw [serialize_array]
      simp only [append_assoc, cons_append, nil_append]
    rw [hbehind] at hgiven htotal
    rw [hread]
    constructor
    · intro result hresult
      obtain ⟨read, hitems, rfl⟩ := map_eq_some_iff.mp hresult
      rw [hgiven read hitems]
    · intro hdepth
      rw [htotal, map_some]
      rw [serialize_array, length_cons, length_append] at hdepth
      omega

theorem sendable_of_mem (h : SendableItems json items) : ∀ item ∈ items, Sendable32 json item := by
  induction items with
  | nil => intro item hmem; exact absurd hmem not_mem_nil
  | cons head tail ih =>
    intro item hmem
    rcases mem_cons.mp hmem with rfl | hmem
    · exact h.1
    · exact ih h.2 item hmem

theorem readsTo_of_sendable (value : IpcValue J) : Sendable32 json value → ReadsTo json value := by
  induction value using inductOn with
  | undefined => exact fun _ => readsTo_undefined
  | string text => exact readsTo_string
  | buffer bytes => exact readsTo_buffer
  | vsBuffer bytes => exact readsTo_vsBuffer
  | array items ih =>
    intro h
    exact readsTo_array h.1 fun item hmem => ih item hmem (sendable_of_mem h.2 item hmem)
  | object value => exact readsTo_object
  | integer value => exact fun _ => readsTo_integer value

/-! ## Values that do not -/

variable (json) in
def ReadsRarely (value : IpcValue J) : Prop :=
  ∀ before more more' depth depth' result result',
    deserializeTo json depth (readerAt before (serialize json value ++ more)) =
      some (value, result) →
    deserializeTo json depth' (readerAt before (serialize json value ++ more')) =
      some (value, result') →
    more.length = more'.length

variable {value : IpcValue J}

theorem readsRarely_of_length {type : UInt8}
    (hwritten : serialize json value = writeBytes type bytes) (hlarge : 2 ^ 31 ≤ bytes.length)
    (h : ∀ depth before rest result,
      deserializeTo json (depth + 1) (readerAt before (type :: rest)) = some (value, result) →
        rest.length = 0 ∨ (readBytes (readerAt (before ++ [type]) rest)).1 = bytes) :
    ReadsRarely json value := by
  have hread {before more : Bytes} {depth : Nat} {result : BufferReader}
      (hresult : deserializeTo json depth (readerAt before (serialize json value ++ more)) =
        some (value, result)) :
      (more.length : Int) = -(BitVec.ofNat 32 bytes.length).toInt -
        (before ++ [type] ++ writeInt32VQL (BitVec.ofNat 32 bytes.length)).length := by
    cases depth with
    | zero => cases hresult
    | succ depth =>
      rw [hwritten, writeBytes, cons_append] at hresult
      rcases h depth before _ result hresult with hzero | hbytes
      · rw [length_append, length_append] at hzero
        omega
      · exact length_of_readBytes hlarge hbytes
  intro before more more' depth depth' result result' hfirst hsecond
  have := hread hfirst
  have := hread hsecond
  omega

theorem readsRarely_string (hfits : TextsFit json (.string text))
    (h : ¬Sendable32 json (.string text)) : ReadsRarely json (.string text) := by
  intro before more more' depth depth' result result' hread
  cases depth with
  | zero => cases hread
  | succ depth =>
    rw [serialize_string, writeBytes, cons_append, deserializeTo_string, readBytes_written hfits,
      bufferToString_fromString] at hread
    have htext := (Prod.mk.inj (Option.some.inj hread)).1
    exact absurd ⟨(unitsOfChars_scalars text).mp (IpcValue.string.inj htext), hfits⟩ h

theorem readsRarely_buffer (h : ¬Sendable32 json (.buffer bytes)) :
    ReadsRarely json (.buffer bytes) := by
  refine readsRarely_of_length rfl (Nat.not_lt.mp h) fun depth before rest result hread => ?_
  rw [deserializeTo_buffer] at hread
  exact .inr (IpcValue.buffer.inj (Prod.mk.inj (Option.some.inj hread)).1)

theorem readsRarely_vsBuffer (h : ¬Sendable32 json (.vsBuffer bytes)) :
    ReadsRarely json (.vsBuffer bytes) := by
  refine readsRarely_of_length rfl (Nat.not_lt.mp h) fun depth before rest result hread => ?_
  rw [deserializeTo_vsBuffer] at hread
  exact .inr (IpcValue.vsBuffer.inj (Prod.mk.inj (Option.some.inj hread)).1)

theorem length_readItems {α : Type} {read : BufferReader → Option (α × BufferReader)} {n : Nat}
    {reader : BufferReader} {result : List α × BufferReader}
    (h : readItems read n reader = some result) : result.1.length = n := by
  induction n generalizing reader result with
  | zero =>
    cases h
    rfl
  | succ n ih =>
    obtain ⟨first, -, hmap⟩ := bind_eq_some_iff.mp h
    obtain ⟨rest, hrest, rfl⟩ := map_eq_some_iff.mp hmap
    rw [length_cons, ih hrest]

theorem readItems_rarely (hfits : TextsFitItems json items) (h : ¬SendableItems json items)
    (ih : ∀ item ∈ items, TextsFit json item → ¬Sendable32 json item → ReadsRarely json item)
    {before more more' : Bytes} {depth depth' : Nat} {result result' : BufferReader}
    (hread : readItems (deserializeTo json depth) items.length
      (readerAt before (serializeItems json items ++ more)) = some (items, result))
    (hread' : readItems (deserializeTo json depth') items.length
      (readerAt before (serializeItems json items ++ more')) = some (items, result')) :
    more.length = more'.length := by
  induction items generalizing before with
  | nil => exact absurd trivial h
  | cons item items ihItems =>
    rw [serializeItems_cons, length_cons, append_assoc] at hread hread'
    obtain ⟨first, hfirst, hmap⟩ := bind_eq_some_iff.mp hread
    obtain ⟨rest, hrest, heq⟩ := map_eq_some_iff.mp hmap
    obtain ⟨first', hfirst', hmap'⟩ := bind_eq_some_iff.mp hread'
    obtain ⟨rest', hrest', heq'⟩ := map_eq_some_iff.mp hmap'
    obtain ⟨hitem, hitems⟩ := cons.inj (Prod.mk.inj heq).1
    obtain ⟨hitem', hitems'⟩ := cons.inj (Prod.mk.inj heq').1
    by_cases hsendable : Sendable32 json item
    · have hreads := readsTo_of_sendable item hsendable
      have hbehind := (hreads depth before _).1 first hfirst
      have hbehind' := (hreads depth' before _).1 first' hfirst'
      rw [hbehind] at hrest
      rw [hbehind'] at hrest'
      refine @ihItems hfits.2 (fun hitems => h ⟨hsendable, hitems⟩)
        (fun item hmem => ih item (mem_cons_of_mem _ hmem))
        (before ++ serialize json item) ?_ ?_
      · rw [hrest]
        exact congrArg some (Prod.ext hitems (Prod.mk.inj heq).2)
      · rw [hrest']
        exact congrArg some (Prod.ext hitems' (Prod.mk.inj heq').2)
    · have hrarely := ih item (mem_cons_self ..) hfits.1 hsendable before
        (serializeItems json items ++ more) (serializeItems json items ++ more') depth depth'
        first.2 first'.2 (hfirst.trans (congrArg some (Prod.ext hitem rfl)))
        (hfirst'.trans (congrArg some (Prod.ext hitem' rfl)))
      rw [length_append, length_append] at hrarely
      omega

theorem readsRarely_array (hfits : TextsFit json (.array items))
    (h : ¬Sendable32 json (.array items))
    (ih : ∀ item ∈ items, TextsFit json item → ¬Sendable32 json item → ReadsRarely json item) :
    ReadsRarely json (.array items) := by
  have hread {before more : Bytes} {depth : Nat} {result : BufferReader}
      (hresult : deserializeTo json depth (readerAt before
        (serialize json (.array items) ++ more)) = some (.array items, result)) :
      ∃ depth', (BitVec.ofNat 32 items.length).toInt.toNat = items.length ∧
        readItems (deserializeTo json depth') (BitVec.ofNat 32 items.length).toInt.toNat
          (readerAt (before ++ [DataType.array] ++ writeInt32VQL (BitVec.ofNat 32 items.length))
            (serializeItems json items ++ more)) = some (items, result) := by
    cases depth with
    | zero => cases hresult
    | succ depth =>
      rw [serialize_array, cons_append, append_assoc, deserializeTo_array, readIntVQL_at]
        at hresult
      obtain ⟨read, hitems, heq⟩ := map_eq_some_iff.mp hresult
      obtain ⟨harray, hrest⟩ := Prod.mk.inj heq
      refine ⟨depth, ?_, ?_⟩
      · rw [← length_readItems hitems, IpcValue.array.inj harray]
      · rw [hitems]
        exact congrArg some (Prod.ext (IpcValue.array.inj harray) hrest)
  intro before more more' depth depth' result result' hresult hresult'
  obtain ⟨_, hcount, hitems⟩ := hread hresult
  obtain ⟨_, -, hitems'⟩ := hread hresult'
  rw [hcount] at hitems hitems'
  have hlength : items.length < 2 ^ 31 := by
    by_contra hlarge
    have := toInt_ofNat_lt (Nat.not_lt.mp hlarge)
    omega
  exact readItems_rarely hfits (fun hitems => h ⟨hlength, hitems⟩) ih hitems hitems'

theorem readsRarely_of_not (value : IpcValue J) :
    TextsFit json value → ¬Sendable32 json value → ReadsRarely json value := by
  induction value using inductOn with
  | undefined | integer _ => exact fun _ h => absurd trivial h
  | string text => exact readsRarely_string
  | buffer bytes => exact fun _ => readsRarely_buffer
  | vsBuffer bytes => exact fun _ => readsRarely_vsBuffer
  | array items ih => exact fun hfits h => readsRarely_array hfits h ih
  | object value => exact fun hfits h => absurd hfits h

/-! ## The theorem -/

theorem deserialize_of_readsTo (h : ReadsTo json value) : ReadBack json value := by
  intro before more
  refine (h _ before more).2 ?_
  show _ ≤ (before ++ (serialize json value ++ more)).length - before.length + 1
  rw [length_append, length_append]
  omega

theorem sendable_of_readBack (hfits : TextsFit json value) (h : ReadBack json value) :
    Sendable32 json value := by
  by_contra hnot
  have hlength := readsRarely_of_not value hfits hnot [] [] [0] _ _ _ _ (h [] []) (h [] [0])
  exact absurd hlength (by decide)

theorem deserialize_sequence {values : List (IpcValue J)}
    (h : ∀ value ∈ values, ReadBack json value) (before more : Bytes) :
    readItems (deserialize json) values.length
        (readerAt before (serializeItems json values ++ more)) =
      some (values, readerAt (before ++ serializeItems json values) more) := by
  induction values generalizing before with
  | nil =>
    rw [serializeItems_nil, append_nil]
    rfl
  | cons value values ih =>
    rw [serializeItems_cons, append_assoc, length_cons, readItems, h value (mem_cons_self ..),
      bind_some, ih fun value hmem => h value (mem_cons_of_mem _ hmem), append_assoc]
    rfl

end

/-- Values without a lone surrogate in a string and with lengths below `2^31` are read
back, one by one or in sequence; among the values whose texts an engine can hold, these
are the only ones that are. -/
theorem ipcValues_readBack {J : Type} (json : JsonText J) :
    (∀ value, Sendable32 json value → ReadBack json value) ∧
      (∀ value, TextsFit json value → ReadBack json value → Sendable32 json value) ∧
      ∀ values, (∀ value ∈ values, Sendable32 json value) → ∀ before more,
        readItems (deserialize json) values.length
            (readerAt before (serializeItems json values ++ more)) =
          some (values, readerAt (before ++ serializeItems json values) more) := by
  refine ⟨?_, ?_, ?_⟩
  · intro value h
    exact deserialize_of_readsTo (readsTo_of_sendable value h)
  · intro value hfits hback
    exact sendable_of_readBack hfits hback
  · intro values h
    apply deserialize_sequence
    intro value hmem
    exact deserialize_of_readsTo (readsTo_of_sendable value (h value hmem))

def boolText : JsonText Bool where
  stringify b := ofString (if b then "true" else "false")
  parse text :=
    if text = ofString "true" then some true
    else if text = ofString "false" then some false else none
  parse_stringify := by decide
  wellFormed := by decide

/-- A string that is a lone surrogate, an array of numbers and a truth value. -/
theorem ipcValues_readBack_mixed :
    ReadBack boolText (.array [.integer (-1), .string (ofString "é"), .object true]) ∧
      ¬ReadBack boolText (.array [.string [0xD800]]) := by
  constructor
  · apply (ipcValues_readBack boolText).1
    simp only [Sendable32, SendableItems]
    decide
  · intro h
    have := (ipcValues_readBack boolText).2.1 _ (by simp only [TextsFit, TextsFitItems]; decide) h
    simp only [Sendable32, SendableItems] at this
    exact absurd this.2.1.1 (by decide)

/-- A lone surrogate does not come back. -/
theorem not_always_readBack : ¬∀ value : IpcValue Bool, ReadBack boolText value := by
  intro h
  have hsendable := sendable_of_readBack (by rw [TextsFit]; decide) (h (.string [0xD800]))
  rw [Sendable32] at hsendable
  exact absurd hsendable.1 (by decide)

end Fumie.Base
