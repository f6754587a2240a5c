import Fumie.Base.Strings
import Fumie.Lib.Transducer

/-!
# The OSC 633 parser

`node/osc633Parser.ts`: a stateful reader of terminal output that takes the shell
integration sequences `ESC ] 633 ; … (BEL | ESC \)` out of the text and reports them
as events, in the order of the stream. A sequence may begin in one chunk and end in a
later one.
-/

namespace Fumie.AgentHost

open Fumie.Lib Fumie.Base

namespace Osc633

/-! ## Payloads -/

inductive Osc633Event where
  | promptStart
  | commandStart
  | commandExecuted
  | commandFinished (exitCode : Option Int)
  | commandLine (commandLine : JsString) (nonce : Option JsString)
  | property (key value : JsString)
  deriving DecidableEq

inductive Osc633ParseSegment where
  | data (data : JsString)
  | event (event : Osc633Event)
  deriving DecidableEq

def hexDigitValue? (u : CodeUnit) : Option Nat :=
  if 48 ≤ u.val ∧ u.val ≤ 57 then some (u.val - 48)
  else if 97 ≤ u.val ∧ u.val ≤ 102 then some (u.val - 87)
  else if 65 ≤ u.val ∧ u.val ≤ 70 then some (u.val - 55)
  else none

def hexEscape? (x a b : CodeUnit) : Option CodeUnit :=
  if x = 120 ∨ x = 88 then
    match hexDigitValue? a, hexDigitValue? b with
    | some high, some low => some (Fin.ofNat 0x10000 (16 * high + low))
    | _, _ => none
  else none

def deserializeOscMessage : JsString → JsString
  | [] => []
  | u :: rest =>
    if u = 92 then
      match rest with
      | [] => [92]
      | x :: rest =>
        if x = 92 then 92 :: deserializeOscMessage rest
        else
          match rest with
          | a :: b :: rest =>
            match hexEscape? x a b with
            | some unit => unit :: deserializeOscMessage rest
            | none => 92 :: deserializeOscMessage (x :: a :: b :: rest)
          | rest => 92 :: deserializeOscMessage (x :: rest)
    else u :: deserializeOscMessage rest

/-- `parseInt(text, 10)`, `none` where it gives `NaN`. -/
def parseInt10 (text : JsString) : Option Int :=
  let trimmed := trimStart text
  let negative := trimmed.head? = some 45
  let unsigned := if trimmed.head? = some 45 ∨ trimmed.head? = some 43 then trimmed.tail else trimmed
  match unsigned.takeWhile isDecimalDigit with
  | [] => none
  | digits =>
    let value : Int := digits.foldl (fun n u => 10 * n + (u.val - 48 : Nat)) 0
    some (if negative then -value else value)

def parseOsc633Payload (payload : JsString) : Option Osc633Event :=
  let semiIdx := payload.idxOf? 59
  if semiIdx.getD payload.length ≠ 1 then none
  else
    let argsRaw := match semiIdx with
      | none => []
      | some i => payload.drop (i + 1)
    match (payload.headD 0).val with
    | 65 => some .promptStart
    | 66 => some .commandStart
    | 67 => some .commandExecuted
    | 68 => some (.commandFinished (if argsRaw.length > 0 then parseInt10 argsRaw else none))
    | 69 =>
      match argsRaw.idxOf? 59 with
      | none => some (.commandLine (deserializeOscMessage argsRaw) none)
      | some nonceIdx =>
        some (.commandLine (deserializeOscMessage (argsRaw.take nonceIdx))
          (some (argsRaw.drop (nonceIdx + 1))))
    | 80 =>
      let deserialized := deserializeOscMessage argsRaw
      match deserialized.idxOf? 61 with
      | none => none
      | some eqIdx => some (.property (deserialized.take eqIdx) (deserialized.drop (eqIdx + 1)))
    | _ => none

/-! ## The parser -/

def ESC : CodeUnit := 0x1b

def OSC_START : JsString := [ESC, 0x5d]

def BEL : CodeUnit := 0x07

def BACKSLASH : CodeUnit := 0x5c

def ST : JsString := [ESC, BACKSLASH]

def PREFIX_633 : JsString := [54, 51, 51, 59]

structure SegmentBuffer where
  segments : List Osc633ParseSegment := []
  pending : JsString := []

namespace SegmentBuffer

variable (b : SegmentBuffer)

def appendData (value : JsString) : SegmentBuffer :=
  { b with pending := b.pending ++ value }

def flushData : SegmentBuffer :=
  if b.pending.length > 0 then { segments := b.segments ++ [.data b.pending], pending := [] }
  else b

def emitEvent (event : Osc633Event) : SegmentBuffer :=
  { b.flushData with segments := b.flushData.segments ++ [.event event] }

def handleOscPayload (payload terminator : JsString) : SegmentBuffer :=
  if PREFIX_633.isPrefixOf payload then
    match parseOsc633Payload (payload.drop 4) with
    | some event => b.emitEvent event
    | none => b
  else b.appendData (OSC_START ++ payload ++ terminator)

end SegmentBuffer

/-- The result of `_consumeOscBody` with the buffer it has extended; `rest` is the data
from `nextIndex` on. -/
structure OscBody where
  pendingOsc : JsString
  rest : JsString
  complete : Bool
  pendingEsc : Bool := false
  terminator : JsString := [BEL]

def consumeOscBody (pendingOsc data : JsString) : OscBody :=
  let belIdx := data.idxOf? BEL
  let escIdx := data.idxOf? ESC
  if belIdx.isSome && (escIdx.isNone || belIdx.getD 0 < escIdx.getD 0) then
    { pendingOsc := pendingOsc ++ data.take (belIdx.getD 0)
      rest := data.drop (belIdx.getD 0 + 1)
      complete := true }
  else
    match escIdx with
    | some escIdx =>
      if escIdx + 1 ≥ data.length then
        { pendingOsc := pendingOsc ++ data.take escIdx
          rest := []
          complete := false
          pendingEsc := true }
      else if data.getD (escIdx + 1) 0 = BACKSLASH then
        { pendingOsc := pendingOsc ++ data.take escIdx
          rest := data.drop (escIdx + 2)
          complete := true
          terminator := ST }
      else
        { pendingOsc := pendingOsc ++ data.take escIdx
          rest := data.drop escIdx
          complete := true }
    | none => { pendingOsc := pendingOsc ++ data, rest := [], complete := false }

structure Osc633Parser where
  pendingOsc : JsString := []
  inOsc : Bool := false
  pendingEscInOsc : Bool := false
  deriving DecidableEq

namespace Osc633Parser

def parseLoop : Nat → Osc633Parser → SegmentBuffer → JsString → Osc633Parser × SegmentBuffer
  | 0, p, b, _ => (p, b)
  | _ + 1, p, b, [] => (p, b)
  | fuel + 1, p, b, u :: rest =>
    if p.inOsc then
      if p.pendingEscInOsc then
        if u = BACKSLASH then parseLoop fuel {} (b.handleOscPayload p.pendingOsc ST) rest
        else parseLoop fuel {} (b.handleOscPayload p.pendingOsc [BEL]) (u :: rest)
      else
        let result := consumeOscBody p.pendingOsc (u :: rest)
        if result.complete then
          parseLoop fuel {} (b.handleOscPayload result.pendingOsc result.terminator) result.rest
        else parseLoop fuel ⟨result.pendingOsc, true, result.pendingEsc⟩ b result.rest
    else
      match indexOf OSC_START (u :: rest) with
      | none => (p, b.appendData (u :: rest))
      | some escIdx =>
        let b := b.appendData ((u :: rest).take escIdx)
        let result := consumeOscBody [] ((u :: rest).drop (escIdx + 2))
        if result.complete then
          parseLoop fuel {} (b.handleOscPayload result.pendingOsc result.terminator) result.rest
        else parseLoop fuel ⟨result.pendingOsc, true, result.pendingEsc⟩ b result.rest

def parseSegments (p : Osc633Parser) (data : JsString) : Osc633Parser × List Osc633ParseSegment :=
  if !p.inOsc && (indexOf OSC_START data).isNone then
    (p, (({} : SegmentBuffer).appendData data).flushData.segments)
  else
    let result := p.parseLoop (2 * data.length + 1) {} data
    (result.1, result.2.flushData.segments)

end Osc633Parser

def segmentsOf (chunks : List JsString) : List Osc633ParseSegment :=
  (feed Osc633Parser.parseSegments {} chunks).2

def cleanedText : List Osc633ParseSegment → JsString
  | [] => []
  | .data data :: rest => data ++ cleanedText rest
  | .event _ :: rest => cleanedText rest

def placedEvents (offset : Nat) : List Osc633ParseSegment → List (Nat × Osc633Event)
  | [] => []
  | .data data :: rest => placedEvents (offset + data.length) rest
  | .event event :: rest => (offset, event) :: placedEvents offset rest

end Osc633

end Fumie.AgentHost
