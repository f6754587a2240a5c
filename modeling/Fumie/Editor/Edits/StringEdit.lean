import Fumie.Base.Strings
import Fumie.Lib.Rewrites

/-!
# String edits

A string edit is a sorted list of replacements of ranges that do not overlap, all applied
at once. What throws in the sources is `none` here: a range whose end is before its
start and replacements that are not sorted.
-/

namespace Fumie.Editor

open Fumie.Lib Fumie.Base List

/-- `str.substring(start, end)`. -/
def substring (str : JsString) (start stop : Int) : JsString :=
  let from' := min start.toNat str.length
  let to' := min stop.toNat str.length
  (str.drop (min from' to')).take (max from' to' - min from' to')

structure OffsetRange where
  start : Int
  endExclusive : Int
  le : start ≤ endExclusive
  deriving DecidableEq, Repr

namespace OffsetRange

def new (start endExclusive : Int) : Option OffsetRange :=
  if h : start ≤ endExclusive then some ⟨start, endExclusive, h⟩ else none

def ofStartAndLength (start : Int) (length : Nat) : OffsetRange := ⟨start, start + length, by omega⟩

def emptyAt (offset : Int) : OffsetRange := ⟨offset, offset, Int.le_refl _⟩

def isEmpty (r : OffsetRange) : Bool := r.start = r.endExclusive

def length (r : OffsetRange) : Int := r.endExclusive - r.start

def delta (r : OffsetRange) (offset : Int) : OffsetRange :=
  ⟨r.start + offset, r.endExclusive + offset, Int.add_le_add_right r.le offset⟩

def intersects (r other : OffsetRange) : Bool :=
  max r.start other.start < min r.endExclusive other.endExclusive

def isBefore (r other : OffsetRange) : Bool := r.endExclusive ≤ other.start

def joinRightTouching (r range : OffsetRange) : Option OffsetRange :=
  if r.endExclusive = range.start then new r.start range.endExclusive else none

end OffsetRange

structure StringReplacement where
  replaceRange : OffsetRange
  newText : JsString
  deriving DecidableEq, Repr

namespace StringReplacement

section

variable (r : StringReplacement)

def getNewLength : Nat := r.newText.length

def getLengthDelta : Int := r.getNewLength - r.replaceRange.length

def delta (r : StringReplacement) (offset : Int) : StringReplacement :=
  ⟨r.replaceRange.delta offset, r.newText⟩

def tryJoinTouching (r other : StringReplacement) : Option StringReplacement :=
  (r.replaceRange.joinRightTouching other.replaceRange).map fun range =>
    ⟨range, r.newText ++ other.newText⟩

def insertSlice (offset start endExclusive : Int) : StringReplacement :=
  ⟨.emptyAt offset, substring r.newText start endExclusive⟩

def replace (str : JsString) : JsString :=
  substring str 0 r.replaceRange.start ++ r.newText ++
    substring str r.replaceRange.endExclusive str.length

end

instance : Rewrite StringReplacement CodeUnit where
  start r := r.replaceRange.start
  stop r := r.replaceRange.endExclusive
  text r := r.newText

end StringReplacement

/-- The check of the constructor of `BaseEdit`. -/
def sortedAfter (lastEndEx : Int) : List StringReplacement → Bool
  | [] => true
  | r :: rs => lastEndEx ≤ r.replaceRange.start && sortedAfter r.replaceRange.endExclusive rs

structure StringEdit where
  replacements : List StringReplacement
  sorted : sortedAfter (-1) replacements = true
  deriving DecidableEq, Repr

namespace StringEdit

variable (e : StringEdit) (ourRange : OffsetRange) (replacements : List StringReplacement)
  (base : StringEdit) (baseRange : OffsetRange)

def new : Option StringEdit :=
  if h : sortedAfter (-1) replacements = true then some ⟨replacements, h⟩ else none

def empty : StringEdit := ⟨[], rfl⟩

def isEmpty : Bool := e.replacements.isEmpty

def applyFrom (base : JsString) (pos : Int) : List StringReplacement → JsString
  | [] => substring base pos base.length
  | r :: rs =>
    substring base pos r.replaceRange.start ++
      (r.newText ++ applyFrom base r.replaceRange.endExclusive rs)

def apply (base : JsString) : JsString := applyFrom base 0 e.replacements

/-! ## Normalizing -/

def normalizeLoop (lastReplacement : Option StringReplacement) :
    List StringReplacement → Option (List StringReplacement)
  | [] => some lastReplacement.toList
  | r :: rs =>
    if r.getNewLength = 0 ∧ r.replaceRange.length = 0 then normalizeLoop lastReplacement rs
    else
      match lastReplacement with
      | none => normalizeLoop (some r) rs
      | some last =>
        if last.replaceRange.endExclusive = r.replaceRange.start then
          (last.tryJoinTouching r).bind fun joined => normalizeLoop (some joined) rs
        else (normalizeLoop (some r) rs).map (last :: ·)

def normalize : Option StringEdit := (normalizeLoop none e.replacements).bind new

/-! ## Composing -/

/-- The queue of the first edit after a loop that takes replacements off it. -/
structure Queued where
  taken : List StringReplacement
  queue : List StringReplacement
  edit1ToEdit2 : Int

def Queued.cons (r : StringReplacement) (rest : Queued) : Queued :=
  { rest with taken := r :: rest.taken }

def copyOver (start : Int) (edit1ToEdit2 : Int) : List StringReplacement → Queued
  | [] => ⟨[], [], edit1ToEdit2⟩
  | r1 :: queue =>
    if start ≤ r1.replaceRange.start + edit1ToEdit2 + r1.getNewLength then
      ⟨[], r1 :: queue, edit1ToEdit2⟩
    else (copyOver start (edit1ToEdit2 + r1.getLengthDelta) queue).cons r1

def takeIntersecting (endExclusive : Int) (edit1ToEdit2 : Int) : List StringReplacement → Queued
  | [] => ⟨[], [], edit1ToEdit2⟩
  | r1 :: queue =>
    if endExclusive < r1.replaceRange.start + edit1ToEdit2 then ⟨[], r1 :: queue, edit1ToEdit2⟩
    else (takeIntersecting endExclusive (edit1ToEdit2 + r1.getLengthDelta) queue).cons r1

def prefixOf (first : StringReplacement) (newReplaceRangeStart prefixLength : Int) :
    List StringReplacement :=
  if 0 < prefixLength then [first.insertSlice newReplaceRangeStart 0 prefixLength] else []

def putBack (last : StringReplacement) (suffixLength : Int) (queued : Queued) : Queued :=
  if 0 < suffixLength then
    let e := last.insertSlice last.replaceRange.endExclusive (last.getNewLength - suffixLength)
      last.getNewLength
    { queued with
      queue := e :: queued.queue
      edit1ToEdit2 := queued.edit1ToEdit2 - e.getLengthDelta }
  else queued

def composeLoop (edit1Queue : List StringReplacement) (edit1ToEdit2 : Int) :
    List StringReplacement → Option (List StringReplacement)
  | [] => some edit1Queue
  | r2 :: rest =>
    let copied := copyOver r2.replaceRange.start edit1ToEdit2 edit1Queue
    let queued := takeIntersecting r2.replaceRange.endExclusive copied.edit1ToEdit2 copied.queue
    match queued.taken with
    | [] =>
      (composeLoop queued.queue queued.edit1ToEdit2 rest).map fun result =>
        copied.taken ++ r2.delta (-queued.edit1ToEdit2) :: result
    | first :: more =>
      let last := (first :: more).getLast (cons_ne_nil _ _)
      let newReplaceRangeStart :=
        min first.replaceRange.start (r2.replaceRange.start - copied.edit1ToEdit2)
      let prefixLength := r2.replaceRange.start - (first.replaceRange.start + copied.edit1ToEdit2)
      let suffixLength :=
        last.replaceRange.endExclusive + queued.edit1ToEdit2 - r2.replaceRange.endExclusive
      let left := putBack last suffixLength queued
      (OffsetRange.new newReplaceRangeStart
          (r2.replaceRange.endExclusive - left.edit1ToEdit2)).bind fun newReplaceRange =>
        (composeLoop left.queue left.edit1ToEdit2 rest).map fun result =>
          copied.taken ++ (prefixOf first newReplaceRangeStart prefixLength ++
            ⟨newReplaceRange, r2.newText⟩ :: result)

def compose (other : StringEdit) : Option StringEdit :=
  e.normalize.bind fun edits1 =>
    other.normalize.bind fun edits2 =>
      if edits1.isEmpty then some edits2
      else if edits2.isEmpty then some edits1
      else
        ((composeLoop edits1.replacements 0 edits2.replacements).bind new).bind normalize

def composeSequentialLoop (edit : StringEdit) (curEditReplacements : List StringReplacement) :
    List StringReplacement → Option StringEdit
  | [] => (new curEditReplacements).bind edit.compose
  | r :: rs =>
    if curEditReplacements.head?.all fun last => r.replaceRange.isBefore last.replaceRange then
      composeSequentialLoop edit (r :: curEditReplacements) rs
    else
      ((new curEditReplacements).bind edit.compose).bind fun edit =>
        composeSequentialLoop edit [r] rs

def composeSequentialReplacements : Option StringEdit :=
  composeSequentialLoop empty [] replacements

/-! ## Rebasing -/

def areConcurrentInserts (r1 r2 : OffsetRange) : Bool :=
  r1.isEmpty && r2.isEmpty && r1.start = r2.start

def isInsertStrictlyInsideRange (insert range : OffsetRange) : Bool :=
  insert.isEmpty && range.start < insert.start && insert.start < range.endExclusive

def conflicts : Bool :=
  ourRange.intersects baseRange || areConcurrentInserts ourRange baseRange ||
    isInsertStrictlyInsideRange ourRange baseRange ||
    isInsertStrictlyInsideRange baseRange ourRange

def startsFirst : Bool :=
  ourRange.start < baseRange.start ||
    ourRange.isEmpty && ourRange.start = baseRange.start

/-- The loop of `_tryRebase`. -/
def rebaseLoop (noOverlap : Bool) (offset : Int) :
    List StringReplacement → List StringReplacement → Option (List StringReplacement)
  | [], _ => some []
  | ourEdit :: ours, [] =>
    (rebaseLoop noOverlap offset ours []).map (ourEdit.delta offset :: ·)
  | ourEdit :: ours, baseEdit :: base =>
    if conflicts ourEdit.replaceRange baseEdit.replaceRange then
      if noOverlap then none else rebaseLoop noOverlap offset ours (baseEdit :: base)
    else if startsFirst ourEdit.replaceRange baseEdit.replaceRange then
      (rebaseLoop noOverlap offset ours (baseEdit :: base)).map (ourEdit.delta offset :: ·)
    else rebaseLoop noOverlap (offset + baseEdit.getLengthDelta) (ourEdit :: ours) base
  termination_by ours base => ours.length + base.length

/-- What `_tryRebase` returns: `undefined`, or the new edit when the constructor does not
throw. -/
inductive Rebased
  | undefined
  | edit (e : StringEdit)
  | throws
  deriving DecidableEq

def rebased (newEdits : Option (List StringReplacement)) : Rebased :=
  match newEdits with
  | none => .undefined
  | some edits =>
    match new edits with
    | some e => .edit e
    | none => .throws

def rebaseSkipConflicting : Rebased :=
  rebased (rebaseLoop false 0 e.replacements base.replacements)

def tryRebase : Rebased :=
  rebased (rebaseLoop true 0 e.replacements base.replacements)

def inverseLoop (getOriginalSlice : Int → Int → JsString) (offset : Int) :
    List StringReplacement → List StringReplacement
  | [] => []
  | r :: rs =>
    ⟨.ofStartAndLength (r.replaceRange.start + offset) r.newText.length,
        getOriginalSlice r.replaceRange.start r.replaceRange.endExclusive⟩ ::
      inverseLoop getOriginalSlice (offset + r.getLengthDelta) rs

def inverseOnSlice (getOriginalSlice : Int → Int → JsString) : Option StringEdit :=
  new (inverseLoop getOriginalSlice 0 e.replacements)

/-- `' '.repeat(endEx - start)`. -/
def spaces (start endEx : Int) : JsString := replicate (endEx - start).toNat 32

/-- `none` stands for `undefined`, and for what throws inside. -/
def trySwap (e1 e2 : StringEdit) : Option (StringEdit × StringEdit) :=
  (e1.inverseOnSlice spaces).bind fun e1Inv =>
    match e2.tryRebase e1Inv with
    | .edit e1' =>
      match e1.tryRebase e1' with
      | .edit e2' => some (e1', e2')
      | _ => none
    | _ => none

end StringEdit

end Fumie.Editor
