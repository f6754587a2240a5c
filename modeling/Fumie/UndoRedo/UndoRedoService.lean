import Fumie.Lib.Record
import Fumie.Lib.Runs

/-!
# The undo and redo stacks

Each resource has a stack of past and of future elements. A workspace element is one object
that lies in the stacks of several resources; a resource that its stack gives up is marked in
the element. Elements are referred to by their ids, and `elements` holds the objects.

Calls of `undo` and `redo` end by calling themselves or not at all, so a call is one step
that may leave another call to be made. What the dialogs, `prepareUndoRedo`, `undo`, `redo`
and `split` answer comes with the step. Operations run to completion one after the other:
no stack is locked when one begins, and no stack changes between the checks of one call.
Resources stand for their comparison keys.
-/

namespace Fumie.UndoRedo

open Fumie.Lib Record

inductive RemovedResourceReason where
  | externalRemoval
  | noParallelUniverses
  deriving DecidableEq, Repr

inductive UndoRedoElementType where
  | resource
  | workspace
  deriving DecidableEq, Repr

variable {κ : Type} [DecidableEq κ]

structure StackElement (κ : Type) where
  type : UndoRedoElementType
  strResources : List κ
  groupId : Nat
  groupOrder : Nat
  sourceId : Nat
  sourceOrder : Nat
  confirmBeforeUndo : Bool
  canSplit : Bool
  isValid : Bool
  removedResources : Record κ RemovedResourceReason
  invalidatedResources : Record κ RemovedResourceReason

namespace StackElement

instance : Inhabited (StackElement κ) :=
  ⟨⟨.resource, [], 0, 0, 0, 0, false, false, true, empty, empty⟩⟩

variable (e : StackElement κ)

def removeResource (strResource : κ) (reason : RemovedResourceReason) : StackElement κ :=
  if e.type = .workspace ∧ e.removedResources.get strResource = none then
    { e with removedResources := e.removedResources.set strResource reason }
  else e

def setValid (strResource : κ) (isValid : Bool) : StackElement κ :=
  match e.type, isValid with
  | .resource, isValid => { e with isValid := isValid }
  | .workspace, true =>
    { e with invalidatedResources := e.invalidatedResources.delete strResource }
  | .workspace, false =>
    if e.invalidatedResources.get strResource = none then
      { e with
        invalidatedResources := e.invalidatedResources.set strResource .externalRemoval }
    else e

end StackElement

/-! ## One stack -/

inductive Side where
  | past
  | future
  deriving DecidableEq, Repr

/-- The elements closest to the present stand last on both sides. -/
structure ResourceEditStack where
  past : List Nat
  future : List Nat
  deriving DecidableEq, Repr

namespace ResourceEditStack

variable (stack : ResourceEditStack)

def on : Side → List Nat
  | .past => stack.past
  | .future => stack.future

def getClosestElement (side : Side) : Option Nat := (stack.on side).getLast?

def getSecondClosestPastElement : Option Nat := stack.past.dropLast.getLast?

def replaceLast (toRemove : Nat) (replacement : Option Nat) : List Nat → List Nat
  | [] => []
  | id :: rest =>
    if toRemove ∈ rest then id :: replaceLast toRemove replacement rest
    else if id = toRemove then replacement.toList ++ rest
    else id :: rest

def splitWorkspaceElement (side : Side) (toRemove : Nat)
    (replacement : Option Nat) : ResourceEditStack :=
  match side with
  | .past => { stack with past := replaceLast toRemove replacement stack.past }
  | .future => { stack with future := replaceLast toRemove replacement stack.future }

def move (side : Side) (element : Nat) : ResourceEditStack :=
  match side with
  | .past => ⟨stack.past.dropLast, stack.future ++ [element]⟩
  | .future => ⟨stack.past ++ [element], stack.future.dropLast⟩

def snapshotElements : List Nat := stack.past ++ stack.future.reverse

def agreeing : List Nat → List Nat → Nat
  | id :: ids, element :: elements => if id = element then agreeing ids elements + 1 else 0
  | _, _ => 0

def restoreSnapshot (elements : List Nat) : ResourceEditStack × List Nat :=
  if agreeing stack.past elements < stack.past.length then
    -- every future element is marked too, but `removeFutureBefore` stays at `-1`
    (⟨stack.past.take (agreeing stack.past elements), stack.future⟩,
      stack.past.drop (agreeing stack.past elements) ++ stack.future)
  else
    (⟨stack.past, stack.future.drop (stack.future.length -
        agreeing stack.future.reverse (elements.drop stack.past.length))⟩,
      stack.future.take (stack.future.length -
        agreeing stack.future.reverse (elements.drop stack.past.length)))

end ResourceEditStack

structure ResourceEditStackSnapshot (κ : Type) where
  strResource : κ
  elements : List Nat

/-! ## The service -/

structure UndoRedoService (κ : Type) where
  editStacks : Record κ ResourceEditStack
  elements : Nat → StackElement κ
  stackElementCounter : Nat

inductive Call (κ : Type) where
  | undo (strResource : κ) (sourceId : Nat) (undoConfirmed : Bool)
  | redo (strResource : κ)

inductive UndoChoice where
  | all
  | this
  | cancel
  deriving DecidableEq, Repr

/-- What the code outside the service answers during one call. `split` lists the resources
of the elements that an element splits into, with their `confirmBeforeUndo`. -/
structure Replies (κ : Type) where
  confirmed : Bool
  choice : UndoChoice
  prepared : Bool
  invoked : Bool
  split : List (κ × Bool)

structure PushedElement (κ : Type) where
  resources : List κ
  groupId : Nat
  groupOrder : Nat
  sourceId : Nat
  sourceOrder : Nat
  confirmBeforeUndo : Bool
  canSplit : Bool

namespace PushedElement

/-- The resources without repetitions, each where it stands first. -/
def distinct (seen : List κ) : List κ → List κ
  | [] => []
  | resource :: rest =>
    if resource ∈ seen then distinct seen rest else resource :: distinct (resource :: seen) rest

def strResources (element : PushedElement κ) : List κ := distinct [] element.resources

def toStackElement (element : PushedElement κ) : StackElement κ where
  type := if element.strResources.length = 1 then .resource else .workspace
  strResources := element.strResources
  groupId := element.groupId
  groupOrder := element.groupOrder
  sourceId := element.sourceId
  sourceOrder := element.sourceOrder
  confirmBeforeUndo := element.confirmBeforeUndo
  canSplit := element.canSplit
  isValid := true
  removedResources := empty
  invalidatedResources := empty

end PushedElement

namespace UndoRedoService

def initial : UndoRedoService κ := ⟨empty, fun _ => default, 0⟩

variable (s : UndoRedoService κ)

section

variable (side : Side)

section

variable (strResource : κ)

def closest : Option Nat :=
  (s.editStacks.get strResource).bind fun stack => stack.getClosestElement side

def markRemoved (reason : RemovedResourceReason) (ids : List Nat) : UndoRedoService κ :=
  { s with
    elements := fun id =>
      if id ∈ ids then (s.elements id).removeResource strResource reason else s.elements id }

def setStack (stack : ResourceEditStack) :
    UndoRedoService κ := { s with editStacks := s.editStacks.set strResource stack }

def deleteStack : UndoRedoService κ :=
  { s with editStacks := s.editStacks.delete strResource }

def newElement (element : StackElement κ) : UndoRedoService κ :=
  { s with
    elements := Function.update s.elements (s.stackElementCounter + 1) element
    stackElementCounter := s.stackElementCounter + 1 }

/-! ### Pushing -/

def pushOne (id : Nat) (s : UndoRedoService κ) (strResource : κ) : UndoRedoService κ :=
  match s.editStacks.get strResource with
  | none => s.setStack strResource ⟨[id], []⟩
  | some stack =>
    (s.markRemoved strResource .noParallelUniverses stack.future).setStack strResource
      ⟨stack.past ++ [id], []⟩

def pushElement (element : PushedElement κ) : UndoRedoService κ :=
  element.strResources.foldl (pushOne (s.stackElementCounter + 1))
    (s.newElement element.toStackElement)

/-! ### Removing and flags -/

def removeElements : UndoRedoService κ :=
  match s.editStacks.get strResource with
  | none => s
  | some stack =>
    (s.markRemoved strResource .externalRemoval (stack.past ++ stack.future)).deleteStack
      strResource

def setElementsValidFlag (isValid : Bool) (filter : Nat → Bool) : UndoRedoService κ :=
  match s.editStacks.get strResource with
  | none => s
  | some stack =>
    { s with
      elements := fun id =>
        if id ∈ stack.past ++ stack.future ∧ filter id then
          (s.elements id).setValid strResource isValid
        else s.elements id }

def createSnapshot : ResourceEditStackSnapshot κ :=
  ⟨strResource, ((s.editStacks.get strResource).map ResourceEditStack.snapshotElements).getD []⟩

end

def restoreSnapshot (s : UndoRedoService κ) (snapshot : ResourceEditStackSnapshot κ) :
    UndoRedoService κ :=
  match s.editStacks.get snapshot.strResource with
  | none => s
  | some stack =>
    if (stack.restoreSnapshot snapshot.elements).1 = ⟨[], []⟩ then
      (s.markRemoved snapshot.strResource .externalRemoval
        (stack.restoreSnapshot snapshot.elements).2).deleteStack snapshot.strResource
    else
      (s.markRemoved snapshot.strResource .externalRemoval
        (stack.restoreSnapshot snapshot.elements).2).setStack snapshot.strResource
        (stack.restoreSnapshot snapshot.elements).1

/-! ### Splitting -/

/-- The elements that an element splits into, each under its resource; of two for one
resource the later counts. -/
def newIndividuals (s : UndoRedoService κ) (individuals : Record κ Nat) :
    List (κ × Bool) → UndoRedoService κ × Record κ Nat
  | [] => (s, individuals)
  | (resource, confirmBeforeUndo) :: rest =>
    newIndividuals
      (s.newElement ⟨.resource, [resource], 0, 0, 0, 0, confirmBeforeUndo, false, true,
        empty, empty⟩)
      (individuals.set resource (s.stackElementCounter + 1)) rest

def splitLoop (side : Side) (toRemove : Nat) (individuals : Record κ Nat)
    (ignoreResources : Record κ RemovedResourceReason) (s : UndoRedoService κ) :
    List κ → UndoRedoService κ × Bool
  | [] => (s, true)
  | strResource :: rest =>
    if ignoreResources.get strResource ≠ none then
      splitLoop side toRemove individuals ignoreResources s rest
    else
      match s.editStacks.get strResource with
      | none => (s, false)
      | some stack =>
        splitLoop side toRemove individuals ignoreResources
          (s.setStack strResource
            (stack.splitWorkspaceElement side toRemove (individuals.get strResource))) rest

def splitWorkspaceElement (toRemove : Nat)
    (ignoreResources : Record κ RemovedResourceReason) (split : List (κ × Bool)) :
    UndoRedoService κ × Bool :=
  splitLoop side toRemove (s.newIndividuals empty split).2 ignoreResources
    (s.newIndividuals empty split).1 (s.elements toRemove).strResources

/-! ### Undo and redo -/

section

variable (element : Nat)

def onError : UndoRedoService κ := (s.elements element).strResources.foldl removeElements s

section

variable (strResource : κ)

def retry : Call κ :=
  match side with
  | .past => .undo strResource 0 true
  | .future => .redo strResource

/-- `_splitPastWorkspaceElement` or its sibling, and then the call again. -/
def splitAndRetry (element : Nat)
    (ignoreResources : Record κ RemovedResourceReason) (replies : Replies κ) :
    UndoRedoService κ × Option (Call κ) :=
  ((s.splitWorkspaceElement side element ignoreResources replies.split).1,
    if (s.splitWorkspaceElement side element ignoreResources replies.split).2 then
      some (retry side strResource)
    else none)

/-- `_tryToSplitAndUndo` and `_tryToSplitAndRedo`. -/
def tryToSplit (element : Nat)
    (ignoreResources : Record κ RemovedResourceReason) (replies : Replies κ) :
    UndoRedoService κ × Option (Call κ) :=
  if (s.elements element).canSplit then
    s.splitAndRetry side strResource element ignoreResources replies
  else (s.onError element, none)

/-- `_checkWorkspaceUndo` and `_checkWorkspaceRedo`; `none` where nothing is in the way. -/
def checkWorkspace (element : Nat) (checkInvalidatedResources : Bool) (replies : Replies κ) :
    Option (UndoRedoService κ × Option (Call κ)) :=
  if (s.elements element).removedResources.entries ≠ [] then
    some (s.tryToSplit side strResource element (s.elements element).removedResources replies)
  else if checkInvalidatedResources ∧
      (s.elements element).invalidatedResources.entries ≠ [] then
    some (s.tryToSplit side strResource element (s.elements element).invalidatedResources replies)
  else if ∃ resource ∈ (s.elements element).strResources,
      s.closest side resource ≠ some element then
    some (s.tryToSplit side strResource element empty replies)
  else none

def moveOne (s : UndoRedoService κ) (strResource : κ) : UndoRedoService κ :=
  match s.editStacks.get strResource with
  | none => s
  | some stack => s.setStack strResource (stack.move side element)

def findClosest (wanted : StackElement κ → Bool)
    (better : StackElement κ → StackElement κ → Bool) : Option (Nat × κ) :=
  s.editStacks.entries.foldl (fun best entry =>
    match entry.2.getClosestElement side with
    | none => best
    | some candidate =>
      if wanted (s.elements candidate) then
        match best with
        | none => some (candidate, entry.1)
        | some (matched, _) =>
          if better (s.elements candidate) (s.elements matched) then some (candidate, entry.1)
          else best
      else best) none

variable (groupId sourceId : Nat) (undoConfirmed : Bool)

def findClosestElementWithSource : Option (Nat × κ) :=
  if sourceId = 0 then none
  else
    match side with
    | .past => s.findClosest .past (fun e => e.sourceId = sourceId)
        fun candidate matched => candidate.sourceOrder > matched.sourceOrder
    | .future => s.findClosest .future (fun e => e.sourceId = sourceId)
        fun candidate matched => candidate.sourceOrder < matched.sourceOrder

def findClosestElementInGroup : Option (Nat × κ) :=
  if groupId = 0 then none
  else
    match side with
    | .past => s.findClosest .past (fun e => e.groupId = groupId)
        fun candidate matched => candidate.groupOrder > matched.groupOrder
    | .future => s.findClosest .future (fun e => e.groupId = groupId)
        fun candidate matched => candidate.groupOrder < matched.groupOrder

def callOf (strResource : κ) : Call κ :=
  match side with
  | .past => .undo strResource sourceId undoConfirmed
  | .future => .redo strResource

def continueInGroup : Option (Call κ) :=
  (s.findClosestElementInGroup side groupId).map fun found => callOf side 0 undoConfirmed found.2

/-- The element has been moved and is now invoked. -/
def invoke (replies : Replies κ) : UndoRedoService κ × Option (Call κ) :=
  if replies.invoked then
    (s, s.continueInGroup side (s.elements element).groupId undoConfirmed)
  else (s.onError element, none)

/-- From the call of `prepareUndoRedo` on. -/
def executeWorkspace (element : Nat)
    (undoConfirmed : Bool) (replies : Replies κ) : UndoRedoService κ × Option (Call κ) :=
  if replies.prepared then
    match s.checkWorkspace side strResource element true replies with
    | some verificationError => verificationError
    | none =>
      ((s.elements element).strResources.foldl (moveOne side element) s).invoke side element
        undoConfirmed replies
  else (s.onError element, none)

def isPartOfUndoGroup : Bool :=
  (s.elements element).groupId ≠ 0 && s.editStacks.entries.any fun entry =>
      match entry.2.getClosestElement .past with
      | none => false
      | some pastElement =>
        (pastElement = element && entry.2.getSecondClosestPastElement.any fun second =>
          (s.elements second).groupId = (s.elements element).groupId) ||
        (s.elements pastElement).groupId = (s.elements element).groupId

def asksForAll : Bool := (s.elements element).canSplit && !s.isPartOfUndoGroup element

def confirmAndExecuteWorkspaceUndo (element : Nat)
    (undoConfirmed : Bool) (replies : Replies κ) : UndoRedoService κ × Option (Call κ) :=
  if s.asksForAll element then
    match replies.choice with
    | .cancel => (s, none)
    | .this => s.splitAndRetry .past strResource element empty replies
    | .all =>
      match s.checkWorkspace .past strResource element false replies with
      | some verificationError => verificationError
      | none => s.executeWorkspace .past strResource element true replies
  else s.executeWorkspace .past strResource element undoConfirmed replies

def workspaceUndo (element : Nat)
    (undoConfirmed : Bool) (replies : Replies κ) : UndoRedoService κ × Option (Call κ) :=
  match s.checkWorkspace .past strResource element false replies with
  | some verificationError => verificationError
  | none => s.confirmAndExecuteWorkspaceUndo strResource element undoConfirmed replies

def workspaceRedo (element : Nat) (replies : Replies κ) : UndoRedoService κ × Option (Call κ) :=
  match s.checkWorkspace .future strResource element false replies with
  | some verificationError => verificationError
  | none => s.executeWorkspace .future strResource element false replies

/-- `_resourceUndo` and `_resourceRedo`. A failing `prepareUndoRedo` is not caught here. -/
def resourceMove (element : Nat)
    (undoConfirmed : Bool) (replies : Replies κ) : UndoRedoService κ × Option (Call κ) :=
  if (s.elements element).isValid then
    if replies.prepared then
      (s.moveOne side element strResource).invoke side element undoConfirmed replies
    else (s, none)
  else (s.setStack strResource ⟨[], []⟩, none)

end

/-- Another element of its group that goes first. -/
def redirected : Option κ :=
  match s.findClosestElementInGroup side (s.elements element).groupId with
  | none => none
  | some (matchedElement, matchedStrResource) =>
    if element = matchedElement then none else some matchedStrResource

end

end

def mustConfirm (element : Nat) (sourceId : Nat) (undoConfirmed : Bool) : Bool :=
  ((s.elements element).sourceId ≠ sourceId || (s.elements element).confirmBeforeUndo) &&
    !undoConfirmed

def undo (s : UndoRedoService κ) (strResource : κ) (sourceId : Nat) (undoConfirmed : Bool)
    (replies : Replies κ) : UndoRedoService κ × Option (Call κ) :=
  match s.closest .past strResource with
  | none => (s, none)
  | some element =>
    match s.redirected .past element with
    | some matchedStrResource => (s, some (.undo matchedStrResource sourceId undoConfirmed))
    | none =>
      if s.mustConfirm element sourceId undoConfirmed then
        (s, if replies.confirmed then some (.undo strResource sourceId true) else none)
      else if (s.elements element).type = .workspace then
        s.workspaceUndo strResource element undoConfirmed replies
      else s.resourceMove .past strResource element undoConfirmed replies

def redo (s : UndoRedoService κ) (strResource : κ) (replies : Replies κ) :
    UndoRedoService κ × Option (Call κ) :=
  match s.closest .future strResource with
  | none => (s, none)
  | some element =>
    match s.redirected .future element with
    | some matchedStrResource => (s, some (.redo matchedStrResource))
    | none =>
      if (s.elements element).type = .workspace then
        s.workspaceRedo strResource element replies
      else s.resourceMove .future strResource element false replies

def perform (call : Call κ) (replies : Replies κ) : UndoRedoService κ × Option (Call κ) :=
  match call with
  | .undo strResource sourceId undoConfirmed => s.undo strResource sourceId undoConfirmed replies
  | .redo strResource => s.redo strResource replies

end UndoRedoService

/-! ## Runs -/

inductive Operation (κ : Type) where
  | pushElement (element : PushedElement κ)
  | undo (strResource : κ)
  | undoSource (sourceId : Nat)
  | redo (strResource : κ)
  | redoSource (sourceId : Nat)
  | removeElements (strResource : κ)
  | setElementsValidFlag (strResource : κ) (isValid : Bool) (filter : Nat → Bool)
  | createSnapshot (strResource : κ)
  | restoreSnapshot (index : Nat)

/-- The service, the call under way and the snapshots taken so far. -/
structure State (κ : Type) where
  service : UndoRedoService κ
  call : Option (Call κ)
  snapshots : List (ResourceEditStackSnapshot κ)

/-- An operation begins when none is under way; a call goes on with the replies it gets. -/
inductive Event (κ : Type) where
  | operation (op : Operation κ)
  | resume (replies : Replies κ)

namespace State

def initial : State κ := ⟨UndoRedoService.initial, none, []⟩

def operate (s : State κ) : Operation κ → Option (State κ)
  | .pushElement element => some { s with service := s.service.pushElement element }
  | .undo strResource => some { s with call := some (.undo strResource 0 false) }
  | .undoSource sourceId =>
    some { s with
      call := (s.service.findClosestElementWithSource .past sourceId).map fun found =>
        UndoRedoService.callOf .past sourceId false found.2 }
  | .redo strResource => some { s with call := some (.redo strResource) }
  | .redoSource sourceId =>
    some { s with
      call := (s.service.findClosestElementWithSource .future sourceId).map fun found =>
        UndoRedoService.callOf .future sourceId false found.2 }
  | .removeElements strResource =>
    some { s with service := s.service.removeElements strResource }
  | .setElementsValidFlag strResource isValid filter =>
    some { s with service := s.service.setElementsValidFlag strResource isValid filter }
  | .createSnapshot strResource =>
    some { s with snapshots := s.snapshots ++ [s.service.createSnapshot strResource] }
  | .restoreSnapshot index =>
    s.snapshots[index]?.map fun snapshot =>
      { s with service := s.service.restoreSnapshot snapshot }

def step (s : State κ) : Event κ → Option (State κ)
  | .operation op => if s.call.isNone then s.operate op else none
  | .resume replies =>
    s.call.map fun call =>
      { s with service := (s.service.perform call replies).1
               call := (s.service.perform call replies).2 }

end State

def system (κ : Type) [DecidableEq κ] : System (State κ) (Event κ) :=
  System.ofStep (· = State.initial) State.step

end Fumie.UndoRedo
