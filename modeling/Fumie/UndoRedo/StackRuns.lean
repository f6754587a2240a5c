import Fumie.UndoRedo.StackMoves

/-!
# Runs of the undo and redo service

Three branches of the service take an element out of one stack and leave it unmarked: the
flush of a stack on an invalid resource element, the split that passes over invalidated
resources, and the restore that stops in the past and keeps the future. Runs that stay clear
of them keep the stacks coherent, and a restored stack begins its snapshot.
-/

namespace Fumie.UndoRedo

open Fumie.Lib

variable {κ : Type} [DecidableEq κ]

namespace UndoRedoService

variable {s : UndoRedoService κ}

/-! ## One call -/

section

variable (s : UndoRedoService κ)

def SplitsPartly (side : Side) (element : Nat) (replies : Replies κ) : Prop :=
  (s.elements element).canSplit = true ∧ (s.elements element).removedResources.entries = [] ∧
    (s.elements element).invalidatedResources.entries ≠ [] ∧
    (∀ resource ∈ (s.elements element).strResources, s.closest side resource = some element) ∧
    replies.prepared = true ∧
    (side = .past → s.asksForAll element = true → replies.choice = .all)

def CanInvoke (side : Side) (strResource : κ) (element : Nat) (replies : Replies κ) : Prop :=
  if (s.elements element).type = .workspace then ¬s.SplitsPartly side element replies
  else (s.elements element).isValid = true ∨ s.CanFlush strResource

def CanPerform (call : Call κ) (replies : Replies κ) : Prop :=
  match call with
  | .undo strResource sourceId undoConfirmed =>
    ∀ element, s.closest .past strResource = some element → s.redirected .past element = none →
      s.mustConfirm element sourceId undoConfirmed = false →
      s.CanInvoke .past strResource element replies
  | .redo strResource =>
    ∀ element, s.closest .future strResource = some element →
      s.redirected .future element = none → s.CanInvoke .future strResource element replies

end

theorem Sound.invoke (hs : s.Sound) (side : Side) (element : Nat) (undoConfirmed : Bool)
    (replies : Replies κ) : (s.invoke side element undoConfirmed replies).1.Sound := by
  rw [UndoRedoService.invoke]
  split_ifs
  · exact hs
  · exact hs.onError element

variable {side : Side} {element : Nat} {resource : κ}

theorem Sound.tryToSplit (hs : s.Sound) (hmem : element ∈ s.ids side resource)
    (htype : (s.elements element).type = .workspace)
    {ignoreResources : Record κ RemovedResourceReason}
    (hignore : (s.elements element).canSplit = true →
      ∀ resource', ignoreResources.get resource' = none ↔ s.Unmarked element resource')
    (replies : Replies κ) :
    (s.tryToSplit side resource element ignoreResources replies).1.Sound := by
  rw [UndoRedoService.tryToSplit]
  split_ifs with hsplit
  · exact hs.splitWorkspaceElement hmem (hignore hsplit) htype replies.split
  · exact hs.onError element

theorem unmarked_of_nil (h : (s.elements element).removedResources.entries = []) (resource : κ) :
    s.Unmarked element resource := by
  rw [Unmarked, Record.get, h]
  rfl

theorem empty_get_iff (h : (s.elements element).removedResources.entries = []) (resource : κ) :
    (Record.empty : Record κ RemovedResourceReason).get resource = none ↔
      s.Unmarked element resource :=
  ⟨fun _ => unmarked_of_nil h resource, fun _ => rfl⟩

variable {replies : Replies κ} {checkInvalidatedResources : Bool}

theorem Sound.checkWorkspace (hs : s.Sound) (hmem : element ∈ s.ids side resource)
    (htype : (s.elements element).type = .workspace)
    (hflag : checkInvalidatedResources = true → (s.elements element).canSplit = true →
      (s.elements element).removedResources.entries = [] →
      (s.elements element).invalidatedResources.entries = [])
    {result : UndoRedoService κ × Option (Call κ)}
    (h : s.checkWorkspace side resource element checkInvalidatedResources replies =
      some result) : result.1.Sound := by
  rw [UndoRedoService.checkWorkspace] at h
  split_ifs at h with hremoved hinvalidated hclosest
  · cases h
    exact hs.tryToSplit hmem htype (fun _ _ => Iff.rfl) replies
  · cases h
    rw [not_not] at hremoved
    exact hs.tryToSplit hmem htype (fun hsplit => absurd (hflag hinvalidated.1 hsplit hremoved)
      hinvalidated.2) replies
  · cases h
    rw [not_not] at hremoved
    exact hs.tryToSplit hmem htype (fun _ => empty_get_iff hremoved) replies

theorem checkWorkspace_none
    (h : s.checkWorkspace side resource element checkInvalidatedResources replies = none) :
    (s.elements element).removedResources.entries = [] ∧
      ∀ resource' ∈ (s.elements element).strResources, s.closest side resource' = some element := by
  rw [UndoRedoService.checkWorkspace] at h
  split_ifs at h with hremoved hinvalidated hclosest
  rw [not_not] at hremoved
  refine ⟨hremoved, fun resource' hresource' => ?_⟩
  by_contra hne
  exact hclosest ⟨resource', hresource', hne⟩

theorem Sound.executeWorkspace (hs : s.Sound) (hmem : element ∈ s.ids side resource)
    (htype : (s.elements element).type = .workspace)
    (hpartly : replies.prepared = true → (s.elements element).canSplit = true →
      (s.elements element).removedResources.entries = [] →
      (s.elements element).invalidatedResources.entries = []) (undoConfirmed : Bool) :
    (s.executeWorkspace side resource element undoConfirmed replies).1.Sound := by
  rw [UndoRedoService.executeWorkspace]
  split_ifs with hprepared
  · cases hcheck : s.checkWorkspace side resource element true replies with
    | some result => exact hs.checkWorkspace hmem htype (fun _ => hpartly hprepared) hcheck
    | none =>
      obtain ⟨hremoved, hclosest⟩ := checkWorkspace_none hcheck
      exact (hs.moveAll hclosest (unmarked_of_nil hremoved)).invoke _ _ _ _
  · exact hs.onError element

theorem Sound.workspaceUndo (hs : s.Sound) (hmem : element ∈ s.ids .past resource)
    (htype : (s.elements element).type = .workspace)
    (hpartly : ¬s.SplitsPartly .past element replies) (undoConfirmed : Bool) :
    (s.workspaceUndo resource element undoConfirmed replies).1.Sound := by
  rw [UndoRedoService.workspaceUndo]
  cases hcheck : s.checkWorkspace .past resource element false replies with
  | some result =>
    have hflag : false = true → (s.elements element).canSplit = true →
        (s.elements element).removedResources.entries = [] →
        (s.elements element).invalidatedResources.entries = [] := fun h => nomatch h
    exact hs.checkWorkspace hmem htype hflag hcheck
  | none =>
    obtain ⟨hremoved, hclosest⟩ := checkWorkspace_none hcheck
    have hclear : (s.asksForAll element = true → replies.choice = .all) →
        replies.prepared = true → (s.elements element).canSplit = true →
        (s.elements element).removedResources.entries = [] →
        (s.elements element).invalidatedResources.entries = [] := by
      intro hasked hprepared hsplit _
      by_contra hinvalidated
      exact hpartly ⟨hsplit, hremoved, hinvalidated, hclosest, hprepared, fun _ => hasked⟩
    rw [confirmAndExecuteWorkspaceUndo]
    split_ifs with hasks
    · cases hchoice : replies.choice with
      | cancel => exact hs
      | this =>
        exact hs.splitWorkspaceElement hmem (empty_get_iff hremoved) htype replies.split
      | all =>
        simp only [hcheck]
        exact hs.executeWorkspace hmem htype (hclear fun _ => hchoice) true
    · exact hs.executeWorkspace hmem htype (hclear fun hasked => absurd hasked hasks) _

theorem Sound.workspaceRedo (hs : s.Sound) (hmem : element ∈ s.ids .future resource)
    (htype : (s.elements element).type = .workspace)
    (hpartly : ¬s.SplitsPartly .future element replies) :
    (s.workspaceRedo resource element replies).1.Sound := by
  rw [UndoRedoService.workspaceRedo]
  cases hcheck : s.checkWorkspace .future resource element false replies with
  | some result =>
    have hflag : false = true → (s.elements element).canSplit = true →
        (s.elements element).removedResources.entries = [] →
        (s.elements element).invalidatedResources.entries = [] := fun h => nomatch h
    exact hs.checkWorkspace hmem htype hflag hcheck
  | none =>
    obtain ⟨hremoved, hclosest⟩ := checkWorkspace_none hcheck
    refine hs.executeWorkspace hmem htype (fun hprepared hsplit _ => ?_) false
    by_contra hinvalidated
    exact hpartly ⟨hsplit, hremoved, hinvalidated, hclosest, hprepared, (fun h => nomatch h)⟩

theorem Sound.resourceMove (hs : s.Sound) (hclosest : s.closest side resource = some element)
    (htype : ¬(s.elements element).type = .workspace)
    (hcan : (s.elements element).isValid = true ∨ s.CanFlush resource) (undoConfirmed : Bool)
    (replies : Replies κ) :
    (s.resourceMove side resource element undoConfirmed replies).1.Sound := by
  rw [UndoRedoService.resourceMove]
  split_ifs with hvalid hprepared
  · exact (hs.moveResource hclosest htype).invoke _ _ _ _
  · exact hs
  · exact hs.flush (hcan.resolve_left hvalid)

theorem Sound.perform (hs : s.Sound) {call : Call κ} {replies : Replies κ}
    (hcan : s.CanPerform call replies) : (s.perform call replies).1.Sound := by
  cases call with
  | undo strResource sourceId undoConfirmed =>
    show (s.undo strResource sourceId undoConfirmed replies).1.Sound
    rw [UndoRedoService.undo]
    cases hclosest : s.closest .past strResource with
    | none => exact hs
    | some element =>
      simp only
      cases hredirected : s.redirected .past element with
      | some matched => exact hs
      | none =>
        by_cases hconfirm : s.mustConfirm element sourceId undoConfirmed = true
        · rw [if_pos hconfirm]
          exact hs
        rw [if_neg hconfirm]
        split_ifs with htype
        · have hinvoke := hcan element hclosest hredirected (Bool.not_eq_true _ |>.mp hconfirm)
          rw [CanInvoke, if_pos htype] at hinvoke
          exact hs.workspaceUndo (mem_of_closest hclosest) htype hinvoke undoConfirmed
        · have hinvoke := hcan element hclosest hredirected (Bool.not_eq_true _ |>.mp hconfirm)
          rw [CanInvoke, if_neg htype] at hinvoke
          exact hs.resourceMove hclosest htype hinvoke undoConfirmed replies
  | redo strResource =>
    show (s.redo strResource replies).1.Sound
    rw [UndoRedoService.redo]
    cases hclosest : s.closest .future strResource with
    | none => exact hs
    | some element =>
      simp only
      cases hredirected : s.redirected .future element with
      | some matched => exact hs
      | none =>
        have hinvoke := hcan element hclosest hredirected
        rw [CanInvoke] at hinvoke
        split_ifs at hinvoke ⊢ with htype
        · exact hs.workspaceRedo (mem_of_closest hclosest) htype hinvoke
        · exact hs.resourceMove hclosest htype hinvoke false replies

end UndoRedoService

/-! ## Runs -/

/-- The step stays clear of the branches that leave a stack without a mark. -/
def Meets (s : State κ) : Event κ → Prop
  | .operation (.restoreSnapshot index) =>
    ∀ snapshot, s.snapshots[index]? = some snapshot → s.service.CanRestore snapshot
  | .operation _ => True
  | .resume replies => ∀ call, s.call = some call → s.service.CanPerform call replies

theorem State.operate_sound {s s' : State κ} {op : Operation κ} (hs : s.service.Sound)
    (hmeets : Meets s (.operation op)) (h : s.operate op = some s') : s'.service.Sound := by
  cases op with
  | pushElement element =>
    cases h
    exact hs.pushElement element
  | undo _ | undoSource _ | redo _ | redoSource _ | createSnapshot _ =>
    cases h
    exact hs
  | removeElements strResource =>
    cases h
    exact UndoRedoService.SoundBut.removeElements hs strResource
  | setElementsValidFlag strResource isValid filter =>
    cases h
    exact hs.setElementsValidFlag strResource isValid filter
  | restoreSnapshot index =>
    obtain ⟨snapshot, hsnapshot, rfl⟩ := Option.map_eq_some_iff.mp h
    exact hs.restoreSnapshot (hmeets snapshot hsnapshot)

theorem State.step_sound (s : State κ) (event : Event κ) (s' : State κ) (hs : s.service.Sound)
    (hmeets : Meets s event) (h : s.step event = some s') : s'.service.Sound := by
  cases event with
  | operation op =>
    rw [State.step] at h
    split_ifs at h
    exact State.operate_sound hs hmeets h
  | resume replies =>
    obtain ⟨call, hcall, rfl⟩ := Option.map_eq_some_iff.mp h
    exact hs.perform (hmeets call hcall)

/-- In every run clear of the three branches the stacks stay coherent, and whatever earlier
snapshot is restored then, the stack begins as the snapshot does. -/
theorem stacks_coherent {s : State κ} (h : (system κ).ReachableVia Meets s) : s.service.Coherent ∧
      ∀ snapshot ∈ s.snapshots, s.service.CanRestore snapshot →
        (s.service.restoreSnapshot snapshot).ids .past snapshot.strResource ++
          ((s.service.restoreSnapshot snapshot).ids .future snapshot.strResource).reverse <+:
            snapshot.elements := by
  have hsound : s.service.Sound := by
    refine h.invariant ?_ State.step_sound
    rintro s rfl
    exact UndoRedoService.initial_sound
  exact ⟨hsound.coherent, fun snapshot _ hcan => UndoRedoService.restoreSnapshot_begins hcan⟩

def plainElement (resources : List Nat) : PushedElement Nat := ⟨resources, 0, 0, 0, 0, false, true⟩

/-- Everything is confirmed and succeeds, and splits into nothing. -/
def agreeable : Replies Nat := ⟨true, .all, true, true, []⟩

theorem stacks_coherent_sample : ∃ s : State Nat,
      [.operation (.pushElement (plainElement [0, 1])), .operation (.createSnapshot 0),
        .operation (.pushElement (plainElement [0])), .operation (.undo 0),
        .resume agreeable].foldlM State.step State.initial = some s ∧
      s.service.ids .future 0 = [2] ∧ s.service.Coherent ∧
      ∀ snapshot ∈ s.snapshots, s.service.CanRestore snapshot →
        (s.service.restoreSnapshot snapshot).ids .past snapshot.strResource ++
          ((s.service.restoreSnapshot snapshot).ids .future snapshot.strResource).reverse <+:
            snapshot.elements := by
  refine ⟨_, rfl, by decide, stacks_coherent (System.ReachableVia.step
    (System.ReachableVia.run (System.ReachableVia.init rfl)
      [.operation (.pushElement (plainElement [0, 1])), .operation (.createSnapshot 0),
        .operation (.pushElement (plainElement [0])), .operation (.undo 0)] ?_ rfl)
    (i := .resume agreeable) ?_ rfl)⟩
  · intro event hevent s
    fin_cases hevent <;> trivial
  · rintro call hcall
    cases hcall
    rintro element hclosest - -
    cases hclosest
    exact .inl rfl

/-- The flush of an invalid element leaves the element of two files in one of them, and a
restored snapshot keeps an element that was pushed after it. -/
theorem stacks_not_coherent :
    (∃ s : State Nat,
      [.operation (.pushElement (plainElement [0, 1])),
        .operation (.pushElement (plainElement [0])),
        .operation (.setElementsValidFlag 0 false (· = 2)), .operation (.undo 0),
        .resume agreeable].foldlM State.step State.initial = some s ∧
      s.call.isNone ∧ ¬s.service.Coherent) ∧
    ∃ s : State Nat,
      [.operation (.createSnapshot 0), .operation (.pushElement (plainElement [0])),
        .operation (.pushElement (plainElement [0])), .operation (.undo 0), .resume agreeable,
        .operation (.restoreSnapshot 0)].foldlM State.step State.initial = some s ∧
      (s.snapshots.map fun snapshot => snapshot.elements) = [[]] ∧
      s.service.ids .past 0 ++ (s.service.ids .future 0).reverse = [2] := by
  refine ⟨⟨_, rfl, rfl, fun hcoherent => ?_⟩, ⟨_, rfl, rfl, by decide⟩⟩
  obtain ⟨side, hside⟩ := hcoherent 1 rfl ⟨.past, 1, by decide⟩
  have hmem := (hside 0 (by decide) rfl).1
  cases side with
  | past | future => exact absurd hmem (by decide)

end Fumie.UndoRedo
