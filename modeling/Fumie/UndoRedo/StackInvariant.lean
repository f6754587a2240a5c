import Fumie.UndoRedo.UndoRedoService

/-!
# What keeps the stacks sound

A workspace element that lies in a stack lies in the stacks of all its resources that it has
not marked as removed, on the same side. Two rules cover what the service does to its stacks:
elements taken from one stack are marked in the same breath (`Drops`), and everything else
moves a single element while the others stay where they are (`SoundBut.frame`).
-/

namespace Fumie.UndoRedo

open Fumie.Lib List Record StackElement Function

variable {κ : Type} [DecidableEq κ]

variable {side : Side}

namespace Side

def other : Side → Side
  | past => future
  | future => past

theorem eq_other_of_ne {side' : Side} (h : side' ≠ side) : side' = side.other := by
  cases side <;> cases side' <;> first | rfl | exact absurd rfl h

end Side

namespace UndoRedoService

variable {s s' : UndoRedoService κ}

section

variable (s : UndoRedoService κ)

def ids (side : Side) (strResource : κ) : List Nat :=
  ((s.editStacks.get strResource).map fun stack => stack.on side).getD []

def Unmarked (id : Nat) (strResource : κ) : Prop :=
  (s.elements id).removedResources.get strResource = none

/-- The workspace elements in the stacks lie in all the stacks they do not mark as removed,
each of them in the past of all or in the future of all. -/
def Coherent : Prop :=
  ∀ id, (s.elements id).type = .workspace → (∃ side resource, id ∈ s.ids side resource) →
    ∃ side : Side, ∀ resource ∈ (s.elements id).strResources, s.Unmarked id resource →
      id ∈ s.ids side resource ∧ id ∉ s.ids side.other resource

/-- Where an element lies, there it belongs, and it lies on that side of its other
resources too. -/
def Settled (id : Nat) : Prop :=
  ∀ side resource, id ∈ s.ids side resource →
    resource ∈ (s.elements id).strResources ∧ s.Unmarked id resource ∧
      ∀ resource' ∈ (s.elements id).strResources, s.Unmarked id resource' →
        id ∈ s.ids side resource'

end

structure SoundBut (s : UndoRedoService κ) (skip : Option Nat) : Prop where
  nodup : ∀ resource, (s.ids .past resource ++ s.ids .future resource).Nodup
  fresh : ∀ side resource, ∀ id ∈ s.ids side resource, id ≤ s.stackElementCounter
  resources : ∀ id, (s.elements id).strResources.Nodup
  settled : ∀ id, (s.elements id).type = .workspace → some id ≠ skip → s.Settled id

def Sound (s : UndoRedoService κ) : Prop := s.SoundBut none

/-! ## Reading stacks -/

variable {resource : κ}

theorem ids_of_get {stack : ResourceEditStack} (h : s.editStacks.get resource = some stack)
    (side : Side) : s.ids side resource = stack.on side := by
  rw [ids, h]
  rfl

theorem ids_of_none (h : s.editStacks.get resource = none) (side : Side) :
    s.ids side resource = [] := by
  rw [ids, h]
  rfl

variable {id : Nat}

theorem get_ne_none (h : id ∈ s.ids side resource) : s.editStacks.get resource ≠ none := by
  intro hnone
  rw [ids_of_none hnone] at h
  cases h

theorem ids_setStack (s : UndoRedoService κ) (resource : κ) (stack : ResourceEditStack)
    (side : Side) (resource' : κ) :
    (s.setStack resource stack).ids side resource' =
      if resource = resource' then stack.on side else s.ids side resource' := by
  rw [ids, setStack, get_set]
  split_ifs
  · rfl
  · rfl

theorem ids_deleteStack (s : UndoRedoService κ) (resource : κ) (side : Side) (resource' : κ) :
    (s.deleteStack resource).ids side resource' =
      if resource = resource' then [] else s.ids side resource' := by
  rw [ids, deleteStack, get_delete]
  split_ifs
  · rfl
  · rfl

theorem closest_eq (s : UndoRedoService κ) (side : Side) (resource : κ) :
    s.closest side resource = (s.ids side resource).getLast? := by
  cases h : s.editStacks.get resource with
  | none => rw [closest, h, ids_of_none h]; rfl
  | some stack => rw [closest, h, ids_of_get h]; rfl

theorem mem_of_closest (h : s.closest side resource = some id) : id ∈ s.ids side resource := by
  rw [closest_eq] at h
  exact mem_of_getLast? h

variable {skip : Option Nat}

theorem SoundBut.notMem_other (h : s.SoundBut skip) (hmem : id ∈ s.ids side resource) :
    id ∉ s.ids side.other resource := by
  have hdisjoint := disjoint_of_nodup_append (h.nodup resource)
  cases side with
  | past => exact fun hother => hdisjoint hmem hother
  | future => exact fun hother => hdisjoint hother hmem

theorem SoundBut.nodup_side {skip : Option Nat} (h : s.SoundBut skip) (side : Side)
    (resource : κ) : (s.ids side resource).Nodup := by
  cases side with
  | past => exact (nodup_append.mp (h.nodup resource)).1
  | future => exact (nodup_append.mp (h.nodup resource)).2.1

theorem Sound.coherent (h : s.Sound) : s.Coherent := by
  rintro id htype ⟨side, resource, hmem⟩
  have hsettled := h.settled id htype (by simp) side resource hmem
  refine ⟨side, fun resource' hresource' hunmarked => ?_⟩
  have hmem' := hsettled.2.2 resource' hresource' hunmarked
  exact ⟨hmem', h.notMem_other hmem'⟩

theorem initial_sound : (initial : UndoRedoService κ).Sound where
  nodup _ := nodup_nil
  fresh _ _ _ hmem := nomatch hmem
  resources _ := nodup_nil
  settled _ htype := nomatch htype

/-! ## Marks -/

variable (e : StackElement κ)

theorem removeResource_type (resource : κ) (reason) :
    (e.removeResource resource reason).type = e.type := by
  rw [removeResource]
  split_ifs
  · rfl
  · rfl

theorem removeResource_strResources (resource : κ) (reason) :
    (e.removeResource resource reason).strResources = e.strResources := by
  rw [removeResource]
  split_ifs
  · rfl
  · rfl

theorem removeResource_get (resource : κ) (reason) (resource' : κ) :
    (e.removeResource resource reason).removedResources.get resource' = none ↔
      e.removedResources.get resource' = none ∧ ¬(e.type = .workspace ∧ resource = resource') := by
  rw [removeResource]
  split_ifs with h
  · simp only [get_set]
    split_ifs with hresource
    · subst hresource
      simp [h.1]
    · simp [hresource]
  · constructor
    · refine fun hget => ⟨hget, fun hboth => h ⟨hboth.1, ?_⟩⟩
      rw [hboth.2]
      exact hget
    · exact fun hboth => hboth.1

theorem markRemoved_type (s : UndoRedoService κ) (resource : κ) (reason) (marked : List Nat)
    (id : Nat) : ((s.markRemoved resource reason marked).elements id).type =
      (s.elements id).type := by
  rw [markRemoved]
  simp only
  split_ifs
  · exact removeResource_type _ _ _
  · rfl

theorem markRemoved_strResources (s : UndoRedoService κ) (resource : κ) (reason)
    (marked : List Nat) (id : Nat) :
    ((s.markRemoved resource reason marked).elements id).strResources =
      (s.elements id).strResources := by
  rw [markRemoved]
  simp only
  split_ifs
  · exact removeResource_strResources _ _ _
  · rfl

theorem markRemoved_unmarked (s : UndoRedoService κ) (resource : κ) (reason)
    (marked : List Nat) (id : Nat) (resource' : κ) :
    (s.markRemoved resource reason marked).Unmarked id resource' ↔ s.Unmarked id resource' ∧
        ¬(id ∈ marked ∧ (s.elements id).type = .workspace ∧ resource = resource') := by
  rw [Unmarked, Unmarked, markRemoved]
  simp only
  split_ifs with h
  · rw [removeResource_get]
    simp [h]
  · simp [h]

/-! ## Taking elements from one stack -/

structure Drops (s s' : UndoRedoService κ) (resource : κ) : Prop where
  counter : s'.stackElementCounter = s.stackElementCounter
  type : ∀ id, (s'.elements id).type = (s.elements id).type
  strResources : ∀ id, (s'.elements id).strResources = (s.elements id).strResources
  others : ∀ side resource', resource ≠ resource' → s'.ids side resource' = s.ids side resource'
  sublist : ∀ side, (s'.ids side resource).Sublist (s.ids side resource)
  unmarked : ∀ id, (s.elements id).type = .workspace → ∀ resource',
    (s'.Unmarked id resource' ↔ s.Unmarked id resource' ∧
      ¬(resource = resource' ∧ ∃ side, id ∈ s.ids side resource ∧ id ∉ s'.ids side resource))

theorem Drops.subset (h : Drops s s' resource) {resource' : κ} (hmem : id ∈ s'.ids side resource') :
    id ∈ s.ids side resource' := by
  by_cases hresource : resource = resource'
  · subst hresource
    exact (h.sublist side).mem hmem
  · rw [h.others side resource' hresource] at hmem
    exact hmem

theorem SoundBut.drops (hs : s.SoundBut skip) (h : Drops s s' resource) : s'.SoundBut skip where
  nodup resource' := by
    by_cases hresource : resource = resource'
    · subst hresource
      exact (hs.nodup resource).sublist ((h.sublist .past).append (h.sublist .future))
    · rw [h.others .past resource' hresource, h.others .future resource' hresource]
      exact hs.nodup resource'
  fresh side resource' id hmem := by
    rw [h.counter]
    exact hs.fresh side resource' id (h.subset hmem)
  resources id := by
    rw [h.strResources]
    exact hs.resources id
  settled id htype hskip side resource' hmem := by
    rw [h.type] at htype
    have hold := h.subset hmem
    obtain ⟨hown, hunmarked, heverywhere⟩ := hs.settled id htype hskip side resource' hold
    rw [h.strResources]
    refine ⟨hown, (h.unmarked id htype resource').mpr ⟨hunmarked, ?_⟩, ?_⟩
    · rintro ⟨rfl, side', hmem', hgone⟩
      by_cases hside : side' = side
      · subst hside
        exact hgone hmem
      · rw [Side.eq_other_of_ne hside] at hmem'
        exact hs.notMem_other hold hmem'
    · intro resource'' hresource'' hunmarked''
      rw [h.unmarked id htype] at hunmarked''
      have hmem'' := heverywhere resource'' hresource'' hunmarked''.1
      by_cases hresource : resource = resource''
      · subst hresource
        by_contra hgone
        exact hunmarked''.2 ⟨rfl, side, hmem'', hgone⟩
      · rw [h.others side resource'' hresource]
        exact hmem''

theorem drops_of_marked (stack : ResourceEditStack) (marked : List Nat)
    (reason : RemovedResourceReason) (hcounter : s'.stackElementCounter = s.stackElementCounter)
    (helements : s'.elements = (s.markRemoved resource reason marked).elements)
    (hids : ∀ side resource', s'.ids side resource' =
      if resource = resource' then stack.on side else s.ids side resource')
    (hsublist : ∀ side, (stack.on side).Sublist (s.ids side resource))
    (hmarked : ∀ id, id ∈ marked ↔
      ∃ side, id ∈ s.ids side resource ∧ id ∉ stack.on side) : Drops s s' resource where
  counter := hcounter
  type id := by rw [helements, markRemoved_type]
  strResources id := by rw [helements, markRemoved_strResources]
  others side resource' hresource := by rw [hids, if_neg hresource]
  sublist side := by
    rw [hids, if_pos rfl]
    exact hsublist side
  unmarked id htype resource' := by
    have hunmarked : s'.Unmarked id resource' ↔
        (s.markRemoved resource reason marked).Unmarked id resource' := by
      rw [Unmarked, helements]
      rfl
    rw [hunmarked, markRemoved_unmarked, hmarked]
    simp only [hids, if_pos, htype]
    exact and_congr_right fun _ => not_congr ⟨fun h => ⟨h.2.2, h.1⟩, fun h => ⟨h.2, trivial, h.1⟩⟩

/-! ## Moving a single element -/

theorem SoundBut.frame (hs : s.SoundBut skip) (helements : s'.elements = s.elements)
    (hcounter : s'.stackElementCounter = s.stackElementCounter)
    (hnodup : ∀ resource, (s'.ids .past resource ++ s'.ids .future resource).Nodup)
    (hfresh : ∀ side resource, ∀ id ∈ s'.ids side resource, id ≤ s.stackElementCounter)
    (hmem : ∀ id, (s.elements id).type = .workspace → some id ≠ skip → ∀ side resource,
      (id ∈ s'.ids side resource ↔ id ∈ s.ids side resource)) : s'.SoundBut skip where
  nodup := hnodup
  fresh := by
    rw [hcounter]
    exact hfresh
  resources := by
    rw [helements]
    exact hs.resources
  settled id htype hskip side resource hin := by
    rw [helements] at htype
    rw [hmem id htype hskip] at hin
    have hsettled := hs.settled id htype hskip side resource hin
    rw [Unmarked, helements]
    refine ⟨hsettled.1, hsettled.2.1, fun resource' hresource' hunmarked => ?_⟩
    rw [hmem id htype hskip]
    rw [Unmarked, helements] at hunmarked
    exact hsettled.2.2 resource' hresource' hunmarked

theorem SoundBut.sound (hs : s.SoundBut (some id))
    (h : (s.elements id).type = .workspace → s.Settled id) : s.Sound where
  nodup := hs.nodup
  fresh := hs.fresh
  resources := hs.resources
  settled id' htype _ := by
    by_cases hid : id' = id
    · subst hid
      exact h htype
    · exact hs.settled id' htype fun hsome => hid (Option.some.inj hsome)

theorem Sound.but (hs : s.Sound) (id : Nat) : s.SoundBut (some id) where
  nodup := hs.nodup
  fresh := hs.fresh
  resources := hs.resources
  settled id' htype _ := hs.settled id' htype (by simp)

theorem Sound.newElement (hs : s.Sound) {element : StackElement κ}
    (hresources : element.strResources.Nodup) : (s.newElement element).Sound where
  nodup := hs.nodup
  fresh side resource id hmem := Nat.le_succ_of_le (hs.fresh side resource id hmem)
  resources id := by
    rw [UndoRedoService.newElement]
    simp only [update_apply]
    split_ifs
    · exact hresources
    · exact hs.resources id
  settled id htype _ side resource hmem := by
    have hle := hs.fresh side resource id hmem
    have hne : id ≠ s.stackElementCounter + 1 := by omega
    have helement : (s.newElement element).elements id = s.elements id := update_of_ne hne _ _
    rw [helement] at htype
    have hsettled := hs.settled id htype (by simp) side resource hmem
    rw [Unmarked, helement]
    refine ⟨hsettled.1, hsettled.2.1, fun resource' hresource' hunmarked => ?_⟩
    rw [Unmarked, helement] at hunmarked
    exact hsettled.2.2 resource' hresource' hunmarked

end UndoRedoService

end Fumie.UndoRedo
