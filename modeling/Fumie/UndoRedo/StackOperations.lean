import Fumie.UndoRedo.StackInvariant

/-!
# The operations keep the stacks sound

Removing, restoring and pushing take elements from a stack and mark them; pushing, moving and
splitting then change the place of one element. The loops over the resources of an element
are followed while that element is left out of the invariant.
-/

namespace Fumie.UndoRedo

open Fumie.Lib List ResourceEditStack

variable {κ : Type} [DecidableEq κ]

variable {id : Nat} {snapshot : ResourceEditStackSnapshot κ} {resource : κ}

variable (ids elements : List Nat)

namespace UndoRedoService

variable {s s' : UndoRedoService κ}

/-! ## Removing and restoring -/

theorem removeElements_drops (s : UndoRedoService κ) (resource : κ) :
    Drops s (s.removeElements resource) resource := by
  have hids : ∀ side resource', (s.removeElements resource).ids side resource' =
      if resource = resource' then (⟨[], []⟩ : ResourceEditStack).on side
      else s.ids side resource' := by
    intro side resource'
    rw [removeElements]
    split
    · rename_i hnone
      split_ifs with hresource
      · subst hresource
        rw [ids_of_none hnone]
        cases side <;> rfl
      · rfl
    · rw [ids_deleteStack]
      split_ifs
      · cases side <;> rfl
      · rfl
  have hempty : ∀ side, (⟨[], []⟩ : ResourceEditStack).on side = [] := by
    intro side
    cases side <;> rfl
  refine drops_of_marked ⟨[], []⟩ (s.ids .past resource ++ s.ids .future resource)
    .externalRemoval ?_ ?_ hids (fun side => ?_) (fun id => ?_)
  · rw [removeElements]
    split
    · rfl
    · rfl
  · rw [removeElements]
    split
    · rename_i hnone
      rw [ids_of_none hnone, ids_of_none hnone]
      funext id
      rw [markRemoved]
      simp
    · rename_i stack hget
      rw [ids_of_get hget, ids_of_get hget]
      rfl
  · rw [hempty]
    exact nil_sublist _
  · constructor
    · intro hmem
      rcases mem_append.mp hmem with hpast | hfuture
      · exact ⟨.past, hpast, by rw [hempty]; exact not_mem_nil⟩
      · exact ⟨.future, hfuture, by rw [hempty]; exact not_mem_nil⟩
    · rintro ⟨side, hmem, -⟩
      cases side with
      | past => exact mem_append_left _ hmem
      | future => exact mem_append_right _ hmem

theorem SoundBut.removeElements {skip : Option Nat} (hs : s.SoundBut skip) (resource : κ) :
    (s.removeElements resource).SoundBut skip := hs.drops (removeElements_drops s resource)

theorem Sound.foldl_removeElements (hs : s.Sound) (resources : List κ) :
    (resources.foldl UndoRedoService.removeElements s).Sound := by
  induction resources generalizing s with
  | nil => exact hs
  | cons resource rest ih => exact ih (SoundBut.removeElements hs resource)

theorem Sound.onError (hs : s.Sound) (element : Nat) : (s.onError element).Sound :=
  hs.foldl_removeElements _

theorem agreeing_le : agreeing ids elements ≤ ids.length := by
  induction ids generalizing elements with
  | nil => exact Nat.le_refl _
  | cons id ids ih =>
    cases elements with
    | nil => exact Nat.zero_le _
    | cons element elements =>
      rw [agreeing]
      split_ifs
      · exact Nat.succ_le_succ (ih elements)
      · exact Nat.zero_le _

theorem take_agreeing : ids.take (agreeing ids elements) <+: elements := by
  induction ids generalizing elements with
  | nil => exact nil_prefix
  | cons id ids ih =>
    cases elements with
    | nil => exact nil_prefix
    | cons element elements =>
      rw [agreeing]
      split_ifs with hid
      · subst hid
        exact cons_prefix_cons.mpr ⟨rfl, ih elements⟩
      · exact nil_prefix

def CanRestore (s : UndoRedoService κ) (snapshot : ResourceEditStackSnapshot κ) : Prop :=
  s.ids .past snapshot.strResource <+: snapshot.elements ∨ s.ids .future snapshot.strResource = []

theorem agreeing_eq_length {ids elements : List Nat} (h : ids <+: elements) :
    agreeing ids elements = ids.length := by
  obtain ⟨rest, rfl⟩ := h
  induction ids with
  | nil => rfl
  | cons id ids ih =>
    rw [cons_append, agreeing, if_pos rfl, ih, length_cons]

theorem restoreSnapshot_parts (stack : ResourceEditStack) (elements : List Nat)
    (h : stack.past <+: elements ∨ stack.future = []) :
    ∃ pastRest futureRest, stack.past = (stack.restoreSnapshot elements).1.past ++ pastRest ∧
      stack.future = futureRest ++ (stack.restoreSnapshot elements).1.future ∧
      (∀ id, id ∈ (stack.restoreSnapshot elements).2 ↔ id ∈ pastRest ∨ id ∈ futureRest) ∧
      (stack.restoreSnapshot elements).1.snapshotElements <+: elements := by
  rw [ResourceEditStack.restoreSnapshot]
  split_ifs with hshort
  · have hfuture : stack.future = [] := by
      rcases h with hprefix | hfuture
      · rw [agreeing_eq_length hprefix] at hshort
        omega
      · exact hfuture
    refine ⟨_, [], (take_append_drop _ _).symm, by rw [nil_append], fun id => ?_, ?_⟩
    · rw [mem_append, hfuture]
    · rw [snapshotElements, hfuture, reverse_nil, append_nil]
      exact take_agreeing _ _
  · refine ⟨[], _, (append_nil _).symm, (take_append_drop _ _).symm, fun id => ?_, ?_⟩
    · simp
    · have hall : agreeing stack.past elements = stack.past.length := by
        have hle := agreeing_le stack.past elements
        omega
      have hpast := take_agreeing stack.past elements
      rw [hall, take_length] at hpast
      obtain ⟨rest, rfl⟩ := hpast
      rw [drop_left]
      have hle := agreeing_le stack.future.reverse rest
      rw [length_reverse] at hle
      have hkept := Nat.sub_sub_self hle
      rw [snapshotElements, reverse_drop, hkept]
      exact (prefix_append_right_inj _).mpr (take_agreeing _ _)

theorem mem_split_iff {kept rest whole : List Nat} (h : whole.Nodup)
    (hwhole : whole = kept ++ rest ∨ whole = rest ++ kept) :
    id ∈ rest ↔ id ∈ whole ∧ id ∉ kept := by
  rcases hwhole with rfl | rfl
  · have hdisjoint := disjoint_of_nodup_append h
    constructor
    · exact fun hrest => ⟨mem_append_right _ hrest, fun hkept => hdisjoint hkept hrest⟩
    · exact fun hboth => (mem_append.mp hboth.1).resolve_left hboth.2
  · have hdisjoint := disjoint_of_nodup_append h
    constructor
    · exact fun hrest => ⟨mem_append_left _ hrest, fun hkept => hdisjoint hrest hkept⟩
    · exact fun hboth => (mem_append.mp hboth.1).resolve_right hboth.2

theorem ids_restoreSnapshot {stack : ResourceEditStack}
    (h : s.editStacks.get snapshot.strResource = some stack) (side : Side) (resource : κ) :
    (s.restoreSnapshot snapshot).ids side resource =
      if snapshot.strResource = resource then
        (stack.restoreSnapshot snapshot.elements).1.on side
      else s.ids side resource := by
  rw [restoreSnapshot, h]
  simp only
  split_ifs with hempty hresource hresource
  · rw [ids_deleteStack, if_pos hresource, hempty]
    cases side <;> rfl
  · rw [ids_deleteStack, if_neg hresource]
    rfl
  · rw [ids_setStack, if_pos hresource]
  · rw [ids_setStack, if_neg hresource]
    rfl

theorem Sound.restoreSnapshot (hs : s.Sound) (hcan : s.CanRestore snapshot) :
    (s.restoreSnapshot snapshot).Sound := by
  cases hget : s.editStacks.get snapshot.strResource with
  | none =>
    rw [UndoRedoService.restoreSnapshot, hget]
    exact hs
  | some stack =>
    rw [CanRestore, ids_of_get hget, ids_of_get hget] at hcan
    obtain ⟨pastRest, futureRest, hpast, hfuture, hmarked, -⟩ :=
      restoreSnapshot_parts stack snapshot.elements hcan
    have hnodup := hs.nodup snapshot.strResource
    rw [ids_of_get hget, ids_of_get hget] at hnodup
    refine SoundBut.drops hs (drops_of_marked (stack.restoreSnapshot snapshot.elements).1
      (stack.restoreSnapshot snapshot.elements).2 .externalRemoval
      ?_ ?_ (ids_restoreSnapshot hget) (fun side => ?_) (fun id => ?_))
    · rw [UndoRedoService.restoreSnapshot, hget]
      simp only
      split_ifs
      · rfl
      · rfl
    · rw [UndoRedoService.restoreSnapshot, hget]
      simp only
      split_ifs
      · rfl
      · rfl
    · rw [ids_of_get hget]
      cases side with
      | past =>
        show (stack.restoreSnapshot snapshot.elements).1.past.Sublist stack.past
        rw [hpast]
        exact sublist_append_left _ _
      | future =>
        show (stack.restoreSnapshot snapshot.elements).1.future.Sublist stack.future
        rw [hfuture]
        exact sublist_append_right _ _
    · have hsides := nodup_append.mp hnodup
      rw [hmarked, mem_split_iff hsides.1 (.inl hpast), mem_split_iff hsides.2.1 (.inr hfuture)]
      constructor
      · rintro (hin | hin)
        · exact ⟨.past, by rw [ids_of_get hget]; exact hin⟩
        · exact ⟨.future, by rw [ids_of_get hget]; exact hin⟩
      · rintro ⟨side, hin⟩
        rw [ids_of_get hget] at hin
        cases side with
        | past => exact .inl hin
        | future => exact .inr hin

theorem restoreSnapshot_begins (hcan : s.CanRestore snapshot) :
    (s.restoreSnapshot snapshot).ids .past snapshot.strResource ++
      ((s.restoreSnapshot snapshot).ids .future snapshot.strResource).reverse <+:
        snapshot.elements := by
  cases hget : s.editStacks.get snapshot.strResource with
  | none =>
    rw [UndoRedoService.restoreSnapshot, hget]
    rw [ids_of_none hget, ids_of_none hget]
    exact nil_prefix
  | some stack =>
    rw [CanRestore, ids_of_get hget, ids_of_get hget] at hcan
    obtain ⟨-, -, -, -, -, hprefix⟩ := restoreSnapshot_parts stack snapshot.elements hcan
    rw [ids_restoreSnapshot hget, ids_restoreSnapshot hget, if_pos rfl, if_pos rfl]
    exact hprefix

/-! ## Pushing -/

theorem mem_distinct {seen resources : List κ} :
    resource ∈ PushedElement.distinct seen resources ↔ resource ∈ resources ∧ resource ∉ seen := by
  induction resources generalizing seen with
  | nil => simp [PushedElement.distinct]
  | cons head rest ih =>
    rw [PushedElement.distinct]
    split_ifs with hseen
    · rw [ih, mem_cons]
      constructor
      · exact fun h => ⟨.inr h.1, h.2⟩
      · rintro ⟨rfl | hrest, hnot⟩
        · exact absurd hseen hnot
        · exact ⟨hrest, hnot⟩
    · rw [mem_cons, ih, mem_cons, mem_cons]
      constructor
      · rintro (rfl | ⟨hrest, hnot⟩)
        · exact ⟨.inl rfl, hseen⟩
        · exact ⟨.inr hrest, fun h => hnot (.inr h)⟩
      · rintro ⟨hin, hnot⟩
        by_cases hhead : resource = head
        · exact .inl hhead
        · refine .inr ⟨hin.resolve_left hhead, ?_⟩
          rintro (h | h)
          · exact hhead h
          · exact hnot h

theorem nodup_distinct (seen resources : List κ) :
    (PushedElement.distinct seen resources).Nodup := by
  induction resources generalizing seen with
  | nil => exact nodup_nil
  | cons head rest ih =>
    rw [PushedElement.distinct]
    split_ifs with hseen
    · exact ih seen
    · refine nodup_cons.mpr ⟨fun hmem => ?_, ih _⟩
      exact (mem_distinct.mp hmem).2 mem_cons_self

def clearFuture (s : UndoRedoService κ) (resource : κ) : UndoRedoService κ :=
  (s.markRemoved resource .noParallelUniverses (s.ids .future resource)).setStack resource
    ⟨s.ids .past resource, []⟩

theorem clearFuture_drops (s : UndoRedoService κ) (resource : κ) :
    Drops s (s.clearFuture resource) resource := by
  refine drops_of_marked ⟨s.ids .past resource, []⟩
    (s.ids .future resource) .noParallelUniverses rfl rfl
    (fun side resource' => ids_setStack _ _ _ _ _) (fun side => ?_) (fun id => ?_)
  · cases side with
    | past => exact List.Sublist.refl _
    | future => exact nil_sublist _
  · constructor
    · exact fun hmem => ⟨.future, hmem, not_mem_nil⟩
    · rintro ⟨side, hmem, hnot⟩
      cases side with
      | past => exact absurd hmem hnot
      | future => exact hmem

theorem ids_pushOne (id : Nat) (s : UndoRedoService κ) (resource : κ) (side : Side) (resource' : κ) :
    (pushOne id s resource).ids side resource' =
      if resource = resource' then
        (⟨s.ids .past resource ++ [id], []⟩ : ResourceEditStack).on side
      else s.ids side resource' := by
  rw [pushOne]
  split
  · rename_i hget
    rw [ids_setStack, ids_of_none hget, nil_append]
  · rename_i stack hget
    rw [ids_setStack, ids_of_get hget]
    rfl

theorem elements_pushOne (id : Nat) (s : UndoRedoService κ) (resource : κ) :
    (pushOne id s resource).elements = (s.clearFuture resource).elements := by
  rw [pushOne, clearFuture]
  split
  · rename_i hget
    rw [ids_of_none hget]
    funext id'
    rw [setStack, setStack, markRemoved]
    simp
  · rename_i stack hget
    rw [ids_of_get hget]
    rfl

theorem counter_pushOne (id : Nat) (s : UndoRedoService κ) (resource : κ) :
    (pushOne id s resource).stackElementCounter = s.stackElementCounter := by
  rw [pushOne]
  split
  · rfl
  · rfl

structure Pushed (s s' : UndoRedoService κ) (id : Nat) (resources : List κ) : Prop where
  sound : s'.SoundBut (some id)
  counter : s'.stackElementCounter = s.stackElementCounter
  strResources : (s'.elements id).strResources = (s.elements id).strResources
  unmarked : ∀ resource, s.Unmarked id resource → s'.Unmarked id resource
  mem : ∀ side resource, id ∈ s'.ids side resource ↔
    id ∈ s.ids side resource ∨ side = .past ∧ resource ∈ resources

theorem pushOne_pushed (hs : s.SoundBut (some id)) (hid : id ≤ s.stackElementCounter)
    (hfree : ∀ side, id ∉ s.ids side resource) :
    Pushed s (pushOne id s resource) id [resource] := by
  have hdrops := clearFuture_drops s resource
  have hclear := SoundBut.drops hs hdrops
  have hids : ∀ side resource', (s.clearFuture resource).ids side resource' =
      if resource = resource' then
        (⟨s.ids .past resource, []⟩ : ResourceEditStack).on side
      else s.ids side resource' := fun side resource' => ids_setStack _ _ _ _ _
  refine ⟨hclear.frame (elements_pushOne id s resource) (counter_pushOne id s resource) ?_ ?_ ?_,
    counter_pushOne id s resource, ?_, ?_, ?_⟩
  · intro resource'
    rw [ids_pushOne, ids_pushOne]
    split_ifs with hresource
    · show (s.ids .past resource ++ [id] ++ []).Nodup
      rw [append_nil]
      exact nodup_append.mpr ⟨hs.nodup_side .past resource, nodup_singleton id, fun a ha b hb => by
          rw [mem_singleton.mp hb]
          exact fun h => hfree .past (h ▸ ha)⟩
    · exact hs.nodup resource'
  · intro side resource' id' hmem
    rw [ids_pushOne] at hmem
    split_ifs at hmem with hresource
    · cases side with
      | past =>
        rcases mem_append.mp hmem with hold | hnew
        · exact hs.fresh .past resource id' hold
        · rw [mem_singleton.mp hnew]
          exact hid
      | future => cases hmem
    · exact hs.fresh side resource' id' hmem
  · intro id' _ hne side resource'
    have hid' : id' ≠ id := fun h => hne (congrArg some h)
    rw [ids_pushOne, hids]
    split_ifs
    · cases side with
      | past =>
        show id' ∈ s.ids .past resource ++ [id] ↔ id' ∈ s.ids .past resource
        rw [mem_append, mem_singleton]
        exact ⟨fun h => h.resolve_right hid', .inl⟩
      | future => exact Iff.rfl
    · exact Iff.rfl
  · rw [elements_pushOne, hdrops.strResources]
  · intro resource' hunmarked
    have hmarks : (pushOne id s resource).Unmarked id resource' ↔
        (s.clearFuture resource).Unmarked id resource' := by
      rw [Unmarked, elements_pushOne]
      rfl
    rw [hmarks]
    refine (markRemoved_unmarked s resource .noParallelUniverses _ id resource').mpr
      ⟨hunmarked, fun h => hfree .future h.1⟩
  · intro side resource'
    rw [ids_pushOne, mem_singleton]
    split_ifs with hresource
    · subst hresource
      cases side with
      | past =>
        show id ∈ s.ids .past resource ++ [id] ↔ _
        simp
      | future => simp [hfree .future, on]
    · have hne : ¬resource' = resource := fun h => hresource h.symm
      simp [hne]

theorem foldl_pushOne {resources : List κ} (hs : s.SoundBut (some id))
    (hid : id ≤ s.stackElementCounter) (hnodup : resources.Nodup)
    (hfree : ∀ resource ∈ resources, ∀ side, id ∉ s.ids side resource) :
    Pushed s (resources.foldl (pushOne id) s) id resources := by
  induction resources generalizing s with
  | nil =>
    exact ⟨hs, rfl, rfl, fun _ h => h, fun side resource => by simp⟩
  | cons resource rest ih =>
    obtain ⟨hnot, hrest⟩ := nodup_cons.mp hnodup
    have hone := pushOne_pushed hs hid (hfree resource mem_cons_self)
    have hfree' : ∀ resource' ∈ rest, ∀ side, id ∉ (pushOne id s resource).ids side resource' := by
      intro resource' hresource' side hmem
      rcases (hone.mem side resource').mp hmem with hold | hnew
      · exact hfree resource' (mem_cons_of_mem _ hresource') side hold
      · have heq := mem_singleton.mp hnew.2
        subst heq
        exact hnot hresource'
    have hall := ih hone.sound (by rw [hone.counter]; exact hid) hrest hfree'
    refine ⟨hall.sound, hall.counter.trans hone.counter, hall.strResources.trans hone.strResources,
      fun resource' h => hall.unmarked resource' (hone.unmarked resource' h),
      fun side resource' => ?_⟩
    rw [foldl_cons, hall.mem, hone.mem, mem_singleton, mem_cons]
    constructor
    · rintro ((h | h) | h)
      · exact .inl h
      · exact .inr ⟨h.1, .inl h.2⟩
      · exact .inr ⟨h.1, .inr h.2⟩
    · rintro (h | ⟨hside, h | h⟩)
      · exact .inl (.inl h)
      · exact .inl (.inr ⟨hside, h⟩)
      · exact .inr ⟨hside, h⟩

theorem Sound.pushElement (hs : s.Sound) (element : PushedElement κ) :
    (s.pushElement element).Sound := by
  have hnodup : element.strResources.Nodup := nodup_distinct [] element.resources
  have hnew : (s.newElement element.toStackElement).Sound := hs.newElement hnodup
  have helement : (s.newElement element.toStackElement).elements (s.stackElementCounter + 1) =
      element.toStackElement := Function.update_self _ _ _
  have hfree : ∀ side resource,
      s.stackElementCounter + 1 ∉ (s.newElement element.toStackElement).ids side resource := by
    intro side resource hmem
    exact Nat.not_succ_le_self _ (hs.fresh side resource _ hmem)
  have hpushed := foldl_pushOne (hnew.but (s.stackElementCounter + 1)) (Nat.le_refl _) hnodup
    fun resource _ side => hfree side resource
  refine hpushed.sound.sound fun _ side resource hmem => ?_
  have hresources := hpushed.strResources
  rw [helement] at hresources
  obtain ⟨hside, hresource⟩ := ((hpushed.mem side resource).mp hmem).resolve_left
    (hfree side resource)
  have hunmarked : ∀ resource', (s.newElement element.toStackElement).Unmarked
      (s.stackElementCounter + 1) resource' := by
    intro resource'
    rw [Unmarked, helement]
    rfl
  refine ⟨?_, hpushed.unmarked resource (hunmarked resource), fun resource' hresource' _ => ?_⟩
  · rw [hresources]
    exact hresource
  · rw [hresources] at hresource'
    exact (hpushed.mem side resource').mpr (.inr ⟨hside, hresource'⟩)

/-! ## Flags and flushing -/

theorem setValid_type (e : StackElement κ) (resource : κ) (isValid : Bool) :
    (e.setValid resource isValid).type = e.type ∧
      (e.setValid resource isValid).strResources = e.strResources ∧
      (e.setValid resource isValid).removedResources = e.removedResources := by
  unfold StackElement.setValid
  split
  · exact ⟨rfl, rfl, rfl⟩
  · exact ⟨rfl, rfl, rfl⟩
  · split_ifs
    · exact ⟨rfl, rfl, rfl⟩
    · exact ⟨rfl, rfl, rfl⟩

theorem Sound.setElementsValidFlag (hs : s.Sound) (resource : κ) (isValid : Bool)
    (filter : Nat → Bool) : (s.setElementsValidFlag resource isValid filter).Sound := by
  cases hget : s.editStacks.get resource with
  | none =>
    rw [UndoRedoService.setElementsValidFlag, hget]
    exact hs
  | some stack =>
    have hsame : ∀ id, ((s.setElementsValidFlag resource isValid filter).elements id).type =
          (s.elements id).type ∧
        ((s.setElementsValidFlag resource isValid filter).elements id).strResources =
          (s.elements id).strResources ∧
        ((s.setElementsValidFlag resource isValid filter).elements id).removedResources =
          (s.elements id).removedResources := by
      intro id
      rw [UndoRedoService.setElementsValidFlag, hget]
      simp only
      split_ifs
      · exact setValid_type _ _ _
      · exact ⟨rfl, rfl, rfl⟩
    have hids : ∀ side resource',
        (s.setElementsValidFlag resource isValid filter).ids side resource' =
          s.ids side resource' := by
      intro side resource'
      rw [UndoRedoService.setElementsValidFlag, hget]
      rfl
    have hdrops : Drops s (s.setElementsValidFlag resource isValid filter) resource := by
      refine ⟨?_, fun id => (hsame id).1, fun id => (hsame id).2.1,
        fun side resource' _ => hids side resource', fun side => by rw [hids],
        fun id _ resource' => ?_⟩
      · rw [UndoRedoService.setElementsValidFlag, hget]
      · rw [Unmarked, (hsame id).2.2]
        refine ⟨fun h => ⟨h, ?_⟩, fun h => h.1⟩
        rintro ⟨-, side, hin, hout⟩
        rw [hids] at hout
        exact hout hin
    exact SoundBut.drops hs hdrops

/-- The workspace elements in a stack mark all their other resources as removed. -/
def CanFlush (s : UndoRedoService κ) (resource : κ) : Prop :=
  ∀ side, ∀ id ∈ s.ids side resource, (s.elements id).type = .workspace →
    ∀ resource' ∈ (s.elements id).strResources, s.Unmarked id resource' → resource' = resource

theorem Sound.flush (hs : s.Sound) (hcan : s.CanFlush resource) :
    (s.setStack resource ⟨[], []⟩).Sound := by
  have hempty : ∀ side, (⟨[], []⟩ : ResourceEditStack).on side = [] := by
    intro side
    cases side <;> rfl
  have hsub : ∀ {side resource' id}, id ∈ (s.setStack resource ⟨[], []⟩).ids side resource' →
      resource' ≠ resource ∧ id ∈ s.ids side resource' := by
    intro side resource' id hmem
    rw [ids_setStack] at hmem
    split_ifs at hmem with hresource
    · rw [hempty] at hmem
      cases hmem
    · exact ⟨fun h => hresource h.symm, hmem⟩
  refine ⟨fun resource' => ?_, fun side resource' id hmem => hs.fresh side resource' id
    (hsub hmem).2, hs.resources, fun id htype _ side resource' hmem => ?_⟩
  · rw [ids_setStack, ids_setStack]
    split_ifs
    · exact nodup_nil
    · exact hs.nodup resource'
  · obtain ⟨hne, hold⟩ := hsub hmem
    obtain ⟨hown, hunmarked, heverywhere⟩ := hs.settled id htype (by simp) side resource' hold
    refine ⟨hown, hunmarked, fun resource'' hresource'' hunmarked'' => ?_⟩
    have hmem'' := heverywhere resource'' hresource'' hunmarked''
    rw [ids_setStack]
    split_ifs with hresource
    · subst hresource
      exact absurd (hcan side id hmem'' htype resource' hown hunmarked) hne
    · exact hmem''

end UndoRedoService

end Fumie.UndoRedo
