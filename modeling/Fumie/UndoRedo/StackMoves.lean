import Fumie.UndoRedo.StackOperations

/-!
# Moving and splitting keep the stacks sound

Undoing moves a workspace element in all its stacks at once, splitting takes it out of all of
them. Both loops run while the other elements stay where they are.
-/

namespace Fumie.UndoRedo

open Fumie.Lib List Option Function Record

variable {κ : Type} [DecidableEq κ]

variable {id before : Nat} {resources : List κ} {ids : List Nat} {individuals : Record κ Nat}

namespace UndoRedoService

variable {s : UndoRedoService κ}

/-! ## Moving -/

theorem ids_moveOne {side : Side} {element : Nat} {resource : κ}
    (h : s.closest side resource = some element) (side' : Side) (resource' : κ) :
    (moveOne side element s resource).ids side' resource' =
      if resource = resource' then
        if side' = side then (s.ids side resource).dropLast
        else s.ids side' resource ++ [element]
      else s.ids side' resource' := by
  cases hget : s.editStacks.get resource with
  | none => exact absurd hget (get_ne_none (mem_of_closest h))
  | some stack =>
    rw [moveOne, hget]
    rw [ids_setStack, ids_of_get hget, ids_of_get hget]
    cases side <;> cases side' <;> rfl

theorem elements_moveOne (side : Side) (element : Nat) (s : UndoRedoService κ) (resource : κ) :
    (moveOne side element s resource).elements = s.elements ∧
      (moveOne side element s resource).stackElementCounter = s.stackElementCounter := by
  rw [moveOne]
  split
  · exact ⟨rfl, rfl⟩
  · exact ⟨rfl, rfl⟩

variable {side : Side} {element : Nat} {resource : κ}

theorem ids_eq_of_closest (h : s.closest side resource = some element) :
    s.ids side resource = (s.ids side resource).dropLast ++ [element] := by
  rw [closest_eq] at h
  exact (dropLast_append_getLast? element h).symm

theorem mem_moveOne (h : s.closest side resource = some element) (hid : id ≠ element)
    (side' : Side) (resource' : κ) :
    id ∈ (moveOne side element s resource).ids side' resource' ↔ id ∈ s.ids side' resource' := by
  rw [ids_moveOne h]
  split_ifs with hresource hside
  · subst hresource hside
    have hids := ids_eq_of_closest h
    constructor
    · intro hmem
      rw [hids]
      exact mem_append_left _ hmem
    · intro hmem
      rw [hids, mem_append, mem_singleton] at hmem
      exact hmem.resolve_right hid
  · subst hresource
    rw [mem_append, mem_singleton]
    exact ⟨fun hmem => hmem.resolve_right hid, .inl⟩
  · exact Iff.rfl

theorem SoundBut.moveOne (hs : s.SoundBut (some element))
    (h : s.closest side resource = some element) :
    (moveOne side element s resource).SoundBut (some element) := by
  refine hs.frame (elements_moveOne side element s resource).1
    (elements_moveOne side element s resource).2 (fun resource' => ?_) ?_
    (fun id _ hid side' resource' => mem_moveOne h (fun heq => hid (congrArg some heq)) _ _)
  · rw [ids_moveOne h, ids_moveOne h]
    split_ifs with hresource hpast hfuture hfuture
    · subst hpast
      cases hfuture
    · subst hpast
      have hnodup := hs.nodup resource
      rw [ids_eq_of_closest h, append_assoc] at hnodup
      exact (List.Perm.append_left _ perm_append_comm).nodup hnodup
    · subst hfuture
      have hnodup := hs.nodup resource
      rw [ids_eq_of_closest h] at hnodup
      rw [append_assoc]
      exact (List.Perm.append_left _ perm_append_comm).nodup hnodup
    · cases side with
      | past => exact absurd rfl hpast
      | future => exact absurd rfl hfuture
    · exact hs.nodup resource'
  · intro side' resource' id hmem
    by_cases hid : id = element
    · rw [hid]
      exact hs.fresh side resource element (mem_of_closest h)
    · exact hs.fresh side' resource' id ((mem_moveOne h hid side' resource').mp hmem)

structure Moved (s s' : UndoRedoService κ) (side : Side) (element : Nat) (resources : List κ) :
    Prop where
  sound : s'.SoundBut (some element)
  elements : s'.elements = s.elements
  gone : ∀ resource ∈ resources, element ∉ s'.ids side resource
  arrived : ∀ resource ∈ resources, element ∈ s'.ids side.other resource
  others : ∀ side' resource, resource ∉ resources → s'.ids side' resource = s.ids side' resource

theorem foldl_moveOne {side : Side} {element : Nat} (hs : s.SoundBut (some element))
    (hnodup : resources.Nodup)
    (h : ∀ resource ∈ resources, s.closest side resource = some element) :
    Moved s (resources.foldl (moveOne side element) s) side element resources := by
  induction resources generalizing s with
  | nil =>
    exact ⟨hs, rfl, (fun _ hmem => nomatch hmem), (fun _ hmem => nomatch hmem), fun _ _ _ => rfl⟩
  | cons resource rest ih =>
    obtain ⟨hnot, hrest⟩ := nodup_cons.mp hnodup
    have hfirst := h resource mem_cons_self
    have hids := fun side' resource' => ids_moveOne hfirst side' resource'
    have hmoved := ih (hs.moveOne hfirst) hrest fun resource' hresource' => by
      have hne : ¬resource = resource' := fun heq => hnot (heq ▸ hresource')
      rw [closest_eq, hids, if_neg hne, ← closest_eq]
      exact h resource' (mem_cons_of_mem _ hresource')
    refine ⟨hmoved.sound, hmoved.elements.trans (elements_moveOne side element s resource).1,
      fun resource' hresource' => ?_, fun resource' hresource' => ?_,
      fun side' resource' hresource' => ?_⟩
    · rcases mem_cons.mp hresource' with rfl | hlater
      · rw [foldl_cons, hmoved.others side resource' hnot, hids, if_pos rfl, if_pos rfl]
        have hside := hs.nodup_side side resource'
        rw [ids_eq_of_closest hfirst] at hside
        exact fun hmem => disjoint_of_nodup_append hside hmem (mem_singleton_self _)
      · exact hmoved.gone resource' hlater
    · rcases mem_cons.mp hresource' with rfl | hlater
      · have hother : side.other ≠ side := by cases side <;> exact fun heq => nomatch heq
        rw [foldl_cons, hmoved.others _ resource' hnot, hids, if_pos rfl, if_neg hother]
        exact mem_append_right _ (mem_singleton_self _)
      · exact hmoved.arrived resource' hlater
    · rw [mem_cons, not_or] at hresource'
      rw [foldl_cons, hmoved.others side' resource' hresource'.2, hids,
        if_neg (fun heq => hresource'.1 heq.symm)]

theorem Sound.moveAll (hs : s.Sound) (h : ∀ resource ∈ (s.elements element).strResources,
      s.closest side resource = some element) (hunmarked : ∀ resource, s.Unmarked element resource) :
    ((s.elements element).strResources.foldl (moveOne side element) s).Sound := by
  have hmoved := foldl_moveOne (hs.but element) (hs.resources element) h
  refine hmoved.sound.sound fun htype side' resource hmem => ?_
  rw [Unmarked, hmoved.elements]
  rw [hmoved.elements] at htype
  have hown : resource ∈ (s.elements element).strResources := by
    by_contra hnot
    rw [hmoved.others side' resource hnot] at hmem
    exact hnot (hs.settled element htype (by simp) side' resource hmem).1
  have hside : side' = side.other := by
    refine Side.eq_other_of_ne fun heq => ?_
    subst heq
    exact hmoved.gone resource hown hmem
  subst hside
  exact ⟨hown, hunmarked resource, fun resource' hresource' _ => hmoved.arrived resource' hresource'⟩

theorem Sound.moveResource (hs : s.Sound) (h : s.closest side resource = some element)
    (htype : ¬(s.elements element).type = .workspace) :
    (moveOne side element s resource).Sound := by
  refine (SoundBut.moveOne (hs.but element) h).sound fun hworkspace => absurd hworkspace ?_
  rw [(elements_moveOne side element s resource).1]
  exact htype

/-! ## Splitting -/

open ResourceEditStack

theorem replaceLast_cases (toRemove : Nat) (replacement : Option Nat) (ids : List Nat) :
    toRemove ∉ ids ∧ replaceLast toRemove replacement ids = ids ∨
      ∃ front back, ids = front ++ toRemove :: back ∧
        replaceLast toRemove replacement ids = front ++ (replacement.toList ++ back) := by
  induction ids with
  | nil => exact .inl ⟨not_mem_nil, rfl⟩
  | cons id rest ih =>
    rw [replaceLast]
    split_ifs with hrest hid
    · obtain ⟨front, back, hsplit, heq⟩ := ih.resolve_left fun h => h.1 hrest
      refine .inr ⟨id :: front, back, ?_, ?_⟩
      · rw [hsplit, cons_append]
      · rw [heq, cons_append]
    · subst hid
      exact .inr ⟨[], rest, rfl, rfl⟩
    · refine .inl ⟨fun hmem => ?_, rfl⟩
      rcases mem_cons.mp hmem with heq | hmem
      · exact hid heq.symm
      · exact hrest hmem

variable {toRemove : Nat} {replacement : Option Nat}

theorem nodup_replaceLast (pre ids post : List Nat) (h : (pre ++ (ids ++ post)).Nodup)
    (hnew : ∀ id ∈ replacement, id ∉ pre ++ (ids ++ post)) :
    (pre ++ (replaceLast toRemove replacement ids ++ post)).Nodup := by
  rcases replaceLast_cases toRemove replacement ids with ⟨-, heq⟩ | ⟨front, back, rfl, heq⟩
  · rw [heq]
    exact h
  · rw [heq]
    cases replacement with
    | none =>
      refine h.sublist (List.Sublist.append_left (List.Sublist.append_right ?_ _) _)
      exact List.Sublist.append_left (sublist_cons_self _ _) _
    | some id =>
      have hid := hnew id rfl
      simp only [nodup_append, mem_append, mem_cons, nodup_cons,
        toList_some, singleton_append, not_or] at h hid ⊢
      grind

theorem mem_replaceLast (hid : id ≠ toRemove) (hnew : id ∉ replacement) :
    id ∈ replaceLast toRemove replacement ids ↔ id ∈ ids := by
  rcases replaceLast_cases toRemove replacement ids with ⟨-, heq⟩ | ⟨front, back, rfl, heq⟩
  · rw [heq]
  · have hlist : id ∉ replacement.toList := fun hmem => hnew (mem_toList.mp hmem)
    rw [heq, mem_append, mem_append, mem_append, mem_cons]
    constructor
    · rintro (h | h | h)
      · exact .inl h
      · exact absurd h hlist
      · exact .inr (.inr h)
    · rintro (h | h | h)
      · exact .inl h
      · exact absurd h hid
      · exact .inr (.inr h)

theorem notMem_replaceLast (h : ids.Nodup) (hnew : toRemove ∉ replacement) :
    toRemove ∉ replaceLast toRemove replacement ids := by
  rcases replaceLast_cases toRemove replacement ids with ⟨hnot, heq⟩ | ⟨front, back, rfl, heq⟩
  · rw [heq]
    exact hnot
  · have hlist : toRemove ∉ replacement.toList := fun hmem => hnew (mem_toList.mp hmem)
    rw [heq, mem_append, mem_append]
    rw [nodup_append, nodup_cons] at h
    rintro (hfront | hmid | hback)
    · exact h.2.2 _ hfront _ mem_cons_self rfl
    · exact hlist hmid
    · exact h.2.1.1 hback

/-- The elements that replace a split element are new and belong to one resource each. -/
def Individuals (s : UndoRedoService κ) (before : Nat) (individuals : Record κ Nat) : Prop :=
  ∀ resource id, individuals.get resource = some id →
    before < id ∧ id ≤ s.stackElementCounter ∧ ¬(s.elements id).type = .workspace

theorem newIndividuals_spec (individuals : Record κ Nat) (hs : s.Sound)
    (hbefore : before ≤ s.stackElementCounter) (h : s.Individuals before individuals)
    (split : List (κ × Bool)) :
    (s.newIndividuals individuals split).1.Sound ∧
      (s.newIndividuals individuals split).1.editStacks = s.editStacks ∧
      (∀ id ≤ before, (s.newIndividuals individuals split).1.elements id = s.elements id) ∧
      (s.newIndividuals individuals split).1.Individuals before
        (s.newIndividuals individuals split).2 := by
  induction split generalizing s individuals with
  | nil => exact ⟨hs, rfl, fun _ _ => rfl, h⟩
  | cons part rest ih =>
    obtain ⟨resource, confirmBeforeUndo⟩ := part
    have hnew : (s.newElement ⟨.resource, [resource], 0, 0, 0, 0, confirmBeforeUndo, false, true,
        empty, empty⟩).Individuals before
          (individuals.set resource (s.stackElementCounter + 1)) := by
      intro resource' id hget
      rw [get_set] at hget
      rw [newElement]
      simp only [update_apply]
      split_ifs at hget with hresource
      · cases hget
        rw [if_pos rfl]
        refine ⟨Nat.lt_succ_of_le hbefore, Nat.le_refl _, fun heq => ?_⟩
        cases heq
      · obtain ⟨hlt, hle, htype⟩ := h resource' id hget
        have hne : id ≠ s.stackElementCounter + 1 := by omega
        rw [if_neg hne]
        exact ⟨hlt, Nat.le_succ_of_le hle, htype⟩
    obtain ⟨hsound, hstacks, hold, hind⟩ :=
      ih _ (hs.newElement (nodup_singleton resource)) (Nat.le_succ_of_le hbefore) hnew
    refine ⟨hsound, hstacks, fun id hid => ?_, hind⟩
    have hne : id ≠ s.stackElementCounter + 1 := by omega
    exact (hold id hid).trans (update_of_ne hne _ _)

structure Split (s s' : UndoRedoService κ) (side : Side) (element : Nat)
    (left : κ → Prop) : Prop where
  sound : s'.SoundBut (some element)
  elements : s'.elements = s.elements
  gone : ∀ resource, left resource → element ∉ s'.ids side resource
  subset : ∀ side' resource, element ∈ s'.ids side' resource → element ∈ s.ids side' resource

theorem on_splitWorkspaceElement (stack : ResourceEditStack) (side : Side) (toRemove : Nat)
    (replacement : Option Nat) (side' : Side) :
    (stack.splitWorkspaceElement side toRemove replacement).on side' =
      if side' = side then replaceLast toRemove replacement (stack.on side')
      else stack.on side' := by
  cases side <;> cases side' <;> rfl

theorem splitOne (side : Side) {stack : ResourceEditStack} (hs : s.SoundBut (some element))
    (hind : s.Individuals before individuals) (helement : element ≤ before)
    (hget : s.editStacks.get resource = some stack)
    (hold : ∀ side, ∀ id ∈ s.ids side resource, id ≤ before) :
    Split s (s.setStack resource
      (stack.splitWorkspaceElement side element (individuals.get resource))) side element
      (· = resource) := by
  have hnew : ∀ id, id ∈ individuals.get resource → before < id := fun id hid =>
    (hind resource id hid).1
  have hnot : element ∉ individuals.get resource := fun hmem => by
    have hlt := hnew element hmem
    omega
  have hids : ∀ side' resource', (s.setStack resource
      (stack.splitWorkspaceElement side element (individuals.get resource))).ids side' resource' =
      if resource = resource' then
        if side' = side then
          replaceLast element (individuals.get resource) (s.ids side' resource)
        else s.ids side' resource
      else s.ids side' resource' := by
    intro side' resource'
    rw [ids_setStack, on_splitWorkspaceElement, ids_of_get hget]
  have hfree : ∀ id ∈ individuals.get resource,
      id ∉ s.ids .past resource ++ s.ids .future resource := by
    intro id hid hmem
    have hlt := hnew id hid
    rcases mem_append.mp hmem with hpast | hfuture
    · have hle := hold .past id hpast
      omega
    · have hle := hold .future id hfuture
      omega
  refine ⟨hs.frame rfl rfl (fun resource' => ?_) ?_ ?_, rfl, ?_, ?_⟩
  · rw [hids, hids]
    split_ifs with hresource hpast hfuture hfuture
    · subst hpast
      cases hfuture
    · exact nodup_replaceLast [] _ _ (hs.nodup resource) hfree
    · have hnodup : (s.ids .past resource ++
          (replaceLast element (individuals.get resource) (s.ids .future resource) ++ [])).Nodup :=
        nodup_replaceLast _ _ _ (by rw [append_nil]; exact hs.nodup resource)
        (by rw [append_nil]; exact hfree)
      rw [append_nil] at hnodup
      exact hnodup
    · exact hs.nodup resource
    · exact hs.nodup resource'
  · intro side' resource' id hmem
    rw [hids] at hmem
    split_ifs at hmem with hresource hside
    · by_cases hid : id = element
      · subst hid
        exact absurd hmem (notMem_replaceLast (hs.nodup_side side' resource) hnot)
      · by_cases hin : id ∈ individuals.get resource
        · exact (hind resource id hin).2.1
        · exact hs.fresh side' resource id ((mem_replaceLast hid hin).mp hmem)
    · exact hs.fresh side' resource id hmem
    · exact hs.fresh side' resource' id hmem
  · intro id htype hid side' resource'
    have hne : id ≠ element := fun heq => hid (congrArg some heq)
    have hin : id ∉ individuals.get resource := fun hmem => (hind resource id hmem).2.2 htype
    rw [hids]
    split_ifs with hresource
    · subst hresource
      exact mem_replaceLast hne hin
    · subst hresource
      exact Iff.rfl
    · exact Iff.rfl
  · rintro resource' rfl
    rw [hids, if_pos rfl, if_pos rfl]
    exact notMem_replaceLast (hs.nodup_side side resource') hnot
  · intro side' resource' hmem
    rw [hids] at hmem
    split_ifs at hmem with hresource hside
    · subst hside
      exact absurd hmem (notMem_replaceLast (hs.nodup_side side' resource) hnot)
    · subst hresource
      exact hmem
    · exact hmem

theorem splitLoop_spec (side : Side) (ignoreResources : Record κ RemovedResourceReason)
    {element : Nat} (hs : s.SoundBut (some element)) (hind : s.Individuals before individuals)
    (helement : element ≤ before) (hnodup : resources.Nodup)
    (hstacks : ∀ resource ∈ resources, ignoreResources.get resource = none →
      s.editStacks.get resource ≠ none)
    (hold : ∀ resource ∈ resources, ∀ side, ∀ id ∈ s.ids side resource, id ≤ before) :
    Split s (splitLoop side element individuals ignoreResources s resources).1 side element
      fun resource => resource ∈ resources ∧ ignoreResources.get resource = none := by
  induction resources generalizing s with
  | nil => exact ⟨hs, rfl, (fun _ hleft => nomatch hleft.1), fun _ _ hmem => hmem⟩
  | cons resource rest ih =>
    obtain ⟨hnot, hrest⟩ := nodup_cons.mp hnodup
    rw [splitLoop]
    split_ifs with hignored
    · have hsplit := ih hs hind hrest
        (fun resource' hmem => hstacks resource' (mem_cons_of_mem _ hmem))
        (fun resource' hmem => hold resource' (mem_cons_of_mem _ hmem))
      refine ⟨hsplit.sound, hsplit.elements, fun resource' hleft => ?_, hsplit.subset⟩
      rcases mem_cons.mp hleft.1 with rfl | hmem
      · exact absurd hleft.2 hignored
      · exact hsplit.gone resource' ⟨hmem, hleft.2⟩
    · rw [not_not] at hignored
      cases hget : s.editStacks.get resource with
      | none => exact absurd hget (hstacks resource mem_cons_self hignored)
      | some stack =>
        have hone := splitOne side hs hind helement hget (hold resource mem_cons_self)
        have hne : ∀ resource' ∈ rest, ¬resource = resource' := fun resource' hmem heq =>
          hnot (heq ▸ hmem)
        have hsplit := ih hone.sound hind hrest
          (fun resource' hmem hignored' => by
            rw [setStack, get_set, if_neg (hne resource' hmem)]
            exact hstacks resource' (mem_cons_of_mem _ hmem) hignored')
          (fun resource' hmem side' id hin => by
            rw [ids_setStack, if_neg (hne resource' hmem)] at hin
            exact hold resource' (mem_cons_of_mem _ hmem) side' id hin)
        refine ⟨hsplit.sound, hsplit.elements.trans hone.elements, fun resource' hleft => ?_,
          fun side' resource' hmem => hone.subset side' resource'
            (hsplit.subset side' resource' hmem)⟩
        rcases mem_cons.mp hleft.1 with rfl | hmem
        · exact fun hin => hone.gone resource' rfl (hsplit.subset side resource' hin)
        · exact hsplit.gone resource' ⟨hmem, hleft.2⟩

theorem Sound.splitWorkspaceElement (hs : s.Sound) (hmem : element ∈ s.ids side resource)
    {ignoreResources : Record κ RemovedResourceReason}
    (hignore : ∀ resource', ignoreResources.get resource' = none ↔ s.Unmarked element resource')
    (htype : (s.elements element).type = .workspace) (split : List (κ × Bool)) :
    (s.splitWorkspaceElement side element ignoreResources split).1.Sound := by
  have hsettled := hs.settled element htype (by simp)
  have hle := hs.fresh side resource element hmem
  obtain ⟨hsound, hstacks, -, hind⟩ := newIndividuals_spec
    empty hs (Nat.le_refl s.stackElementCounter)
    (fun _ _ hget => nomatch hget) split
  have hids : ∀ side resource,
      (s.newIndividuals empty split).1.ids side resource = s.ids side resource := by
    intro side resource
    rw [ids, hstacks]
    rfl
  have hsplit := splitLoop_spec side ignoreResources
    (hsound.but element) hind hle (hs.resources element)
    (fun resource' hown hignored => by
      rw [hstacks]
      exact get_ne_none ((hsettled side resource hmem).2.2 resource' hown
        ((hignore resource').mp hignored)))
    (fun resource' _ side' id hin => by
      rw [hids] at hin
      exact hs.fresh side' resource' id hin)
  refine hsplit.sound.sound fun _ side' resource' hin => ?_
  have hin' := hsplit.subset side' resource' hin
  rw [hids] at hin'
  obtain ⟨hown, hunmarked, heverywhere⟩ := hsettled side' resource' hin'
  by_cases hside : side' = side
  · subst hside
    exact absurd hin (hsplit.gone resource' ⟨hown, (hignore resource').mpr hunmarked⟩)
  · obtain ⟨hresource, hresourceUnmarked, -⟩ := hsettled side resource hmem
    have hother := heverywhere resource hresource hresourceUnmarked
    rw [Side.eq_other_of_ne hside] at hother
    exact absurd hother (hs.notMem_other hmem)

end UndoRedoService

end Fumie.UndoRedo
