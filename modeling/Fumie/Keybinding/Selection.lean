import Fumie.Keybinding.KeybindingResolver

/-!
# Selected items and lookups

An item leaves the lookup by command when a later item overwrites it. It should then not
be selected any more, and it is not where the overwriting item has as many chords as
were pressed and really covers the contexts of the overwritten one. A shorter item drops
out once more chords are pressed than it has.
-/

namespace Fumie.Keybinding

open Fumie.Lib Fumie.ContextKey List Record

variable {entry : Entry} {n : Nat} {context : Context}

namespace KeybindingResolver

variable {host : ResolverHost}

/-! ## Lookups by command -/

def Listed (r : KeybindingResolver) (entry : Entry) : Prop :=
  ∀ command, entry.2.command = some command → command ≠ "" →
    ∃ entries, r.lookupMap.get command = some entries ∧ entry ∈ entries

theorem map_addToLookupMap (r : KeybindingResolver) (entry : Entry) :
    (r.addToLookupMap entry).map = r.map := by
  unfold addToLookupMap
  split
  · rfl
  · split
    · rfl
    · rfl

theorem map_removeFromLookupMap (r : KeybindingResolver) (entry : Entry) :
    (r.removeFromLookupMap entry).map = r.map := by
  unfold removeFromLookupMap
  split
  · rfl
  · split
    · rfl
    · split
      · rfl
      · rfl

theorem listed_addToLookupMap (r : KeybindingResolver) (entry : Entry) :
    (r.addToLookupMap entry).Listed entry := by
  intro command hcommand hne
  unfold addToLookupMap
  simp only [hcommand, if_neg hne, get_set, if_true]
  exact ⟨_, rfl, by simp⟩

variable {r : KeybindingResolver}

theorem Listed.addToLookupMap (h : r.Listed entry) (other : Entry) :
    (r.addToLookupMap other).Listed entry := by
  intro command hcommand hne
  obtain ⟨entries, hget, hmem⟩ := h command hcommand hne
  unfold KeybindingResolver.addToLookupMap
  split
  · exact ⟨entries, hget, hmem⟩
  · rename_i command' _
    split
    · exact ⟨entries, hget, hmem⟩
    · simp only [get_set]
      by_cases heq : command' = command
      · subst heq
        exact ⟨_, if_pos rfl, by simp [hget, hmem]⟩
      · exact ⟨entries, by rw [if_neg heq, hget], hmem⟩

theorem Listed.removeFromLookupMap {other : Entry} (h : r.Listed entry)
    (hother : entry.1 ≠ other.1) : (r.removeFromLookupMap other).Listed entry := by
  intro command hcommand hne
  obtain ⟨entries, hget, hmem⟩ := h command hcommand hne
  unfold KeybindingResolver.removeFromLookupMap
  split
  · exact ⟨entries, hget, hmem⟩
  · rename_i command' _
    split
    · exact ⟨entries, hget, hmem⟩
    · split
      · exact ⟨entries, hget, hmem⟩
      · rename_i entries' hget'
        simp only [get_set]
        by_cases heq : command' = command
        · subst heq
          obtain rfl := Option.some.inj (hget.symm.trans hget')
          refine ⟨_, if_pos rfl, ?_⟩
          rw [mem_eraseP_of_neg (by simpa using hother)]
          exact hmem
        · exact ⟨entries, by rw [if_neg heq, hget], hmem⟩

theorem Listed.foldl_remove {removed : List Entry} (hother : ∀ other ∈ removed, entry.1 ≠ other.1)
    {r : KeybindingResolver} (h : r.Listed entry) :
    (removed.foldl KeybindingResolver.removeFromLookupMap r).Listed entry := by
  induction removed generalizing r with
  | nil => exact h
  | cons other rest ih =>
    exact ih (fun e he => hother e (mem_cons_of_mem _ he))
      (h.removeFromLookupMap (hother other mem_cons_self))

theorem map_foldl_remove (removed : List Entry) (r : KeybindingResolver) :
    (removed.foldl removeFromLookupMap r).map = r.map := by
  induction removed generalizing r with
  | nil => rfl
  | cons other rest ih => rw [foldl_cons, ih, map_removeFromLookupMap]

/-! ## Every added item is listed or overwritten -/

structure Sound (host : ResolverHost) (items : List ResolvedKeybindingItem) (n : Nat)
    (r : KeybindingResolver) : Prop where
  place : ∀ key entries, r.map.get key = some entries → ∀ e ∈ entries,
    e.1 < n ∧ items[e.1]? = some e.2 ∧ e.2.chords.head? = some key
  ordered : ∀ key entries, r.map.get key = some entries → entries.Pairwise fun e t => e.1 < t.1
  kept : ∀ key pre e post, r.map.get key = some (pre ++ e :: post) →
    r.Listed e ∨ ∃ t ∈ post, overwrites host t.2 e.2 = true

theorem sound_empty (items : List ResolvedKeybindingItem) :
    Sound host items 0 { map := .empty, lookupMap := .empty } :=
  ⟨fun _ _ h => (by cases h), fun _ _ h => (by cases h), fun _ _ _ _ h => (by cases h)⟩

variable {items : List ResolvedKeybindingItem}

theorem Sound.skip (h : Sound host items n r) : Sound host items (n + 1) r where
  place key entries hget e he :=
    ⟨Nat.lt_succ_of_lt (h.place key entries hget e he).1, (h.place key entries hget e he).2⟩
  ordered := h.ordered
  kept := h.kept

variable {item : ResolvedKeybindingItem}

theorem Sound.addKeyPress (h : Sound host items n r) (hitem : items[n]? = some item)
    {keypress : String} (hhead : item.chords.head? = some keypress) :
    Sound host items (n + 1) (r.addKeyPress host keypress (n, item)) := by
  -- The conflicts are empty when the group is new.
  obtain ⟨conflicts, hold, hnew⟩ : ∃ conflicts : List Entry, (r.map.get keypress).getD [] = conflicts ∧
      r.addKeyPress host keypress (n, item) =
        { (conflicts.reverse.filter fun conflict : Entry =>
              overwrites host item conflict.2).foldl removeFromLookupMap r with
          map := r.map.set keypress (conflicts ++ [(n, item)]) }.addToLookupMap (n, item) := by
    cases hget : r.map.get keypress with
    | none => exact ⟨[], rfl, by simp [KeybindingResolver.addKeyPress, hget]⟩
    | some conflicts =>
      refine ⟨conflicts, rfl, ?_⟩
      simp only [KeybindingResolver.addKeyPress, hget, map_foldl_remove]
  have hplace : ∀ key entries, r.map.get key = some entries → ∀ e ∈ entries,
      e.1 < n ∧ items[e.1]? = some e.2 ∧ e.2.chords.head? = some key := h.place
  have hconflict : ∀ e ∈ conflicts, r.map.get keypress = some conflicts := by
    intro e he
    cases hget : r.map.get keypress with
    | none =>
      rw [hget] at hold
      subst hold
      cases he
    | some entries =>
      rw [hget] at hold
      exact congrArg some hold
  have hmap : (r.addKeyPress host keypress (n, item)).map =
      r.map.set keypress (conflicts ++ [(n, item)]) := by
    rw [hnew, map_addToLookupMap]
  have hget : ∀ key, (r.addKeyPress host keypress (n, item)).map.get key =
      if keypress = key then some (conflicts ++ [(n, item)]) else r.map.get key := by
    intro key
    rw [hmap, get_set]
  -- An entry of the old groups that the new item does not overwrite stays listed.
  have hlisted : ∀ key entries e, r.map.get key = some entries → e ∈ entries → r.Listed e →
      (key = keypress → overwrites host item e.2 = false) →
      (r.addKeyPress host keypress (n, item)).Listed e := by
    intro key entries e hkey he hl hfree
    rw [hnew]
    refine Listed.addToLookupMap ?_ _
    have hothers : ∀ other ∈ conflicts.reverse.filter (fun conflict : Entry =>
        overwrites host item conflict.2), e.1 ≠ other.1 := by
      intro other hother hsame
      obtain ⟨hmem, hover⟩ := mem_filter.mp hother
      rw [mem_reverse] at hmem
      have hother' := hplace keypress conflicts (hconflict other hmem) other hmem
      have he' := hplace key entries hkey e he
      have hitemEq : e.2 = other.2 := by
        have h1 := he'.2.1
        rw [hsame, hother'.2.1] at h1
        exact (Option.some.inj h1).symm
      have hkeys : key = keypress := by
        have h1 := he'.2.2
        rw [hitemEq, hother'.2.2] at h1
        exact (Option.some.inj h1).symm
      rw [← hitemEq, hfree hkeys] at hover
      cases hover
    exact Listed.foldl_remove hothers hl
  refine ⟨fun key entries hkey e he => ?_, fun key entries hkey => ?_,
    fun key pre e post hkey => ?_⟩
  · rw [hget] at hkey
    split at hkey
    · rename_i heq
      subst heq
      cases hkey
      rcases mem_append.mp he with he | he
      · have hp := hplace keypress conflicts (hconflict e he) e he
        exact ⟨Nat.lt_succ_of_lt hp.1, hp.2⟩
      · obtain rfl := mem_singleton.mp he
        exact ⟨Nat.lt_succ_self n, hitem, hhead⟩
    · have hp := hplace key entries hkey e he
      exact ⟨Nat.lt_succ_of_lt hp.1, hp.2⟩
  · rw [hget] at hkey
    split at hkey
    · cases hkey
      rw [pairwise_append]
      refine ⟨?_, pairwise_singleton _ _, fun e he t ht => ?_⟩
      · cases hconf : conflicts with
        | nil => exact List.Pairwise.nil
        | cons c rest =>
          rw [← hconf]
          exact h.ordered keypress conflicts (hconflict c (by rw [hconf]; exact mem_cons_self))
      · obtain rfl := mem_singleton.mp ht
        exact (hplace keypress conflicts (hconflict e he) e he).1
    · exact h.ordered key entries hkey
  · rw [hget] at hkey
    split at hkey
    · rename_i heq
      subst heq
      have hsplit := Option.some.inj hkey
      rcases eq_nil_or_concat post with rfl | ⟨post', last, rfl⟩
      · have hlast : e = (n, item) := by
          have := congrArg getLast? hsplit
          simpa using this.symm
        subst hlast
        refine .inl ?_
        rw [hnew]
        exact listed_addToLookupMap _ _
      · have hparts : conflicts = pre ++ e :: post' ∧ (n, item) = last := by
          have hassoc : conflicts ++ [(n, item)] = (pre ++ e :: post') ++ [last] := by
            rw [hsplit, concat_eq_append, append_assoc, cons_append]
          obtain ⟨hfront, hback⟩ := append_inj' hassoc rfl
          exact ⟨hfront, (cons.inj hback).1⟩
        obtain ⟨hfront, hlast⟩ := hparts
        have hmem : e ∈ conflicts := by
          rw [hfront]
          simp
        by_cases hover : overwrites host item e.2 = true
        · exact .inr ⟨last, by simp, by rw [← hlast]; exact hover⟩
        · have hold' := hconflict e hmem
          rw [hfront] at hold'
          rcases h.kept keypress pre e post' hold' with hl | ⟨t, ht, hover'⟩
          · exact .inl (hlisted keypress conflicts e (hconflict e hmem) hmem hl
              fun _ => by simpa using hover)
          · exact .inr ⟨t, by simp [ht], hover'⟩
    · rename_i hne
      rcases h.kept key pre e post hkey with hl | hover
      · exact .inl (hlisted key _ e hkey (by simp) hl fun heq => absurd heq.symm hne)
      · exact .inr hover

theorem Sound.addItem (h : Sound host items n r) (hitem : items[n]? = some item) :
    Sound host items (n + 1) (r.addItem host (n, item)) := by
  unfold KeybindingResolver.addItem
  split
  · exact h.skip
  · rename_i keypress rest hchords
    have hhead : item.chords.head? = some keypress := by
      change item.chords = keypress :: rest at hchords
      rw [hchords]
      rfl
    split
    · exact h.addKeyPress hitem hhead
    · split
      · exact h.skip
      · exact h.addKeyPress hitem hhead

theorem Sound.foldl_addItem {items : List ResolvedKeybindingItem}
    (front back : List ResolvedKeybindingItem) (hitems : items = front ++ back) {r : KeybindingResolver}
    (h : Sound host items front.length r) :
    Sound host items items.length
      (((back.zipIdx front.length).map Prod.swap).foldl (KeybindingResolver.addItem host) r) := by
  induction back generalizing front r with
  | nil =>
    rw [hitems, append_nil] at h ⊢
    exact h
  | cons item rest ih =>
    have hitem : items[front.length]? = some item := by
      rw [hitems]
      simp
    rw [zipIdx_cons, map_cons, foldl_cons]
    have hnext := h.addItem hitem
    have hlength : (front ++ [item]).length = front.length + 1 := by simp
    have hrest := ih (front ++ [item]) (by rw [hitems, append_assoc]; rfl)
      (by rw [hlength]; exact hnext)
    rwa [hlength] at hrest

theorem sound_create (host : ResolverHost)
    (defaultKeybindings overrides : List ResolvedKeybindingItem) :
    Sound host (handleRemovals host (defaultKeybindings ++ overrides))
      (handleRemovals host (defaultKeybindings ++ overrides)).length
      (create host defaultKeybindings overrides) :=
  Sound.foldl_addItem [] _ rfl (sound_empty _)

/-! ## The selected item -/

theorem contextMatches_of_included {c : TestComparison} (hc : c.Exact)
    {a b : Option ContextKeyExpression} (h : whenIsIncluded c a b = true)
    (ha : contextMatchesRules host context a = true) :
    contextMatchesRules host context b = true := by
  cases b with
  | none => rfl
  | some b =>
    unfold whenIsIncluded at h
    simp only at h
    split at h
    · rename_i htrue
      cases b with
      | true => rfl
      | _ => cases htrue
    · cases a with
      | none => cases h
      | some a =>
        simp only at h
        split at h
        · cases h
        · exact holds_of_implies host.js context hc a h ha

theorem select_spec {first : String} {rest : List String} {e : Entry}
    (h : r.select host context (first :: rest) = some e) :
    ∃ pre post, r.map.get first = some (pre ++ e :: post) ∧ rest.isPrefixOf e.2.chords.tail = true ∧
      contextMatchesRules host context e.2.when = true ∧
      ∀ t ∈ post, rest.isPrefixOf t.2.chords.tail = true →
        contextMatchesRules host context t.2.when = false := by
  obtain ⟨entries, hentries, hfind⟩ := Option.bind_eq_some_iff.mp h
  obtain ⟨bucket, hbucket, rfl⟩ := Option.map_eq_some_iff.mp hentries
  have hfilter : (if rest.isEmpty = true then bucket
      else bucket.filter fun candidate => rest.isPrefixOf candidate.2.chords.tail) =
        bucket.filter fun candidate => rest.isPrefixOf candidate.2.chords.tail := by
    split
    · rename_i hempty
      rw [isEmpty_iff.mp hempty]
      exact (filter_eq_self.mpr fun _ _ => rfl).symm
    · rfl
  rw [hfilter] at hfind
  obtain ⟨hmatch, later, earlier, hsplit, hlater⟩ := find?_eq_some_iff_append.mp hfind
  have hsplit' : (bucket.filter fun candidate => rest.isPrefixOf candidate.2.chords.tail) =
      earlier.reverse ++ e :: later.reverse := by
    have hrev := congrArg reverse hsplit
    simpa using hrev
  obtain ⟨pre, back, rfl, -, hback⟩ := filter_eq_append_iff.mp hsplit'
  obtain ⟨skipped, post, rfl, -, hprefix, hpost⟩ := filter_eq_cons_iff.mp hback
  refine ⟨pre ++ skipped, post, by rw [hbucket, append_assoc], hprefix, hmatch,
    fun t ht hprefixed => ?_⟩
  have hmem : t ∈ later := by
    rw [← mem_reverse, ← hpost]
    exact mem_filter.mpr ⟨ht, hprefixed⟩
  simpa using hlater t hmem

theorem isPrefixOf_of_agree {pressed conflict item : List String}
    (hpressed : pressed.isPrefixOf conflict = true) (hagree : prefixAgrees conflict item = true)
    (hlength : pressed.length ≤ item.length) : pressed.isPrefixOf item = true := by
  rw [ isPrefixOf_iff_prefix] at hpressed ⊢
  unfold prefixAgrees at hagree
  rw [Bool.or_eq_true, isPrefixOf_iff_prefix, isPrefixOf_iff_prefix] at hagree
  rcases hagree with h | h
  · exact hpressed.trans h
  · exact prefix_of_prefix_length_le hpressed h hlength

def OverwrittenWithin (host : ResolverHost) (items : List ResolvedKeybindingItem)
    (pressedChords : List String) : Prop :=
  items.Pairwise fun conflict item =>
    conflict.chords.head? = item.chords.head? → overwrites host item conflict = true →
      pressedChords.isPrefixOf conflict.chords = true → pressedChords.length ≤ item.chords.length ∧
          whenIsIncluded (exactComparison host.js) conflict.when item.when = true

def SelectedListed (host : ResolverHost)
    (defaultKeybindings overrides : List ResolvedKeybindingItem) (context : Context)
    (pressedChords : List String) : Prop :=
  ∀ entry command,
    (create host defaultKeybindings overrides).select host context pressedChords = some entry →
    entry.2.command = some command → command ≠ "" →
    entry ∈ (create host defaultKeybindings overrides).lookupKeybindings command

def ImplicationHolds (js : JsHost) (p q : ContextKeyExpression) : Prop :=
  implies (sourceComparison js) p q = true →
    ∀ context, p.evaluate js context = true → q.evaluate js context = true

theorem selectedListed_of_overwrittenWithin
    {defaultKeybindings overrides : List ResolvedKeybindingItem} {pressedChords : List String}
    (h : OverwrittenWithin host (handleRemovals host (defaultKeybindings ++ overrides))
      pressedChords) : SelectedListed host defaultKeybindings overrides context pressedChords := by
  intro entry command hselect hcommand hne
  have hsound := sound_create host defaultKeybindings overrides
  cases pressedChords with
  | nil => cases hselect
  | cons first rest =>
    obtain ⟨pre, post, hgroup, hprefix, hmatch, hlast⟩ := select_spec hselect
    rcases hsound.kept first pre entry post hgroup with hlisted | ⟨t, ht, hover⟩
    · obtain ⟨entries, hget, hmem⟩ := hlisted command hcommand hne
      unfold lookupKeybindings
      rw [hget]
      exact mem_reverse.mpr hmem
    · -- The overwriting item would have been selected instead.
      have hplace := hsound.place first _ hgroup
      have hentry := hplace entry (by simp)
      have hitem := hplace t (by simp [ht])
      have horder : entry.1 < t.1 := by
        have hordered := hsound.ordered first _ hgroup
        rw [pairwise_append, pairwise_cons] at hordered
        exact hordered.2.1.1 t ht
      obtain ⟨hentryBound, hentryGet⟩ := List.getElem?_eq_some_iff.mp hentry.2.1
      obtain ⟨hitemBound, hitemGet⟩ := List.getElem?_eq_some_iff.mp hitem.2.1
      have hwithin := pairwise_iff_getElem.mp h entry.1 t.1 hentryBound hitemBound horder
      rw [hentryGet, hitemGet] at hwithin
      obtain ⟨entryRest, hentryChords⟩ := head?_eq_some_iff.mp hentry.2.2
      obtain ⟨itemRest, hitemChords⟩ := head?_eq_some_iff.mp hitem.2.2
      have hpressed : (first :: rest).isPrefixOf entry.2.chords = true := by
        rw [hentryChords, tail_cons] at hprefix
        rw [hentryChords]
        simpa [isPrefixOf] using hprefix
      obtain ⟨hlength, hincluded⟩ := hwithin (hentry.2.2.trans hitem.2.2.symm) hover hpressed
      have hagree : prefixAgrees entry.2.chords.tail t.2.chords.tail = true := by
        unfold overwrites at hover
        simp only [Bool.and_eq_true] at hover
        exact hover.1.2
      have htail : rest.length ≤ t.2.chords.tail.length := by
        rw [hitemChords, length_cons, length_cons] at hlength
        rw [hitemChords, tail_cons]
        omega
      have hnot := hlast t ht (isPrefixOf_of_agree hprefix hagree htail)
      rw [contextMatches_of_included (exact_exactComparison host.js) hincluded hmatch] at hnot
      cases hnot

def sampleJs : JsHost where
  toNumber _ := .nan
  parseFloat text := if text = "6" then .finite 6 else .nan
  numberText n := if n = .finite 6 then "6" else "0"
  objectText _ := "[object Object]"
  contents _ := .record []
  regexpTest _ _ _ := false
  toLowerCase text := text
  isWindows := false

def sampleHost : ResolverHost where
  js := sampleJs
  substituteConstants := some

/-- `b && a > 5`. -/
def greaterNumber : ContextKeyExpression :=
  .and [.test (.defined "b"), .test (.greater "a" (.number (.finite 5)))]

/-- `b && a > abc`. -/
def greaterText : ContextKeyExpression :=
  .and [.test (.defined "b"), .test (.greater "a" (.string "abc"))]

/-- `a` is 6 and `b` is true. -/
def sampleContext : Context
  | "a" => .number (.finite 6)
  | "b" => .boolean true
  | _ => .undefined

def sampleItem (chords : List String) (command : String) : ResolvedKeybindingItem where
  chords := chords
  bubble := false
  command := some command
  commandArgs := .null
  when := none
  isDefault := true

def sampleItems : List ResolvedKeybindingItem :=
  [sampleItem ["ctrl+k", "ctrl+l"] "first", sampleItem ["ctrl+k"] "second",
    sampleItem ["ctrl+k", "ctrl+m"] "third"]

end KeybindingResolver

end Fumie.Keybinding
