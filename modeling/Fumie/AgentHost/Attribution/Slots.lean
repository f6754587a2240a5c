import Fumie.AgentHost.Attribution.Moves

/-!
# One file at a time

The task that holds the slot of a file writes live resources of that file only, and only
the first task of a file is past its first section. So what a task knows about the live
resources of its file stays true while it awaits.
-/

namespace Fumie.AgentHost.EditAttribution

open Fumie.Lib List Record

/-! ## Putting back -/

def putBack (live : Record ResourceKey TrackedResource) (r : TrackedResource) :
    Record ResourceKey TrackedResource :=
  if (live.get r.key).isSome then live else live.set r.key r

theorem get_putBack (live : Record ResourceKey TrackedResource) (r : TrackedResource)
    (key : ResourceKey) :
    (putBack live r).get key =
      if r.key = key ∧ live.get key = none then some r else live.get key := by
  unfold putBack
  by_cases hlive : (live.get r.key).isSome
  · rw [if_pos hlive, if_neg]
    rintro ⟨rfl, hnone⟩
    rw [hnone] at hlive
    cases hlive
  · rw [if_neg hlive, get_set]
    rw [Option.not_isSome_iff_eq_none] at hlive
    by_cases hkey : r.key = key
    · subst hkey
      rw [if_pos rfl, if_pos ⟨rfl, hlive⟩]
    · rw [if_neg hkey, if_neg fun h => hkey h.1]

namespace Store

variable {ok : Store → PreparedFlush → Prop} {f : FileKey}

theorem restoreResources_eq (s : Store) (rs : List TrackedResource) : s.restoreResources rs =
      { s with
        claimedResources := s.claimedResources.filter (· ∉ rs)
        resources := rs.foldl putBack s.resources } := by
  induction rs generalizing s with
  | nil =>
    show s = _
    simp
  | cons r rest ih =>
    show (s.restoreResource r).restoreResources rest = _
    rw [ih]
    unfold restoreResource
    congr 1
    rw [filter_filter]
    refine filter_congr fun a _ => ?_
    simp [mem_cons, Bool.and_comm]

def SettledBy (token : Token) (s : Store) (settled : Record Token (FlushResult × Nat)) : Prop :=
  ∀ token' e, settled.get token' = some e → token' = token ∨ s.settledFlushes.get token' = some e

theorem get_of_evictOldest {κ α : Type} [DecidableEq κ] {limit : Nat} {rec : Record κ α} {k : κ}
    {a : α} (h : (evictOldest limit rec).get k = some a) : rec.get k = some a :=
  get_of_mem (mem_of_mem_drop (mem_of_get h))

theorem get_of_delete {κ α : Type} [DecidableEq κ] {rec : Record κ α} {k k' : κ} {a : α}
    (h : (rec.delete k).get k' = some a) : rec.get k' = some a := by
  rw [get_delete] at h
  split at h
  · cases h
  · exact h

theorem recordSettledFlush_eq (s : Store) (token : Token) (result : FlushResult) :
    ∃ settled, s.SettledBy token settled ∧
      s.recordSettledFlush token result = { s with settledFlushes := settled } := by
  refine ⟨_, fun token' e he => ?_, rfl⟩
  have hset := get_of_evictOldest he
  rw [get_set] at hset
  split at hset
  · next hsame => exact .inl hsame.symm
  · exact .inr (get_of_delete hset)

theorem settleCommitted_eq (s : Store) (token : Token) (p : PreparedFlush) :
    ∃ settled, s.SettledBy token settled ∧ s.settleCommitted token p =
      { s with
        preparedFlushes := s.preparedFlushes.delete token
        claimedResources := s.claimedResources.filter (· ∉ p.resources)
        settledFlushes := settled
        emitted := s.emitted ++ [(p, s.committedResult p)] } := by
  obtain ⟨settled, hsettled, h⟩ := recordSettledFlush_eq
    (((s.deletePrepared token).releaseResourceClaims p.resources).emitTelemetry p) token
    (s.committedResult p)
  exact ⟨settled, hsettled, h⟩

def pendingAfter (s : Store) (acks : List (ResourceKey × StandaloneAcknowledgement)) :
    Record ResourceKey StandaloneAcknowledgement :=
  evictOldest maxStandaloneAcknowledgements (s.restoredAcknowledgements acks)

def droppedBy (s : Store) (acks : List (ResourceKey × StandaloneAcknowledgement)) :
    List (ResourceKey × StandaloneAcknowledgement) :=
  (s.restoredAcknowledgements acks).entries.take
    ((s.restoredAcknowledgements acks).entries.length - maxStandaloneAcknowledgements)

theorem restoreStandaloneAcknowledgements_eq (s : Store)
    (acks : List (ResourceKey × StandaloneAcknowledgement)) :
    s.restoreStandaloneAcknowledgements acks =
      { s with
        standaloneAcknowledgements := s.pendingAfter acks
        dropped := s.dropped ++ s.droppedBy acks } := rfl

theorem settleCancelled_eq (s : Store) (token : Token) (p : PreparedFlush) :
    ∃ settled, s.SettledBy token settled ∧ s.settleCancelled token p =
      { s with
        preparedFlushes := s.preparedFlushes.delete token
        claimedResources := s.claimedResources.filter (· ∉ p.resources)
        resources := p.resources.foldl putBack s.resources
        settledFlushes := settled
        standaloneAcknowledgements := s.pendingAfter p.standaloneAcknowledgements
        dropped := s.dropped ++ s.droppedBy p.standaloneAcknowledgements } := by
  obtain ⟨settled, hsettled, h⟩ := recordSettledFlush_eq
    (((s.deletePrepared token).restoreResources p.resources).restoreStandaloneAcknowledgements
      p.standaloneAcknowledgements) token .cancelled
  unfold settleCancelled
  rw [h]
  rw [restoreStandaloneAcknowledgements_eq, restoreResources_eq] at hsettled ⊢
  exact ⟨settled, hsettled, rfl⟩

theorem settleCancelled_resources (s : Store) (token : Token) (p : PreparedFlush) :
    (s.settleCancelled token p).resources = p.resources.foldl putBack s.resources := by
  obtain ⟨settled, -, h⟩ := settleCancelled_eq s token p
  rw [h]

theorem settleCancelled_prepared (s : Store) (token : Token) (p : PreparedFlush) :
    (s.settleCancelled token p).preparedFlushes = s.preparedFlushes.delete token := by
  obtain ⟨settled, -, h⟩ := settleCancelled_eq s token p
  rw [h]

theorem prepareResourceNow_eq {s t : Store} {r : TrackedResource}
    (h : s.prepareResourceNow r = some t) :
    s.resources.get r.key = some r ∧ t = { s with
      resources := s.resources.delete r.key
      claimedResources :=
        if r ∈ s.claimedResources then s.claimedResources else s.claimedResources ++ [r] } := by
  unfold prepareResourceNow at h
  split at h
  · next hget => exact ⟨hget, (Option.some.inj h).symm⟩
  · cases h

theorem commitFlushNow_of_get {s : Store} {token : Token} {p : PreparedFlush}
    (h : s.preparedFlushes.get token = some p) :
    s.commitFlushNow token = (s.settleCommitted token p, s.committedResult p) := by
  unfold commitFlushNow
  rw [h]

def standaloneAcknowledgement (s : Store) (r : TrackedResource) : StandaloneAcknowledgement where
  timestamp := s.now
  fileKey := r.key.fileKey
  lastSequence := (s.fieldsOf r).lastSequence
  coverageGapAcknowledgements := ({ s with uuid := s.uuid + 1 } : Store).gapAcknowledgementsOf r

theorem finishStandalone_eq (s : Store) (r : TrackedResource) :
    ∃ settled result, s.SettledBy (.uuid s.uuid) settled ∧ s.finishStandalone r =
      { s with
        preparedFlushes :=
          (s.preparedFlushes.set (.uuid s.uuid) (s.standaloneFlush r)).delete (.uuid s.uuid)
        claimedResources := s.claimedResources.filter (· ∉ [r])
        settledFlushes := settled
        emitted := s.emitted ++ [(s.standaloneFlush r, result)]
        uuid := s.uuid + 2
        acknowledged := s.acknowledged ++
          (s.standaloneAcknowledgement r).coverageGapAcknowledgements.map (Prod.mk r.key.fileKey)
        standaloneAcknowledgements := s.pendingAfter [(r.key, s.standaloneAcknowledgement r)]
        dropped := s.dropped ++ s.droppedBy [(r.key, s.standaloneAcknowledgement r)] } := by
  have hget : (({ s with uuid := s.uuid + 1 }).setPrepared (s.standaloneFlush r)).preparedFlushes.get
      (.uuid s.uuid) = some (s.standaloneFlush r) := by
    show (s.preparedFlushes.set (.uuid s.uuid) (s.standaloneFlush r)).get (.uuid s.uuid) = _
    rw [get_set, if_pos rfl]
  obtain ⟨settled, hsettled, h⟩ := settleCommitted_eq
    (({ s with uuid := s.uuid + 1 }).setPrepared (s.standaloneFlush r)) (.uuid s.uuid)
    (s.standaloneFlush r)
  show ∃ settled result, s.SettledBy (.uuid s.uuid) settled ∧ recordStandaloneAcknowledgement
    ((({ s with uuid := s.uuid + 1 }).setPrepared (s.standaloneFlush r)).commitFlushNow
      (.uuid s.uuid)).1 r _ = _
  rw [commitFlushNow_of_get hget, h]
  unfold recordStandaloneAcknowledgement
  rw [restoreStandaloneAcknowledgements_eq]
  exact ⟨settled, _, hsettled, rfl⟩

attribute [irreducible] pendingAfter droppedBy

theorem finishStandalone_resources (s : Store) (r : TrackedResource) :
    (s.finishStandalone r).resources = s.resources := by
  obtain ⟨settled, result, -, h⟩ := finishStandalone_eq s r
  rw [h]

theorem finishStandalone_prepared (s : Store) (r : TrackedResource) :
    (s.finishStandalone r).preparedFlushes =
      (s.preparedFlushes.set (.uuid s.uuid) (s.standaloneFlush r)).delete (.uuid s.uuid) := by
  obtain ⟨settled, result, -, h⟩ := finishStandalone_eq s r
  rw [h]

/-! ## Live resources under their files -/

structure InFiles (f : FileKey) (s : Store) (held : Holding) : Prop where
  keyed : s.Keyed
  prepared : ∀ token p, s.preparedFlushes.get token = some p →
    ∀ r ∈ p.resources, r.key.fileKey = p.fileKey
  held : ∀ r ∈ held.resources, r.key.fileKey = f

def OthersKept (f : FileKey) (s t : Store) : Prop :=
  ∀ key, key.fileKey ≠ f → t.resources.get key = s.resources.get key

variable {live : Record ResourceKey TrackedResource} {held held' : Holding}

theorem putBack_keyed (rs : List TrackedResource)
    (h : ∀ key r, live.get key = some r → r.key = key) :
    ∀ key r, (rs.foldl putBack live).get key = some r → r.key = key := by
  induction rs generalizing live with
  | nil => exact h
  | cons a rest ih =>
    refine ih fun key r hr => ?_
    rw [get_putBack] at hr
    split at hr
    · next hkey =>
      cases hr
      exact hkey.1
    · exact h key r hr

theorem putBack_others {rs : List TrackedResource} (hfile : ∀ r ∈ rs, r.key.fileKey = f)
    {key : ResourceKey} (hkey : key.fileKey ≠ f) :
    (rs.foldl putBack live).get key = live.get key := by
  induction rs generalizing live with
  | nil => rfl
  | cons a rest ih =>
    rw [foldl_cons, ih fun r hr => hfile r (mem_cons_of_mem _ hr), get_putBack, if_neg]
    rintro ⟨rfl, -⟩
    exact hkey (hfile a mem_cons_self)

theorem InFiles.of_same {s t : Store} (h : s.InFiles f held)
    (hresources : t.resources = s.resources) (hprepared : t.preparedFlushes = s.preparedFlushes)
    (hheld : ∀ r ∈ held'.resources, r ∈ held.resources) : t.InFiles f held' ∧ s.OthersKept f t := by
  refine ⟨⟨?_, ?_, fun r hr => h.held r (hheld r hr)⟩, fun key _ => ?_⟩
  · unfold Keyed
    rw [hresources]
    exact h.keyed
  · rw [hprepared]
    exact h.prepared
  · rw [hresources]

theorem Move.inFiles {s t : Store} (h : Move ok f (s, held) (t, held')) (hs : s.InFiles f held) :
    t.InFiles f held' ∧ s.OthersKept f t := by
  obtain ⟨hkeyed, hprepared, hheld⟩ := id hs
  cases h with
  | quiet h => exact hs.of_same h.resources h.preparedFlushes fun _ hr => hr
  | create key hasContent hfile hnone =>
    refine ⟨⟨fun key' r hr => ?_, hprepared, hheld⟩, fun key' hkey' => ?_⟩
    · have hr' : (s.resources.set key ⟨s.fields.length, key⟩).get key' = some r := hr
      rw [get_set] at hr'
      split at hr'
      · next hkey =>
        cases hr'
        exact hkey
      · exact hkeyed key' r hr'
    · show (s.resources.set key _).get key' = _
      rw [get_set, if_neg]
      rintro rfl
      exact hkey' hfile
  | touch r hfile hget =>
    have hsame := get_touchResource hget
    exact ⟨⟨fun key r' hr => hkeyed key r' ((hsame key).symm.trans hr), hprepared, hheld⟩,
      fun key _ => hsame key⟩
  | track _ _ | skip _ _ _ | take _ | forget _ => exact hs.of_same rfl rfl fun _ hr => hr
  | claim r hfile h =>
    obtain ⟨-, rfl⟩ := prepareResourceNow_eq h
    refine ⟨⟨fun key r' hr => hkeyed key r' (get_of_delete hr), hprepared, fun r' hr' => ?_⟩,
      fun key hkey => ?_⟩
    · rcases mem_append.mp hr' with hr' | hr'
      · exact hheld r' hr'
      · rw [mem_singleton.mp hr']
        exact hfile
    · rw [get_delete, if_neg]
      rintro rfl
      exact hkey hfile
  | @restore _ held rest acks r hperm =>
    have hall : ∀ a ∈ r :: rest, a.key.fileKey = f := fun a ha => hheld a (hperm.mem_iff.mpr ha)
    have hone : ∀ a ∈ [r], a.key.fileKey = f := fun a ha =>
      hall a (mem_singleton.mp ha ▸ mem_cons_self)
    exact ⟨⟨putBack_keyed [r] hkeyed, hprepared, fun a ha => hall a (mem_cons_of_mem _ ha)⟩,
      fun key hkey => putBack_others hone hkey⟩
  | restoreAcks acks =>
    rw [restoreStandaloneAcknowledgements_eq]
    exact hs.of_same rfl rfl fun _ hr => hr
  | pass p hfile _ _ _ _ _ =>
    refine ⟨⟨hkeyed, fun token q hq => ?_, fun r hr => absurd hr not_mem_nil⟩, fun _ _ => rfl⟩
    have hq' : (s.preparedFlushes.set p.token p).get token = some q := hq
    rw [get_set] at hq'
    split at hq'
    · cases hq'
      intro r hr
      rw [hfile]
      exact hheld r hr
    · exact hprepared token q hq'
  | standalone r =>
    refine ⟨⟨fun key r' hr => ?_, fun token q hq => ?_, fun r hr => absurd hr not_mem_nil⟩,
      fun key _ => ?_⟩
    · rw [finishStandalone_resources] at hr
      exact hkeyed key r' hr
    · rw [finishStandalone_prepared, get_delete, get_set] at hq
      split at hq
      · cases hq
      · exact hprepared token q hq
    · rw [finishStandalone_resources]
  | commit token p hget =>
    obtain ⟨settled, -, heq⟩ := settleCommitted_eq s token p
    rw [heq]
    exact ⟨⟨hkeyed, fun token' q hq => hprepared token' q (get_of_delete hq), hheld⟩,
      fun _ _ => rfl⟩
  | cancel token p hget hfree hfile =>
    have hown : ∀ r ∈ p.resources, r.key.fileKey = f := by
      intro r hr
      rcases hfile with hempty | hfile
      · rw [hempty] at hr
        exact absurd hr not_mem_nil
      · rw [← hfile]
        exact hprepared token p hget r hr
    refine ⟨⟨?_, fun token' q hq => ?_, hheld⟩, fun key hkey => ?_⟩
    · unfold Keyed
      rw [settleCancelled_resources]
      exact putBack_keyed _ hkeyed
    · rw [settleCancelled_prepared] at hq
      exact hprepared token' q (get_of_delete hq)
    · rw [settleCancelled_resources]
      exact putBack_others hown hkey
  | settle token result hnone =>
    obtain ⟨settled, -, heq⟩ := recordSettledFlush_eq s token result
    rw [heq]
    exact hs.of_same rfl rfl fun _ hr => hr

theorem Moves.inFiles {s t : Store} (h : Moves ok f (s, held) (t, held')) (hs : s.InFiles f held) :
    t.InFiles f held' ∧ s.OthersKept f t := by
  have hmove : ∀ u hu v hv, Move ok f (u, hu) (v, hv) →
      u.InFiles f hu ∧ s.OthersKept f u → v.InFiles f hv ∧ s.OthersKept f v := by
    rintro u hu v hv hmove ⟨hin, hkept⟩
    obtain ⟨hin', hkept'⟩ := hmove.inFiles hin
    exact ⟨hin', fun key hkey => (hkept' key hkey).trans (hkept key hkey)⟩
  exact Moves.invariant hmove h ⟨hs, fun _ _ => rfl⟩

end Store

/-! ## Started tasks -/

/-- A task past its first section, which must be the first of its file. An edit that goes
back to its capacity test is as good as new. -/
def Work.Started : Work → Prop
  | .recordEdit _ .checkingCapacity => False
  | .recordEdit _ _ => True
  | .flushStandalone _ claimed => claimed = true
  | .prepareFlush _ .queued => False
  | .prepareFlush _ _ => True
  | _ => False

def Work.awaits : Work → Option (FileKey × Nat)
  | .recordEdit _ (.waitingForSlot other task) => some (other, task)
  | _ => none

theorem Work.upToDate_of_not_started {work : Work} (h : ¬work.Started) (s : Store) :
    work.UpToDate s := by
  cases work with
  | recordEdit edit phase =>
    cases phase with
    | locating _ | bridging _ => exact absurd trivial h
    | _ => trivial
  | prepareFlush params phase =>
    cases phase with
    | queued => trivial
    | _ => exact absurd trivial h
  | _ => trivial

theorem Work.UpToDate.of_kept {s t : Store} {g : FileKey} {work : Work} (h : work.UpToDate s)
    (hfiled : work.FiledUnder g)
    (hkept : ∀ key, key.fileKey = g → t.resources.get key = s.resources.get key) :
    work.UpToDate t := by
  cases work with
  | recordEdit edit phase =>
    cases phase with
    | locating _ | bridging _ => exact (hkept edit.key hfiled.1).trans h
    | _ => trivial
  | prepareFlush params phase =>
    cases phase with
    | queued => trivial
    | looping _ _ _ | reconciling _ _ _ _ =>
      intro key r hr hkey
      rw [hkept key (hkey.trans hfiled.1)] at hr
      exact h key r hr hkey
  | _ => trivial

theorem Work.UpToDate.others {s t : Store} {f g : FileKey} {work : Work} (h : work.UpToDate s)
    (hfiled : work.FiledUnder g) (hne : g ≠ f) (hkept : s.OthersKept f t) : work.UpToDate t :=
  h.of_kept hfiled fun key hkey => hkept key fun hf => hne (hkey.symm.trans hf)

theorem Work.held_of_not_started {work : Work} (h : ¬work.Started) : work.held = [] := by
  cases work with
  | recordEdit edit phase =>
    cases phase with
    | checkingCapacity => rfl
    | _ => exact absurd trivial h
  | flushStandalone r claimed =>
    cases claimed with
    | false => rfl
    | true => exact absurd rfl h
  | prepareFlush params phase =>
    cases phase with
    | queued => rfl
    | _ => exact absurd trivial h
  | _ => rfl

theorem Work.acks_of_not_started {work : Work} (h : ¬work.Started) : work.acks = [] := by
  cases work with
  | prepareFlush params phase =>
    cases phase with
    | queued => rfl
    | _ => exact absurd trivial h
  | _ => rfl

theorem Work.started_of_awaits {work : Work} {p : FileKey × Nat} (h : work.awaits = some p) :
    work.Started := by
  cases work with
  | recordEdit edit phase =>
    cases phase with
    | waitingForSlot other task => trivial
    | _ => cases h
  | _ => cases h

theorem Work.FiledUnder.held {f : FileKey} {work : Work} (h : work.FiledUnder f) :
    ∀ r ∈ work.held, r.key.fileKey = f := by
  intro r hr
  cases work with
  | recordEdit edit phase =>
    cases phase with
    | evicting _ | closing _ => exact h.2 r hr
    | _ => exact absurd hr not_mem_nil
  | flushStandalone a claimed =>
    cases claimed with
    | false => exact absurd hr not_mem_nil
    | true =>
      rw [mem_singleton.mp hr]
      exact h
  | prepareFlush params phase =>
    cases phase with
    | queued => exact absurd hr not_mem_nil
    | looping acks done rest => exact h.2 r (mem_append_left _ hr)
    | reconciling acks done a rest =>
      refine h.2 r ?_
      rcases mem_append.mp hr with hr | hr
      · exact mem_append_left _ hr
      · rw [mem_singleton.mp hr]
        exact mem_append_right _ mem_cons_self
  | _ => exact absurd hr not_mem_nil

/-! ## What a section leaves its task with -/

def Next.Fits (s t : Store) (f : FileKey) (work : Work) : Next → Prop
  | .goOn w => w.FiledUnder f ∧ w.UpToDate t ∧ w.awaits = none
  | .ended _ => True
  | .await edit r =>
    work = .recordEdit edit .checkingCapacity ∧ t = s ∧ edit.fileKey = f ∧
      s.resources.get r.key = some r ∧ r.key.fileKey ≠ f ∧
      ∀ key a, s.resources.get key = some a → key.fileKey ≠ f

namespace Store

section Fits

variable {s : Store} {f : FileKey} {edit : Edit} {r : TrackedResource} {o : Outcome}

theorem ensureCapacity_other {textFits : Bool} (hkeyed : s.Keyed)
    (h : s.ensureCapacity edit textFits = some r) (hother : r.key.fileKey ≠ edit.fileKey) :
    s.resources.get r.key = some r ∧
      ∀ key a, s.resources.get key = some a → key.fileKey ≠ edit.fileKey := by
  unfold ensureCapacity at h
  split at h
  · cases h
  · cases hexisting : s.resources.get edit.key with
    | some found =>
      rw [hexisting] at h
      cases h
      exact absurd (congrArg ResourceKey.fileKey (hkeyed _ _ hexisting)) hother
    | none =>
      rw [hexisting, Option.orElse_none] at h
      cases hsame : (s.resources.entries.map Prod.snd).find? (·.key.fileKey = edit.fileKey) with
      | some found =>
        rw [hsame] at h
        cases h
        exact absurd (by simpa using find?_some hsame) hother
      | none =>
        rw [hsame, Option.orElse_none] at h
        refine ⟨mem_live hkeyed (mem_of_mem_head? h), fun key a ha => ?_⟩
        have hmem : a ∈ s.resources.entries.map Prod.snd := mem_map_of_mem (mem_of_get ha)
        rw [← hkeyed key a ha]
        simpa using find?_eq_none.mp hsame a hmem

variable {s' : Store} {work : Work}

theorem beginClosing_fits (hfile : edit.fileKey = f) (hown : r.key.fileKey = f) :
    (s.beginClosing edit r).2.Fits s' (s.beginClosing edit r).1 f work := by
  unfold beginClosing
  split
  · exact ⟨⟨hfile, fun a ha => mem_singleton.mp ha ▸ hown⟩, trivial, rfl⟩
  · trivial

theorem finishEdit_fits (hfile : edit.fileKey = f) (hown : r.key.fileKey = f) :
    (s.finishEdit edit r o).2.Fits s' (s.finishEdit edit r o).1 f work := by
  unfold finishEdit
  split
  · exact beginClosing_fits hfile hown
  · trivial

theorem applyEdit_fits (hfile : edit.fileKey = f) (hown : r.key.fileKey = f)
    (hget : s.resources.get edit.key = some r) :
    (s.applyEdit edit r o).2.Fits s' (s.applyEdit edit r o).1 f work := by
  unfold applyEdit finishSkipped
  split
  · split
    · exact beginClosing_fits hfile hown
    · trivial
  · split
    · exact ⟨⟨hfile, fun a ha => mem_singleton.mp ha ▸ hown⟩, hget, rfl⟩
    · exact finishEdit_fits hfile hown

variable {finished : Nat → Option Bool}

theorem recordEditSection_fits {phase : EditPhase} {t : Store} {next : Next}
    (hfiled : (Work.recordEdit edit phase).FiledUnder f)
    (hcurrent : (Work.recordEdit edit phase).UpToDate s) (hkeyed : s.Keyed)
    (h : s.recordEditSection finished edit o phase = some (t, next)) :
    next.Fits s t f (.recordEdit edit phase) := by
  have hnone : ∀ phase : EditPhase, phase.named = [] → ∀ a ∈ phase.named, a.key.fileKey = f := by
    intro phase h a ha
    rw [h] at ha
    exact absurd ha not_mem_nil
  show (t, next).2.Fits s (t, next).1 f _
  generalize (t, next) = result at h ⊢
  revert hfiled hcurrent h
  fun_cases recordEditSection s finished edit o phase
  all_goals
    rintro ⟨hfile, hnamed⟩ hcurrent h
    first
    | contradiction
    | obtain rfl := Option.some.inj h
  case case1 | case3 | case5 | case8 => exact ⟨⟨hfile, hnone _ rfl⟩, trivial, rfl⟩
  case case2 hown _ _ =>
    exact ⟨⟨hfile, fun a ha => mem_singleton.mp ha ▸ hown.trans hfile⟩, trivial, rfl⟩
  case case4 r hr hother =>
    obtain ⟨hlive, hfree⟩ := ensureCapacity_other hkeyed hr hother
    rw [hfile] at hother hfree
    exact ⟨rfl, rfl, hfile, hlive, hother, hfree⟩
  case case10 =>
    refine ⟨⟨hfile, fun a ha => ?_⟩, rfl, rfl⟩
    rw [hkeyed edit.key a (Option.mem_toList.mp ha)]
    exact hfile
  case case11 => exact applyEdit_fits hfile hfile (get_createResource edit.key false)
  case case12 r =>
    have hkey : r.key = edit.key := hkeyed _ _ hcurrent
    have hget : s.resources.get r.key = some r := by
      rw [hkey]
      exact hcurrent
    have htouched := (get_touchResource hget edit.key).trans hcurrent
    rw [hkey] at htouched
    exact applyEdit_fits hfile (hnamed r mem_cons_self) htouched
  case case14 r _ => exact finishEdit_fits hfile (hnamed r mem_cons_self)
  case case6 | case9 | case13 | case15 | case16 | case17 => trivial

theorem flushStandaloneSection_fits {claimed : Bool} (hfile : r.key.fileKey = f) :
    (s.flushStandaloneSection r o claimed).2.Fits s (s.flushStandaloneSection r o claimed).1 f
      (.flushStandalone r claimed) := by
  unfold flushStandaloneSection
  cases claimed with
  | false =>
    dsimp only
    split
    · exact ⟨hfile, trivial, rfl⟩
    · trivial
  | true =>
    dsimp only
    split
    · trivial
    · trivial

theorem prepareFlushSection_fits {id : Nat} {params : PrepareParams} {phase : PreparePhase}
    (hfiled : (Work.prepareFlush params phase).FiledUnder f)
    (hcurrent : (Work.prepareFlush params phase).UpToDate s) (hkeyed : s.Keyed) :
    (s.prepareFlushSection id params o phase).2.Fits s (s.prepareFlushSection id params o phase).1 f
      (.prepareFlush params phase) := by
  obtain ⟨hfile, hnamed⟩ := hfiled
  unfold prepareFlushSection
  cases phase with
  | queued =>
    dsimp only
    split
    · trivial
    · refine ⟨⟨hfile, fun a ha => ?_⟩, fun key a ha hkey => ?_, rfl⟩
      · have hmem : a ∈ s.resourcesOf params.fileKey := ha
        unfold resourcesOf at hmem
        rw [mem_filter, decide_eq_true_eq] at hmem
        exact hmem.2.trans hfile
      · unfold resourcesOf
        rw [mem_filter, decide_eq_true_eq, hkeyed key a ha]
        exact ⟨List.mem_map_of_mem (mem_of_get ha), hkey⟩
  | looping acks done rest =>
    cases rest with
    | nil => trivial
    | cons r rest =>
      have hnext : ∀ key a, s.resources.get key = some a → key.fileKey = params.fileKey →
          a ≠ r → a ∈ rest := by
        intro key a ha hkey hne
        rcases List.mem_cons.mp (hcurrent key a ha hkey) with heq | hmem
        · exact absurd heq hne
        · exact hmem
      dsimp only
      split
      · next h =>
        obtain ⟨-, rfl⟩ := prepareResourceNow_eq h
        refine ⟨⟨hfile, hnamed⟩, fun key a ha hkey => ?_, rfl⟩
        have hold := get_of_delete ha
        refine hnext key a hold hkey ?_
        rintro rfl
        have hgone : (s.resources.delete a.key).get key = some a := ha
        rw [get_delete, if_pos (hkeyed key a hold)] at hgone
        cases hgone
      · next hgone =>
        refine ⟨⟨hfile, fun a ha => hnamed a ?_⟩, fun key a ha hkey => hnext key a ha hkey ?_, rfl⟩
        · rcases List.mem_append.mp ha with ha | ha
          · exact List.mem_append_left _ ha
          · exact List.mem_append_right _ (List.mem_cons_of_mem _ ha)
        · rintro rfl
          unfold prepareResourceNow at hgone
          rw [hkeyed key a ha, if_pos ha] at hgone
          cases hgone
  | reconciling acks done r rest =>
    dsimp only
    split
    · refine ⟨⟨hfile, fun a ha => hnamed a ?_⟩, hcurrent, rfl⟩
      have hmem : a ∈ (done ++ [r]) ++ rest := ha
      rw [append_assoc] at hmem
      exact hmem
    · trivial

theorem runSection_fits {id : Nat} {work : Work} {t : Store} {next : Next}
    (hfiled : work.FiledUnder f) (hcurrent : work.UpToDate s) (hkeyed : s.Keyed)
    (h : s.runSection finished id o work = some (t, next)) : next.Fits s t f work := by
  cases work with
  | recordEdit edit phase => exact recordEditSection_fits hfiled hcurrent hkeyed h
  | flushStandalone r claimed =>
    show (t, next).2.Fits s (t, next).1 f _
    rw [← Option.some.inj h]
    exact flushStandaloneSection_fits hfiled
  | prepareFlush params phase =>
    show (t, next).2.Fits s (t, next).1 f _
    rw [← Option.some.inj h]
    exact prepareFlushSection_fits hfiled hcurrent hkeyed
  | commitFlush _ | cancelFlush _ | expirePreparedFlush _ _ _ =>
    cases h
    trivial

end Fits

end Store

end Fumie.AgentHost.EditAttribution
