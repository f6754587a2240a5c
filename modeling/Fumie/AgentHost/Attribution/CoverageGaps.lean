import Fumie.AgentHost.Attribution.Acknowledgements

/-!
# Where a coverage gap is

A skipped edit leaves its sequence number with its resource. A standalone flush hands the
numbers on as an acknowledgement, the other flushes deliver them, and an acknowledgement
may be dropped. What is neither delivered nor dropped is outstanding. Once a flush was
prepared with a cutoff, every outstanding gap of its file outside of it is above the cutoff.
-/

namespace Fumie.AgentHost.EditAttribution

open Fumie.Lib List Record

namespace Store

def gapsOf (s : Store) (r : TrackedResource) : List Nat := (s.fieldsOf r).coverageGapSequences

def gapFields (s : Store) (r : TrackedResource) : Option Nat × List Nat × Nat :=
  ((s.fieldsOf r).coverageGap, s.gapsOf r, (s.fieldsOf r).lastSequence)

structure Delivers (s : Store) (p : PreparedFlush) (f : FileKey) (q : Nat) : Prop where
  client : ∃ token, p.token = .client token
  file : p.fileKey = f
  gap : (∃ r ∈ p.resources, q ∈ s.gapsOf r) ∨
    ∃ g ∈ gapsIn p.standaloneAcknowledgements, q ∈ g.sequences

def DroppedGap (s : Store) (f : FileKey) (q : Nat) : Prop :=
  ∃ e ∈ s.dropped, e.2.fileKey = f ∧ ∃ g ∈ e.2.coverageGapAcknowledgements, q ∈ g.sequences

/-- A gap of a file that was neither delivered nor dropped, outside of given resources and
gap acknowledgements. -/
inductive Outstanding (s : Store) (rs : List TrackedResource)
    (gs : List CoverageGapAcknowledgement) (f : FileKey) (q : Nat) : Prop
  | tracked (r : TrackedResource) (hcreated : r ∈ s.created) (hfile : r.key.fileKey = f)
      (hgap : q ∈ s.gapsOf r) (hnew : ∀ x ∈ s.emitted, r ∉ x.1.resources) (hout : r ∉ rs)
  | acknowledged (g : CoverageGapAcknowledgement) (hack : (f, g) ∈ s.acknowledged)
      (hgap : q ∈ g.sequences)
      (hnew : ∀ x ∈ s.emitted, g ∉ gapsIn x.1.standaloneAcknowledgements)
      (hkept : g ∉ gapsIn s.dropped) (hout : g ∉ gs)

structure Recorded (s : Store) : Prop where
  distinct : ∀ a ∈ s.created, ∀ b ∈ s.created, a.id = b.id → a = b
  coverage : ∀ r, s.gapsOf r ≠ [] → (s.fieldsOf r).coverageGap ≠ none
  bounded : ∀ r, ∀ q ∈ s.gapsOf r, 0 < q ∧ q ≤ s.sequence
  last : ∀ r, (s.fieldsOf r).lastSequence ≤ s.sequence
  acks : ∀ f g, (f, g) ∈ s.acknowledged → ∀ q ∈ g.sequences, 0 < q ∧ q ≤ s.sequence
  skipped : ∀ f q, (f, q) ∈ s.skipped → ∃ r ∈ s.created, r.key.fileKey = f ∧ q ∈ s.gapsOf r

structure Belongs (known : List (FileKey × CoverageGapAcknowledgement))
    (e : ResourceKey × StandaloneAcknowledgement) : Prop where
  file : e.2.fileKey = e.1.fileKey
  gaps : ∀ g ∈ e.2.coverageGapAcknowledgements, (e.2.fileKey, g) ∈ known

structure FiledAcks (f : FileKey) (s : Store)
    (acks : List (ResourceKey × StandaloneAcknowledgement)) : Prop where
  pending : ∀ key ack, s.standaloneAcknowledgements.get key = some ack →
    Belongs s.acknowledged (key, ack)
  taken : ∀ e ∈ acks, Belongs s.acknowledged e ∧ e.2.fileKey = f
  prepared : ∀ token p, s.preparedFlushes.get token = some p →
    ∀ e ∈ p.standaloneAcknowledgements, Belongs s.acknowledged e ∧ e.2.fileKey = p.fileKey
  emitted : ∀ x ∈ s.emitted, (∀ r ∈ x.1.resources, r.key.fileKey = x.1.fileKey) ∧
    ∀ e ∈ x.1.standaloneAcknowledgements, Belongs s.acknowledged e ∧ e.2.fileKey = x.1.fileKey
  dropped : ∀ e ∈ s.dropped, Belongs s.acknowledged e

structure Cutoffs (s : Store) : Prop where
  clients : ∀ token p, s.preparedFlushes.get token = some p → ∃ token, p.token = .client token
  handedOn : ∀ x ∈ s.emitted, (∀ token, x.1.token ≠ .client token) →
    x.1.standaloneAcknowledgements = [] ∧ ∀ r ∈ x.1.resources, s.gapsOf r ≠ [] →
      ∃ g, (r.key.fileKey, g) ∈ s.acknowledged ∧ g.sequences = s.gapsOf r
  prepared : ∀ token p c, s.preparedFlushes.get token = some p →
    s.coverageGapThroughSequence p = some c → c ≤ s.sequence ∧
      ∀ q, s.Outstanding p.resources (gapsIn p.standaloneAcknowledgements) p.fileKey q → c < q
  passed : ∀ x ∈ s.emitted, ∀ token, x.1.token = .client token →
    ∀ c, x.2.coverageGapThroughSequence = some c → c ≤ s.sequence ∧
      ∀ q, s.Outstanding [] [] x.1.fileKey q → c < q
  delivered : ∀ pre x post, s.emitted = pre ++ x :: post → ∀ token, x.1.token = .client token →
    ∀ c, x.2.coverageGapThroughSequence = some c → ∀ q, (x.1.fileKey, q) ∈ s.skipped → q ≤ c →
        (∃ y ∈ pre ++ [x], s.Delivers y.1 x.1.fileKey q) ∨ s.DroppedGap x.1.fileKey q

/-! ## What was recorded -/

structure SameRecords (s t : Store) : Prop where
  gapFields : ∀ r, t.gapFields r = s.gapFields r
  sequence : t.sequence = s.sequence
  skipped : t.skipped = s.skipped
  acknowledged : t.acknowledged = s.acknowledged
  created : ∃ more, t.created = s.created ++ more ∧ ∀ r ∈ more, s.gapsOf r = [] ∧
    ∀ a ∈ s.created ++ more, a.id = r.id → a = r

variable {s t : Store} {rs : List TrackedResource} {gs : List CoverageGapAcknowledgement}
  {f : FileKey} {q : Nat}

variable {r : TrackedResource}

theorem gapsOf_eq (h : t.gapFields r = s.gapFields r) :
    t.gapsOf r = s.gapsOf r := congrArg (fun x => x.2.1) h

theorem lastSequence_eq (h : t.gapFields r = s.gapFields r) :
    (t.fieldsOf r).lastSequence = (s.fieldsOf r).lastSequence := congrArg (fun x => x.2.2) h

theorem coverageGap_eq (h : t.gapFields r = s.gapFields r) :
    (t.fieldsOf r).coverageGap = (s.fieldsOf r).coverageGap := congrArg (fun x => x.1) h

theorem gapFields_of_fields (h : t.fields = s.fields) (r : TrackedResource) :
    t.gapFields r = s.gapFields r := by
  unfold gapFields gapsOf fieldsOf
  rw [h]

theorem SameRecords.of_fields (hfields : t.fields = s.fields) (hcreated : t.created = s.created)
    (hsequence : t.sequence = s.sequence) (hskipped : t.skipped = s.skipped)
    (hacknowledged : t.acknowledged = s.acknowledged) : SameRecords s t where
  gapFields := gapFields_of_fields hfields
  sequence := hsequence
  skipped := hskipped
  acknowledged := hacknowledged
  created := by
    refine ⟨[], ?_, nofun⟩
    rw [append_nil]
    exact hcreated

theorem Recorded.same (h : s.Recorded) (hsame : SameRecords s t) : t.Recorded := by
  obtain ⟨more, hcreated, hmore⟩ := hsame.created
  refine ⟨fun a ha b hb hid => ?_, fun r hr => ?_, fun r q hq => ?_, fun r => ?_,
    fun f g hack q hq => ?_, fun f q hq => ?_⟩
  · rw [hcreated] at ha hb
    rcases mem_append.mp hb with hb' | hb'
    · rcases mem_append.mp ha with ha' | ha'
      · exact h.distinct a ha' b hb' hid
      · exact ((hmore a ha').2 b hb hid.symm).symm
    · exact (hmore b hb').2 a ha hid
  · rw [coverageGap_eq (hsame.gapFields r)]
    rw [gapsOf_eq (hsame.gapFields r)] at hr
    exact h.coverage r hr
  · rw [gapsOf_eq (hsame.gapFields r)] at hq
    rw [hsame.sequence]
    exact h.bounded r q hq
  · rw [lastSequence_eq (hsame.gapFields r), hsame.sequence]
    exact h.last r
  · rw [hsame.acknowledged] at hack
    rw [hsame.sequence]
    exact h.acks f g hack q hq
  · rw [hsame.skipped] at hq
    obtain ⟨r, hr, hfile, hgap⟩ := h.skipped f q hq
    refine ⟨r, ?_, hfile, ?_⟩
    · rw [hcreated]
      exact mem_append_left _ hr
    · rw [gapsOf_eq (hsame.gapFields r)]
      exact hgap

theorem fieldsOf_updateFields {g : ResourceFields → ResourceFields}
    (hnumbered : r.id < s.fields.length) (a : TrackedResource) :
    (s.updateFields r g).fieldsOf a = if a.id = r.id then g (s.fieldsOf a) else s.fieldsOf a := by
  show (s.fields.modify r.id g).getD a.id _ = _
  unfold fieldsOf
  rw [getD_eq_getElem?_getD, getD_eq_getElem?_getD, getElem?_modify]
  by_cases hid : a.id = r.id
  · have hlt : a.id < s.fields.length := hid ▸ hnumbered
    rw [if_pos hid, getElem?_eq_getElem hlt]
    show (if r.id = a.id then g s.fields[a.id] else s.fields[a.id]) = _
    rw [if_pos hid.symm]
    rfl
  · rw [if_neg hid]
    cases s.fields[a.id]? with
    | none => rfl
    | some x =>
      show (if r.id = a.id then g x else x) = _
      rw [if_neg (Ne.symm hid)]
      rfl

structure Edits (s t : Store) (r : TrackedResource) : Prop where
  created : t.created = s.created
  acknowledged : t.acknowledged = s.acknowledged
  emitted : t.emitted = s.emitted
  dropped : t.dropped = s.dropped
  preparedFlushes : t.preparedFlushes = s.preparedFlushes
  sequence : t.sequence = s.sequence + 1
  others : ∀ a, a.id ≠ r.id → t.gapFields a = s.gapFields a
  kept : ∀ a, ∀ q ∈ s.gapsOf a, q ∈ t.gapsOf a
  gaps : ∀ a, ∀ q ∈ t.gapsOf a, q ∈ s.gapsOf a ∨ q = s.sequence + 1
  last : ∀ a, (t.fieldsOf a).lastSequence = (s.fieldsOf a).lastSequence ∨
    (t.fieldsOf a).lastSequence = s.sequence + 1
  coverage : ∀ a, t.gapsOf a ≠ [] → (t.fieldsOf a).coverageGap ≠ none ∨
    s.gapsOf a ≠ [] ∧ (t.fieldsOf a).coverageGap = (s.fieldsOf a).coverageGap
  skipped : ∀ f q, (f, q) ∈ t.skipped → (f, q) ∈ s.skipped ∨
    f = r.key.fileKey ∧ q = s.sequence + 1 ∧ q ∈ t.gapsOf r

theorem trackEdit_edits (hnumbered : r.id < s.fields.length) : Edits s (s.trackEdit r) r := by
  have hfields : ∀ a, (s.trackEdit r).fieldsOf a =
      if a.id = r.id then { s.fieldsOf a with
        hasContent := true
        trackedEditCount := (s.fieldsOf a).trackedEditCount + 1
        lastSequence := s.sequence + 1 } else s.fieldsOf a :=
    fun a => fieldsOf_updateFields (s := { s with sequence := s.sequence + 1 }) hnumbered a
  have hgaps : ∀ a, (s.trackEdit r).gapsOf a = s.gapsOf a := by
    intro a
    unfold gapsOf
    rw [hfields]
    split
    · rfl
    · rfl
  refine ⟨rfl, rfl, rfl, rfl, rfl, rfl, fun a hne => ?_, fun a q hq => ?_, fun a q hq => ?_,
    fun a => ?_, fun a ha => ?_, fun f q hq => .inl hq⟩
  · unfold gapFields gapsOf
    rw [hfields, if_neg hne]
  · rw [hgaps]
    exact hq
  · rw [hgaps] at hq
    exact .inl hq
  · rw [hfields]
    split
    · exact .inr rfl
    · exact .inl rfl
  · refine .inr ⟨?_, ?_⟩
    · rw [hgaps] at ha
      exact ha
    · rw [hfields]
      split
      · rfl
      · rfl

theorem skipEdit_edits (hnumbered : r.id < s.fields.length) : Edits s (s.skipEdit r) r := by
  have hfields : ∀ a, (s.skipEdit r).fieldsOf a =
      if a.id = r.id then {
        hasContent := false
        coverageGap := some ((s.fieldsOf a).coverageGap.getD 0 +
          ((s.fieldsOf a).trackedEditCount + 1))
        coverageGapSequences := (s.fieldsOf a).coverageGapSequences ++ [s.sequence + 1]
        trackedEditCount := 0
        lastSequence := s.sequence + 1 } else s.fieldsOf a :=
    fun a => fieldsOf_updateFields (s := { s with
      sequence := s.sequence + 1
      skipped := s.skipped ++ [(r.key.fileKey, s.sequence + 1)] }) hnumbered a
  refine ⟨rfl, rfl, rfl, rfl, rfl, rfl, fun a hne => ?_, fun a q hq => ?_, fun a q hq => ?_,
    fun a => ?_, fun a ha => ?_, fun f q hq => ?_⟩
  · unfold gapFields gapsOf
    rw [hfields, if_neg hne]
  · unfold gapsOf
    rw [hfields]
    split
    · exact mem_append_left _ hq
    · exact hq
  · unfold gapsOf at hq
    rw [hfields] at hq
    split at hq
    · rcases mem_append.mp hq with hq | hq
      · exact .inl hq
      · exact .inr (mem_singleton.mp hq)
    · exact .inl hq
  · rw [hfields]
    split
    · exact .inr rfl
    · exact .inl rfl
  · unfold gapsOf at ha ⊢
    rw [hfields] at ha ⊢
    split at ha
    · next hid =>
      rw [if_pos hid]
      exact .inl (Option.some_ne_none _)
    · next hid =>
      rw [if_neg hid]
      exact .inr ⟨ha, rfl⟩
  · have hq' : (f, q) ∈ s.skipped ++ [(r.key.fileKey, s.sequence + 1)] := hq
    rcases mem_append.mp hq' with hq | hq
    · exact .inl hq
    · cases mem_singleton.mp hq
      refine .inr ⟨rfl, rfl, ?_⟩
      unfold gapsOf
      rw [hfields, if_pos rfl]
      exact mem_append_right _ mem_cons_self

theorem Recorded.edits (h : s.Recorded) (hedits : Edits s t r) (hcreated : r ∈ s.created) :
    t.Recorded := by
  refine ⟨fun a ha b hb hid => ?_, fun a ha => ?_, fun a q hq => ?_, fun a => ?_,
    fun f g hack q hq => ?_, fun f q hq => ?_⟩
  · rw [hedits.created] at ha hb
    exact h.distinct a ha b hb hid
  · rcases hedits.coverage a ha with hsome | ⟨hold, heq⟩
    · exact hsome
    · rw [heq]
      exact h.coverage a hold
  · rw [hedits.sequence]
    rcases hedits.gaps a q hq with hold | rfl
    · obtain ⟨hpos, hle⟩ := h.bounded a q hold
      exact ⟨hpos, Nat.le_succ_of_le hle⟩
    · exact ⟨Nat.succ_pos _, Nat.le_refl _⟩
  · rw [hedits.sequence]
    rcases hedits.last a with hold | hnew
    · rw [hold]
      exact Nat.le_succ_of_le (h.last a)
    · rw [hnew]
  · rw [hedits.acknowledged] at hack
    obtain ⟨hpos, hle⟩ := h.acks f g hack q hq
    rw [hedits.sequence]
    exact ⟨hpos, Nat.le_succ_of_le hle⟩
  · rw [hedits.created]
    rcases hedits.skipped f q hq with hold | ⟨rfl, -, hgap⟩
    · obtain ⟨a, ha, hfile, hgap⟩ := h.skipped f q hold
      exact ⟨a, ha, hfile, hedits.kept a q hgap⟩
    · exact ⟨r, hcreated, rfl, hgap⟩

/-! ## Acknowledgements under their files -/

variable {known known' : List (FileKey × CoverageGapAcknowledgement)}

variable {e : ResourceKey × StandaloneAcknowledgement}

theorem Belongs.mono (h : Belongs known e) (hsub : ∀ x ∈ known, x ∈ known') : Belongs known' e :=
  ⟨h.file, fun g hg => hsub _ (h.gaps g hg)⟩

variable {acks : List CoverageGapAcknowledgement}

theorem mem_setGapAcknowledgement {ack g : CoverageGapAcknowledgement}
    (h : g ∈ setGapAcknowledgement acks ack) : g ∈ acks ∨ g = ack := by
  unfold setGapAcknowledgement at h
  split at h
  · obtain ⟨a, ha, rfl⟩ := mem_map.mp h
    split
    · exact .inr rfl
    · exact .inl ha
  · rcases mem_append.mp h with h | h
    · exact .inl h
    · exact .inr (mem_singleton.mp h)

theorem mem_of_gapAcknowledgementsById {g : CoverageGapAcknowledgement}
    (h : g ∈ gapAcknowledgementsById acks) : g ∈ acks := by
  have hfold : ∀ rest done : List CoverageGapAcknowledgement,
      g ∈ rest.foldl setGapAcknowledgement done → g ∈ done ∨ g ∈ rest := by
    intro rest
    induction rest with
    | nil => exact fun done hg => .inl hg
    | cons a rest ih =>
      intro done hg
      rcases ih _ hg with hg | hg
      · rcases mem_setGapAcknowledgement hg with hg | rfl
        · exact .inl hg
        · exact .inr mem_cons_self
      · exact .inr (mem_cons_of_mem _ hg)
  rcases hfold acks [] h with h | h
  · exact absurd h not_mem_nil
  · exact h

def AllBelong (known : List (FileKey × CoverageGapAcknowledgement))
    (pending : Record ResourceKey StandaloneAcknowledgement) : Prop :=
  ∀ key ack, pending.get key = some ack → Belongs known (key, ack)

theorem restoreStandalone_belongs {pending : Record ResourceKey StandaloneAcknowledgement}
    (hpending : AllBelong known pending) (he : Belongs known e) :
    AllBelong known (restoreStandalone pending e) := by
  intro key ack hget
  unfold restoreStandalone at hget
  rw [get_set] at hget
  split at hget
  · next hkey =>
    subst hkey
    cases hget
    refine ⟨he.file, fun g hg => ?_⟩
    rcases mem_append.mp (mem_of_gapAcknowledgementsById hg) with hg | hg
    · cases hexisting : pending.get e.1 with
      | none =>
        rw [hexisting] at hg
        exact absurd hg not_mem_nil
      | some existing =>
        rw [hexisting] at hg
        have hold := hpending e.1 existing hexisting
        have hack := hold.gaps g hg
        rw [hold.file, ← he.file] at hack
        exact hack
    · exact he.gaps g hg
  · exact hpending key ack (get_of_delete hget)

variable {acks : List (ResourceKey × StandaloneAcknowledgement)}

theorem restoredAcknowledgements_belong (hpending : AllBelong known s.standaloneAcknowledgements)
    (hacks : ∀ e ∈ acks, Belongs known e) : AllBelong known (s.restoredAcknowledgements acks) := by
  have hfold : ∀ (acks : List (ResourceKey × StandaloneAcknowledgement))
      (pending : Record ResourceKey StandaloneAcknowledgement), AllBelong known pending →
      (∀ e ∈ acks, Belongs known e) → AllBelong known (acks.foldl restoreStandalone pending) := by
    intro acks
    induction acks with
    | nil => exact fun pending h _ => h
    | cons e rest ih =>
      intro pending h hacks
      exact ih _ (restoreStandalone_belongs h (hacks e mem_cons_self))
        fun e' he' => hacks e' (mem_cons_of_mem _ he')
  exact hfold acks _ hpending hacks

theorem pendingAfter_belong (hpending : AllBelong known s.standaloneAcknowledgements)
    (hacks : ∀ e ∈ acks, Belongs known e) :
    AllBelong known (s.pendingAfter acks) ∧ ∀ e ∈ s.droppedBy acks, Belongs known e := by
  have hall := restoredAcknowledgements_belong hpending hacks
  have hentries : ∀ e ∈ s.droppedBy acks ++ (s.pendingAfter acks).entries, Belongs known e := by
    intro e he
    rw [droppedBy_append] at he
    exact hall e.1 e.2 (Record.get_of_mem he)
  refine ⟨fun key ack hget => hentries (key, ack) ?_, fun e he => hentries e ?_⟩
  · exact mem_append_right _ (mem_of_get hget)
  · exact mem_append_left _ he

/-- What the loop of `_takeStandaloneAcknowledgements` keeps. -/
structure TakenBelong (known : List (FileKey × CoverageGapAcknowledgement)) (f : FileKey)
    (t : Taking) : Prop where
  pending : AllBelong known t.pending
  taken : ∀ e ∈ t.taken, Belongs known e ∧ e.2.fileKey = f

theorem takeStandalone_belongs {taking : Taking} (h : TakenBelong known f taking)
    (he : Belongs known e) : TakenBelong known f (takeStandalone f taking e) := by
  unfold takeStandalone
  split
  · exact h
  · next hfile =>
    rw [not_not] at hfile
    dsimp only
    split
    · exact h
    · refine ⟨fun key ack hget => ?_, fun e' he' => ?_⟩
      · split at hget
        · exact h.pending key ack (get_of_delete hget)
        · rw [get_set] at hget
          split at hget
          · next hkey =>
            subst hkey
            cases hget
            exact ⟨he.file, fun g hg => he.gaps g (mem_of_mem_drop hg)⟩
          · exact h.pending key ack (get_of_delete hget)
      · rcases mem_append.mp he' with he' | he'
        · exact h.taken e' he'
        · rw [mem_singleton.mp he']
          exact ⟨⟨he.file, fun g hg => he.gaps g (mem_of_mem_take hg)⟩, hfile⟩

theorem takeStandaloneAcknowledgements_belong (hs : AllBelong known s.standaloneAcknowledgements)
    (limit : Nat) : TakenBelong known f (s.takeStandaloneAcknowledgements f limit) := by
  have hfold : ∀ (es : List (ResourceKey × StandaloneAcknowledgement)) (t : Taking),
      TakenBelong known f t → (∀ e ∈ es, Belongs known e) →
      TakenBelong known f (es.foldl (takeStandalone f) t) := by
    intro es
    induction es with
    | nil => exact fun t ht _ => ht
    | cons e rest ih =>
      intro t ht hes
      exact ih _ (takeStandalone_belongs ht (hes e mem_cons_self))
        fun e' he' => hes e' (mem_cons_of_mem _ he')
  exact hfold _ _ ⟨hs, nofun⟩ fun e he => hs e.1 e.2 (Record.get_of_mem he)

variable {acks : List (ResourceKey × StandaloneAcknowledgement)}

theorem FiledAcks.of_same (h : s.FiledAcks f acks) (hsame : SameGaps s t) : t.FiledAcks f acks := by
  have hmono : ∀ e, Belongs s.acknowledged e → Belongs t.acknowledged e := by
    intro e he
    rw [hsame.acknowledged]
    exact he
  refine ⟨fun key ack hget => ?_, fun e he => ⟨hmono e (h.taken e he).1, (h.taken e he).2⟩,
    fun token p hget e he => ?_, fun x hx => ?_, fun e he => ?_⟩
  · rw [hsame.pending] at hget
    exact hmono _ (h.pending key ack hget)
  · rw [hsame.preparedFlushes] at hget
    exact ⟨hmono e (h.prepared token p hget e he).1, (h.prepared token p hget e he).2⟩
  · rw [hsame.emitted] at hx
    obtain ⟨hresources, hacks⟩ := h.emitted x hx
    exact ⟨hresources, fun e he => ⟨hmono e (hacks e he).1, (hacks e he).2⟩⟩
  · rw [hsame.dropped] at he
    exact hmono e (h.dropped e he)

theorem FiledAcks.take (h : s.FiledAcks f acks) (limit : Nat) :
    (s.withTaken (s.takeStandaloneAcknowledgements f limit)).FiledAcks f
      (acks ++ (s.takeStandaloneAcknowledgements f limit).taken) := by
  obtain ⟨hpending, htaken⟩ := takeStandaloneAcknowledgements_belong (f := f) h.pending limit
  refine ⟨hpending, fun e he => ?_, h.prepared, h.emitted, h.dropped⟩
  rcases mem_append.mp he with he | he
  · exact h.taken e he
  · exact htaken e he

theorem FiledAcks.restoreAcks (h : s.FiledAcks f acks) :
    (s.restoreStandaloneAcknowledgements acks).FiledAcks f [] := by
  rw [restoreStandaloneAcknowledgements_eq]
  obtain ⟨hpending, hdropped⟩ := pendingAfter_belong h.pending fun e he => (h.taken e he).1
  refine ⟨hpending, nofun, h.prepared, h.emitted, fun e he => ?_⟩
  rcases mem_append.mp he with he | he
  · exact h.dropped e he
  · exact hdropped e he

variable (p : PreparedFlush)

theorem FiledAcks.pass (h : s.FiledAcks f p.standaloneAcknowledgements) (hfile : p.fileKey = f) :
    (s.setPrepared p).FiledAcks f [] := by
  refine ⟨h.pending, nofun, fun token q hget e he => ?_, h.emitted, h.dropped⟩
  have hset : (s.preparedFlushes.set p.token p).get token = some q := hget
  rw [get_set] at hset
  split at hset
  · cases hset
    rw [hfile]
    exact h.taken e he
  · exact h.prepared token q hset e he

theorem FiledAcks.standalone (h : s.FiledAcks f []) : (s.finishStandalone r).FiledAcks f [] := by
  obtain ⟨settled, result, -, heq⟩ := finishStandalone_eq s r
  have hmono : ∀ e, Belongs s.acknowledged e →
      Belongs (s.finishStandalone r).acknowledged e := fun e he =>
    he.mono fun x hx => by
      rw [heq]
      exact mem_append_left _ hx
  have hnew : ∀ e ∈ [(r.key, s.standaloneAcknowledgement r)],
      Belongs (s.finishStandalone r).acknowledged e := by
    intro e he
    rw [mem_singleton.mp he, heq]
    exact ⟨rfl, fun g hg => mem_append_right _ (mem_map_of_mem hg)⟩
  obtain ⟨hpending, hdropped⟩ := pendingAfter_belong
    (fun key ack hget => hmono _ (h.pending key ack hget)) hnew
  refine ⟨?_, fun e he => absurd he not_mem_nil, fun token q hget e he => ?_, fun x hx => ?_,
    fun e he => ?_⟩
  · intro key ack hget
    refine hpending key ack ?_
    rw [heq] at hget
    exact hget
  · rw [finishStandalone_prepared, get_delete, get_set] at hget
    split at hget
    · cases hget
    · obtain ⟨hbelongs, hfile⟩ := h.prepared token q hget e he
      exact ⟨hmono e hbelongs, hfile⟩
  · rw [heq] at hx
    rcases mem_append.mp hx with hx | hx
    · obtain ⟨hresources, hacks⟩ := h.emitted x hx
      exact ⟨hresources, fun e he => ⟨hmono e (hacks e he).1, (hacks e he).2⟩⟩
    · rw [mem_singleton.mp hx]
      refine ⟨fun a ha => ?_, fun e he => absurd he not_mem_nil⟩
      rw [mem_singleton.mp ha]
      rfl
  · have he' : e ∈ s.dropped ++ s.droppedBy [(r.key, s.standaloneAcknowledgement r)] := by
      rw [heq] at he
      exact he
    rcases mem_append.mp he' with he | he
    · exact hmono e (h.dropped e he)
    · exact hdropped e he

theorem FiledAcks.commit (h : s.FiledAcks f acks) (token : Token) (p : PreparedFlush)
    (hget : s.preparedFlushes.get token = some p)
    (hresources : ∀ r ∈ p.resources, r.key.fileKey = p.fileKey) :
    (s.settleCommitted token p).FiledAcks f acks := by
  obtain ⟨settled, -, heq⟩ := settleCommitted_eq s token p
  rw [heq]
  refine ⟨h.pending, h.taken, fun token' q hq => h.prepared token' q (get_of_delete hq),
    fun x hx => ?_, h.dropped⟩
  rcases mem_append.mp hx with hx | hx
  · exact h.emitted x hx
  · rw [mem_singleton.mp hx]
    exact ⟨hresources, h.prepared token p hget⟩

theorem FiledAcks.cancel (h : s.FiledAcks f []) (token : Token) (p : PreparedFlush)
    (hget : s.preparedFlushes.get token = some p) : (s.settleCancelled token p).FiledAcks f [] := by
  obtain ⟨settled, -, heq⟩ := settleCancelled_eq s token p
  rw [heq]
  obtain ⟨hpending, hdropped⟩ := pendingAfter_belong h.pending
    fun e he => (h.prepared token p hget e he).1
  refine ⟨hpending, nofun,
    fun token' q hq => h.prepared token' q (get_of_delete hq), h.emitted, fun e he => ?_⟩
  rcases mem_append.mp he with he | he
  · exact h.dropped e he
  · exact hdropped e he

theorem FiledAcks.forget (h : s.FiledAcks f acks) (now : Nat) : (s.forget now).FiledAcks f acks := by
  refine ⟨fun key ack hget => h.pending key ack (get_filter hget).1, h.taken, h.prepared,
    h.emitted, fun e he => ?_⟩
  rcases mem_append.mp he with he | he
  · exact h.dropped e he
  · exact h.pending e.1 e.2 (Record.get_of_mem (mem_of_mem_filter he))

end Store

end Fumie.AgentHost.EditAttribution
