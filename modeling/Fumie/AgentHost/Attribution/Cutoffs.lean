import Fumie.AgentHost.Attribution.CoverageGaps

/-!
# Cutoffs stay below the outstanding gaps

The ceiling of a prepare is taken from the pending acknowledgements. Where no other
prepared flush of the file holds a coverage gap, every outstanding gap of the file is
pending or in the new flush, so its cutoff is below all the others, and no later move
brings a gap below it back.
-/

namespace Fumie.AgentHost.EditAttribution

open Fumie.Lib List Record

variable {key : ResourceKey} {c : Nat}

namespace Store

variable {other : TrackedResource → Nat} {otherGaps : CoverageGapAcknowledgement → Nat}
  {s t : Store} {held rs : List TrackedResource} {gs : List CoverageGapAcknowledgement}
  {acks : List (ResourceKey × StandaloneAcknowledgement)} {f : FileKey} {q : Nat}
  {r : TrackedResource} {g : CoverageGapAcknowledgement} {token : Token} {p : PreparedFlush}

/-! ## Where things are -/

theorem Placed.located (h : Placed other s held) (hr : r ∈ s.created) :
    (∃ key, s.resources.get key = some r) ∨ r ∈ held ∨ 0 < other r ∨
      (∃ token p, s.preparedFlushes.get token = some p ∧ r ∈ p.resources) ∨
      ∃ x ∈ s.emitted, r ∈ x.1.resources := by
  have hplaced := h.placed r
  have hcreated := count_pos_iff.mpr hr
  by_cases hlive : 0 < s.liveCount r
  · obtain ⟨key, a, hget, hpos⟩ := exists_pos_of_sumOf hlive
    split at hpos
    · next heq =>
      rw [heq] at hget
      exact .inl ⟨key, hget⟩
    · exact absurd hpos (Nat.lt_irrefl 0)
  · by_cases hprepared : 0 < s.preparedCount r
    · obtain ⟨token, p, hget, hpos⟩ := exists_pos_of_sumOf hprepared
      exact .inr (.inr (.inr (.inl ⟨token, p, hget, count_pos_iff.mp hpos⟩)))
    · by_cases hemitted : ∃ x ∈ s.emitted, r ∈ x.1.resources
      · exact .inr (.inr (.inr (.inr hemitted)))
      · have hzero : s.emittedCount r = 0 := by
          refine sum_eq_zero fun n hn => ?_
          obtain ⟨x, hx, rfl⟩ := mem_map.mp hn
          exact count_eq_zero.mpr fun hmem => hemitted ⟨x, hx, hmem⟩
        by_cases hheld : r ∈ held
        · exact .inr (.inl hheld)
        · have hnone := count_eq_zero.mpr hheld
          refine .inr (.inr (.inl ?_))
          omega

theorem count_le_preparedCount (h : s.preparedFlushes.get token = some p) :
    p.resources.count r ≤ s.preparedCount r :=
  le_sumOf (fun p : PreparedFlush => p.resources.count r) h

theorem count_le_emittedCount {x : PreparedFlush × FlushResult} (h : x ∈ s.emitted) :
    x.1.resources.count r ≤ s.emittedCount r :=
  le_sum_of_mem (mem_map_of_mem (f := fun x : PreparedFlush × FlushResult =>
    x.1.resources.count r) h)

structure AtHand (s : Store) (r : TrackedResource) : Prop where
  created : r ∈ s.created
  unprepared : ∀ token p, s.preparedFlushes.get token = some p → r ∉ p.resources
  unemitted : ∀ x ∈ s.emitted, r ∉ x.1.resources

theorem Placed.atHand (h : Placed other s held) (hpos : 0 < s.liveCount r + held.count r) :
    s.AtHand r := by
  have hplaced := h.placed r
  have hunique := h.unique r
  refine ⟨count_pos_iff.mp (by omega), fun token p hget hmem => ?_, fun x hx hmem => ?_⟩
  · have hle := count_le_preparedCount (r := r) hget
    have hone := count_pos_iff.mpr hmem
    omega
  · have hle := count_le_emittedCount (r := r) hx
    have hone := count_pos_iff.mpr hmem
    omega

theorem Placed.atHand_of_live (h : Placed other s held) (hget : s.resources.get key = some r) :
    s.AtHand r := by
  refine h.atHand (Nat.lt_of_lt_of_le Nat.zero_lt_one (Nat.le_trans ?_ (Nat.le_add_right _ _)))
  have hle := le_sumOf (fun a : TrackedResource => if a = r then 1 else 0) hget
  rw [if_pos rfl] at hle
  exact hle

theorem Placed.atHand_of_held (h : Placed other s held) (hheld : r ∈ held) : s.AtHand r := by
  have hpos := count_pos_iff.mpr hheld
  exact h.atHand (by omega)

theorem mem_gapsIn : g ∈ gapsIn acks ↔ ∃ e ∈ acks, g ∈ e.2.coverageGapAcknowledgements :=
  mem_flatMap

theorem AckPlaced.located (h : AckPlaced otherGaps s acks) (hg : g ∈ s.acknowledgedGaps) :
    (∃ key ack, s.standaloneAcknowledgements.get key = some ack ∧
        g ∈ ack.coverageGapAcknowledgements) ∨
      g ∈ gapsIn acks ∨ 0 < otherGaps g ∨
      (∃ token p, s.preparedFlushes.get token = some p ∧ g ∈ gapsIn p.standaloneAcknowledgements) ∨
      (∃ x ∈ s.emitted, g ∈ gapsIn x.1.standaloneAcknowledgements) ∨ g ∈ gapsIn s.dropped := by
  have hplaced := h.placed g
  have hmade := count_pos_iff.mpr hg
  by_cases hpending : 0 < gapCount s.standaloneAcknowledgements g
  · obtain ⟨key, ack, hget, hpos⟩ := exists_pos_of_sumOf hpending
    exact .inl ⟨key, ack, hget, count_pos_iff.mp hpos⟩
  · by_cases hprepared : 0 < s.preparedGapCount g
    · obtain ⟨token, p, hget, hpos⟩ := exists_pos_of_sumOf hprepared
      exact .inr (.inr (.inr (.inl ⟨token, p, hget, count_pos_iff.mp hpos⟩)))
    · by_cases hemitted : ∃ x ∈ s.emitted, g ∈ gapsIn x.1.standaloneAcknowledgements
      · exact .inr (.inr (.inr (.inr (.inl hemitted))))
      · have hzero : s.deliveredGapCount g = 0 := by
          refine sum_eq_zero fun n hn => ?_
          obtain ⟨x, hx, rfl⟩ := mem_map.mp hn
          exact count_eq_zero.mpr fun hmem => hemitted ⟨x, hx, hmem⟩
        by_cases hacks : g ∈ gapsIn acks
        · exact .inr (.inl hacks)
        · by_cases hdropped : g ∈ gapsIn s.dropped
          · exact .inr (.inr (.inr (.inr (.inr hdropped))))
          · have hnone := count_eq_zero.mpr hacks
            have hnone' := count_eq_zero.mpr hdropped
            refine .inr (.inr (.inl ?_))
            omega

theorem AckPlaced.file_unique (h : AckPlaced otherGaps s acks) {f' : FileKey}
    (hg : (f, g) ∈ s.acknowledged) (hg' : (f', g) ∈ s.acknowledged) : f' = f := by
  have hids := h.ids
  unfold acknowledgedGaps at hids
  rw [map_map] at hids
  exact congrArg Prod.fst (inj_on_of_nodup_map hids hg' hg rfl)

theorem mem_acknowledgedGaps (h : (f, g) ∈ s.acknowledged) : g ∈ s.acknowledgedGaps :=
  mem_map_of_mem (f := Prod.snd) h

/-! ## Moves that record nothing -/

structure Later (s t : Store) : Prop extends SameRecords s t where
  emitted : t.emitted = s.emitted
  dropped : ∃ more, t.dropped = s.dropped ++ more
  prepared : ∀ token p, t.preparedFlushes.get token = some p → s.preparedFlushes.get token = some p

theorem through_eq (h : ∀ r ∈ p.resources, t.gapFields r = s.gapFields r) :
    t.coverageGapThroughSequence p = s.coverageGapThroughSequence p := by
  have hmap : p.resources.map (fun r => (t.fieldsOf r).lastSequence) =
      p.resources.map fun r => (s.fieldsOf r).lastSequence :=
    map_congr_left fun r hr => lastSequence_eq (h r hr)
  unfold coverageGapThroughSequence
  rw [hmap]

theorem Delivers.mono (h : s.Delivers p f q)
    (hgaps : ∀ r ∈ p.resources, ∀ q ∈ s.gapsOf r, q ∈ t.gapsOf r) : t.Delivers p f q := by
  refine ⟨h.client, h.file, ?_⟩
  rcases h.gap with ⟨r, hr, hq⟩ | hack
  · exact .inl ⟨r, hr, hgaps r hr q hq⟩
  · exact .inr hack

theorem DroppedGap.mono (h : s.DroppedGap f q) (hsub : ∀ e ∈ s.dropped, e ∈ t.dropped) :
    t.DroppedGap f q := by
  obtain ⟨e, he, hgap⟩ := h
  exact ⟨e, hsub e he, hgap⟩

theorem Outstanding.later (h : t.Outstanding rs gs f q) (hlater : Later s t) :
    s.Outstanding rs gs f q := by
  obtain ⟨more, hcreated, hmore⟩ := hlater.created
  obtain ⟨dropped, hdropped⟩ := hlater.dropped
  cases h with
  | tracked r hr hfile hgap hnew hout =>
    rw [gapsOf_eq (hlater.gapFields r)] at hgap
    rw [hlater.emitted] at hnew
    rw [hcreated] at hr
    rcases mem_append.mp hr with hr | hr
    · exact .tracked r hr hfile hgap hnew hout
    · rw [(hmore r hr).1] at hgap
      exact absurd hgap not_mem_nil
  | acknowledged g hack hgap hnew hkept hout =>
    rw [hlater.acknowledged] at hack
    rw [hlater.emitted] at hnew
    rw [hdropped, gapsIn_append, mem_append, not_or] at hkept
    exact .acknowledged g hack hgap hnew hkept.1 hout

theorem Cutoffs.later (h : s.Cutoffs) (hlater : Later s t) : t.Cutoffs := by
  obtain ⟨dropped, hdropped⟩ := hlater.dropped
  refine ⟨fun token p hget => h.clients token p (hlater.prepared token p hget),
    fun x hx hclient => ?_, fun token p c hget hc => ?_,
    fun x hx token hclient c hc => ?_, fun pre x post hsplit token hclient c hc q hq hle => ?_⟩
  · rw [hlater.emitted] at hx
    obtain ⟨hnone, hgone⟩ := h.handedOn x hx hclient
    refine ⟨hnone, fun r hr hgaps => ?_⟩
    rw [gapsOf_eq (hlater.gapFields r)] at hgaps ⊢
    rw [hlater.acknowledged]
    exact hgone r hr hgaps
  · rw [through_eq fun r _ => hlater.gapFields r] at hc
    obtain ⟨hle, hcut⟩ := h.prepared token p c (hlater.prepared token p hget) hc
    rw [hlater.sequence]
    exact ⟨hle, fun q hq => hcut q (hq.later hlater)⟩
  · rw [hlater.emitted] at hx
    obtain ⟨hle, hcut⟩ := h.passed x hx token hclient c hc
    rw [hlater.sequence]
    exact ⟨hle, fun q hq => hcut q (hq.later hlater)⟩
  · rw [hlater.emitted] at hsplit
    rw [hlater.skipped] at hq
    rcases h.delivered pre x post hsplit token hclient c hc q hq hle with ⟨y, hy, hdelivers⟩ | hdrop
    · refine .inl ⟨y, hy, hdelivers.mono fun r _ q hq => ?_⟩
      rw [gapsOf_eq (hlater.gapFields r)]
      exact hq
    · refine .inr (hdrop.mono fun e he => ?_)
      rw [hdropped]
      exact mem_append_left _ he

/-! ## Edits -/

theorem Outstanding.edits (h : t.Outstanding rs gs f q) (hedits : Edits s t r) :
    s.Outstanding rs gs f q ∨ q = s.sequence + 1 := by
  cases h with
  | tracked a ha hfile hgap hnew hout =>
    rw [hedits.created] at ha
    rw [hedits.emitted] at hnew
    rcases hedits.gaps a q hgap with hgap | hq
    · exact .inl (.tracked a ha hfile hgap hnew hout)
    · exact .inr hq
  | acknowledged g hack hgap hnew hkept hout =>
    rw [hedits.acknowledged] at hack
    rw [hedits.emitted] at hnew
    rw [hedits.dropped] at hkept
    exact .inl (.acknowledged g hack hgap hnew hkept hout)

theorem Cutoffs.edits (h : s.Cutoffs) (hedits : Edits s t r) (hrecorded : s.Recorded)
    (hhand : s.AtHand r)
    (hprepared : ∀ token p, s.preparedFlushes.get token = some p → ∀ a ∈ p.resources, a ∈ s.created)
    (hemitted : ∀ x ∈ s.emitted, ∀ a ∈ x.1.resources, a ∈ s.created) : t.Cutoffs := by
  have hother : ∀ a ∈ s.created, a ≠ r → t.gapFields a = s.gapFields a := fun a ha hne =>
    hedits.others a fun hid => hne (hrecorded.distinct a ha r hhand.created hid)
  have hcut : ∀ {rs gs f c}, c ≤ s.sequence →
      (∀ q, s.Outstanding rs gs f q → c < q) → ∀ q, t.Outstanding rs gs f q → c < q := by
    intro rs gs f c hle hcut q hq
    rcases hq.edits hedits with hq | rfl
    · exact hcut q hq
    · exact Nat.lt_succ_of_le hle
  refine ⟨fun token p hget => ?_, fun x hx hclient => ?_, fun token p c hget hc => ?_,
    fun x hx token hclient c hc => ?_, fun pre x post hsplit token hclient c hc q hq hle => ?_⟩
  · rw [hedits.preparedFlushes] at hget
    exact h.clients token p hget
  · rw [hedits.emitted] at hx
    obtain ⟨hnone, hgone⟩ := h.handedOn x hx hclient
    refine ⟨hnone, fun a ha hgaps => ?_⟩
    have hne : a ≠ r := fun heq => hhand.unemitted x hx (heq ▸ ha)
    rw [gapsOf_eq (hother a (hemitted x hx a ha) hne)] at hgaps ⊢
    rw [hedits.acknowledged]
    exact hgone a ha hgaps
  · rw [hedits.preparedFlushes] at hget
    rw [through_eq fun a ha => hother a (hprepared token p hget a ha)
      fun heq => hhand.unprepared token p hget (heq ▸ ha)] at hc
    obtain ⟨hle, hold⟩ := h.prepared token p c hget hc
    rw [hedits.sequence]
    exact ⟨Nat.le_succ_of_le hle, hcut hle hold⟩
  · rw [hedits.emitted] at hx
    obtain ⟨hle, hold⟩ := h.passed x hx token hclient c hc
    rw [hedits.sequence]
    exact ⟨Nat.le_succ_of_le hle, hcut hle hold⟩
  · rw [hedits.emitted] at hsplit
    rcases hedits.skipped _ _ hq with hq | ⟨-, rfl, -⟩
    · rcases h.delivered pre x post hsplit token hclient c hc q hq hle with
        ⟨y, hy, hdelivers⟩ | hdrop
      · exact .inl ⟨y, hy, hdelivers.mono fun a _ q hq => hedits.kept a q hq⟩
      · refine .inr (hdrop.mono fun e he => ?_)
        rw [hedits.dropped]
        exact he
    · -- the new gap is above every cutoff
      have hx : x ∈ s.emitted := by
        rw [hsplit]
        exact mem_append_right _ mem_cons_self
      obtain ⟨hbound, -⟩ := h.passed x hx token hclient c hc
      omega

/-! ## A new prepared flush -/

structure Clear (s : Store) (p : PreparedFlush) : Prop where
  unprepared : s.Unprepared p
  gaps : ∀ token q, s.preparedFlushes.get token = some q → q.fileKey = p.fileKey →
    (∀ r ∈ q.resources, s.gapsOf r = []) ∧ gapsIn q.standaloneAcknowledgements = []

theorem mem_gapSequences : q ∈ gapSequences acks ↔ ∃ g ∈ gapsIn acks, q ∈ g.sequences := by
  unfold gapSequences gapsIn
  simp only [mem_flatMap]
  constructor
  · rintro ⟨e, he, g, hg, hq⟩
    exact ⟨g, ⟨e, he, hg⟩, hq⟩
  · rintro ⟨g, ⟨e, he, hg⟩, hq⟩
    exact ⟨e, he, g, hg, hq⟩

theorem through_le (hc : s.coverageGapThroughSequence p = some c) :
    (∃ r ∈ p.resources, c ≤ (s.fieldsOf r).lastSequence) ∨
      ∃ g ∈ gapsIn p.standaloneAcknowledgements, ∃ q ∈ g.sequences, c ≤ q := by
  obtain ⟨cutoff, hmax, hc⟩ := Option.map_eq_some_iff.mp hc
  have hle : c ≤ cutoff := by
    rw [← hc]
    split
    · exact Nat.le_refl _
    · exact Nat.min_le_left _ _
  rcases mem_append.mp (max?_eq_some_iff.mp hmax).1 with hmem | hmem
  · obtain ⟨r, hr, rfl⟩ := mem_map.mp hmem
    exact .inl ⟨r, hr, hle⟩
  · obtain ⟨g, hg, hq⟩ := mem_gapSequences.mp hmem
    exact .inr ⟨g, hg, cutoff, hq, hle⟩

theorem through_le_ceiling {n : Nat} (hc : s.coverageGapThroughSequence p = some c)
    (hceiling : p.coverageGapCutoffCeiling = some n) : c ≤ n := by
  obtain ⟨cutoff, -, hc⟩ := Option.map_eq_some_iff.mp hc
  rw [hceiling] at hc
  rw [← hc]
  exact Nat.min_le_right _ _

theorem ceiling_lt {ack : StandaloneAcknowledgement}
    (hget : s.standaloneAcknowledgements.get key = some ack) (hfile : ack.fileKey = f)
    (hg : g ∈ ack.coverageGapAcknowledgements) (hq : q ∈ g.sequences) (hpos : 0 < q) :
    ∃ n, s.coverageGapCutoffCeiling f = some n ∧ n < q := by
  have hmem : q ∈ gapSequences (s.standaloneAcknowledgements.entries.filter
      fun e => e.2.fileKey = f) := by
    refine mem_gapSequences.mpr ⟨g, mem_gapsIn.mpr ⟨(key, ack), ?_, hg⟩, hq⟩
    rw [mem_filter, decide_eq_true_eq]
    exact ⟨mem_of_get hget, hfile⟩
  unfold coverageGapCutoffCeiling
  cases hmin : (gapSequences (s.standaloneAcknowledgements.entries.filter
      fun e => e.2.fileKey = f)).min? with
  | none =>
    rw [min?_eq_none_iff] at hmin
    rw [hmin] at hmem
    exact absurd hmem not_mem_nil
  | some n =>
    have hle := (min?_eq_some_iff.mp hmin).2 q hmem
    exact ⟨n - 1, rfl, by omega⟩

structure GapAccount (other : TrackedResource → Nat)
    (otherGaps : CoverageGapAcknowledgement → Nat) (f : FileKey) (s : Store) (held : Holding) :
    Prop where
  placed : Placed other s held.resources
  inFiles : s.InFiles f held
  ackPlaced : AckPlaced otherGaps s held.acks
  filed : FiledAcks f s held.acks
  recorded : s.Recorded
  cutoffs : s.Cutoffs
  elsewhere : ∀ r, r.key.fileKey = f → other r = 0
  elsewhereGaps : ∀ g, 0 < otherGaps g → ∃ f', f' ≠ f ∧ (f', g) ∈ s.acknowledged

theorem GapAccount.cutoff_lt
    (h : GapAccount other otherGaps f s ⟨p.resources, p.standaloneAcknowledgements⟩)
    (hfile : p.fileKey = f) (hceiling : p.coverageGapCutoffCeiling = s.coverageGapCutoffCeiling f)
    (hlisted : ∀ key r, s.resources.get key = some r → key.fileKey ≠ f) (hclear : s.Clear p)
    (hc : s.coverageGapThroughSequence p = some c)
    (hq : s.Outstanding p.resources (gapsIn p.standaloneAcknowledgements) f q) : c < q := by
  cases hq with
  | tracked r hr hown hgap hnew hout =>
    rcases h.placed.located hr with ⟨key, hget⟩ | hheld | hother | ⟨token, p', hget, hmem⟩ | hgone
    · have hkey := h.inFiles.keyed key r hget
      rw [hkey] at hown
      exact absurd hown (hlisted key r hget)
    · exact absurd hheld hout
    · rw [h.elsewhere r hown] at hother
      exact absurd hother (Nat.lt_irrefl 0)
    · have hfile' := h.inFiles.prepared token p' hget r hmem
      have hnone := (hclear.gaps token p' hget (by rw [← hfile', hown, hfile])).1 r hmem
      rw [hnone] at hgap
      exact absurd hgap not_mem_nil
    · obtain ⟨x, hx, hmem⟩ := hgone
      exact absurd hmem (hnew x hx)
  | acknowledged g hack hgap hnew hkept hout =>
    rcases h.ackPlaced.located (mem_acknowledgedGaps hack) with ⟨key, ack, hget, hmem⟩ | htaken |
      hother | ⟨token, p', hget, hmem⟩ | hgone | hgone
    · have hbelongs := h.filed.pending key ack hget
      have hown := h.ackPlaced.file_unique hack (hbelongs.gaps g hmem)
      obtain ⟨n, hn, hlt⟩ := ceiling_lt hget hown hmem hgap (h.recorded.acks f g hack q hgap).1
      rw [← hceiling] at hn
      exact Nat.lt_of_le_of_lt (through_le_ceiling hc hn) hlt
    · exact absurd htaken hout
    · obtain ⟨f', hne, hack'⟩ := h.elsewhereGaps g hother
      exact absurd (h.ackPlaced.file_unique hack hack') hne
    · obtain ⟨e, he, hg⟩ := mem_gapsIn.mp hmem
      obtain ⟨hbelongs, hfile'⟩ := h.filed.prepared token p' hget e he
      have hown := h.ackPlaced.file_unique hack (hbelongs.gaps g hg)
      have hnone := (hclear.gaps token p' hget (by rw [← hfile', hown, hfile])).2
      rw [hnone] at hmem
      exact absurd hmem not_mem_nil
    · obtain ⟨x, hx, hmem⟩ := hgone
      exact absurd hmem (hnew x hx)
    · exact absurd hgone hkept

theorem GapAccount.cutoff_le
    (h : GapAccount other otherGaps f s ⟨p.resources, p.standaloneAcknowledgements⟩)
    (hc : s.coverageGapThroughSequence p = some c) : c ≤ s.sequence := by
  rcases through_le hc with ⟨r, -, hle⟩ | ⟨g, hg, q, hq, hle⟩
  · exact Nat.le_trans hle (h.recorded.last r)
  · obtain ⟨e, he, hg⟩ := mem_gapsIn.mp hg
    have hack := (h.filed.taken e he).1.gaps g hg
    exact Nat.le_trans hle (h.recorded.acks _ g hack q hq).2

theorem Outstanding.of_same (h : t.Outstanding rs gs f q) (hcreated : t.created = s.created)
    (hfields : t.fields = s.fields) (hacknowledged : t.acknowledged = s.acknowledged)
    (hemitted : t.emitted = s.emitted) (hdropped : t.dropped = s.dropped) :
    s.Outstanding rs gs f q := by
  cases h with
  | tracked r hr hfile hgap hnew hout =>
    rw [hcreated] at hr
    rw [gapsOf_eq (gapFields_of_fields hfields r)] at hgap
    rw [hemitted] at hnew
    exact .tracked r hr hfile hgap hnew hout
  | acknowledged g hack hgap hnew hkept hout =>
    rw [hacknowledged] at hack
    rw [hemitted] at hnew
    rw [hdropped] at hkept
    exact .acknowledged g hack hgap hnew hkept hout

theorem GapAccount.pass (h : GapAccount other otherGaps f s
      ⟨p.resources, p.standaloneAcknowledgements⟩)
    (hfile : p.fileKey = f) (hceiling : p.coverageGapCutoffCeiling = s.coverageGapCutoffCeiling f)
    (hclient : ∃ token, p.token = .client token)
    (hlisted : ∀ key r, s.resources.get key = some r → key.fileKey ≠ f) (hclear : s.Clear p) :
    (s.setPrepared p).Cutoffs := by
  have hcut : ∀ {rs gs f q}, (s.setPrepared p).Outstanding rs gs f q → s.Outstanding rs gs f q :=
    fun hq => hq.of_same rfl rfl rfl rfl rfl
  have hget : ∀ token q, (s.setPrepared p).preparedFlushes.get token = some q →
      q = p ∨ s.preparedFlushes.get token = some q := by
    intro token q hq
    have hq' : (s.preparedFlushes.set p.token p).get token = some q := hq
    rw [get_set] at hq'
    split at hq'
    · cases hq'
      exact .inl rfl
    · exact .inr hq'
  refine ⟨fun token q hq => ?_, h.cutoffs.handedOn, fun token q c hq hc => ?_,
    fun x hx token htoken c hc => ?_, fun pre x post hsplit token htoken c hc q hq hle => ?_⟩
  · rcases hget token q hq with rfl | hq
    · exact hclient
    · exact h.cutoffs.clients token q hq
  · rcases hget token q hq with rfl | hq
    · rw [hfile]
      exact ⟨h.cutoff_le hc, fun n hn => h.cutoff_lt hfile hceiling hlisted hclear hc (hcut hn)⟩
    · obtain ⟨hle, hold⟩ := h.cutoffs.prepared token q c hq hc
      exact ⟨hle, fun n hn => hold n (hcut hn)⟩
  · obtain ⟨hle, hold⟩ := h.cutoffs.passed x hx token htoken c hc
    exact ⟨hle, fun n hn => hold n (hcut hn)⟩
  · rcases h.cutoffs.delivered pre x post hsplit token htoken c hc q hq hle with
      ⟨y, hy, hdelivers⟩ | hdrop
    · exact .inl ⟨y, hy, hdelivers.mono fun _ _ _ hq => hq⟩
    · exact .inr (hdrop.mono fun _ he => he)

/-! ## Standalone flushes -/

structure HandsOn (s t : Store) (r : TrackedResource) : Prop where
  created : t.created = s.created
  fields : t.fields = s.fields
  sequence : t.sequence = s.sequence
  skipped : t.skipped = s.skipped
  acknowledged : t.acknowledged = s.acknowledged ++
    (s.standaloneAcknowledgement r).coverageGapAcknowledgements.map (Prod.mk r.key.fileKey)
  emitted : ∃ result, t.emitted = s.emitted ++ [(s.standaloneFlush r, result)]
  dropped : ∃ more, t.dropped = s.dropped ++ more
  prepared : ∀ token p, t.preparedFlushes.get token = some p → s.preparedFlushes.get token = some p

theorem finishStandalone_handsOn (s : Store) (r : TrackedResource) :
    HandsOn s (s.finishStandalone r) r := by
  obtain ⟨settled, result, -, heq⟩ := finishStandalone_eq s r
  rw [heq]
  refine ⟨rfl, rfl, rfl, rfl, rfl, ⟨result, rfl⟩, ⟨_, rfl⟩, fun token p hget => ?_⟩
  have hget' : ((s.preparedFlushes.set (.uuid s.uuid) (s.standaloneFlush r)).delete
      (.uuid s.uuid)).get token = some p := hget
  rw [get_delete] at hget'
  split at hget'
  · cases hget'
  · next hne =>
    rw [get_set, if_neg hne] at hget'
    exact hget'

theorem HandsOn.new (h : HandsOn s t r) (hack : (f, g) ∈ t.acknowledged) :
    (f, g) ∈ s.acknowledged ∨ f = r.key.fileKey ∧ g.sequences = s.gapsOf r := by
  rw [h.acknowledged] at hack
  rcases mem_append.mp hack with hack | hack
  · exact .inl hack
  · obtain ⟨g', hg', heq⟩ := mem_map.mp hack
    cases heq
    refine .inr ⟨rfl, ?_⟩
    rcases standaloneAcknowledgement_gaps s r with hnil | ⟨g, hone, -, hsequences⟩
    · rw [hnil] at hg'
      exact absurd hg' not_mem_nil
    · rw [hone] at hg'
      rw [mem_singleton.mp hg']
      exact hsequences

theorem HandsOn.left (h : HandsOn s t r) (hgaps : s.gapsOf r ≠ [])
    (hcoverage : (s.fieldsOf r).coverageGap ≠ none) :
    ∃ g, (r.key.fileKey, g) ∈ t.acknowledged ∧ g.sequences = s.gapsOf r := by
  have hone : ∃ g, (s.standaloneAcknowledgement r).coverageGapAcknowledgements = [g] ∧
      g.sequences = s.gapsOf r := by
    show ∃ g, ({ s with uuid := s.uuid + 1 } : Store).gapAcknowledgementsOf r = [g] ∧ _
    unfold gapAcknowledgementsOf
    obtain ⟨n, hn⟩ := Option.ne_none_iff_exists'.mp hcoverage
    have hn' : (({ s with uuid := s.uuid + 1 } : Store).fieldsOf r).coverageGap = some n := hn
    rw [hn']
    dsimp only
    rw [if_pos]
    · exact ⟨_, rfl, rfl⟩
    · exact hgaps
  obtain ⟨g, hg, hsequences⟩ := hone
  refine ⟨g, ?_, hsequences⟩
  rw [h.acknowledged, hg]
  exact mem_append_right _ mem_cons_self

theorem Recorded.handsOn (h : s.Recorded) (hhands : HandsOn s t r) : t.Recorded := by
  have hgaps := fun a => gapFields_of_fields hhands.fields a
  refine ⟨?_, fun a ha => ?_, fun a q hq => ?_, fun a => ?_, fun f g hack q hq => ?_,
    fun f q hq => ?_⟩
  · rw [hhands.created]
    exact h.distinct
  · rw [gapsOf_eq (hgaps a)] at ha
    rw [coverageGap_eq (hgaps a)]
    exact h.coverage a ha
  · rw [gapsOf_eq (hgaps a)] at hq
    rw [hhands.sequence]
    exact h.bounded a q hq
  · rw [lastSequence_eq (hgaps a), hhands.sequence]
    exact h.last a
  · rw [hhands.sequence]
    rcases hhands.new hack with hold | ⟨-, hsequences⟩
    · exact h.acks f g hold q hq
    · rw [hsequences] at hq
      exact h.bounded r q hq
  · rw [hhands.skipped] at hq
    obtain ⟨a, ha, hfile, hgap⟩ := h.skipped f q hq
    refine ⟨a, ?_, hfile, ?_⟩
    · rw [hhands.created]
      exact ha
    · rw [gapsOf_eq (hgaps a)]
      exact hgap

theorem Outstanding.handsOn (h : t.Outstanding rs gs f q) (hhands : HandsOn s t r)
    (hhand : s.AtHand r) (hout : r ∉ rs) : s.Outstanding rs gs f q := by
  obtain ⟨result, hemitted⟩ := hhands.emitted
  obtain ⟨more, hdropped⟩ := hhands.dropped
  have hold : ∀ {P : PreparedFlush × FlushResult → Prop}, (∀ x ∈ t.emitted, P x) →
      ∀ x ∈ s.emitted, P x := by
    intro P hall x hx
    refine hall x ?_
    rw [hemitted]
    exact mem_append_left _ hx
  cases h with
  | tracked a ha hfile hgap hnew hout =>
    rw [hhands.created] at ha
    rw [gapsOf_eq (gapFields_of_fields hhands.fields a)] at hgap
    exact .tracked a ha hfile hgap (hold hnew) hout
  | acknowledged g hack hgap hnew hkept hg =>
    rw [hdropped, gapsIn_append, mem_append, not_or] at hkept
    rcases hhands.new hack with hack | ⟨hfile, hsequences⟩
    · exact .acknowledged g hack hgap (hold hnew) hkept.1 hg
    · rw [hsequences] at hgap
      exact .tracked r hhand.created hfile.symm hgap hhand.unemitted hout

theorem split_append {α : Type} {l pre post : List α} {x y : α} (h : l ++ [y] = pre ++ x :: post) :
    l = pre ∧ y = x ∨ ∃ post', l = pre ++ x :: post' := by
  rcases eq_nil_or_concat post with rfl | ⟨post', z, rfl⟩
  · have hlast := append_inj' h rfl
    exact .inl ⟨hlast.1, singleton_inj.mp hlast.2⟩
  · rw [concat_eq_append] at h
    have h' : l ++ [y] = (pre ++ x :: post') ++ [z] := by
      rw [h, append_assoc]
      rfl
    exact .inr ⟨post', (append_inj' h' rfl).1⟩

theorem Cutoffs.handsOn (h : s.Cutoffs) (hhands : HandsOn s t r) (hrecorded : s.Recorded)
    (hhand : s.AtHand r) : t.Cutoffs := by
  have hgaps := fun a => gapFields_of_fields hhands.fields a
  obtain ⟨result, hemitted⟩ := hhands.emitted
  obtain ⟨more, hdropped⟩ := hhands.dropped
  refine ⟨fun token p hget => h.clients token p (hhands.prepared token p hget),
    fun x hx hclient => ?_, fun token p c hget hc => ?_, fun x hx token hclient c hc => ?_,
    fun pre x post hsplit token hclient c hc q hq hle => ?_⟩
  · rw [hemitted] at hx
    rcases mem_append.mp hx with hx | hx
    · obtain ⟨hnone, hgone⟩ := h.handedOn x hx hclient
      refine ⟨hnone, fun a ha hne => ?_⟩
      rw [gapsOf_eq (hgaps a)] at hne ⊢
      obtain ⟨g, hack, hsequences⟩ := hgone a ha hne
      refine ⟨g, ?_, hsequences⟩
      rw [hhands.acknowledged]
      exact mem_append_left _ hack
    · rw [mem_singleton.mp hx]
      refine ⟨rfl, fun a ha hne => ?_⟩
      rw [mem_singleton.mp ha] at hne ⊢
      rw [gapsOf_eq (hgaps r)] at hne ⊢
      exact hhands.left hne (hrecorded.coverage r hne)
  · have hget' := hhands.prepared token p hget
    rw [through_eq fun a _ => hgaps a] at hc
    obtain ⟨hle, hcut⟩ := h.prepared token p c hget' hc
    rw [hhands.sequence]
    exact ⟨hle, fun q hq => hcut q (hq.handsOn hhands hhand (hhand.unprepared token p hget'))⟩
  · rw [hemitted] at hx
    rcases mem_append.mp hx with hx | hx
    · obtain ⟨hle, hcut⟩ := h.passed x hx token hclient c hc
      rw [hhands.sequence]
      exact ⟨hle, fun q hq => hcut q (hq.handsOn hhands hhand not_mem_nil)⟩
    · rw [mem_singleton.mp hx] at hclient
      cases hclient
  · rw [hemitted] at hsplit
    rw [hhands.skipped] at hq
    rcases split_append hsplit with ⟨-, rfl⟩ | ⟨post', hsplit⟩
    · cases hclient
    · rcases h.delivered pre x post' hsplit token hclient c hc q hq hle with
        ⟨y, hy, hdelivers⟩ | hdrop
      · refine .inl ⟨y, hy, hdelivers.mono fun a _ q hq => ?_⟩
        rw [gapsOf_eq (hgaps a)]
        exact hq
      · refine .inr (hdrop.mono fun e he => ?_)
        rw [hdropped]
        exact mem_append_left _ he

/-! ## Commits -/

structure Passes (s t : Store) (p : PreparedFlush) (result : FlushResult) : Prop where
  created : t.created = s.created
  fields : t.fields = s.fields
  sequence : t.sequence = s.sequence
  skipped : t.skipped = s.skipped
  acknowledged : t.acknowledged = s.acknowledged
  dropped : t.dropped = s.dropped
  emitted : t.emitted = s.emitted ++ [(p, result)]
  prepared : ∀ token q, t.preparedFlushes.get token = some q → s.preparedFlushes.get token = some q

theorem settleCommitted_passes (s : Store) (token : Token) (p : PreparedFlush) :
    Passes s (s.settleCommitted token p) p (s.committedResult p) := by
  obtain ⟨settled, -, heq⟩ := settleCommitted_eq s token p
  rw [heq]
  exact ⟨rfl, rfl, rfl, rfl, rfl, rfl, rfl, fun token q hget => get_of_delete hget⟩

variable {result : FlushResult}

theorem Outstanding.passes (h : t.Outstanding rs gs f q) (hpasses : Passes s t p result) :
    s.Outstanding rs gs f q ∧
      s.Outstanding p.resources (gapsIn p.standaloneAcknowledgements) f q := by
  have hold : ∀ {P : PreparedFlush × FlushResult → Prop}, (∀ x ∈ t.emitted, P x) →
      (∀ x ∈ s.emitted, P x) ∧ P (p, result) := by
    intro P hall
    rw [hpasses.emitted] at hall
    exact ⟨fun x hx => hall x (mem_append_left _ hx), hall _ (mem_append_right _ mem_cons_self)⟩
  cases h with
  | tracked a ha hfile hgap hnew hout =>
    rw [hpasses.created] at ha
    rw [gapsOf_eq (gapFields_of_fields hpasses.fields a)] at hgap
    obtain ⟨hnew, hlast⟩ := hold hnew
    exact ⟨.tracked a ha hfile hgap hnew hout, .tracked a ha hfile hgap hnew hlast⟩
  | acknowledged g hack hgap hnew hkept hout =>
    rw [hpasses.acknowledged] at hack
    rw [hpasses.dropped] at hkept
    obtain ⟨hnew, hlast⟩ := hold hnew
    exact ⟨.acknowledged g hack hgap hnew hkept hout, .acknowledged g hack hgap hnew hkept hlast⟩

theorem gap_located (hrecorded : s.Recorded) (hplaced : AckPlaced otherGaps s acks)
    (hfiled : s.FiledAcks f acks)
    (hhanded : ∀ x ∈ s.emitted, (∀ token, x.1.token ≠ .client token) →
      x.1.standaloneAcknowledgements = [] ∧ ∀ r ∈ x.1.resources, s.gapsOf r ≠ [] →
        ∃ g, (r.key.fileKey, g) ∈ s.acknowledged ∧ g.sequences = s.gapsOf r)
    {file : FileKey} (hq : (file, q) ∈ s.skipped) :
    (∃ y ∈ s.emitted, s.Delivers y.1 file q) ∨ s.DroppedGap file q ∨
      s.Outstanding [] [] file q := by
  obtain ⟨r, hr, hfile, hgap⟩ := hrecorded.skipped file q hq
  by_cases hnew : ∃ x ∈ s.emitted, r ∈ x.1.resources
  · obtain ⟨x, hx, hmem⟩ := hnew
    have hown : x.1.fileKey = file := by rw [← (hfiled.emitted x hx).1 r hmem, hfile]
    by_cases hclient : ∃ token, x.1.token = .client token
    · exact .inl ⟨x, hx, hclient, hown, .inl ⟨r, hmem, hgap⟩⟩
    · -- the gap went on with the acknowledgement that a standalone flush left
      obtain ⟨g, hack, hsequences⟩ := (hhanded x hx (not_exists.mp hclient)).2 r hmem
        (ne_nil_of_mem hgap)
      rw [hfile] at hack
      rw [← hsequences] at hgap
      by_cases hpassed : ∃ y ∈ s.emitted, g ∈ gapsIn y.1.standaloneAcknowledgements
      · obtain ⟨y, hy, hg⟩ := hpassed
        obtain ⟨e, he, hge⟩ := mem_gapsIn.mp hg
        obtain ⟨hbelongs, hfile'⟩ := (hfiled.emitted y hy).2 e he
        refine .inl ⟨y, hy, ?_, ?_, .inr ⟨g, hg, hgap⟩⟩
        · by_contra hnot
          rw [(hhanded y hy (not_exists.mp hnot)).1] at he
          exact absurd he not_mem_nil
        · rw [← hfile']
          exact hplaced.file_unique hack (hbelongs.gaps g hge)
      · by_cases hdrop : g ∈ gapsIn s.dropped
        · obtain ⟨e, he, hge⟩ := mem_gapsIn.mp hdrop
          have hown := hplaced.file_unique hack ((hfiled.dropped e he).gaps g hge)
          exact .inr (.inl ⟨e, he, hown, g, hge, hgap⟩)
        · push Not at hpassed
          exact .inr (.inr (.acknowledged g hack hgap hpassed hdrop not_mem_nil))
  · push Not at hnew
    exact .inr (.inr (.tracked r hr hfile hgap hnew not_mem_nil))

theorem Recorded.passes (h : s.Recorded) (hpasses : Passes s t p result) : t.Recorded :=
  h.same (.of_fields hpasses.fields hpasses.created hpasses.sequence hpasses.skipped
    hpasses.acknowledged)

theorem Cutoffs.passes (h : s.Cutoffs) (hpasses : Passes s t p result)
    (hget : s.preparedFlushes.get token = some p)
    (hresult : result.coverageGapThroughSequence = s.coverageGapThroughSequence p)
    (hrecorded : t.Recorded) (hplaced : AckPlaced otherGaps t acks) (hfiled : t.FiledAcks f acks) :
    t.Cutoffs := by
  have hgaps := fun a => gapFields_of_fields hpasses.fields a
  have hclients : ∀ token q, t.preparedFlushes.get token = some q →
      ∃ token, q.token = .client token :=
    fun token q hq => h.clients token q (hpasses.prepared token q hq)
  have hhanded : ∀ x ∈ t.emitted, (∀ token, x.1.token ≠ .client token) →
      x.1.standaloneAcknowledgements = [] ∧ ∀ r ∈ x.1.resources, t.gapsOf r ≠ [] →
        ∃ g, (r.key.fileKey, g) ∈ t.acknowledged ∧ g.sequences = t.gapsOf r := by
    intro x hx hclient
    rw [hpasses.emitted] at hx
    rcases mem_append.mp hx with hx | hx
    · obtain ⟨hnone, hgone⟩ := h.handedOn x hx hclient
      refine ⟨hnone, fun a ha hne => ?_⟩
      rw [gapsOf_eq (hgaps a)] at hne ⊢
      rw [hpasses.acknowledged]
      exact hgone a ha hne
    · rw [mem_singleton.mp hx] at hclient
      obtain ⟨client, hp⟩ := h.clients token p hget
      exact absurd hp (hclient client)
  have hpassed : ∀ x ∈ t.emitted, ∀ token, x.1.token = .client token →
      ∀ c, x.2.coverageGapThroughSequence = some c → c ≤ t.sequence ∧
        ∀ q, t.Outstanding [] [] x.1.fileKey q → c < q := by
    intro x hx client hclient c hc
    rw [hpasses.sequence]
    rw [hpasses.emitted] at hx
    rcases mem_append.mp hx with hx | hx
    · obtain ⟨hle, hcut⟩ := h.passed x hx client hclient c hc
      exact ⟨hle, fun q hq => hcut q (hq.passes hpasses).1⟩
    · rw [mem_singleton.mp hx] at hc ⊢
      rw [hresult] at hc
      obtain ⟨hle, hcut⟩ := h.prepared token p c hget hc
      exact ⟨hle, fun q hq => hcut q (hq.passes hpasses).2⟩
  refine ⟨hclients, hhanded, fun token' q c hq hc => ?_, hpassed,
    fun pre x post hsplit client hclient c hc q hq hle => ?_⟩
  · rw [through_eq fun a _ => hgaps a] at hc
    obtain ⟨hle, hcut⟩ := h.prepared token' q c (hpasses.prepared token' q hq) hc
    rw [hpasses.sequence]
    exact ⟨hle, fun n hn => hcut n (hn.passes hpasses).1⟩
  · rw [hpasses.emitted] at hsplit
    rcases split_append hsplit with ⟨rfl, rfl⟩ | ⟨post', hsplit⟩
    · rcases gap_located hrecorded hplaced hfiled hhanded hq with ⟨y, hy, hdelivers⟩ | hdrop | hout
      · rw [hpasses.emitted] at hy
        exact .inl ⟨y, hy, hdelivers⟩
      · exact .inr hdrop
      · have hlast : (p, result) ∈ t.emitted := by
          rw [hpasses.emitted]
          exact mem_append_right _ mem_cons_self
        have hlt := (hpassed (p, result) hlast client hclient c hc).2 q hout
        omega
    · rw [hpasses.skipped] at hq
      rcases h.delivered pre x post' hsplit client hclient c hc q hq hle with
        ⟨y, hy, hdelivers⟩ | hdrop
      · refine .inl ⟨y, hy, hdelivers.mono fun a _ q hq => ?_⟩
        rw [gapsOf_eq (hgaps a)]
        exact hq
      · refine .inr (hdrop.mono fun e he => ?_)
        rw [hpasses.dropped]
        exact he

end Store

end Fumie.AgentHost.EditAttribution
