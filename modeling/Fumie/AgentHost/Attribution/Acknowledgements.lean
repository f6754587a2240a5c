import Fumie.AgentHost.Attribution.FlushAccounting

/-!
# Every gap acknowledgement is in one place

A gap acknowledgement is pending, taken by a prepare, prepared under a token, delivered by
a commit or dropped. Taking may split what is pending under one key, and putting back
merges by id, which loses nothing because no two acknowledgements share an id.
-/

namespace Fumie.AgentHost.EditAttribution

open Fumie.Lib List Record

def gapsIn (acks : List (ResourceKey × StandaloneAcknowledgement)) :
    List CoverageGapAcknowledgement :=
  acks.flatMap fun e => e.2.coverageGapAcknowledgements

theorem gapsIn_append (acks acks' : List (ResourceKey × StandaloneAcknowledgement)) :
    gapsIn (acks ++ acks') = gapsIn acks ++ gapsIn acks' := flatMap_append

theorem gapsIn_cons (e : ResourceKey × StandaloneAcknowledgement)
    (acks : List (ResourceKey × StandaloneAcknowledgement)) :
    gapsIn (e :: acks) = e.2.coverageGapAcknowledgements ++ gapsIn acks := flatMap_cons

def gapCount (acks : Record ResourceKey StandaloneAcknowledgement)
    (g : CoverageGapAcknowledgement) : Nat :=
  acks.sumOf fun ack => ack.coverageGapAcknowledgements.count g

theorem gapCount_eq (acks : Record ResourceKey StandaloneAcknowledgement)
    (g : CoverageGapAcknowledgement) : gapCount acks g = (gapsIn acks.entries).count g := by
  unfold gapsIn
  rw [count_flatMap]
  rfl

/-! ## Merging by id -/

namespace Store

variable {acks : List CoverageGapAcknowledgement}

theorem setGapAcknowledgement_of_new {ack : CoverageGapAcknowledgement}
    (h : ack.id ∉ acks.map (·.id)) : setGapAcknowledgement acks ack = acks ++ [ack] := by
  unfold setGapAcknowledgement
  rw [if_neg]
  rw [any_eq_true]
  rintro ⟨a, ha, hid⟩
  exact h (of_decide_eq_true hid ▸ mem_map_of_mem ha)

theorem gapAcknowledgementsById_of_nodup (h : (acks.map (·.id)).Nodup) :
    gapAcknowledgementsById acks = acks := by
  have hfold : ∀ rest done : List CoverageGapAcknowledgement,
      ((done ++ rest).map (·.id)).Nodup → rest.foldl setGapAcknowledgement done = done ++ rest := by
    intro rest
    induction rest with
    | nil =>
      intro done _
      rw [append_nil]
      rfl
    | cons a rest ih =>
      intro done hnodup
      have hnew : a.id ∉ done.map (·.id) := by
        rw [map_append, nodup_append] at hnodup
        exact fun hmem => hnodup.2.2 _ hmem _ (mem_map_of_mem mem_cons_self) rfl
      rw [foldl_cons, setGapAcknowledgement_of_new hnew, ih (done ++ [a])]
      · rw [append_assoc]
        rfl
      · rw [append_assoc]
        exact hnodup
  exact hfold acks [] h

end Store

theorem nodup_ids_of_count_le {acks all : List CoverageGapAcknowledgement}
    (hall : (all.map (·.id)).Nodup) (h : ∀ g, acks.count g ≤ all.count g) :
    (acks.map (·.id)).Nodup := by
  obtain ⟨acks', hperm, hsub⟩ := subperm_iff_count.mpr h
  exact (hperm.map _).nodup_iff.mp (hall.sublist (hsub.map _))

variable {κ α : Type} {fileKey : FileKey} {r : TrackedResource}

theorem sumOf_delete_of_none [DecidableEq κ] {rec : Record κ α} {k : κ} (h : rec.get k = none)
    (f : α → Nat) : (rec.delete k).sumOf f = rec.sumOf f := by
  have hkeep : rec.entries.filter (fun e => e.1 ≠ k) = rec.entries := by
    refine filter_eq_self.mpr fun e he => ?_
    have hne : e.1 ≠ k := fun heq => get_eq_none_iff.mp h (heq ▸ mem_map_of_mem he)
    simpa using hne
  show ((rec.entries.filter fun e => e.1 ≠ k).map fun e => f e.2).sum = _
  rw [hkeep]
  rfl

theorem sumOf_delete_set [DecidableEq κ] {rec : Record κ α} {k : κ} {a b : α}
    (h : rec.get k = some a) (f : α → Nat) :
    ((rec.delete k).set k b).sumOf f + f a = rec.sumOf f + f b := by
  have hnone : (rec.delete k).get k = none := by
    rw [get_delete, if_pos rfl]
  have hset := sumOf_set_of_none f b hnone
  have hdelete := sumOf_delete f h
  omega

/-! ## Putting back -/

namespace Store

variable {all : List CoverageGapAcknowledgement}

variable {e : ResourceKey × StandaloneAcknowledgement}

theorem restoreStandalone_count {acks : Record ResourceKey StandaloneAcknowledgement}
    (hall : (all.map (·.id)).Nodup)
    (h : ∀ g, gapCount acks g + e.2.coverageGapAcknowledgements.count g ≤ all.count g)
    (g : CoverageGapAcknowledgement) :
    gapCount (restoreStandalone acks e) g =
      gapCount acks g + e.2.coverageGapAcknowledgements.count g := by
  have hone : ∀ g, gapCount ((acks.delete e.1).set e.1 (mergeStandalone (acks.get e.1) e.2)) g +
      (((acks.get e.1).map (·.coverageGapAcknowledgements)).getD []).count g = gapCount acks g +
          (mergeStandalone (acks.get e.1) e.2).coverageGapAcknowledgements.count g := by
    intro g
    cases hget : acks.get e.1 with
    | none =>
      have hnone : (acks.delete e.1).get e.1 = none := by
        rw [get_delete, if_pos rfl]
      have hset := sumOf_set_of_none
        (fun ack : StandaloneAcknowledgement => ack.coverageGapAcknowledgements.count g)
        (mergeStandalone none e.2) hnone
      rw [sumOf_delete_of_none hget] at hset
      exact hset
    | some existing =>
      exact sumOf_delete_set hget fun ack : StandaloneAcknowledgement =>
        ack.coverageGapAcknowledgements.count g
  have hexisting : ∀ g, (((acks.get e.1).map (·.coverageGapAcknowledgements)).getD []).count g ≤
      gapCount acks g := by
    intro g
    cases hget : acks.get e.1 with
    | none => exact Nat.zero_le _
    | some existing =>
      have hdelete := sumOf_delete
        (fun ack : StandaloneAcknowledgement => ack.coverageGapAcknowledgements.count g) hget
      exact Nat.le_of_add_left_le (Nat.le_of_eq hdelete)
  have hids : ((((acks.get e.1).map (·.coverageGapAcknowledgements)).getD [] ++
      e.2.coverageGapAcknowledgements).map (·.id)).Nodup := by
    refine nodup_ids_of_count_le hall fun g => ?_
    rw [count_append]
    have hle := h g
    have hold := hexisting g
    omega
  have hmerged : (mergeStandalone (acks.get e.1) e.2).coverageGapAcknowledgements =
      ((acks.get e.1).map (·.coverageGapAcknowledgements)).getD [] ++
        e.2.coverageGapAcknowledgements := gapAcknowledgementsById_of_nodup hids
  have hsum := hone g
  rw [hmerged, count_append] at hsum
  show gapCount ((acks.delete e.1).set e.1 _) g = _
  omega

variable {acks : List (ResourceKey × StandaloneAcknowledgement)}

theorem restoredAcknowledgements_count {s : Store} (hall : (all.map (·.id)).Nodup)
    (h : ∀ g, gapCount s.standaloneAcknowledgements g + (gapsIn acks).count g ≤ all.count g)
    (g : CoverageGapAcknowledgement) :
    gapCount (s.restoredAcknowledgements acks) g =
      gapCount s.standaloneAcknowledgements g + (gapsIn acks).count g := by
  have hfold : ∀ (acks : List (ResourceKey × StandaloneAcknowledgement))
      (rec : Record ResourceKey StandaloneAcknowledgement),
      (∀ g, gapCount rec g + (gapsIn acks).count g ≤ all.count g) →
      ∀ g, gapCount (acks.foldl restoreStandalone rec) g =
        gapCount rec g + (gapsIn acks).count g := by
    intro acks
    induction acks with
    | nil => exact fun rec _ g => rfl
    | cons e rest ih =>
      intro rec hle g
      have hcons : ∀ g, (gapsIn (e :: rest)).count g =
          e.2.coverageGapAcknowledgements.count g + (gapsIn rest).count g := by
        intro g
        rw [gapsIn_cons, count_append]
      have hfirst : ∀ g, gapCount (restoreStandalone rec e) g =
          gapCount rec g + e.2.coverageGapAcknowledgements.count g := by
        refine restoreStandalone_count hall fun g => ?_
        have := hle g
        rw [hcons] at this
        omega
      rw [foldl_cons, ih _ (fun g => ?_) g, hfirst, hcons]
      · omega
      · have := hle g
        rw [hcons] at this
        rw [hfirst]
        omega
  exact hfold acks s.standaloneAcknowledgements h g

variable (limit : Nat)

theorem take_append_evictOldest (rec : Record κ α) :
    rec.entries.take (rec.entries.length - limit) ++ (evictOldest limit rec).entries =
      rec.entries := take_append_drop _ _

theorem droppedBy_append (s : Store) (acks : List (ResourceKey × StandaloneAcknowledgement)) :
    s.droppedBy acks ++ (s.pendingAfter acks).entries =
      (s.restoredAcknowledgements acks).entries := by
  unfold droppedBy pendingAfter
  rw [take_append_evictOldest]

theorem pendingAfter_count {s : Store} (hall : (all.map (·.id)).Nodup)
    (h : ∀ g, gapCount s.standaloneAcknowledgements g + (gapsIn acks).count g ≤ all.count g)
    (g : CoverageGapAcknowledgement) :
    gapCount (s.pendingAfter acks) g + (gapsIn (s.droppedBy acks)).count g =
      gapCount s.standaloneAcknowledgements g + (gapsIn acks).count g := by
  rw [← restoredAcknowledgements_count hall h g, gapCount_eq, gapCount_eq, Nat.add_comm,
    ← count_append, ← gapsIn_append, droppedBy_append]

/-! ## Taking -/

theorem take_append_rest (gaps : List CoverageGapAcknowledgement) (n : Nat) :
    gaps.take n ++ gaps.drop (gaps.take n).length = gaps :=
  prefix_iff_eq_append.mp ( take_prefix n gaps)

theorem takeStandalone_count {t : Taking} (hget : t.pending.get e.1 = some e.2)
    (g : CoverageGapAcknowledgement) :
    gapCount (takeStandalone fileKey t e).pending g +
        (gapsIn (takeStandalone fileKey t e).taken).count g =
      gapCount t.pending g + (gapsIn t.taken).count g := by
  have hsplit := congrArg (count g) (take_append_rest e.2.coverageGapAcknowledgements t.remaining)
  rw [count_append] at hsplit
  unfold takeStandalone
  split
  · rfl
  · dsimp only
    split
    · rfl
    · rw [gapsIn_append, count_append, gapsIn_cons]
      have hnil : gapsIn [] = [] := rfl
      rw [hnil, append_nil]
      split
      · next hrest =>
        rw [hrest, count_nil] at hsplit
        have hdelete : gapCount (t.pending.delete e.1) g +
            e.2.coverageGapAcknowledgements.count g = gapCount t.pending g :=
          sumOf_delete _ hget
        show gapCount (t.pending.delete e.1) g + ((gapsIn t.taken).count g +
          (e.2.coverageGapAcknowledgements.take t.remaining).count g) = _
        omega
      · have hset : ∀ ack : StandaloneAcknowledgement,
            gapCount ((t.pending.delete e.1).set e.1 ack) g +
              e.2.coverageGapAcknowledgements.count g =
            gapCount t.pending g + ack.coverageGapAcknowledgements.count g :=
          fun ack => sumOf_delete_set hget _
        have hrest := hset ⟨e.2.timestamp, e.2.fileKey, e.2.lastSequence,
          e.2.coverageGapAcknowledgements.drop
            (e.2.coverageGapAcknowledgements.take t.remaining).length⟩
        show gapCount ((t.pending.delete e.1).set e.1 _) g + ((gapsIn t.taken).count g +
          (e.2.coverageGapAcknowledgements.take t.remaining).count g) = _
        dsimp only at hrest
        omega

theorem takeStandalone_get {t : Taking} {key : ResourceKey} (hne : key ≠ e.1) :
    (takeStandalone fileKey t e).pending.get key = t.pending.get key := by
  unfold takeStandalone
  split
  · rfl
  · dsimp only
    split
    · rfl
    · split
      · rw [get_delete, if_neg hne.symm]
      · rw [get_set, if_neg hne.symm, get_delete, if_neg hne.symm]

theorem takeStandaloneAcknowledgements_count (s : Store) (fileKey : FileKey) (limit : Nat)
    (g : CoverageGapAcknowledgement) :
    gapCount (s.takeStandaloneAcknowledgements fileKey limit).pending g +
        (gapsIn (s.takeStandaloneAcknowledgements fileKey limit).taken).count g =
      gapCount s.standaloneAcknowledgements g := by
  have hfold : ∀ (es : List (ResourceKey × StandaloneAcknowledgement)) (t : Taking),
      (es.map Prod.fst).Nodup → (∀ e ∈ es, t.pending.get e.1 = some e.2) →
      gapCount (es.foldl (takeStandalone fileKey) t).pending g +
          (gapsIn (es.foldl (takeStandalone fileKey) t).taken).count g =
        gapCount t.pending g + (gapsIn t.taken).count g := by
    intro es
    induction es with
    | nil => exact fun t _ _ => rfl
    | cons e rest ih =>
      intro t hnodup hget
      rw [map_cons, nodup_cons] at hnodup
      rw [foldl_cons, ih _ hnodup.2 fun e' he' => ?_]
      · exact takeStandalone_count (hget e mem_cons_self) g
      · have hne : e'.1 ≠ e.1 := fun heq => hnodup.1 (heq ▸ mem_map_of_mem he')
        rw [takeStandalone_get hne]
        exact hget e' (mem_cons_of_mem _ he')
  have hall := hfold s.standaloneAcknowledgements.entries ⟨s.standaloneAcknowledgements, limit, []⟩
    s.standaloneAcknowledgements.nodup fun e he => get_of_mem he
  exact hall

/-! ## The account -/

def preparedGapCount (s : Store) (g : CoverageGapAcknowledgement) : Nat :=
  s.preparedFlushes.sumOf fun p => (gapsIn p.standaloneAcknowledgements).count g

def deliveredGapCount (s : Store) (g : CoverageGapAcknowledgement) : Nat :=
  (s.emitted.map fun e => (gapsIn e.1.standaloneAcknowledgements).count g).sum

def acknowledgedGaps (s : Store) : List CoverageGapAcknowledgement := s.acknowledged.map Prod.snd

structure AckPlaced (other : CoverageGapAcknowledgement → Nat) (s : Store)
    (acks : List (ResourceKey × StandaloneAcknowledgement)) : Prop where
  placed : ∀ g, gapCount s.standaloneAcknowledgements g + (gapsIn acks).count g + other g +
    s.preparedGapCount g + s.deliveredGapCount g + (gapsIn s.dropped).count g =
      s.acknowledgedGaps.count g
  ids : (s.acknowledgedGaps.map (·.id)).Nodup
  numbered : ∀ g ∈ s.acknowledgedGaps, g.id < s.uuid

variable {other : CoverageGapAcknowledgement → Nat} {s t : Store}
  {acks acks' : List (ResourceKey × StandaloneAcknowledgement)}

structure SameGaps (s t : Store) : Prop where
  pending : t.standaloneAcknowledgements = s.standaloneAcknowledgements
  preparedFlushes : t.preparedFlushes = s.preparedFlushes
  emitted : t.emitted = s.emitted
  dropped : t.dropped = s.dropped
  acknowledged : t.acknowledged = s.acknowledged
  uuid : t.uuid = s.uuid

theorem AckPlaced.of_same (h : AckPlaced other s acks) (hsame : SameGaps s t) :
    AckPlaced other t acks where
  placed := by
    intro g
    unfold preparedGapCount deliveredGapCount acknowledgedGaps
    rw [hsame.pending, hsame.preparedFlushes, hsame.emitted, hsame.dropped, hsame.acknowledged]
    exact h.placed g
  ids := by
    unfold acknowledgedGaps
    rw [hsame.acknowledged]
    exact h.ids
  numbered := by
    unfold acknowledgedGaps
    rw [hsame.acknowledged, hsame.uuid]
    exact h.numbered

theorem AckPlaced.take (h : AckPlaced other s acks) (f : FileKey) (limit : Nat) :
    AckPlaced other (s.withTaken (s.takeStandaloneAcknowledgements f limit))
      (acks ++ (s.takeStandaloneAcknowledgements f limit).taken) := by
  refine ⟨fun g => ?_, h.ids, h.numbered⟩
  have hold := h.placed g
  have htake := takeStandaloneAcknowledgements_count s f limit g
  rw [gapsIn_append, count_append]
  show gapCount (s.takeStandaloneAcknowledgements f limit).pending g + _ + _ +
    s.preparedGapCount g + s.deliveredGapCount g + (gapsIn s.dropped).count g =
      s.acknowledgedGaps.count g
  omega

theorem pendingAfter_count_of (h : AckPlaced other s acks)
    {back : List (ResourceKey × StandaloneAcknowledgement)}
    (hback : ∀ g, (gapsIn back).count g ≤
      (gapsIn acks).count g + s.preparedGapCount g) (g : CoverageGapAcknowledgement) :
    gapCount (s.pendingAfter back) g + (gapsIn (s.droppedBy back)).count g =
      gapCount s.standaloneAcknowledgements g + (gapsIn back).count g := by
  refine pendingAfter_count h.ids (fun g => ?_) g
  have hold := h.placed g
  have hle := hback g
  omega

theorem AckPlaced.restoreAcks (h : AckPlaced other s acks) :
    AckPlaced other (s.restoreStandaloneAcknowledgements acks) [] := by
  rw [restoreStandaloneAcknowledgements_eq]
  refine ⟨fun g => ?_, h.ids, h.numbered⟩
  have hold := h.placed g
  have hafter := pendingAfter_count_of h (fun g => Nat.le_add_right ((gapsIn acks).count g) _) g
  show gapCount (s.pendingAfter acks) g + (gapsIn []).count g + other g + s.preparedGapCount g +
    s.deliveredGapCount g + (gapsIn (s.dropped ++ s.droppedBy acks)).count g =
      s.acknowledgedGaps.count g
  rw [gapsIn_append, count_append]
  have hnil : (gapsIn []).count g = 0 := rfl
  omega

variable (p : PreparedFlush)

theorem AckPlaced.pass (h : AckPlaced other s p.standaloneAcknowledgements)
    (hfree : s.preparedFlushes.get p.token = none) : AckPlaced other (s.setPrepared p) [] := by
  refine ⟨fun g => ?_, h.ids, h.numbered⟩
  have hold := h.placed g
  have hset : (s.setPrepared p).preparedGapCount g =
      s.preparedGapCount g + (gapsIn p.standaloneAcknowledgements).count g :=
    sumOf_set_of_none _ p hfree
  show gapCount s.standaloneAcknowledgements g + (gapsIn []).count g + other g + _ +
    s.deliveredGapCount g + (gapsIn s.dropped).count g = s.acknowledgedGaps.count g
  have hnil : (gapsIn []).count g = 0 := rfl
  omega

theorem preparedGapCount_delete {token : Token} {p : PreparedFlush}
    (h : s.preparedFlushes.get token = some p) (g : CoverageGapAcknowledgement) :
    ((s.preparedFlushes.delete token).sumOf fun p =>
        (gapsIn p.standaloneAcknowledgements).count g) +
      (gapsIn p.standaloneAcknowledgements).count g = s.preparedGapCount g :=
  sumOf_delete _ h

theorem deliveredGapCount_append (result : FlushResult) (g : CoverageGapAcknowledgement) :
    ((s.emitted ++ [(p, result)]).map fun e =>
        (gapsIn e.1.standaloneAcknowledgements).count g).sum =
      s.deliveredGapCount g + (gapsIn p.standaloneAcknowledgements).count g := by
  rw [map_append, sum_append]
  rfl

theorem AckPlaced.commit (h : AckPlaced other s acks) (token : Token) (p : PreparedFlush)
    (hget : s.preparedFlushes.get token = some p) :
    AckPlaced other (s.settleCommitted token p) acks := by
  obtain ⟨settled, -, heq⟩ := settleCommitted_eq s token p
  rw [heq]
  refine ⟨fun g => ?_, h.ids, h.numbered⟩
  have hold := h.placed g
  have hprepared := preparedGapCount_delete hget g
  have hdelivered := deliveredGapCount_append (s := s) p (s.committedResult p) g
  show gapCount s.standaloneAcknowledgements g + (gapsIn acks).count g + other g +
    (s.preparedFlushes.delete token).sumOf (fun p =>
      (gapsIn p.standaloneAcknowledgements).count g) +
    ((s.emitted ++ [(p, s.committedResult p)]).map fun e =>
      (gapsIn e.1.standaloneAcknowledgements).count g).sum +
    (gapsIn s.dropped).count g = s.acknowledgedGaps.count g
  omega

theorem AckPlaced.cancel (h : AckPlaced other s []) (token : Token) (p : PreparedFlush)
    (hget : s.preparedFlushes.get token = some p) :
    AckPlaced other (s.settleCancelled token p) [] := by
  obtain ⟨settled, -, heq⟩ := settleCancelled_eq s token p
  rw [heq]
  refine ⟨fun g => ?_, h.ids, h.numbered⟩
  have hold := h.placed g
  have hprepared := preparedGapCount_delete hget g
  have hback : ∀ g, (gapsIn p.standaloneAcknowledgements).count g ≤
      (gapsIn []).count g + s.preparedGapCount g := by
    intro g
    have hdelete := preparedGapCount_delete hget g
    omega
  have hafter := pendingAfter_count_of h hback g
  show gapCount (s.pendingAfter p.standaloneAcknowledgements) g + (gapsIn []).count g + other g +
    (s.preparedFlushes.delete token).sumOf (fun p =>
      (gapsIn p.standaloneAcknowledgements).count g) +
    s.deliveredGapCount g +
    (gapsIn (s.dropped ++ s.droppedBy p.standaloneAcknowledgements)).count g =
      s.acknowledgedGaps.count g
  rw [gapsIn_append, count_append]
  omega

theorem gapsIn_nil : gapsIn [] = [] := rfl

theorem gapsIn_single (key : ResourceKey) (ack : StandaloneAcknowledgement) :
    gapsIn [(key, ack)] = ack.coverageGapAcknowledgements := append_nil _

theorem standaloneAcknowledgement_gaps (s : Store) (r : TrackedResource) :
    (s.standaloneAcknowledgement r).coverageGapAcknowledgements = [] ∨
      ∃ g, (s.standaloneAcknowledgement r).coverageGapAcknowledgements = [g] ∧
        g.id = s.uuid + 1 ∧ g.sequences = (s.fieldsOf r).coverageGapSequences := by
  show ({ s with uuid := s.uuid + 1 } : Store).gapAcknowledgementsOf r = [] ∨
    ∃ g, ({ s with uuid := s.uuid + 1 } : Store).gapAcknowledgementsOf r = [g] ∧ _
  unfold gapAcknowledgementsOf
  split
  · split
    · exact .inr ⟨_, rfl, rfl, rfl⟩
    · exact .inl rfl
  · exact .inl rfl

theorem standaloneAcknowledgement_id {g : CoverageGapAcknowledgement}
    (h : g ∈ (s.standaloneAcknowledgement r).coverageGapAcknowledgements) : g.id = s.uuid + 1 := by
  rcases standaloneAcknowledgement_gaps s r with hnil | ⟨g', hone, hid, -⟩
  · rw [hnil] at h
    exact absurd h not_mem_nil
  · rw [hone] at h
    rw [mem_singleton.mp h]
    exact hid

theorem AckPlaced.standalone (h : AckPlaced other s [])
    (hnamed : s.preparedFlushes.get (.uuid s.uuid) = none) :
    AckPlaced other (s.finishStandalone r) [] := by
  obtain ⟨settled, result, -, heq⟩ := finishStandalone_eq s r
  rw [heq]
  have hmap : (s.acknowledged ++ (s.standaloneAcknowledgement r).coverageGapAcknowledgements.map
      (Prod.mk r.key.fileKey)).map Prod.snd = s.acknowledgedGaps ++
        (s.standaloneAcknowledgement r).coverageGapAcknowledgements := by
    rw [map_append, map_map]
    congr 1
    exact map_id _
  have hids : ((s.acknowledgedGaps ++
      (s.standaloneAcknowledgement r).coverageGapAcknowledgements).map (·.id)).Nodup := by
    rw [map_append, nodup_append]
    refine ⟨h.ids, ?_, fun i hi j hj hij => ?_⟩
    · rcases standaloneAcknowledgement_gaps s r with hnil | ⟨g, hone, -, -⟩
      · rw [hnil]
        exact nodup_nil
      · rw [hone]
        exact nodup_singleton _
    · obtain ⟨g, hg, rfl⟩ := mem_map.mp hi
      obtain ⟨g', hg', rfl⟩ := mem_map.mp hj
      have hlt := h.numbered g hg
      rw [hij, standaloneAcknowledgement_id hg'] at hlt
      omega
  have hle : ∀ g, gapCount s.standaloneAcknowledgements g +
      (gapsIn [(r.key, s.standaloneAcknowledgement r)]).count g ≤
        (s.acknowledgedGaps ++ (s.standaloneAcknowledgement r).coverageGapAcknowledgements).count g := by
    intro g
    have hold := h.placed g
    rw [gapsIn_single, count_append]
    omega
  refine ⟨fun g => ?_, (congrArg (fun l => (l.map (·.id)).Nodup) hmap).mpr hids, fun g hg => ?_⟩
  · have hold := h.placed g
    have hafter := pendingAfter_count hids hle g
    rw [gapsIn_single] at hafter
    have hset : (s.preparedFlushes.set (.uuid s.uuid) (s.standaloneFlush r)).sumOf (fun p =>
        (gapsIn p.standaloneAcknowledgements).count g) = s.preparedGapCount g + 0 :=
      sumOf_set_of_none _ _ hnamed
    have hget : (s.preparedFlushes.set (.uuid s.uuid) (s.standaloneFlush r)).get (.uuid s.uuid) =
        some (s.standaloneFlush r) := by
      rw [get_set, if_pos rfl]
    have hdelete : ((s.preparedFlushes.set (.uuid s.uuid) (s.standaloneFlush r)).delete
        (.uuid s.uuid)).sumOf (fun p => (gapsIn p.standaloneAcknowledgements).count g) + 0 =
        (s.preparedFlushes.set (.uuid s.uuid) (s.standaloneFlush r)).sumOf (fun p =>
          (gapsIn p.standaloneAcknowledgements).count g) := sumOf_delete _ hget
    have hdelivered : ((s.emitted ++ [(s.standaloneFlush r, result)]).map fun e =>
        (gapsIn e.1.standaloneAcknowledgements).count g).sum = s.deliveredGapCount g + 0 :=
      deliveredGapCount_append (s.standaloneFlush r) result g
    show gapCount (s.pendingAfter [(r.key, s.standaloneAcknowledgement r)]) g +
      (gapsIn []).count g + other g +
      ((s.preparedFlushes.set (.uuid s.uuid) (s.standaloneFlush r)).delete
        (.uuid s.uuid)).sumOf (fun p => (gapsIn p.standaloneAcknowledgements).count g) +
      ((s.emitted ++ [(s.standaloneFlush r, result)]).map fun e =>
        (gapsIn e.1.standaloneAcknowledgements).count g).sum +
      (gapsIn (s.dropped ++ s.droppedBy [(r.key, s.standaloneAcknowledgement r)])).count g =
        ((s.acknowledged ++ (s.standaloneAcknowledgement r).coverageGapAcknowledgements.map
          (Prod.mk r.key.fileKey)).map Prod.snd).count g
    rw [hmap, gapsIn_append, count_append, count_append]
    omega
  · have hg' : g ∈ (s.acknowledged ++ (s.standaloneAcknowledgement
        r).coverageGapAcknowledgements.map (Prod.mk r.key.fileKey)).map Prod.snd := hg
    rw [hmap] at hg'
    rcases mem_append.mp hg' with hg | hg
    · exact Nat.lt_add_right 2 (h.numbered g hg)
    · rw [standaloneAcknowledgement_id hg]
      exact Nat.lt_succ_self _

theorem AckPlaced.forget (h : AckPlaced other s acks) (now : Nat) :
    AckPlaced other (s.forget now) acks := by
  refine ⟨fun g => ?_, h.ids, h.numbered⟩
  have hold := h.placed g
  have hsplit := filter_append_perm
    (fun e : ResourceKey × StandaloneAcknowledgement =>
      decide (now ≤ e.2.timestamp + standaloneAcknowledgementTtl))
    s.standaloneAcknowledgements.entries
  have hcount := (hsplit.flatMap_right fun e => e.2.coverageGapAcknowledgements).count_eq g
  rw [flatMap_append, count_append] at hcount
  have hpending := gapCount_eq s.standaloneAcknowledgements g
  have hkept : gapCount (s.standaloneAcknowledgements.filter fun _ ack =>
      decide (now ≤ ack.timestamp + standaloneAcknowledgementTtl)) g =
    (gapsIn (s.standaloneAcknowledgements.entries.filter fun e =>
      decide (now ≤ e.2.timestamp + standaloneAcknowledgementTtl))).count g := gapCount_eq _ g
  show gapCount (s.standaloneAcknowledgements.filter fun _ ack =>
      decide (now ≤ ack.timestamp + standaloneAcknowledgementTtl)) g + (gapsIn acks).count g +
    other g + s.preparedGapCount g + s.deliveredGapCount g +
    (gapsIn (s.dropped ++ s.standaloneAcknowledgements.entries.filter fun e =>
      !decide (now ≤ e.2.timestamp + standaloneAcknowledgementTtl))).count g =
      s.acknowledgedGaps.count g
  rw [gapsIn_append, count_append]
  unfold gapsIn at *
  omega

variable {ok : Store → PreparedFlush → Prop} {f : FileKey} {a b : Holding}

def Unprepared (s : Store) (p : PreparedFlush) : Prop := s.preparedFlushes.get p.token = none

theorem Move.keepsAckPlaced (hok : ∀ s p, ok s p → Unprepared s p) (h : Move ok f (s, a) (t, b))
    (hnamed : s.preparedFlushes.get (.uuid s.uuid) = none) (hs : AckPlaced other s a.acks) :
    AckPlaced other t b.acks := by
  cases h with
  | quiet h =>
    exact hs.of_same ⟨h.pending, h.preparedFlushes, h.emitted, h.dropped, h.acknowledged, h.uuid⟩
  | create _ _ _ _ | touch _ _ _ | track _ _ | skip _ _ _ | restore _ _ =>
    exact hs.of_same ⟨rfl, rfl, rfl, rfl, rfl, rfl⟩
  | claim r _ hclaim =>
    obtain ⟨-, rfl⟩ := prepareResourceNow_eq hclaim
    exact hs.of_same ⟨rfl, rfl, rfl, rfl, rfl, rfl⟩
  | take limit => exact hs.take f limit
  | restoreAcks acks => exact hs.restoreAcks
  | pass p _ _ _ _ _ hallowed => exact hs.pass p (hok s p hallowed)
  | standalone r => exact hs.standalone hnamed
  | commit token p hget => exact hs.commit token p hget
  | cancel token p hget _ _ => exact hs.cancel token p hget
  | settle token result hnone =>
    obtain ⟨settled, -, heq⟩ := recordSettledFlush_eq s token result
    rw [heq]
    exact hs.of_same ⟨rfl, rfl, rfl, rfl, rfl, rfl⟩
  | forget now => exact hs.forget now

end Store

end Fumie.AgentHost.EditAttribution
