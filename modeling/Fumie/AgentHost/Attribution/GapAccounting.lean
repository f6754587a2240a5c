import Fumie.AgentHost.Attribution.Cutoffs

/-!
# The account of the gaps over whole runs

In runs in which no flush is prepared while another prepared flush of its file holds a
coverage gap, every gap acknowledgement stays in exactly one place, and whatever was
committed with a cutoff, no gap up to it is pending or prepared any more.
-/

namespace Fumie.AgentHost.EditAttribution

open Fumie.Lib List Record Store Work

namespace Store

variable {other : TrackedResource → Nat} {otherGaps : CoverageGapAcknowledgement → Nat}
  {s t : Store} {held : List TrackedResource} {f : FileKey} {token : Token} {p : PreparedFlush}

/-! ## The moves -/

theorem Placed.created_of_prepared (h : Placed other s held)
    (hget : s.preparedFlushes.get token = some p) : ∀ a ∈ p.resources, a ∈ s.created := by
  intro a ha
  have hplaced := h.placed a
  have hle := count_le_preparedCount (r := a) hget
  have hpos := count_pos_iff.mpr ha
  exact count_pos_iff.mp (by omega)

theorem Placed.created_of_emitted (h : Placed other s held) {x : PreparedFlush × FlushResult}
    (hx : x ∈ s.emitted) : ∀ a ∈ x.1.resources, a ∈ s.created := by
  intro a ha
  have hplaced := h.placed a
  have hle := count_le_emittedCount (r := a) hx
  have hpos := count_pos_iff.mpr ha
  exact count_pos_iff.mp (by omega)

theorem Unprepared.noneReplaced (h : s.Unprepared p) : s.NoneReplaced p := by
  intro q hq
  rw [h] at hq
  cases hq

theorem createResource_sameRecords (h : Placed other s held) (key : ResourceKey)
    (hasContent : Bool) : SameRecords s (s.createResource key hasContent) := by
  have hout : ∀ {a : TrackedResource}, s.fields.length ≤ a.id →
      s.fieldsOf a = ⟨false, none, [], 0, 0⟩ := by
    intro a hle
    unfold fieldsOf
    rw [getD_eq_getElem?_getD, getElem?_eq_none hle]
    rfl
  refine ⟨fun a => ?_, rfl, rfl, rfl, [⟨s.fields.length, key⟩], rfl, fun a ha => ⟨?_, ?_⟩⟩
  · have hnew : (s.createResource key hasContent).fieldsOf a =
        (s.fields ++ [(⟨hasContent, none, [], 0, 0⟩ : ResourceFields)]).getD a.id
          ⟨false, none, [], 0, 0⟩ := rfl
    unfold gapFields gapsOf
    by_cases hlt : a.id < s.fields.length
    · rw [hnew, getD_append _ _ _ _ hlt]
      rfl
    · rw [hout (Nat.not_lt.mp hlt), hnew, getD_append_right _ _ _ _ (Nat.not_lt.mp hlt)]
      cases a.id - s.fields.length with
      | zero | succ _ => rfl
  · rw [mem_singleton.mp ha]
    unfold gapsOf
    have hnew : s.fieldsOf ⟨s.fields.length, key⟩ = ⟨false, none, [], 0, 0⟩ := hout (Nat.le_refl _)
    rw [hnew]
  · rw [mem_singleton.mp ha]
    intro b hb hid
    rcases mem_append.mp hb with hb | hb
    · have hlt := h.numbered b hb
      rw [hid] at hlt
      exact absurd hlt (Nat.lt_irrefl _)
    · exact mem_singleton.mp hb

variable {ok : Store → PreparedFlush → Prop} {a b : Holding}

theorem Move.keepsFiled (h : Move ok f (s, a) (t, b)) (hin : s.InFiles f a)
    (hs : s.FiledAcks f a.acks) : t.FiledAcks f b.acks := by
  cases h with
  | quiet h =>
    exact hs.of_same ⟨h.pending, h.preparedFlushes, h.emitted, h.dropped, h.acknowledged, h.uuid⟩
  | create _ _ _ _ | touch _ _ _ | track _ _ | skip _ _ _ | restore _ _ =>
    exact hs.of_same ⟨rfl, rfl, rfl, rfl, rfl, rfl⟩
  | claim r _ hclaim =>
    obtain ⟨-, rfl⟩ := prepareResourceNow_eq hclaim
    exact hs.of_same ⟨rfl, rfl, rfl, rfl, rfl, rfl⟩
  | take limit => exact hs.take limit
  | restoreAcks acks => exact hs.restoreAcks
  | pass p hfile _ _ _ _ _ => exact hs.pass p hfile
  | standalone r => exact hs.standalone
  | commit token p hget => exact hs.commit token p hget (hin.prepared token p hget)
  | cancel token p hget _ _ => exact hs.cancel token p hget
  | settle token result hnone =>
    obtain ⟨settled, -, heq⟩ := recordSettledFlush_eq s token result
    rw [heq]
    exact hs.of_same ⟨rfl, rfl, rfl, rfl, rfl, rfl⟩
  | forget now => exact hs.forget now

theorem Later.of_fields (hfields : t.fields = s.fields) (hcreated : t.created = s.created)
    (hsequence : t.sequence = s.sequence) (hskipped : t.skipped = s.skipped)
    (hacknowledged : t.acknowledged = s.acknowledged) (hemitted : t.emitted = s.emitted)
    (hdropped : ∃ more, t.dropped = s.dropped ++ more)
    (hprepared : ∀ token p, t.preparedFlushes.get token = some p →
      s.preparedFlushes.get token = some p) : Later s t where
  toSameRecords := .of_fields hfields hcreated hsequence hskipped hacknowledged
  emitted := hemitted
  dropped := hdropped
  prepared := hprepared

theorem SameCollections.later (h : SameCollections s t) : Later s t := by
  refine .of_fields h.fields h.created h.sequence h.skipped h.acknowledged h.emitted
    ⟨[], ?_⟩ fun token p hget => ?_
  · rw [h.dropped, append_nil]
  · rw [h.preparedFlushes] at hget
    exact hget

theorem recordSettledFlush_later (s : Store) (token : Token) (result : FlushResult) :
    Later s (s.recordSettledFlush token result) := by
  obtain ⟨settled, -, heq⟩ := recordSettledFlush_eq s token result
  rw [heq]
  exact .of_fields rfl rfl rfl rfl rfl rfl ⟨[], (append_nil _).symm⟩ fun _ _ h => h

theorem forget_later (s : Store) (now : Nat) : Later s (s.forget now) :=
  .of_fields rfl rfl rfl rfl rfl rfl ⟨_, rfl⟩ fun _ _ h => h

theorem Move.known (h : Move ok f (s, a) (t, b)) : ∀ x ∈ s.acknowledged, x ∈ t.acknowledged := by
  cases h with
  | quiet h =>
    rw [h.acknowledged]
    exact fun x hx => hx
  | claim r _ hclaim =>
    obtain ⟨-, rfl⟩ := prepareResourceNow_eq hclaim
    exact fun x hx => hx
  | standalone r =>
    rw [(finishStandalone_handsOn s r).acknowledged]
    exact fun x hx => mem_append_left _ hx
  | commit token p hget =>
    rw [(settleCommitted_passes s token p).acknowledged]
    exact fun x hx => hx
  | cancel token p _ _ _ =>
    obtain ⟨settled, -, heq⟩ := settleCancelled_eq s token p
    rw [heq]
    exact fun x hx => hx
  | settle token result _ =>
    rw [(recordSettledFlush_later s token result).acknowledged]
    exact fun x hx => hx
  | restoreAcks acks =>
    rw [restoreStandaloneAcknowledgements_eq]
    exact fun x hx => hx
  | _ => exact fun x hx => hx

theorem Move.keepsGaps (hok : ∀ s p, ok s p → s.Clear p) (h : Move ok f (s, a) (t, b))
    (hs : GapAccount other otherGaps f s a) : GapAccount other otherGaps f t b := by
  have hackPlaced : AckPlaced otherGaps t b.acks :=
    h.keepsAckPlaced (fun s p hp => (hok s p hp).unprepared) (hs.placed.named s.uuid) hs.ackPlaced
  have hfiled : t.FiledAcks f b.acks := h.keepsFiled hs.inFiles hs.filed
  have hlater : Later s t → t.Recorded ∧ t.Cutoffs := fun hlater =>
    ⟨hs.recorded.same hlater.toSameRecords, hs.cutoffs.later hlater⟩
  have hedits : ∀ r : TrackedResource, s.resources.get r.key = some r → Edits s t r →
      t.Recorded ∧ t.Cutoffs := by
    intro r hget hedits
    have hhand := hs.placed.atHand_of_live hget
    exact ⟨hs.recorded.edits hedits hhand.created, hs.cutoffs.edits hedits hs.recorded hhand
      (fun token p hget => hs.placed.created_of_prepared hget)
      (fun x hx => hs.placed.created_of_emitted hx)⟩
  have hnumbered : ∀ r : TrackedResource, s.resources.get r.key = some r →
      r.id < s.fields.length := fun r hget =>
    hs.placed.numbered r (hs.placed.atHand_of_live hget).created
  have hsame : ∃ more, s.dropped = s.dropped ++ more := ⟨[], (append_nil _).symm⟩
  have hkept : t.Recorded ∧ t.Cutoffs := by
    cases h with
    | quiet h => exact hlater h.later
    | create key hasContent _ _ =>
      exact hlater ⟨createResource_sameRecords hs.placed key hasContent, rfl, hsame, fun _ _ h => h⟩
    | touch _ _ _ | restore _ _ | take _ =>
      exact hlater (.of_fields rfl rfl rfl rfl rfl rfl hsame fun _ _ h => h)
    | track r hget => exact hedits r hget (trackEdit_edits (hnumbered r hget))
    | skip r _ hget => exact hedits r hget (skipEdit_edits (hnumbered r hget))
    | claim r _ hclaim =>
      obtain ⟨-, rfl⟩ := prepareResourceNow_eq hclaim
      exact hlater (.of_fields rfl rfl rfl rfl rfl rfl hsame fun _ _ h => h)
    | restoreAcks acks =>
      rw [restoreStandaloneAcknowledgements_eq] at hlater ⊢
      exact hlater (.of_fields rfl rfl rfl rfl rfl rfl ⟨_, rfl⟩ fun _ _ h => h)
    | pass p hfile hceiling hclient _ hlisted hallowed =>
      exact ⟨hs.recorded.same (.of_fields rfl rfl rfl rfl rfl),
        hs.pass hfile hceiling hclient hlisted (hok s p hallowed)⟩
    | standalone r =>
      have hhands := finishStandalone_handsOn s r
      exact ⟨hs.recorded.handsOn hhands, hs.cutoffs.handsOn hhands hs.recorded
        (hs.placed.atHand_of_held mem_cons_self)⟩
    | commit token p hget =>
      have hpasses := settleCommitted_passes s token p
      have hrecorded := hs.recorded.passes hpasses
      exact ⟨hrecorded, hs.cutoffs.passes hpasses hget rfl hrecorded hackPlaced hfiled⟩
    | cancel token p _ _ _ =>
      obtain ⟨settled, -, heq⟩ := settleCancelled_eq s token p
      rw [heq]
      rw [heq] at hlater
      exact hlater (.of_fields rfl rfl rfl rfl rfl rfl ⟨_, rfl⟩ fun _ _ h => get_of_delete h)
    | settle token result _ => exact hlater (recordSettledFlush_later s token result)
    | forget now => exact hlater (forget_later s now)
  exact ⟨h.keepsPlaced (fun s p hp => (hok s p hp).unprepared.noneReplaced) hs.placed,
    (h.inFiles hs.inFiles).1, hackPlaced, hfiled, hkept.1, hkept.2, hs.elsewhere,
    fun g hg => by
      obtain ⟨f', hne, hack⟩ := hs.elsewhereGaps g hg
      exact ⟨f', hne, h.known _ hack⟩⟩

theorem Moves.keepsGaps (hok : ∀ s p, ok s p → s.Clear p) (h : Moves ok f (s, a) (t, b))
    (hs : GapAccount other otherGaps f s a) : GapAccount other otherGaps f t b := by
  have hmove : ∀ u a v b, Move ok f (u, a) (v, b) → GapAccount other otherGaps f u a →
      GapAccount other otherGaps f v b := fun _ _ _ _ hmove hgaps => hmove.keepsGaps hok hgaps
  exact Moves.invariant hmove h hs

theorem Moves.known {a b : Store × Holding} (h : Moves ok f a b) :
    ∀ x ∈ a.1.acknowledged, x ∈ b.1.acknowledged := by
  induction h with
  | refl => exact fun x hx => hx
  | tail _ hlast ih => exact fun x hx => hlast.known x (ih x hx)

variable {acks : List (ResourceKey × StandaloneAcknowledgement)}

variable {rest : CoverageGapAcknowledgement → Nat}

theorem AckPlaced.focus (h : AckPlaced otherGaps s [])
    (hsum : ∀ g, otherGaps g = rest g + (gapsIn acks).count g) : AckPlaced rest s acks where
  placed := by
    intro g
    have hold := h.placed g
    rw [gapsIn_nil, count_nil, hsum g] at hold
    omega
  ids := h.ids
  numbered := h.numbered

theorem AckPlaced.unfocus (h : AckPlaced rest s acks)
    (hsum : ∀ g, otherGaps g = rest g + (gapsIn acks).count g) : AckPlaced otherGaps s [] where
  placed := by
    intro g
    have hold := h.placed g
    rw [gapsIn_nil, count_nil, hsum g]
    omega
  ids := h.ids
  numbered := h.numbered

theorem FiledAcks.unfocus {f' : FileKey} (h : s.FiledAcks f acks) : s.FiledAcks f' [] :=
  ⟨h.pending, fun _ he => absurd he not_mem_nil, h.prepared, h.emitted, h.dropped⟩

end Store

namespace State

/-- The step prepares a flush while its token has one, or while another prepared flush of
its file holds a coverage gap. -/
def Overtakes (s : State) : Event → Prop
  | .runSlot f _ =>
    match s.head f with
    | some (id, task) => ∃ taken p, s.store.Stores id task.work taken p ∧ ¬taken.Clear p
    | none => False
  | _ => False

/-- The step prepares no flush beside a gap that is out of sight. -/
structure Clear (s : State) (e : Event) : Prop where
  apart : ¬s.Overtakes e
  stays : ¬s.CancelsElsewhere e

variable {id : Nat} {task : Task} {f : FileKey}

theorem clear_of_stores {s : State} {o : Outcome} (hhead : s.head f = some (id, task))
    (h : ¬s.Overtakes (.runSlot f o)) (taken : Store) (p : PreparedFlush)
    (hstores : s.store.Stores id task.work taken p) : taken.Clear p := by
  unfold Overtakes at h
  dsimp only at h
  rw [hhead] at h
  by_contra hnot
  exact h ⟨taken, p, hstores, hnot⟩

def takenCount (s : State) (g : CoverageGapAcknowledgement) : Nat :=
  s.tasks.sumOf fun task => (gapsIn task.work.acks).count g

def takenByOthers (s : State) (id : Nat) (g : CoverageGapAcknowledgement) : Nat :=
  (s.tasks.delete id).sumOf fun task => (gapsIn task.work.acks).count g

theorem takenByOthers_add {s : State} (h : s.tasks.get id = some task)
    (g : CoverageGapAcknowledgement) :
    s.takenByOthers id g + (gapsIn task.work.acks).count g = s.takenCount g :=
  sumOf_delete _ h

structure GapAccounted (s : State) : Prop where
  accounted : s.Accounted
  ackPlaced : Store.AckPlaced s.takenCount s.store []
  taken : ∀ id task, s.tasks.get id = some task → ∀ e ∈ task.work.acks,
    Store.Belongs s.store.acknowledged e ∧ e.2.fileKey = task.fileKey
  filed : ∀ f, s.store.FiledAcks f []
  recorded : s.store.Recorded
  cutoffs : s.store.Cutoffs

theorem GapAccounted.initial : State.initial.GapAccounted where
  accounted := Accounted.initial
  ackPlaced := ⟨fun g => rfl, nodup_nil, fun g hg => absurd hg not_mem_nil⟩
  taken := nofun
  filed := fun f => {
    pending := nofun
    taken := fun e he => absurd he not_mem_nil
    prepared := nofun
    emitted := fun x hx => absurd hx not_mem_nil
    dropped := fun e he => absurd he not_mem_nil }
  recorded := ⟨fun a ha => absurd ha not_mem_nil, fun r hr => absurd rfl hr,
    fun r q hq => absurd hq not_mem_nil, fun r => Nat.le_refl 0,
    fun f g hg => absurd hg not_mem_nil, fun f q hq => absurd hq not_mem_nil⟩
  cutoffs := {
    clients := nofun
    handedOn := fun x hx => absurd hx not_mem_nil
    prepared := nofun
    passed := fun x hx => absurd hx not_mem_nil
    delivered := fun pre x post h => absurd h.symm (append_ne_nil_of_right_ne_nil _
      (cons_ne_nil x post)) }

theorem Outside.later {s t : Store} (h : Outside s t) : Store.Later s t := by
  rcases h with h | ⟨token, result, -, rfl⟩ | ⟨now, rfl⟩
  · exact h.later
  · exact Store.recordSettledFlush_later s token result
  · exact Store.forget_later s now

variable {store : Store} {s : State}

theorem GapAccounted.outside (h : s.GapAccounted) (hout : Outside s.store store) :
    ({ s with store := store } : State).GapAccounted where
  accounted := h.accounted.outside hout
  ackPlaced := (hout.move Store.Unprepared "" ⟨[], []⟩).keepsAckPlaced (fun _ _ h => h)
    (h.accounted.placed.named s.store.uuid) h.ackPlaced
  taken := by
    intro id task hget e he
    obtain ⟨hbelongs, hfile⟩ := h.taken id task hget e he
    refine ⟨?_, hfile⟩
    rw [hout.later.acknowledged]
    exact hbelongs
  filed := by
    intro f
    have hin : s.store.InFiles f ⟨[], []⟩ := ⟨h.accounted.slotted.keyed,
      h.accounted.slotted.prepared, fun r hr => absurd hr not_mem_nil⟩
    exact (hout.move Store.Unprepared f ⟨[], []⟩).keepsFiled hin (h.filed f)
  recorded := h.recorded.same hout.later.toSameRecords
  cutoffs := h.cutoffs.later hout.later

variable {work : Work}

theorem GapAccounted.queue (h : s.GapAccounted) (hfresh : Fresh f work) :
    (s.queue f work).GapAccounted := by
  have hacks := acks_of_not_started hfresh.notStarted
  refine ⟨h.accounted.queue hfresh, h.ackPlaced.unfocus fun g => ?_, fun id task hget => ?_,
    h.filed, h.recorded, h.cutoffs⟩
  · have hset := sumOf_set_of_none (fun task : Task => (gapsIn task.work.acks).count g)
      (⟨f, work⟩ : Task) h.accounted.slotted.unused
    rw [hacks] at hset
    exact hset
  · rcases get_queue hget with hget | ⟨-, rfl⟩
    · exact h.taken id task hget
    · rw [hacks]
      exact fun e he => absurd he not_mem_nil

theorem GapAccounted.idle {id' : Nat} {task' : Task} (h : s.GapAccounted)
    (hhead : s.head f = some (id, task)) (hne : id' ≠ id) (hget : s.tasks.get id' = some task')
    (hfile : task'.fileKey = f) : task'.work.held = [] ∧ task'.work.acks = [] := by
  have hnot : ¬task'.work.Started := fun hstarted =>
    h.accounted.slotted.other_file hhead hne hget hstarted hfile
  exact ⟨held_of_not_started hnot, acks_of_not_started hnot⟩

theorem GapAccounted.focus (h : s.GapAccounted) (hhead : s.head f = some (id, task)) :
    Store.GapAccount (s.heldByOthers id) (s.takenByOthers id) f s.store task.work.holding := by
  obtain ⟨hget, hfile⟩ := mem_of_head hhead
  have hothers : ∀ {id' task'}, (s.tasks.delete id).get id' = some task' →
      id' ≠ id ∧ s.tasks.get id' = some task' := by
    intro id' task' h'
    rw [get_delete] at h'
    split at h'
    · cases h'
    · next hne => exact ⟨Ne.symm hne, h'⟩
  have hin := h.accounted.slotted.inFiles hget
  rw [hfile] at hin
  have hold := h.filed f
  refine ⟨h.accounted.focus hget, hin, h.ackPlaced.focus fun g => (takenByOthers_add hget g).symm,
    ⟨hold.pending, fun e he => ?_, hold.prepared, hold.emitted, hold.dropped⟩, h.recorded,
    h.cutoffs, fun r hr => ?_, fun g hg => ?_⟩
  · rw [← hfile]
    exact h.taken id task hget e he
  · by_contra hpos
    obtain ⟨id', task', hget', hcount⟩ := exists_pos_of_sumOf (Nat.pos_of_ne_zero hpos)
    obtain ⟨hne, hget'⟩ := hothers hget'
    have hmem := count_pos_iff.mp hcount
    have hown := (h.accounted.slotted.filed id' task' hget').held r hmem
    rw [(h.idle hhead hne hget' (hown.symm.trans hr)).1] at hmem
    exact absurd hmem not_mem_nil
  · obtain ⟨id', task', hget', hcount⟩ := exists_pos_of_sumOf hg
    obtain ⟨hne, hget'⟩ := hothers hget'
    obtain ⟨e, he, hge⟩ := mem_gapsIn.mp (count_pos_iff.mp hcount)
    obtain ⟨hbelongs, hown⟩ := h.taken id' task' hget' e he
    refine ⟨task'.fileKey, fun hsame => ?_, ?_⟩
    · rw [(h.idle hhead hne hget' hsame).2] at he
      exact absurd he not_mem_nil
    · rw [← hown]
      exact hbelongs.gaps g hge

theorem GapAccounted.goOn (h : s.GapAccounted) (hhead : s.head f = some (id, task))
    (haccounted : (s.advance id task store (.goOn work)).Accounted)
    (hknown : ∀ x ∈ s.store.acknowledged, x ∈ store.acknowledged)
    (hgaps : Store.GapAccount (s.heldByOthers id) (s.takenByOthers id) f store work.holding) :
    (s.advance id task store (.goOn work)).GapAccounted := by
  obtain ⟨hget, rfl⟩ := mem_of_head hhead
  refine ⟨haccounted, hgaps.ackPlaced.unfocus fun g => ?_, fun id' task' h' e he => ?_,
    fun f => hgaps.filed.unfocus, hgaps.recorded, hgaps.cutoffs⟩
  · have hset : (s.advance id task store (.goOn work)).takenCount g +
        (gapsIn task.work.acks).count g = s.takenCount g + (gapsIn work.acks).count g :=
      sumOf_set _ _ hget
    have hold := takenByOthers_add hget g
    show _ = s.takenByOthers id g + (gapsIn work.acks).count g
    omega
  · have hget' : (s.tasks.set id { task with work := work }).get id' = some task' := h'
    rw [get_set] at hget'
    split at hget'
    · cases hget'
      exact hgaps.filed.taken e he
    · obtain ⟨hbelongs, hfile⟩ := h.taken id' task' hget' e he
      exact ⟨hbelongs.mono hknown, hfile⟩

theorem GapAccounted.ended {fulfilled : Bool} (h : s.GapAccounted)
    (haccounted : (s.advance id task store (.ended fulfilled)).Accounted)
    (hknown : ∀ x ∈ s.store.acknowledged, x ∈ store.acknowledged)
    (hgaps : Store.GapAccount (s.heldByOthers id) (s.takenByOthers id) f store ⟨[], []⟩) :
    (s.advance id task store (.ended fulfilled)).GapAccounted := by
  refine ⟨haccounted, hgaps.ackPlaced, fun id' task' h' e he => ?_,
    fun f => hgaps.filed.unfocus, hgaps.recorded, hgaps.cutoffs⟩
  obtain ⟨hbelongs, hfile⟩ := h.taken id' task' (Store.get_of_delete h') e he
  exact ⟨hbelongs.mono hknown, hfile⟩

theorem GapAccounted.advance {next : Next} {ok : Store → PreparedFlush → Prop} (h : s.GapAccounted)
    (hhead : s.head f = some (id, task)) (hok : ∀ s p, ok s p → s.Clear p)
    (hmoves : Store.Moves ok f (s.store, task.work.holding) (store, next.holding))
    (hfits : next.Fits s.store store f task.work) :
    (s.advance id task store next).GapAccounted := by
  have haccounted := h.accounted.advance hhead
    (fun s p hp => (hok s p hp).unprepared.noneReplaced) hmoves hfits
  have hgaps := hmoves.keepsGaps hok (h.focus hhead)
  have hknown := hmoves.known
  cases next with
  | goOn work => exact h.goOn hhead haccounted hknown hgaps
  | ended fulfilled => exact h.ended haccounted hknown hgaps
  | await edit r =>
    obtain ⟨-, -, hedit, -⟩ := hfits
    obtain ⟨hget, hfile⟩ := mem_of_head hhead
    have hstart := h.accounted.slotted.inFiles hget
    rw [hfile] at hstart
    obtain ⟨hin, hkept⟩ := hmoves.inFiles hstart
    let work : Work := .recordEdit edit (.waitingForSlot r.key.fileKey s.nextTask)
    have hfiled : work.FiledUnder f := ⟨hedit, fun a ha => absurd ha not_mem_nil⟩
    have hwaiting : (s.advance id task store (.goOn work)).Accounted :=
      h.accounted.goOn hhead (h.accounted.slotted.goOn hhead hin hkept hfiled trivial) hkept
        hgaps.placed
    exact (h.goOn hhead hwaiting hknown hgaps).queue ⟨rfl, nofun⟩

theorem GapAccounted.step {t : State} {e : Event} (h : s.GapAccounted) (hclear : s.Clear e)
    (hstep : s.step e = some t) : t.GapAccounted := by
  refine step_invariant Clear (fun s store h hout => h.outside hout)
    (fun s f work h hfresh => h.queue hfresh) ?_ s e t h hclear hstep
  intro s f o id task store next h hclear hhead hsection
  obtain ⟨hmoves, hfits⟩ := h.accounted.slotted.slot (clear_of_stores hhead hclear.apart)
    (not_cancelsElsewhere hhead hclear.stays) hhead hsection
  exact h.advance hhead (fun _ _ h => h) hmoves hfits

theorem GapAccounted.of_reachable (h : system.ReachableVia Clear s) : s.GapAccounted := by
  refine h.invariant ?_ fun s e t hs hok hstep => hs.step hok hstep
  rintro s rfl
  exact GapAccounted.initial

/-! ## What is kept -/

def keptAcknowledgements (s : State) : List (ResourceKey × StandaloneAcknowledgement) :=
  s.store.standaloneAcknowledgements.entries ++ s.tasks.entries.flatMap (fun e => e.2.work.acks) ++
    s.store.preparedFlushes.entries.flatMap fun e => e.2.standaloneAcknowledgements

def deliveredAcknowledgements (s : State) : List (ResourceKey × StandaloneAcknowledgement) :=
  s.store.emitted.flatMap fun x => x.1.standaloneAcknowledgements

def gapPlaces (s : State) : List CoverageGapAcknowledgement :=
  gapsIn (s.keptAcknowledgements ++ s.deliveredAcknowledgements ++ s.store.dropped)

inductive Remaining (s : State) (f : FileKey) (q : Nat) : Prop
  | tracked (r : TrackedResource)
      (hr : r ∈ s.liveResources ++ s.heldResources ++ s.preparedResources)
      (hfile : r.key.fileKey = f) (hgap : q ∈ s.store.gapsOf r)
  | acknowledged (e : ResourceKey × StandaloneAcknowledgement) (he : e ∈ s.keptAcknowledgements)
      (hfile : e.2.fileKey = f) (g : CoverageGapAcknowledgement)
      (hg : g ∈ e.2.coverageGapAcknowledgements) (hgap : q ∈ g.sequences)

structure GapsKept (s : State) : Prop where
  once : ∀ g ∈ s.store.acknowledgedGaps, s.gapPlaces.count g = 1
  ids : (s.store.acknowledgedGaps.map (·.id)).Nodup
  delivered : ∀ pre x post, s.store.emitted = pre ++ x :: post →
    ∀ token, x.1.token = .client token → ∀ c, x.2.coverageGapThroughSequence = some c →
      ∀ q, (x.1.fileKey, q) ∈ s.store.skipped → q ≤ c →
        (∃ y ∈ pre ++ [x], s.store.Delivers y.1 x.1.fileKey q) ∨ s.store.DroppedGap x.1.fileKey q
  gone : ∀ x ∈ s.store.emitted, ∀ token, x.1.token = .client token →
    ∀ c, x.2.coverageGapThroughSequence = some c → ∀ q, s.Remaining x.1.fileKey q → c < q

theorem gapsIn_flatMap_count {α : Type} (l : List α)
    (h : α → List (ResourceKey × StandaloneAcknowledgement)) (g : CoverageGapAcknowledgement) :
    (gapsIn (l.flatMap h)).count g = (l.map fun a => (gapsIn (h a)).count g).sum := by
  unfold gapsIn
  rw [flatMap_assoc, count_flatMap]
  rfl

theorem gapPlaces_count (s : State) (g : CoverageGapAcknowledgement) :
    s.gapPlaces.count g = gapCount s.store.standaloneAcknowledgements g + s.takenCount g +
      s.store.preparedGapCount g + s.store.deliveredGapCount g + (gapsIn s.store.dropped).count g := by
  unfold gapPlaces keptAcknowledgements deliveredAcknowledgements
  rw [gapsIn_append, gapsIn_append, gapsIn_append, gapsIn_append, count_append,
    count_append, count_append, count_append, gapsIn_flatMap_count,
    gapsIn_flatMap_count, gapsIn_flatMap_count, ← gapCount_eq]
  rfl

theorem GapAccounted.gapPlaces_count_eq (h : s.GapAccounted) (g : CoverageGapAcknowledgement) :
    s.gapPlaces.count g = s.store.acknowledgedGaps.count g := by
  have hplaced := h.ackPlaced.placed g
  rw [Store.gapsIn_nil, count_nil] at hplaced
  rw [gapPlaces_count]
  omega

theorem GapAccounted.nodup (h : s.GapAccounted) : s.store.acknowledgedGaps.Nodup :=
  List.Nodup.of_map _ h.ackPlaced.ids

theorem GapAccounted.kept_belongs (h : s.GapAccounted) :
    ∀ e ∈ s.keptAcknowledgements, Store.Belongs s.store.acknowledged e := by
  intro e he
  rcases mem_append.mp he with he | he
  · rcases mem_append.mp he with he | he
    · exact (h.filed "").pending e.1 e.2 (Record.get_of_mem he)
    · obtain ⟨x, hx, hmem⟩ := mem_flatMap.mp he
      exact (h.taken x.1 x.2 (Record.get_of_mem hx) e hmem).1
  · obtain ⟨x, hx, hmem⟩ := mem_flatMap.mp he
    exact ((h.filed "").prepared x.1 x.2 (Record.get_of_mem hx) e hmem).1

theorem GapAccounted.outstanding {s : State} (h : s.GapAccounted) {f : FileKey} {q : Nat}
    (hq : s.Remaining f q) : s.store.Outstanding [] [] f q := by
  cases hq with
  | tracked r hr hfile hgap =>
    have hplaced := h.accounted.placed.placed r
    have hunique := h.accounted.placed.unique r
    rw [count_nil] at hplaced
    have hplaces := places_count s r
    unfold places at hplaces
    rw [count_append] at hplaces
    have hpos := count_pos_iff.mpr hr
    refine .tracked r (count_pos_iff.mp (by omega)) hfile hgap (fun x hx hmem => ?_) not_mem_nil
    have hemitted : 0 < s.emittedResources.count r :=
      count_pos_iff.mpr (mem_flatMap.mpr ⟨x, hx, hmem⟩)
    omega
  | acknowledged e he hfile g hg hgap =>
    have hcount := h.gapPlaces_count_eq g
    have hunique := nodup_iff_count_le_one.mp h.nodup g
    unfold gapPlaces at hcount
    rw [gapsIn_append, gapsIn_append, count_append, count_append] at hcount
    have hpos := count_pos_iff.mpr (mem_gapsIn.mpr ⟨e, he, hg⟩)
    have hack := (h.kept_belongs e he).gaps g hg
    rw [hfile] at hack
    refine .acknowledged g hack hgap (fun x hx hmem => ?_) (fun hmem => ?_) not_mem_nil
    · obtain ⟨e', he', hg'⟩ := mem_gapsIn.mp hmem
      have hdelivered := count_pos_iff.mpr (mem_gapsIn.mpr
        ⟨e', mem_flatMap.mpr ⟨x, hx, he'⟩, hg'⟩ : g ∈ gapsIn s.deliveredAcknowledgements)
      omega
    · have hdropped := count_pos_iff.mpr hmem
      omega

theorem gaps_kept {s : State} (h : system.ReachableVia Clear s) : s.GapsKept := by
  have haccounted := GapAccounted.of_reachable h
  refine ⟨fun g hg => ?_, haccounted.ackPlaced.ids, haccounted.cutoffs.delivered,
    fun x hx token hclient c hc q hq => ?_⟩
  · have hpos := count_pos_iff.mpr hg
    have hunique := nodup_iff_count_le_one.mp haccounted.nodup g
    rw [haccounted.gapPlaces_count_eq]
    omega
  · exact (haccounted.cutoffs.passed x hx token hclient c hc).2 q (haccounted.outstanding hq)

def skippedEdit (f : FileKey) : List Event := .recordEdit ⟨"ahp:/s", f, true⟩ :: sections f 3

theorem nothing_stored {s : Store}
    (hwork : ∀ params acks done, work ≠ .prepareFlush params (.looping acks done [])) :
    ¬∃ taken p, s.Stores id work taken p ∧ ¬taken.Clear p := by
  rintro ⟨taken, p, hstores, -⟩
  unfold Store.Stores at hstores
  split at hstores
  · exact hwork _ _ _ rfl
  · exact hstores

/-- A skipped edit is prepared and committed. -/
theorem gaps_kept_sample :
    ∃ s : State, (∃ x ∈ s.store.emitted, x.2.coverageGapThroughSequence = some 1) ∧ s.GapsKept := by
  have hrun : ∃ s, System.RunVia step Clear State.initial
      (skippedEdit "a" ++ [.prepareFlush ⟨"a", "t", false⟩] ++ sections "a" 4 ++
        [.commitFlush "t", .runSlot "a" fulfilled]) s ∧
        ∃ x ∈ s.store.emitted, x.2.coverageGapThroughSequence = some 1 := by
    refine ⟨_, ⟨_, ⟨id, id⟩, rfl, _, ⟨nothing_stored nofun, id⟩, rfl,
      _, ⟨nothing_stored nofun, id⟩, rfl,
      _, ⟨nothing_stored nofun, id⟩, rfl, _, ⟨id, id⟩, rfl,
      _, ⟨nothing_stored (fun _ _ _ h => by cases h), id⟩, rfl,
      _, ⟨nothing_stored (fun _ _ _ h => by cases h), id⟩, rfl,
      _, ⟨nothing_stored (fun _ _ _ h => by cases h), id⟩, rfl, _, ⟨?_, id⟩, rfl, _, ⟨id, id⟩, rfl,
      _, ⟨nothing_stored nofun, id⟩, rfl, rfl⟩, by decide⟩
    rintro ⟨taken, p, ⟨rfl, rfl, -⟩, hnot⟩
    exact hnot ⟨rfl, nofun⟩
  obtain ⟨s, hrun, hpassed⟩ := hrun
  exact ⟨s, hpassed, gaps_kept (System.ReachableVia.of_runVia (.init rfl) hrun)⟩

def preparedBeside : List Event :=
  skippedEdit "a" ++ [.prepareFlush ⟨"a", "t", false⟩] ++ sections "a" 4 ++
    skippedEdit "a" ++ [.prepareFlush ⟨"a", "u", false⟩] ++ sections "a" 4 ++
    [.commitFlush "u", .runSlot "a" fulfilled]

/-- The gap of the first flush is below the cutoff of the second one. -/
theorem gap_overtaken : ∃ s, system.Reachable s ∧ ¬s.GapsKept := by
  have hrun : ∃ s, preparedBeside.foldlM step State.initial = some s ∧
      (∃ x ∈ s.store.emitted, x.1.token = .client "u" ∧ x.1.fileKey = "a" ∧
        x.2.coverageGapThroughSequence = some 2) ∧
      (⟨0, ⟨"ahp:/s", "a"⟩⟩ : TrackedResource) ∈ s.preparedResources ∧
        1 ∈ s.store.gapsOf ⟨0, ⟨"ahp:/s", "a"⟩⟩ :=
    ⟨_, rfl, by decide, by decide, by decide⟩
  obtain ⟨s, hrun, ⟨x, hx, hclient, hfile, hc⟩, hprepared, hgap⟩ := hrun
  refine ⟨s, System.Reachable.run (.init rfl) preparedBeside hrun, fun hkept => ?_⟩
  have hlt := hkept.gone x hx "u" hclient 2 hc 1
    (.tracked _ (mem_append_right _ hprepared) hfile.symm hgap)
  omega

end State

end Fumie.AgentHost.EditAttribution
