import Fumie.AgentHost.Attribution.EditAttributionService

/-!
# What a section does to the collections

Every section of a task that holds the slot of a file is a chain of a few moves on the
collections and on what the task holds. What the moves keep, the sections keep.
-/

namespace Fumie.AgentHost.EditAttribution

open Fumie.Lib List Record

variable {acks : List (ResourceKey × StandaloneAcknowledgement)} {taken t : Store} {id : Nat}
  {work : Work} {p : PreparedFlush} {finished : Nat → Option Bool}

namespace Store

structure SameCollections (s t : Store) : Prop where
  created : t.created = s.created
  fields : t.fields = s.fields
  resources : t.resources = s.resources
  claimedResources : t.claimedResources = s.claimedResources
  preparedFlushes : t.preparedFlushes = s.preparedFlushes
  emitted : t.emitted = s.emitted
  pending : t.standaloneAcknowledgements = s.standaloneAcknowledgements
  sequence : t.sequence = s.sequence
  uuid : t.uuid = s.uuid
  skipped : t.skipped = s.skipped
  acknowledged : t.acknowledged = s.acknowledged
  dropped : t.dropped = s.dropped
  settled : t.settledFlushes = s.settledFlushes

/-- What a task took out of the collections and has not passed on. -/
structure Holding where
  resources : List TrackedResource
  acks : List (ResourceKey × StandaloneAcknowledgement)

inductive Move (ok : Store → PreparedFlush → Prop) (f : FileKey) :
    Store × Holding → Store × Holding → Prop
  | quiet {s t : Store} {held : Holding} (h : SameCollections s t) :
    Move ok f (s, held) (t, held)
  | create {s : Store} (key : ResourceKey) (hasContent : Bool) (hfile : key.fileKey = f)
      (hnone : s.resources.get key = none) :
    Move ok f (s, ⟨[], []⟩) (s.createResource key hasContent, ⟨[], []⟩)
  | touch {s : Store} {held : Holding} (r : TrackedResource) (hfile : r.key.fileKey = f)
      (hget : s.resources.get r.key = some r) :
    Move ok f (s, held) (s.touchResource r.key r, held)
  | track {s : Store} {held : Holding} (r : TrackedResource)
      (hget : s.resources.get r.key = some r) :
    Move ok f (s, held) (s.trackEdit r, held)
  | skip {s : Store} {held : Holding} (r : TrackedResource) (hfile : r.key.fileKey = f)
      (hget : s.resources.get r.key = some r) :
    Move ok f (s, held) (s.skipEdit r, held)
  | claim {s t : Store} {held : List TrackedResource}
      {acks : List (ResourceKey × StandaloneAcknowledgement)} (r : TrackedResource)
      (hfile : r.key.fileKey = f) (h : s.prepareResourceNow r = some t) :
    Move ok f (s, ⟨held, acks⟩) (t, ⟨held ++ [r], acks⟩)
  | restore {s : Store} {held rest : List TrackedResource}
      {acks : List (ResourceKey × StandaloneAcknowledgement)} (r : TrackedResource)
      (hheld : held.Perm (r :: rest)) :
    Move ok f (s, ⟨held, acks⟩) (s.restoreResource r, ⟨rest, acks⟩)
  | take {s : Store} {held : List TrackedResource}
      {acks : List (ResourceKey × StandaloneAcknowledgement)} (limit : Nat) :
    Move ok f (s, ⟨held, acks⟩) (s.withTaken (s.takeStandaloneAcknowledgements f limit),
      ⟨held, acks ++ (s.takeStandaloneAcknowledgements f limit).taken⟩)
  | restoreAcks {s : Store} {held : List TrackedResource}
      (acks : List (ResourceKey × StandaloneAcknowledgement)) :
    Move ok f (s, ⟨held, acks⟩) (s.restoreStandaloneAcknowledgements acks, ⟨held, []⟩)
  | pass {s : Store} (p : PreparedFlush) (hfile : p.fileKey = f)
      (hceiling : p.coverageGapCutoffCeiling = s.coverageGapCutoffCeiling f)
      (hclient : ∃ token, p.token = .client token)
      (hunsettled : s.settledFlushes.get p.token = none)
      (hlisted : ∀ key r, s.resources.get key = some r → key.fileKey ≠ f) (hok : ok s p) :
    Move ok f (s, ⟨p.resources, p.standaloneAcknowledgements⟩) (s.setPrepared p, ⟨[], []⟩)
  | standalone {s : Store} (r : TrackedResource) :
    Move ok f (s, ⟨[r], []⟩) (s.finishStandalone r, ⟨[], []⟩)
  | commit {s : Store} {held : Holding} (token : Token) (p : PreparedFlush)
      (hget : s.preparedFlushes.get token = some p) :
    Move ok f (s, held) (s.settleCommitted token p, held)
  | cancel {s : Store} (token : Token) (p : PreparedFlush)
      (hget : s.preparedFlushes.get token = some p) (hfree : s.anyLive p = false)
      (hfile : p.resources = [] ∨ p.fileKey = f) :
    Move ok f (s, ⟨[], []⟩) (s.settleCancelled token p, ⟨[], []⟩)
  | settle {s : Store} {held : Holding} (token : Token) (result : FlushResult)
      (hnone : s.preparedFlushes.get token = none) :
    Move ok f (s, held) (s.recordSettledFlush token result, held)
  | forget {s : Store} {held : Holding} (now : Nat) : Move ok f (s, held) (s.forget now, held)

def Moves (ok : Store → PreparedFlush → Prop) (f : FileKey) :
    Store × Holding → Store × Holding → Prop := Relation.ReflTransGen (Move ok f)

section

variable {ok : Store → PreparedFlush → Prop}

theorem Moves.invariant {f : FileKey} {a b : Store × Holding} {inv : Store → Holding → Prop}
    (hmove : ∀ s held t held', Move ok f (s, held) (t, held') → inv s held → inv t held')
    (h : Moves ok f a b) (ha : inv a.1 a.2) : inv b.1 b.2 := by
  induction h with
  | refl => exact ha
  | tail _ hlast ih => exact hmove _ _ _ _ hlast ih

theorem Moves.one {f : FileKey} {a b : Store × Holding} (h : Move ok f a b) : Moves ok f a b :=
  Relation.ReflTransGen.single h

theorem Moves.refl {f : FileKey} (a : Store × Holding) : Moves ok f a a :=
  Relation.ReflTransGen.refl

theorem Moves.restoreAll {f : FileKey} {s : Store} {held rs : List TrackedResource}
    (hheld : held.Perm rs) : Moves ok f (s, ⟨held, acks⟩) (s.restoreResources rs, ⟨[], acks⟩) := by
  induction rs generalizing s held with
  | nil =>
    rw [perm_nil] at hheld
    subst hheld
    exact Relation.ReflTransGen.refl
  | cons r rest ih =>
    exact Relation.ReflTransGen.head (.restore r hheld) (ih (List.Perm.refl rest))

end

/-! ## The conditions on a step -/

def Stores (s : Store) (id : Nat) : Work → Store → PreparedFlush → Prop
  | .prepareFlush params (.looping acks done []), taken, p =>
    taken = s.withTaken (s.secondTake params acks) ∧
      p = taken.preparedFlush id params (acks ++ (s.secondTake params acks).taken) done ∧
      ¬(p.resources = [] ∧ p.standaloneAcknowledgements = [])
  | _, _, _ => False

theorem Stores.preparedFlushes {s : Store} (h : s.Stores id work taken p) :
    taken.preparedFlushes = s.preparedFlushes := by
  unfold Stores at h
  split at h
  · obtain ⟨rfl, -, -⟩ := h
    rfl
  · exact h.elim

/-- A locked prepare is about to replace a prepared flush that holds resources. -/
def Overwrites (s : Store) : Work → Prop
  | .prepareFlush params (.looping acks done []) =>
    ¬(done = [] ∧ acks ++ (s.secondTake params acks).taken = []) ∧
    ∃ q, s.preparedFlushes.get (.client params.flushToken) = some q ∧ q.resources ≠ []
  | _ => False

theorem Stores.overwrites {s : Store} {q : PreparedFlush} (h : s.Stores id work taken p)
    (hq : s.preparedFlushes.get p.token = some q) (hne : q.resources ≠ []) : s.Overwrites work := by
  unfold Stores at h
  split at h
  · obtain ⟨rfl, rfl, hfound⟩ := h
    exact ⟨hfound, q, hq, hne⟩
  · exact h.elim

def CancelsElsewhere (s : Store) (f : FileKey) : Work → Prop
  | .cancelFlush token =>
    s.settledFlushes.get token = none ∧ ∃ p, s.preparedFlushes.get token = some p ∧
      s.anyLive p = false ∧ p.resources ≠ [] ∧ p.fileKey ≠ f
  | _ => False

end Store

/-! ## What a task refers to -/

def EditPhase.named : EditPhase → List TrackedResource
  | .evicting r => [r]
  | .locating found => found.toList
  | .bridging r => [r]
  | .closing r => [r]
  | _ => []

def PreparePhase.named : PreparePhase → List TrackedResource
  | .queued => []
  | .looping _ done rest => done ++ rest
  | .reconciling _ done r rest => done ++ r :: rest

def Work.FiledUnder (f : FileKey) : Work → Prop
  | .recordEdit e phase => e.fileKey = f ∧ ∀ r ∈ phase.named, r.key.fileKey = f
  | .flushStandalone r _ => r.key.fileKey = f
  | .prepareFlush params phase => params.fileKey = f ∧ ∀ r ∈ phase.named, r.key.fileKey = f
  | .expirePreparedFlush _ p _ => p.fileKey = f
  | _ => True

/-- What an edit found under its key is still what is there, and every live resource of the
file of a prepare is one that it will still come to. -/
def Work.UpToDate (s : Store) : Work → Prop
  | .recordEdit e (.locating found) => s.resources.get e.key = found
  | .recordEdit e (.bridging r) => s.resources.get e.key = some r
  | .prepareFlush params (.looping _ _ rest) =>
    ∀ key r, s.resources.get key = some r → key.fileKey = params.fileKey → r ∈ rest
  | .prepareFlush params (.reconciling _ _ _ rest) =>
    ∀ key r, s.resources.get key = some r → key.fileKey = params.fileKey → r ∈ rest
  | _ => True

def Store.Keyed (s : Store) : Prop := ∀ key r, s.resources.get key = some r → r.key = key

def Work.holding (work : Work) : Store.Holding := ⟨work.held, work.acks⟩

def Next.holding : Next → Store.Holding
  | .goOn work => work.holding
  | _ => ⟨[], []⟩

namespace Store

theorem mem_live {s : Store} {r : TrackedResource} (hkeyed : s.Keyed)
    (h : r ∈ s.resources.entries.map Prod.snd) : s.resources.get r.key = some r := by
  obtain ⟨⟨key, r'⟩, hmem, rfl⟩ := mem_map.mp h
  have hget := Record.get_of_mem hmem
  rw [hkeyed key r' hget]
  exact hget

/-! ## The sections as chains of moves -/

section Sections

variable {ok : Store → PreparedFlush → Prop} {s : Store} {f : FileKey} {edit : Edit}
  {r : TrackedResource} {o : Outcome}

theorem beginClosing_moves (hfile : r.key.fileKey = f) :
    Moves ok f (s, ⟨[], []⟩) ((s.beginClosing edit r).1, (s.beginClosing edit r).2.holding) := by
  unfold beginClosing
  split
  · next h => exact Moves.one (.claim r hfile h)
  · exact Moves.refl _

theorem finishEdit_moves (hfile : r.key.fileKey = f) (hget : s.resources.get r.key = some r) :
    Moves ok f (s, ⟨[], []⟩) ((s.finishEdit edit r o).1, (s.finishEdit edit r o).2.holding) := by
  have htracked : Moves ok f (s, ⟨[], []⟩) (s.trackEdit r, ⟨[], []⟩) := Moves.one (.track r hget)
  unfold finishEdit
  split
  · exact htracked.trans (beginClosing_moves hfile)
  · exact htracked

theorem finishSkipped_moves (hfile : r.key.fileKey = f) (hget : s.resources.get r.key = some r) :
    Moves ok f (s, ⟨[], []⟩) ((s.finishSkipped edit r).1, (s.finishSkipped edit r).2.holding) := by
  have hskipped : Moves ok f (s, ⟨[], []⟩) (s.skipEdit r, ⟨[], []⟩) :=
    Moves.one (.skip r hfile hget)
  unfold finishSkipped
  split
  · exact hskipped.trans (beginClosing_moves hfile)
  · exact hskipped

theorem applyEdit_moves (hfile : r.key.fileKey = f) (hget : s.resources.get r.key = some r) :
    Moves ok f (s, ⟨[], []⟩) ((s.applyEdit edit r o).1, (s.applyEdit edit r o).2.holding) := by
  unfold applyEdit
  split
  · exact finishSkipped_moves hfile hget
  · split
    · exact Moves.refl _
    · exact finishEdit_moves hfile hget

theorem get_createResource (key : ResourceKey) (hasContent : Bool) :
    (s.createResource key hasContent).resources.get key = some ⟨s.fields.length, key⟩ := by
  show (s.resources.set key ⟨s.fields.length, key⟩).get key = _
  rw [get_set, if_pos rfl]

theorem get_touchResource (hget : s.resources.get r.key = some r) (key : ResourceKey) :
    (s.touchResource r.key r).resources.get key = s.resources.get key := by
  show ((s.resources.delete r.key).set r.key r).get key = _
  rw [get_set]
  split
  · next hkey =>
    rw [← hkey]
    exact hget.symm
  · next hkey => rw [get_delete, if_neg hkey]

theorem recordEditSection_moves {phase : EditPhase} {next : Next}
    (hfiled : (Work.recordEdit edit phase).FiledUnder f)
    (hcurrent : (Work.recordEdit edit phase).UpToDate s) (hkeyed : s.Keyed)
    (h : s.recordEditSection finished edit o phase = some (t, next)) :
    Moves ok f (s, (Work.recordEdit edit phase).holding) (t, next.holding) := by
  show Moves ok f _ ((t, next).1, (t, next).2.holding)
  generalize (t, next) = result at h ⊢
  revert hfiled hcurrent h
  fun_cases recordEditSection s finished edit o phase
  all_goals
    rintro ⟨hfile, hnamed⟩ hcurrent h
    first
    | contradiction
    | obtain rfl := Option.some.inj h
  case case2 r _ hown _ hclaim => exact Moves.one (.claim r (hown.trans hfile) hclaim)
  case case5 r _ | case16 r _ => exact Moves.one (.standalone r)
  case case6 r _ | case17 r _ => exact Moves.one (.restore r (List.Perm.refl _))
  case case11 =>
    have hnew : (⟨s.fields.length, edit.key⟩ : TrackedResource).key.fileKey = f := hfile
    exact (Moves.one (.create edit.key false hfile hcurrent)).trans
      (applyEdit_moves hnew (get_createResource edit.key false))
  case case12 r =>
    have hkey : r.key = edit.key := hkeyed _ _ hcurrent
    have hget : s.resources.get r.key = some r := by
      rw [hkey]
      exact hcurrent
    have hown : r.key.fileKey = f := hnamed r mem_cons_self
    rw [← hkey]
    exact (Moves.one (.touch r hown hget)).trans
      (applyEdit_moves hown ((get_touchResource hget r.key).trans hget))
  case case14 r _ =>
    have hget : s.resources.get r.key = some r := by
      rw [hkeyed _ _ hcurrent]
      exact hcurrent
    exact finishEdit_moves (hnamed r mem_cons_self) hget
  -- The others leave the state as it is.
  all_goals exact Moves.refl _

theorem flushStandaloneSection_moves {claimed : Bool} (hfile : r.key.fileKey = f) :
    Moves ok f (s, (Work.flushStandalone r claimed).holding)
      ((s.flushStandaloneSection r o claimed).1,
        (s.flushStandaloneSection r o claimed).2.holding) := by
  cases claimed with
  | false =>
    unfold flushStandaloneSection
    dsimp only
    split
    · next h => exact Moves.one (.claim r hfile h)
    · exact Moves.refl _
  | true =>
    unfold flushStandaloneSection
    dsimp only
    split
    · exact Moves.one (.standalone r)
    · exact Moves.one (.restore r (List.Perm.refl _))

variable {params : PrepareParams}

theorem finishPrepare_moves {done : List TrackedResource} (hfile : params.fileKey = f)
    (hlisted : ∀ key r, s.resources.get key = some r → key.fileKey ≠ f)
    (hok : ∀ taken p, s.Stores id (.prepareFlush params (.looping acks done [])) taken p →
      ok taken p) :
    Moves ok f (s, ⟨done, acks⟩) (s.finishPrepare id params acks done, ⟨[], []⟩) := by
  subst hfile
  have htake : Moves ok params.fileKey (s, ⟨done, acks⟩) (s.withTaken (s.secondTake params acks),
      ⟨done, acks ++ (s.secondTake params acks).taken⟩) := Moves.one (.take _)
  unfold finishPrepare
  dsimp only
  split
  · next h =>
    rw [h.1, h.2] at htake
    rw [h.1]
    exact htake
  · next hfound =>
    split
    · exact (htake.trans (Moves.restoreAll (List.Perm.refl done))).trans
        (Moves.one (.restoreAcks _))
    · next hsettled =>
      exact htake.trans (Moves.one (.pass ((s.withTaken (s.secondTake params acks)).preparedFlush
        id params (acks ++ (s.secondTake params acks).taken) done) rfl rfl ⟨_, rfl⟩
        (Option.not_isSome_iff_eq_none.mp hsettled) hlisted (hok _ _ ⟨rfl, rfl, hfound⟩)))

theorem prepareFlushSection_moves {phase : PreparePhase}
    (hfiled : (Work.prepareFlush params phase).FiledUnder f)
    (hcurrent : (Work.prepareFlush params phase).UpToDate s)
    (hok : ∀ taken p, s.Stores id (.prepareFlush params phase) taken p → ok taken p) :
    Moves ok f (s, (Work.prepareFlush params phase).holding)
      ((s.prepareFlushSection id params o phase).1,
        (s.prepareFlushSection id params o phase).2.holding) := by
  obtain ⟨hfile, hnamed⟩ := hfiled
  unfold prepareFlushSection
  cases phase with
  | queued =>
    dsimp only
    have htake : Moves ok f (s, ⟨[], []⟩)
        (s.withTaken (s.takeStandaloneAcknowledgements params.fileKey
          maxCoverageGapAcknowledgementsPerFlush), ⟨[], [] ++
            (s.takeStandaloneAcknowledgements params.fileKey
              maxCoverageGapAcknowledgementsPerFlush).taken⟩) := by
      rw [hfile]
      exact Moves.one (.take _)
    rw [nil_append] at htake
    split
    · next h =>
      rw [h.2] at htake
      exact htake
    · exact htake
  | looping acks done rest =>
    cases rest with
    | nil =>
      refine finishPrepare_moves hfile (fun key r hr hkey => ?_) hok
      exact absurd (hcurrent key r hr (hkey.trans hfile.symm)) not_mem_nil
    | cons r rest =>
      dsimp only
      split
      · next h =>
        refine Moves.one (.claim r (hnamed r ?_) h)
        exact mem_append_right _ List.mem_cons_self
      · exact Moves.refl _
  | reconciling acks done r rest =>
    dsimp only
    split
    · exact Moves.refl _
    · have hheld : (done ++ [r]).Perm (r :: done) := perm_append_comm
      have hone : Moves ok f (s, ⟨done ++ [r], acks⟩) (s.restoreResource r, ⟨done, acks⟩) :=
        Moves.one (.restore r hheld)
      exact (hone.trans (Moves.restoreAll (List.Perm.refl done))).trans
        (Moves.one (.restoreAcks acks))

variable {token : Token}

theorem commitFlushNow_moves : Moves ok f (s, ⟨[], []⟩) ((s.commitFlushNow token).1, ⟨[], []⟩) := by
  unfold commitFlushNow
  split
  · exact Moves.refl _
  · next p hp => exact Moves.one (.commit token p hp)

theorem cancelFlushNow_moves (hhome : ¬s.CancelsElsewhere f (.cancelFlush token)) :
    Moves ok f (s, ⟨[], []⟩) ((s.cancelFlushNow token).1, ⟨[], []⟩) := by
  unfold cancelFlushNow
  split
  · exact Moves.refl _
  · next hsettled =>
    split
    · next hnone => exact Moves.one (.settle token .cancelled hnone)
    · next p hp =>
      split
      · exact Moves.one (.commit token p hp)
      · next hlive =>
        rw [Bool.not_eq_true] at hlive
        refine Moves.one (.cancel token p hp hlive ?_)
        by_contra hne
        rw [not_or] at hne
        exact hhome ⟨hsettled, p, hp, hlive, hne.1, hne.2⟩

theorem expirePreparedFlush_moves {now : Nat} (hfile : p.fileKey = f) :
    Moves ok f (s, ⟨[], []⟩) (s.expirePreparedFlush token p now, ⟨[], []⟩) := by
  unfold expirePreparedFlush
  split
  · exact Moves.refl _
  · next h =>
    rw [not_or, not_not] at h
    split
    · exact Moves.one (.commit token p h.1)
    · next hlive =>
      rw [Bool.not_eq_true] at hlive
      exact Moves.one (.cancel token p h.1 hlive (.inr hfile))

theorem runSection_moves {next : Next} (hfiled : work.FiledUnder f) (hcurrent : work.UpToDate s)
    (hkeyed : s.Keyed) (hok : ∀ taken p, s.Stores id work taken p → ok taken p)
    (hhome : ¬s.CancelsElsewhere f work) (h : s.runSection finished id o work = some (t, next)) :
    Moves ok f (s, work.holding) (t, next.holding) := by
  cases work with
  | recordEdit edit phase => exact recordEditSection_moves hfiled hcurrent hkeyed h
  | flushStandalone r claimed =>
    show Moves ok f _ ((t, next).1, (t, next).2.holding)
    rw [← Option.some.inj h]
    exact flushStandaloneSection_moves hfiled
  | prepareFlush params phase =>
    show Moves ok f _ ((t, next).1, (t, next).2.holding)
    rw [← Option.some.inj h]
    exact prepareFlushSection_moves hfiled hcurrent hok
  | commitFlush token =>
    cases h
    exact commitFlushNow_moves
  | cancelFlush token =>
    cases h
    exact cancelFlushNow_moves hhome
  | expirePreparedFlush token p now =>
    cases h
    exact expirePreparedFlush_moves hfiled

end Sections

end Store

end Fumie.AgentHost.EditAttribution
