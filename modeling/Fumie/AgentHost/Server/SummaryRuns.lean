import Fumie.AgentHost.Server.SummaryFields
import Fumie.AgentHost.Server.SummaryRow

/-!
# Runs of the summary stream

`row` is the row of one session in a stream, and each operation of the stream does to the
row of its session what the operation of the same name does to a row, and nothing to the
others. So `Good` is an invariant of every run whose steps bring a session into state only
as `Continues` allows: with the summary that clients know, up to what a delta carries.
-/

namespace Fumie.AgentHost

open Fumie.Lib List RootClient Record SummaryRow CatalogSummary SummaryRow.Good Option

namespace SummaryStream

def client (w : SummaryStream) : RootClient := .listen w.notifications

def row (w : SummaryStream) (session : Uri) : SummaryRow where
  added := decide (session ∈ w.addedSessionSummaries)
  published := decide (session ∈ w.publishedSessionSummaries)
  dirty := decide (session ∈ w.dirty)
  lastNotified := w.lastNotified.get session
  current := w.getSessionSummary session
  client := w.client.get session

variable {w : SummaryStream}

/-! ## The notifier -/

theorem row_emitNotification (w : SummaryStream) (n : RootNotification) (s : Uri) :
    (w.emitNotification n).row s = { w.row s with client := (w.client.receive n).get s } := by
  have hclient : (w.emitNotification n).client = w.client.receive n :=
    listen_append w.notifications n
  unfold row
  rw [hclient]
  rfl

theorem row_markDirty (w : SummaryStream) (session s : Uri) : (w.markDirty session).row s =
      { w.row s with dirty := (w.row s).dirty || decide (session = s) } := by
  have hdirty : decide (s ∈ (w.markDirty session).dirty) =
      (decide (s ∈ w.dirty) || decide (session = s)) := by
    have hcomm : (s = session ∨ s ∈ w.dirty) ↔ (s ∈ w.dirty ∨ session = s) := by
      rw [or_comm, eq_comm]
    simp only [markDirty, OrderedSet.mem_insert, ← Bool.decide_or, hcomm]
  unfold row
  rw [hdirty]
  rfl

theorem row_announce (w : SummaryStream) (session : Uri) (summary : CatalogSummary) (s : Uri) :
    (w.announce session summary).row s =
      if session = s then { w.row s with lastNotified := some summary } else w.row s := by
  have hlast : (w.announce session summary).lastNotified.get s =
      if session = s then some summary else w.lastNotified.get s := get_set _ _ _ _
  unfold row
  rw [hlast]
  split
  · rfl
  · rfl

theorem row_forget (w : SummaryStream) (session s : Uri) : (w.forget session).row s =
      if session = s then { w.row s with lastNotified := none, dirty := false } else w.row s := by
  have hlast : (w.forget session).lastNotified.get s =
      if session = s then none else w.lastNotified.get s := get_delete _ _ _
  have hdirty : decide (s ∈ (w.forget session).dirty) =
      if session = s then false else decide (s ∈ w.dirty) := by
    by_cases h : session = s
    · subst h
      simp [forget]
    · simp [forget, h, Ne.symm h]
  unfold row
  rw [hlast, hdirty]
  split
  · rfl
  · rfl

theorem row_clearDirty (w : SummaryStream) (session s : Uri) : (w.clearDirty session).row s =
      if session = s then { w.row s with dirty := false } else w.row s := by
  have hdirty : decide (s ∈ (w.clearDirty session).dirty) =
      if session = s then false else decide (s ∈ w.dirty) := by
    by_cases h : session = s
    · subst h
      simp [clearDirty]
    · simp [clearDirty, h, Ne.symm h]
  unfold row
  rw [hdirty]
  split
  · rfl
  · rfl

theorem row_emitSessionSummaryChanged (w : SummaryStream) (session : Uri)
    (changes : SessionSummaryChanges) (s : Uri) :
    (w.emitSessionSummaryChanged session changes).row s =
      if session = s then (w.row s).notify changes else w.row s := by
  unfold emitSessionSummaryChanged notify
  by_cases hpublished : session ∈ w.publishedSessionSummaries
  · rw [if_pos hpublished, row_emitNotification, get_changed]
    by_cases h : session = s
    · subst h
      have hrow : (w.row session).published = true := decide_eq_true hpublished
      rw [if_pos rfl, if_pos rfl, if_pos hrow]
      rfl
    · rw [if_neg h, if_neg h]
      rfl
  · rw [if_neg hpublished]
    by_cases h : session = s
    · subst h
      have hrow : ¬(w.row session).published = true := by simp [row, hpublished]
      rw [if_pos rfl, if_neg hrow]
    · rw [if_neg h]

theorem row_emitSessionAdded (w : SummaryStream) (summary : CatalogSummary) (s : Uri) :
    (w.emitSessionAdded summary).row s =
      if summary.resource = s then
        (w.row s).emitAdded (w.isEphemeral summary._meta) summary
      else w.row s := by
  unfold emitSessionAdded SummaryRow.emitAdded
  split
  · split
    · rfl
    · rfl
  · rw [row_emitNotification, get_added]
    by_cases h : summary.resource = s
    · subst h
      rw [if_pos rfl, if_pos rfl]
      apply SummaryRow.ext
      · simp [row]
      · simp [row]
      · rfl
      · simp [row, get_set]
      · rfl
      · rfl
    · rw [if_neg h, if_neg h]
      apply SummaryRow.ext
      · simp [row, Ne.symm h]
      · simp [row, Ne.symm h]
      · rfl
      · simp [row, get_set, h]
      · rfl
      · rfl

variable {session : Uri}

theorem flush_of_none (h : w.getSessionSummary session = none ∨ w.lastNotified.get session = none) :
    w.flush session = w := by
  unfold flush
  split
  · rename_i hcurrent hlast
    rw [hcurrent, hlast] at h
    simp at h
  · rfl

theorem flush_of_some {current last : CatalogSummary}
    (hcurrent : w.getSessionSummary session = some current)
    (hlast : w.lastNotified.get session = some last) :
    w.flush session =
      if summaryChanges current last = .none then w.announce session current
      else
        (w.announce session current).emitSessionSummaryChanged session
          (summaryChanges current last) := by
  unfold flush
  rw [hcurrent, hlast]

theorem row_flush (w : SummaryStream) (session s : Uri) :
    (w.flush session).row s = if session = s then (w.row s).flush else w.row s := by
  by_cases hnone : w.getSessionSummary session = none ∨ w.lastNotified.get session = none
  · rw [flush_of_none hnone]
    split
    · rename_i heq
      subst heq
      exact (SummaryRow.flush_of_none hnone).symm
    · rfl
  · obtain ⟨⟨current, hsummary⟩, last, hannounced⟩ :
        (∃ c, w.getSessionSummary session = some c) ∧ ∃ l, w.lastNotified.get session = some l := by
      rw [not_or, ← ne_eq, ← ne_eq, ne_none_iff_exists', ne_none_iff_exists'] at hnone
      exact hnone
    rw [flush_of_some hsummary hannounced]
    split
    · rename_i hempty
      rw [row_announce]
      split
      · rename_i heq
        subst heq
        rw [SummaryRow.flush_of_some hsummary hannounced, if_pos hempty]
      · rfl
    · rename_i hchanges
      rw [row_emitSessionSummaryChanged, row_announce]
      split
      · rename_i heq
        subst heq
        rw [SummaryRow.flush_of_some hsummary hannounced, if_neg hchanges]
      · rfl

theorem row_unpublish (w : SummaryStream) (session s : Uri) :
    (w.unpublish session).row s = if session = s then (w.row s).unpublish else w.row s := by
  unfold unpublish SummaryRow.unpublish
  have hheld : ((w.row session).published || (w.row session).added) = true ↔
      session ∈ w.publishedSessionSummaries ∨ session ∈ w.addedSessionSummaries := by
    simp [row]
  by_cases hnotified : session ∈ w.publishedSessionSummaries ∨ session ∈ w.addedSessionSummaries
  · rw [if_pos hnotified, row_emitNotification, get_removed]
    by_cases h : session = s
    · subst h
      rw [if_pos rfl, if_pos rfl, if_pos (hheld.mpr hnotified)]
      apply SummaryRow.ext
      · simp [row]
      · simp [row]
      · simp [row]
      · simp [row, get_delete]
      · rfl
      · rfl
    · rw [if_neg h, if_neg h]
      apply SummaryRow.ext
      · simp [row, Ne.symm h]
      · simp [row, Ne.symm h]
      · simp [row, Ne.symm h]
      · simp [row, get_delete, h]
      · rfl
      · rfl
  · rw [if_neg hnotified]
    by_cases h : session = s
    · subst h
      rw [if_pos rfl, if_neg fun hrow => hnotified (hheld.mp hrow)]
    · rw [if_neg h]

theorem row_prepareSessionSummaryForListing (w : SummaryStream) (summary : CatalogSummary) (s : Uri) :
    (w.prepareSessionSummaryForListing summary).row s =
      if summary.resource = s then (w.row s).list summary else w.row s := by
  unfold prepareSessionSummaryForListing SummaryRow.list
  dsimp only
  have hpublished : (w.row summary.resource).published = true ↔
      summary.resource ∈ w.publishedSessionSummaries := by simp [row]
  have hdirty : (w.row summary.resource).dirty = true ↔ summary.resource ∈ w.dirty := by
    simp [row]
  split
  · rename_i hpub
    by_cases h : summary.resource = s
    · subst h
      rw [if_pos rfl, if_pos (hpublished.mpr hpub)]
      split
      · rename_i hmarked
        rw [if_pos (hdirty.mpr hmarked), row_flush, if_pos rfl]
      · rename_i hclean
        rw [if_neg fun hrow => hclean (hdirty.mp hrow)]
    · rw [if_neg h]
      split
      · rw [row_flush, if_neg h]
      · rfl
  · rename_i hpub
    by_cases h : summary.resource = s
    · subst h
      rw [if_pos rfl, if_neg fun hrow => hpub (hpublished.mp hrow)]
      apply SummaryRow.ext
      · rfl
      · simp [row]
      · rfl
      · simp [row, announce, get_set]
      · rfl
      · rfl
    · rw [if_neg h]
      apply SummaryRow.ext
      · rfl
      · simp [row, announce, Ne.symm h]
      · rfl
      · simp [row, announce, get_set, h]
      · rfl
      · rfl

/-! ## The debounced flush -/

theorem row_foldl_flush {sessions : List Uri} (hnodup : sessions.Nodup) (w : SummaryStream)
    (s : Uri) :
    (sessions.foldl flush w).row s = if s ∈ sessions then (w.row s).flush else w.row s := by
  induction sessions generalizing w with
  | nil => rfl
  | cons session rest ih =>
    obtain ⟨hnot, hrest⟩ := nodup_cons.mp hnodup
    rw [foldl_cons, ih hrest, row_flush]
    by_cases h : session = s
    · subst h
      simp [hnot]
    · simp [h, Ne.symm h]

theorem row_flushAll (w : SummaryStream) (s : Uri) : w.flushAll.row s =
      { (if (w.row s).dirty then (w.row s).flush else w.row s) with dirty := false } := by
  have hrow : w.flushAll.row s = { (w.dirty.elems.foldl flush w).row s with dirty := false } := by
    apply SummaryRow.ext
    · rfl
    · rfl
    · simp [row, flushAll]
    · rfl
    · rfl
    · rfl
  have hdirty : (w.row s).dirty = true ↔ s ∈ w.dirty.elems := by
    simp [row, OrderedSet.mem_def]
  rw [hrow, row_foldl_flush w.dirty.nodup]
  by_cases h : s ∈ w.dirty.elems
  · rw [if_pos h, if_pos (hdirty.mpr h)]
  · rw [if_neg h, if_neg fun hmarked => h (hdirty.mp hmarked)]

/-! ## What the manager does -/

def Tells (w : SummaryStream) : Prop := ∀ session, (w.row session).Good

def withDetails (details : SessionDetails) (summary : SessionSummary) : CatalogSummary :=
  { summary with createdAt := details.createdAt, changes := details.changes }

theorem getSessionSummary_eq (w : SummaryStream) (session : Uri) : w.getSessionSummary session =
      (w.manager.summaryAt session).map (withDetails ((w.details.get session).getD default)) := by
  unfold getSessionSummary StateManager.summaryAt
  rw [Option.map_map]
  rfl

variable {m' : StateManager}

theorem sameFixed_withDetails {m : StateManager} {a b : SessionSummary}
    (ha : m.summaryAt session = some a) (hb : m'.summaryAt session = some b)
    (hbase : StateManager.SameBase a b) {d d' : SessionDetails}
    (hcreated : d.createdAt = d'.createdAt) : (withDetails d a).SameFixed (withDetails d' b) := by
  obtain ⟨e, -, rfl⟩ := map_eq_some_iff.mp ha
  obtain ⟨e', -, rfl⟩ := map_eq_some_iff.mp hb
  exact ⟨rfl, hbase.1, hcreated, rfl, hbase.2⟩

theorem Tells.retouch (h : w.Tells) {d' : Record Uri SessionDetails} {touched : Option Uri}
    (hmanager : StateManager.Retouches touched w.manager m')
    (hdetails : ∀ s, touched ≠ some s → d'.get s = w.details.get s)
    (hcreated : ∀ s, ((d'.get s).getD default).createdAt =
      ((w.details.get s).getD default).createdAt) (s : Uri) :
    SummaryRow.Good
      { w.row s with
        current := { w with manager := m', details := d' }.getSessionSummary s
        dirty := (w.row s).dirty || decide (touched = some s) } := by
  apply (h s).retouch
  · intro hmarked
    have hne : touched ≠ some s := of_decide_eq_false hmarked
    show _ = w.getSessionSummary s
    rw [getSessionSummary_eq, getSessionSummary_eq]
    rw [hmanager.kept s hne, hdetails s hne]
  · intro new hnew
    rw [getSessionSummary_eq] at hnew
    obtain ⟨after, hafter, rfl⟩ := map_eq_some_iff.mp hnew
    obtain ⟨before, hbefore, hbase⟩ := hmanager.base s after hafter
    refine ⟨withDetails ((w.details.get s).getD default) before, ?_, ?_⟩
    · show w.getSessionSummary s = _
      rw [getSessionSummary_eq, hbefore]
      rfl
    · exact sameFixed_withDetails hbefore hafter hbase (hcreated s).symm

theorem Tells.keep (h : w.Tells) (hkept : ∀ s, m'.summaryAt s = w.manager.summaryAt s) :
    Tells { w with manager := m' } := by
  intro s
  have hrow : { w with manager := m' }.row s = w.row s := by
    unfold row
    rw [getSessionSummary_eq, getSessionSummary_eq]
    rw [hkept]
    rfl
  rw [hrow]
  exact h s

/-! ## One step -/

theorem Tells.of_row {w' : SummaryStream} (h : w.Tells) (session : Uri)
    (hother : ∀ s, session ≠ s → w'.row s = w.row s) (hself : (w'.row session).Good) :
    w'.Tells := by
  intro s
  by_cases heq : session = s
  · exact heq ▸ hself
  · rw [hother s heq]
    exact h s

theorem Tells.flush (h : w.Tells) (session : Uri) : (w.flush session).Tells := by
  apply h.of_row session
  · intro s hne
    rw [row_flush, if_neg hne]
  · rw [row_flush, if_pos rfl]
    exact (h session).anchored.flush_good

theorem Tells.flushAll (h : w.Tells) : w.flushAll.Tells := by
  intro s
  rw [row_flushAll]
  exact (h s).flushDirty.1

theorem Tells.unpublish (h : w.Tells) (session : Uri) : (w.unpublish session).Tells := by
  apply h.of_row session
  · intro s hne
    rw [row_unpublish, if_neg hne]
  · rw [row_unpublish, if_pos rfl]
    exact (h session).unpublish

variable {summary : CatalogSummary}

theorem Tells.emitSessionAdded (h : w.Tells)
    (hcurrent : ∀ current, w.getSessionSummary summary.resource = some current →
      summary = current) : (w.emitSessionAdded summary).Tells := by
  apply h.of_row summary.resource
  · intro s hne
    rw [row_emitSessionAdded, if_neg hne]
  · rw [row_emitSessionAdded, if_pos rfl]
    exact .emitAdded (fun _ => h summary.resource) fun _ => hcurrent

theorem Tells.prepareSessionSummariesForListing (h : w.Tells) (summaries : List CatalogSummary) :
    (w.prepareSessionSummariesForListing summaries).Tells := by
  unfold SummaryStream.prepareSessionSummariesForListing
  induction summaries generalizing w with
  | nil => exact h
  | cons summary rest ih =>
    rw [foldl_cons]
    apply ih
    apply h.of_row summary.resource
    · intro s hne
      rw [row_prepareSessionSummaryForListing, if_neg hne]
    · rw [row_prepareSessionSummaryForListing, if_pos rfl]
      exact (h summary.resource).list summary

theorem Tells.dispatch (h : w.Tells) (channel : Uri) (action : StateAction)
    (origin : Option ActionOrigin) : (w.dispatch channel action origin).Tells := by
  have hstep := StateManager.retouches_applyAndEmit w.manager channel action origin
  have hgood := h.retouch hstep (fun _ _ => rfl) (fun _ => rfl)
  unfold SummaryStream.dispatch
  intro s
  cases hmarked : w.manager.marked channel action with
  | none =>
    rw [hmarked] at hgood
    have hrow := hgood s
    simp only [reduceCtorEq, decide_false, Bool.or_false] at hrow
    exact hrow
  | some session =>
    rw [hmarked] at hgood
    have hrow := hgood s
    simp only [Option.some.injEq] at hrow
    rw [row_markDirty]
    exact hrow

theorem Tells.configure (h : w.Tells) (session : Uri) (config : Option SessionConfigState)
    (customizations : Option (List Customization)) :
    (w.configure session config customizations).Tells := by
  unfold SummaryStream.configure
  split
  · exact h
  · rename_i entry hget
    apply h.keep
    intro s
    unfold StateManager.patchSession
    rw [hget]
    rw [StateManager.summaryAt_setSession]
    split
    · rename_i heq
      subst heq
      exact (StateManager.summaryAt_of_get hget).symm
    · rfl

theorem Tells.revise (h : w.Tells) {details : SessionDetails}
    (hmanager : StateManager.Retouches (some session) w.manager m')
    (hcreated : details.createdAt = ((w.details.get session).getD default).createdAt) :
    (markDirty { w with manager := m', details := w.details.set session details }
      session).Tells := by
  intro s
  have hdetails : ∀ other, some session ≠ some other →
      (w.details.set session details).get other = w.details.get other := by
    intro other hne
    rw [get_set, if_neg fun heq => hne (congrArg some heq)]
  have hkept : ∀ other, (((w.details.set session details).get other).getD default).createdAt =
      ((w.details.get other).getD default).createdAt := by
    intro other
    rw [get_set]
    split
    · rename_i heq
      subst heq
      exact hcreated
    · rfl
  have hgood := h.retouch hmanager hdetails hkept s
  simp only [Option.some.injEq] at hgood
  rw [row_markDirty]
  exact hgood

theorem Tells.setSessionSummaryChanges (h : w.Tells) (session : Uri) (changes : Option Payload) :
    (w.setSessionSummaryChanges session changes).Tells := by
  unfold SummaryStream.setSessionSummaryChanges
  split
  · exact h
  · dsimp only
    split
    · exact h
    · exact h.revise (.of_kept (fun _ => rfl) _) rfl

theorem Tells.not_held (h : w.Tells) {entry : SessionEntry}
    (hget : w.manager.sessionStates.get session = some entry)
    (hlast : w.lastNotified.get session = none) :
    (w.row session).added = false ∧ (w.row session).client = none := by
  have hlive : (w.row session).current = some (w.toSummary session entry) := by
    show w.getSessionSummary session = _
    unfold getSessionSummary
    rw [hget]
    rfl
  have hclient : (w.row session).client = none := by
    cases hheld : (w.row session).client with
    | none => rfl
    | some held =>
      have hnotified := ((h session).anchored.fixed held _ hheld hlive).1
      have hnone : (w.row session).lastNotified = none := hlast
      rw [hnone] at hnotified
      cases hnotified
  refine ⟨?_, hclient⟩
  have hheld := (h session).anchored.held
  rw [hclient] at hheld
  exact hheld.symm

theorem Tells.markSessionPersisted (h : w.Tells) (session : Uri) (summary : CatalogSummary) :
    (w.markSessionPersisted session summary).Tells := by
  unfold SummaryStream.markSessionPersisted
  split
  · exact h
  · rename_i entry hget
    split
    · exact h.revise (StateManager.retouches_setSession hget rfl rfl) rfl
    · rename_i hlast
      obtain ⟨hadded, hclient⟩ := h.not_held hget hlast
      apply Tells.emitSessionAdded
      · intro s
        by_cases heq : session = s
        · subst heq
          exact .of_not_added hadded hclient
        · have hrow : ∀ (w' : SummaryStream), w'.getSessionSummary s = w.getSessionSummary s →
              SummaryRow.Good { w.row s with current := w'.getSessionSummary s } := by
            intro w' hcurrent
            rw [hcurrent]
            exact h s
          apply hrow
          rw [getSessionSummary_eq, getSessionSummary_eq]
          rw [StateManager.summaryAt_setSession, if_neg heq, get_set, if_neg heq]
      · intro current hcurrent
        have hself := StateManager.get_setSession w.manager session session
        obtain ⟨e, he, hsummary⟩ := map_eq_some_iff.mp hcurrent
        have hentry := he
        dsimp only [toSummary, StateManager.toSummary] at hentry
        rw [hself, if_pos rfl] at hentry
        rw [← hsummary, ← Option.some.inj hentry]
        rfl

theorem Tells.announceSurfacedSession (h : w.Tells) (summary : CatalogSummary) :
    (w.announceSurfacedSession summary).Tells := by
  unfold SummaryStream.announceSurfacedSession
  split
  · exact h
  · rename_i hnone
    split
    · exact h
    · apply h.emitSessionAdded
      intro current hcurrent
      unfold getSessionSummary at hcurrent
      rw [hnone] at hcurrent
      cases hcurrent

theorem Tells.updateSurfacedSessionTitle (h : w.Tells) (session : Uri) (title : String) :
    (w.updateSurfacedSessionTitle session title).Tells := by
  unfold SummaryStream.updateSurfacedSessionTitle
  split
  · rename_i announced hnone hlast
    split
    · exact h
    · apply h.of_row session
      · intro s hne
        rw [row_emitSessionSummaryChanged, if_neg hne, row_announce, if_neg hne]
      · rw [row_emitSessionSummaryChanged, if_pos rfl, row_announce, if_pos rfl]
        have hanchored := (h session).anchored
        obtain ⟨r, hr⟩ : ∃ r, r = { w.row session with
          lastNotified := some { announced with title := title } } := ⟨_, rfl⟩
        have hpublished : r.added = true → r.published = true := by
          rw [hr]
          exact hanchored.published
        have hheld : r.client.isSome = r.added := by
          rw [hr]
          exact hanchored.held
        have hclient := notify_client hpublished hheld
          { SessionSummaryChanges.none with title := some title }
        rw [← hr]
        apply of_not_live
        · rw [hclient, isSome_map, hheld, notify_added]
        · rw [notify_added, notify_published]
          exact hpublished
        · intro held last hsome hlast'
          rw [hclient] at hsome
          rw [notify_lastNotified, hr] at hlast'
          obtain ⟨old, hold, rfl⟩ := map_eq_some_iff.mp hsome
          rw [hr] at hold
          have hsame : old = announced := hanchored.notified old announced hold hlast
          rw [hsame, ← Option.some.inj hlast']
          rfl
        · rw [notify_current, hr]
          show w.getSessionSummary session = none
          unfold getSessionSummary
          rw [hnone]
          rfl
  · exact h

theorem Tells.retractSurfacedSession (h : w.Tells) (session : Uri) :
    (w.retractSurfacedSession session).Tells := by
  unfold SummaryStream.retractSurfacedSession
  split
  · exact h
  · exact h.unpublish session

theorem getSessionSummary_resource (h : w.getSessionSummary session = some summary) :
    summary.resource = session := by
  obtain ⟨entry, -, rfl⟩ := map_eq_some_iff.mp h
  rfl

theorem Tells.setSessionSummaryPublished (h : w.Tells) (session : Uri) (published : Bool) :
    (w.setSessionSummaryPublished session published).Tells := by
  unfold SummaryStream.setSessionSummaryPublished
  split
  · split
    · exact h
    · split
      · exact h
      · rename_i summary hsummary
        apply h.emitSessionAdded
        intro current hcurrent
        rw [getSessionSummary_resource hsummary, hsummary] at hcurrent
        exact Option.some.inj hcurrent
  · exact h.unpublish session

/-! ## Sessions that come and go -/

theorem row_seeded (w : SummaryStream)
    (hm : ∀ other, m'.summaryAt other = if summary.resource = other then
      some (StateManager.seeded summary.toSessionSummary) else w.manager.summaryAt other) (s : Uri) :
    ({ w with
      manager := m'
      details := w.details.set summary.resource ⟨summary.createdAt, summary.changes⟩ } :
        SummaryStream).row s =
      if summary.resource = s then { w.row s with current := some summary.seeded }
      else w.row s := by
  have hcurrent : ({ w with
      manager := m'
      details := w.details.set summary.resource ⟨summary.createdAt, summary.changes⟩ } :
        SummaryStream).getSessionSummary s =
      if summary.resource = s then some summary.seeded else w.getSessionSummary s := by
    rw [getSessionSummary_eq, getSessionSummary_eq]
    rw [hm, get_set]
    split
    · rfl
    · rfl
  unfold row
  rw [hcurrent]
  split
  · rfl
  · rfl

def Continues (w : SummaryStream) : Event → Prop
  | .createSession summary emitNotification =>
    w.manager.sessionStates.get summary.resource = none →
      if emitNotification && !w.isEphemeral summary._meta then summary.origin = none
      else summary.resource ∈ w.addedSessionSummaries →
        w.lastNotified.get summary.resource = some summary.seeded
  | .restoreSession summary _ _ _ =>
    w.manager.sessionStates.get summary.resource = none →
      summary.resource ∈ w.addedSessionSummaries →
        match w.lastNotified.get summary.resource with
        | some lastNotified => lastNotified.SameFixed summary.seeded
        | none => summary.origin = none ∧ w.client.get summary.resource = some summary
  | _ => True

theorem Tells.good_seeded (h : w.Tells) (hheld : summary.resource ∈ w.addedSessionSummaries →
      w.lastNotified.get summary.resource = some summary.seeded) :
    SummaryRow.Good { w.row summary.resource with current := some summary.seeded } := by
  have hanchored := (h summary.resource).anchored
  have hsame : ∀ held, (w.row summary.resource).client = some held →
      w.lastNotified.get summary.resource = some held ∧ held = summary.seeded := by
    intro held hclient
    have hadded := hanchored.held
    rw [hclient] at hadded
    have hlast := hheld (of_decide_eq_true hadded.symm)
    have heq := hanchored.notified held summary.seeded hclient hlast
    rw [heq]
    exact ⟨hlast, rfl⟩
  refine ⟨⟨hanchored.held, hanchored.published, hanchored.notified, ?_⟩, fun _ => ?_⟩
  · intro held current hclient hcurrent
    obtain ⟨hlast, heq⟩ := hsame held hclient
    rw [← Option.some.inj hcurrent, ← heq]
    exact ⟨hlast, .refl held⟩
  · intro held current hclient hcurrent
    exact (hsame held hclient).2.trans (Option.some.inj hcurrent)

theorem Tells.createSession (h : w.Tells) {emitNotification : Bool}
    (hok : w.Continues (.createSession summary emitNotification)) :
    (w.createSession summary emitNotification).Tells := by
  unfold SummaryStream.createSession
  split
  · exact h
  · rename_i hnone
    have hrow := w.row_seeded (StateManager.summaryAt_createSession hnone)
    have hcondition := hok hnone
    have hquiet : (emitNotification && !w.isEphemeral summary._meta) = false →
        Tells { w with
          manager := w.manager.createSession summary.toSessionSummary
          details := w.details.set summary.resource ⟨summary.createdAt, summary.changes⟩ } := by
      intro hnot
      rw [hnot] at hcondition
      apply h.of_row summary.resource
      · intro s hne
        rw [hrow, if_neg hne]
      · rw [hrow, if_pos rfl]
        exact h.good_seeded hcondition
    cases emitNotification with
    | false => exact hquiet rfl
    | true =>
      rw [if_pos rfl]
      cases hephemeral : w.isEphemeral summary._meta with
      | true =>
        rw [hephemeral] at hquiet
        unfold SummaryStream.emitSessionAdded
        rw [if_pos hephemeral]
        exact hquiet rfl
      | false =>
        rw [hephemeral] at hcondition
        apply h.of_row summary.resource
        · intro s hne
          rw [row_emitSessionAdded, if_neg hne, hrow, if_neg hne]
        · rw [row_emitSessionAdded, if_pos rfl, hrow, if_pos rfl]
          apply SummaryRow.Good.emitAdded
          · intro hyes
            have hmeta : w.isEphemeral summary._meta = true := hyes
            rw [hephemeral] at hmeta
            cases hmeta
          · intro _ current hcurrent
            rw [← Option.some.inj hcurrent]
            exact (seeded_eq_self hcondition).symm

theorem Tells.restoreSession (h : w.Tells) {turns : List Turn} {draft : Option Message}
    {title : Option String} (hok : w.Continues (.restoreSession summary turns draft title)) :
    (w.restoreSession summary turns draft title).Tells := by
  unfold SummaryStream.restoreSession
  dsimp only
  split
  · exact h
  · rename_i hnone
    have hrow := w.row_seeded (StateManager.summaryAt_restoreSession hnone turns draft title)
    have hcondition := hok hnone
    have hanchored := (h summary.resource).anchored
    have hadded : ∀ held, (w.row summary.resource).client = some held →
        summary.resource ∈ w.addedSessionSummaries := by
      intro held hclient
      have hheld := hanchored.held
      rw [hclient] at hheld
      exact of_decide_eq_true hheld.symm
    apply h.of_row summary.resource
    · intro s hne
      split
      · rw [row_flush, if_neg hne, hrow, if_neg hne]
      · rw [row_announce, if_neg hne, hrow, if_neg hne]
    · split
      · rename_i last hlast
        have hlast' : w.lastNotified.get summary.resource = some last := hlast
        rw [hlast'] at hcondition
        rw [row_flush, if_pos rfl, hrow, if_pos rfl]
        apply SummaryRow.Anchored.flush_good
        refine ⟨hanchored.held, hanchored.published, hanchored.notified, ?_⟩
        intro held current hclient hcurrent
        have heq := hanchored.notified held last hclient hlast'
        rw [← Option.some.inj hcurrent, heq]
        exact ⟨hlast', hcondition (hadded held hclient)⟩
      · rename_i hlast
        have hlast' : w.lastNotified.get summary.resource = none := hlast
        rw [hlast'] at hcondition
        rw [row_announce, if_pos rfl, hrow, if_pos rfl]
        have hsame : ∀ held, (w.row summary.resource).client = some held →
            held = summary ∧ held = summary.seeded := by
          intro held hclient
          obtain ⟨horigin, hknown⟩ := hcondition (hadded held hclient)
          have heq : held = summary := Option.some.inj (hclient.symm.trans hknown)
          exact ⟨heq, heq.trans (seeded_eq_self horigin).symm⟩
        refine ⟨⟨hanchored.held, hanchored.published, ?_, ?_⟩, fun _ => ?_⟩
        · intro held last hclient hnotified
          exact (hsame held hclient).1.trans (Option.some.inj hnotified)
        · intro held current hclient hcurrent
          obtain ⟨heq, hseeded⟩ := hsame held hclient
          rw [← Option.some.inj hcurrent, ← hseeded]
          exact ⟨congrArg some heq.symm, .refl held⟩
        · intro held current hclient hcurrent
          exact (hsame held hclient).2.trans (Option.some.inj hcurrent)

theorem row_removeSession (w : SummaryStream) (session s : Uri) : (w.removeSession session).row s =
      if session = s ∧ (w.manager.sessionStates.get session).isSome then (w.row s).remove
      else w.row s := by
  unfold removeSession SummaryRow.remove
  split
  · rename_i hnone
    rw [hnone, if_neg (by simp)]
  · rename_i entry hget
    rw [hget]
    obtain ⟨t, ht⟩ : ∃ t, t = if session ∈ w.dirty then w.flush session else w := ⟨_, rfl⟩
    have htrow : t.row s =
        if session = s ∧ (w.row s).dirty then (w.row s).flush else w.row s := by
      rw [ht]
      by_cases heq : session = s
      · subst heq
        have hdirty : (w.row session).dirty = true ↔ session ∈ w.dirty := by simp [row]
        simp only [true_and, hdirty]
        split
        · rw [row_flush, if_pos rfl]
        · rfl
      · have hnot : ¬(session = s ∧ (w.row s).dirty = true) := fun hand => heq hand.1
        rw [if_neg hnot]
        split
        · rw [row_flush, if_neg heq]
        · rfl
    have hgone : ({ t with
        manager := t.manager.removeSession session
        details := t.details.delete session } : SummaryStream).row s =
        if session = s then { t.row s with current := none } else t.row s := by
      have hcurrent : ({ t with
          manager := t.manager.removeSession session
          details := t.details.delete session } : SummaryStream).getSessionSummary s =
          if session = s then none else t.getSessionSummary s := by
        rw [getSessionSummary_eq, getSessionSummary_eq]
        rw [StateManager.summaryAt_removeSession, get_delete]
        split
        · rfl
        · rfl
      unfold row
      rw [hcurrent]
      split
      · rfl
      · rfl
    rw [← ht, row_forget, hgone, htrow]
    by_cases heq : session = s
    · simp [heq]
    · simp [heq]

theorem Tells.removeSession (h : w.Tells) (session : Uri) : (w.removeSession session).Tells := by
  apply h.of_row session
  · intro s hne
    rw [row_removeSession, if_neg fun hand => hne hand.1]
  · rw [row_removeSession]
    split
    · exact (h session).remove
    · exact h session

theorem Tells.deleteSession (h : w.Tells) (session : Uri) : (w.deleteSession session).Tells := by
  have hclean : ∀ s, session ≠ s → (w.clearDirty session).row s = w.row s := by
    intro s hne
    rw [row_clearDirty, if_neg hne]
  unfold SummaryStream.deleteSession
  split
  · apply h.of_row session
    · intro s hne
      rw [row_emitNotification, get_removed, if_neg hne]
      have hrow : ((w.clearDirty session).removeSession session).row s = w.row s := by
        rw [row_removeSession, if_neg fun hand => hne hand.1, hclean s hne]
      rw [← hrow]
      apply SummaryRow.ext
      · simp [row, Ne.symm hne]
      · simp [row, Ne.symm hne]
      · rfl
      · rfl
      · rfl
      · rfl
    · rw [row_emitNotification, get_removed, if_pos rfl]
      apply of_not_added
      · simp [row]
      · rfl
  · rename_i hpublished
    have hrow : (w.row session).published = false := decide_eq_false hpublished
    obtain ⟨hadded, hclient⟩ := (h session).anchored.client_of_not_published hrow
    have hbefore : (w.clearDirty session).Tells := by
      apply h.of_row session hclean
      rw [row_clearDirty, if_pos rfl]
      exact .of_not_added hadded hclient
    exact hbefore.removeSession session

/-! ## Runs -/

theorem tells_created (h : w.Created) : w.Tells := by
  obtain ⟨manager, isEphemeral, -, rfl⟩ := h
  intro session
  exact .of_not_added rfl rfl

theorem Tells.step (h : w.Tells) {event : Event} (hok : w.Continues event) {w' : SummaryStream}
    (hstep : w.step event = some w') : w'.Tells := by
  cases event with
  | perform operation =>
    obtain ⟨hchats, hsome⟩ := ite_none_right_eq_some.mp hstep
    cases hsome
    exact h.keep (StateManager.summaryAt_perform hchats w.manager)
  | flushAll => exact Option.some.inj hstep ▸ h.flushAll
  | dispatch channel action origin =>
    exact Option.some.inj hstep ▸ h.dispatch channel action origin
  | createSession summary emitNotification => exact Option.some.inj hstep ▸ h.createSession hok
  | markSessionPersisted session summary =>
    exact Option.some.inj hstep ▸ h.markSessionPersisted session summary
  | announceSurfacedSession summary =>
    exact Option.some.inj hstep ▸ h.announceSurfacedSession summary
  | updateSurfacedSessionTitle session title =>
    exact Option.some.inj hstep ▸ h.updateSurfacedSessionTitle session title
  | retractSurfacedSession session =>
    exact Option.some.inj hstep ▸ h.retractSurfacedSession session
  | setSessionSummaryPublished session published =>
    exact Option.some.inj hstep ▸ h.setSessionSummaryPublished session published
  | prepareSessionSummariesForListing summaries =>
    exact Option.some.inj hstep ▸ h.prepareSessionSummariesForListing summaries
  | restoreSession summary turns draft title =>
    exact Option.some.inj hstep ▸ h.restoreSession hok
  | removeSession session => exact Option.some.inj hstep ▸ h.removeSession session
  | deleteSession session => exact Option.some.inj hstep ▸ h.deleteSession session
  | setSessionSummaryChanges session changes =>
    exact Option.some.inj hstep ▸ h.setSessionSummaryChanges session changes
  | configure session config customizations =>
    exact Option.some.inj hstep ▸ h.configure session config customizations

/-! ## The clients of a run -/

def InStepAt (w : SummaryStream) (session : Uri) : Prop :=
  ∀ current, w.getSessionSummary session = some current →
    (session ∈ w.addedSessionSummaries → w.client.get session = some current) ∧
      ∀ n held, (listen (w.notifications.drop n)).get session = some held → held = current

theorem inStepAt_of_row (hgood : (w.row session).Good) (hstep : (w.row session).InStep) :
    w.InStepAt session := by
  intro current hcurrent
  refine ⟨fun hadded => ?_, fun n held hheld => ?_⟩
  · have hisSome : (w.client.get session).isSome = true :=
      hgood.anchored.held.trans (decide_eq_true hadded)
    obtain ⟨held, hheld⟩ := isSome_iff_exists.mp hisSome
    rw [hheld, hstep held current hheld hcurrent]
  · exact hstep held current (listen_drop w.notifications n session held hheld) hcurrent

/-- After a flush the clients hold the current summaries, in every run that brings sessions
into state as `Continues` allows. -/
theorem summaries_of_reachable {w : SummaryStream} (hw : streaming.ReachableVia Continues w) :
    (∀ session, w.flushAll.InStepAt session) ∧ ∀ session, (w.flush session).InStepAt session := by
  have htells : w.Tells := by
    apply hw.invariant (fun _ hinit => tells_created hinit)
    intro s event s' hs hok hstep
    exact hs.step hok hstep
  refine ⟨fun session => ?_, fun session => ?_⟩
  · apply inStepAt_of_row (htells.flushAll session)
    rw [row_flushAll]
    exact (htells session).flushDirty.2
  · apply inStepAt_of_row (htells.flush session session)
    rw [row_flush, if_pos rfl]
    exact (htells session).anchored.flush_inStep

/-! ## The session list of a run -/

def draftSummary : CatalogSummary := { restoredSummary with createdAt := 0, changes := none }

def activityOf (activity : Option String) : Event :=
  .dispatch draftSummary.resource (.session (.activityChanged activity)) none

def announced : SummaryStream := (create newHost fun _ => false).createSession draftSummary true

def added : Event := .createSession draftSummary true

/-- An activity shows and ends between two flushes. -/
def active : SummaryStream :=
  (announced.dispatch draftSummary.resource (.session (.activityChanged (some "a"))) none).flushAll

def cleared : SummaryStream :=
  active.dispatch draftSummary.resource (.session (.activityChanged none)) none

theorem summaries_of_reachable_cleared : (∀ session, cleared.flushAll.InStepAt session) ∧
      ∀ session, (cleared.flush session).InStepAt session := by
  apply summaries_of_reachable
  have hcreated : streaming.ReachableVia Continues (create newHost fun _ => false) :=
    .init ⟨newHost, _, created_newHost, rfl⟩
  have hannounced : streaming.ReachableVia Continues announced :=
    .step (i := added) hcreated (fun _ => rfl) rfl
  have hactive : streaming.ReachableVia Continues active :=
    .step (i := .flushAll) (.step (i := activityOf (some "a")) hannounced trivial rfl) trivial rfl
  exact .step (i := activityOf none) hactive trivial rfl

def renamed : CatalogSummary := { draftSummary with title := "New" }

/-- The session is evicted and comes back with a new title. -/
def retitled : SummaryStream :=
  (announced.removeSession draftSummary.resource).restoreSession renamed [] none none

/-- The client keeps the title from before the eviction. -/
theorem not_always_summaries :
    ¬ ∀ w, streaming.Reachable w → ∀ session, w.flushAll.InStepAt session := by
  intro h
  have hcreated : streaming.Reachable (create newHost fun _ => false) :=
    .init ⟨newHost, _, created_newHost, rfl⟩
  have hannounced : streaming.Reachable announced := .step (i := added) hcreated trivial rfl
  have hevicted : streaming.Reachable (announced.removeSession draftSummary.resource) :=
    .step (i := .removeSession draftSummary.resource) hannounced trivial rfl
  have hretitled : streaming.Reachable retitled :=
    .step (i := .restoreSession renamed [] none none) hevicted trivial rfl
  have hheld := (h retitled hretitled draftSummary.resource renamed rfl).1 (by decide)
  have htitle := congrArg (Option.map fun summary : CatalogSummary => summary.title) hheld
  revert htitle
  decide

end SummaryStream

end Fumie.AgentHost
