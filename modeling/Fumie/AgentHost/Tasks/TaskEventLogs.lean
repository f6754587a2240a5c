import Fumie.AgentHost.Tasks.TaskEventReplay
import Fumie.AgentHost.WebPubSub.InOrder

/-!
# Session logs

What the persisted history of a task records: of every session the envelopes that its
mirror processes published, each chunked into frames, one process after the other. A
process may have ended within a group, and the history may end anywhere.
-/

namespace Fumie.AgentHost

open Fumie.Lib Fumie.Base List JsString

namespace Tasks

def groupOf : List ChunkEnvelope → List JsString
  | .chunk groupId _ _ _ :: _ => [groupId]
  | _ => []

/-- An envelope as it was published. -/
structure Publication where
  payload : JsonValue
  options : ChunkOptions
  frames : List ChunkEnvelope
  envelope : ActionEnvelope
  chunked : chunk payload options = .ok frames
  proper : payload.Proper
  parses : ∀ eventIndex, parseActionEnvelope payload eventIndex = .ok envelope

/-- The envelopes whose frames are all among the first ones. -/
def completed : List Publication → Nat → List Publication
  | [], _ => []
  | p :: rest, n =>
    if p.frames.length ≤ n then p :: completed rest (n - p.frames.length) else []

def endsWithin : List Publication → Nat → Bool
  | [], _ => false
  | p :: rest, n =>
    if p.frames.length ≤ n then endsWithin rest (n - p.frames.length) else decide (0 < n)

/-- One mirror process: the history has the first frames of what it published. -/
structure Epoch where
  start : Nat
  published : List Publication
  recorded : Nat

namespace Epoch

def frames (e : Epoch) : List ChunkEnvelope :=
  (e.published.flatMap Publication.frames).take e.recorded

def numbered (e : Epoch) : List (ChunkEnvelope × Nat) := e.frames.zipIdx e.start

def completed (e : Epoch) : List Publication := Tasks.completed e.published e.recorded

def endsWithin (e : Epoch) : Bool := Tasks.endsWithin e.published e.recorded

def groups (e : Epoch) : List JsString := e.published.flatMap fun p => groupOf p.frames

end Epoch

structure SessionLog where
  epochs : List Epoch
  recorded : ∀ e ∈ epochs, e.frames ≠ []
  restarts : ∀ e ∈ epochs.tail, e.start ≤ MAX_RESTART_EPOCH_INITIAL_SEQUENCE
  minted : (epochs.flatMap Epoch.groups).Nodup

namespace SessionLog

variable (log : SessionLog)

def numbered : List (ChunkEnvelope × Nat) := log.epochs.flatMap Epoch.numbered

def envelopes : List ActionEnvelope :=
  ((log.epochs.flatMap Epoch.completed).map Publication.envelope).filter
    fun envelope => envelope.rejectionReason.isNone

def isTruncated : Bool := log.epochs.any Epoch.endsWithin

end SessionLog

/-! ## The recorded events -/

structure IsTaskEvent (session : JsString) (frame : ChunkEnvelope × Nat) (event : JsonValue) :
    Prop where
  object : isRecord event = true
  ns : event.field? (ofString "ns") = some (.string (ofString "ahp"))
  sessionId : ∃ id, event.field? (ofString "session_id") = some (.string id) ∧
    trim id ≠ [] ∧ sessionChannelFor id = session
  seq : event.field? (ofString "seq") = some (.number (.integer frame.2))
  at' : ∃ at', event.field? (ofString "at") = some (.string at') ∧ trim at' ≠ []
  payload : event.field? (ofString "payload") = some frame.1.toJson

def sessionOf? (event : JsonValue) : Option JsString := (eventSession (event, 0)).toOption

def eventsOf (session : JsString) (events : List JsonValue) : List JsonValue :=
  events.filter fun event => sessionOf? event = some session

structure Recorded (logs : JsString → SessionLog) (events : List JsonValue) : Prop where
  session : ∀ event ∈ events, ∃ session, sessionOf? event = some session
  events : ∀ session, List.Forall₂ (IsTaskEvent session) (logs session).numbered
    (eventsOf session events)

/-! ## Cutting a log -/

theorem take_zipIdx {α : Type} (items : List α) (start n : Nat) :
    (items.take n).zipIdx start = (items.zipIdx start).take n := by
  induction items generalizing start n with
  | nil => simp
  | cons item rest ih =>
    cases n with
    | zero => rfl
    | succ n => rw [take_succ_cons, zipIdx_cons, zipIdx_cons, take_succ_cons, ih]

namespace Epoch

def cut (e : Epoch) (n : Nat) : Epoch := { e with recorded := min n e.recorded }

variable (e : Epoch) (n : Nat)

theorem frames_cut : (e.cut n).frames = e.frames.take n := by
  show (e.published.flatMap Publication.frames).take (min n e.recorded) = _
  unfold frames
  rw [take_take]

theorem numbered_cut : (e.cut n).numbered = e.numbered.take n := by
  unfold numbered
  rw [frames_cut]
  exact take_zipIdx e.frames e.start n

theorem groups_cut : (e.cut n).groups = e.groups := rfl

theorem length_numbered : e.numbered.length = e.frames.length := length_zipIdx

end Epoch

def cutEpochs : List Epoch → Nat → List Epoch
  | [], _ => []
  | e :: rest, n =>
    if n = 0 then []
    else if n ≤ e.frames.length then [e.cut n]
    else e :: cutEpochs rest (n - e.frames.length)

theorem cutEpochs_cons (e : Epoch) (rest : List Epoch) (n : Nat) : cutEpochs (e :: rest) n =
      if n = 0 then []
      else if n ≤ e.frames.length then [e.cut n]
      else e :: cutEpochs rest (n - e.frames.length) := rfl

variable (epochs : List Epoch)

theorem numbered_cutEpochs (n : Nat) :
    (cutEpochs epochs n).flatMap Epoch.numbered = (epochs.flatMap Epoch.numbered).take n := by
  induction epochs generalizing n with
  | nil => simp [cutEpochs]
  | cons e rest ih =>
    rw [cutEpochs_cons, flatMap_cons, ← e.length_numbered]
    split_ifs with hzero hwithin
    · rw [hzero, take_zero, flatMap_nil]
    · rw [take_append_of_le_length hwithin, ← e.numbered_cut]
      simp
    · have hall : e.numbered.length ≤ n := by omega
      rw [flatMap_cons, ih, take_append, take_of_length_le hall]

theorem cutEpochs_recorded {epochs : List Epoch} (h : ∀ e ∈ epochs, e.frames ≠ []) (n : Nat) :
    ∀ e ∈ cutEpochs epochs n, e.frames ≠ [] := by
  induction epochs generalizing n with
  | nil => simp [cutEpochs]
  | cons e rest ih =>
    rw [cutEpochs_cons]
    have he : e.frames ≠ [] := h e mem_cons_self
    split_ifs with hzero hwithin
    · simp
    · intro e' he'
      obtain rfl := mem_singleton.mp he'
      rw [Epoch.frames_cut]
      intro hnil
      cases take_eq_nil_iff.mp hnil with
      | inl h => exact hzero h
      | inr h => exact he h
    · intro e' he'
      cases mem_cons.mp he' with
      | inl heq => exact heq ▸ he
      | inr hmem => exact ih (fun e hmem => h e (mem_cons_of_mem _ hmem)) _ e' hmem

theorem start_cutEpochs {epochs : List Epoch} {bound : Nat} (h : ∀ e ∈ epochs, e.start ≤ bound)
    (n : Nat) : ∀ e ∈ cutEpochs epochs n, e.start ≤ bound := by
  induction epochs generalizing n with
  | nil => simp [cutEpochs]
  | cons e rest ih =>
    rw [cutEpochs_cons]
    have he : e.start ≤ bound := h e mem_cons_self
    split_ifs with hzero hwithin
    · simp
    · intro e' he'
      obtain rfl := mem_singleton.mp he'
      exact he
    · intro e' he'
      cases mem_cons.mp he' with
      | inl heq => exact heq ▸ he
      | inr hmem => exact ih (fun e hmem => h e (mem_cons_of_mem _ hmem)) _ e' hmem

theorem tail_cutEpochs (n : Nat) : (cutEpochs epochs n).tail = [] ∨
      ∃ m, (cutEpochs epochs n).tail = cutEpochs epochs.tail m := by
  cases epochs with
  | nil => exact .inl rfl
  | cons e rest =>
    rw [cutEpochs_cons]
    split_ifs with hzero hwithin
    · exact .inl rfl
    · exact .inl rfl
    · exact .inr ⟨_, rfl⟩

theorem groups_cutEpochs (n : Nat) :
    ((cutEpochs epochs n).flatMap Epoch.groups).Sublist (epochs.flatMap Epoch.groups) := by
  induction epochs generalizing n with
  | nil => exact List.Sublist.refl _
  | cons e rest ih =>
    rw [cutEpochs_cons]
    rw [flatMap_cons]
    split_ifs with hzero hwithin
    · exact nil_sublist _
    · rw [flatMap_cons, Epoch.groups_cut, flatMap_nil, append_nil]
      exact sublist_append_left _ _
    · rw [flatMap_cons]
      exact List.Sublist.append_left (ih _) _

variable (log : SessionLog)

def SessionLog.cut (n : Nat) : SessionLog where
  epochs := cutEpochs log.epochs n
  recorded := cutEpochs_recorded log.recorded n
  restarts := by
    obtain hnil | ⟨m, htail⟩ := tail_cutEpochs log.epochs n
    · rw [hnil]
      simp
    · rw [htail]
      exact start_cutEpochs log.restarts m
  minted := (groups_cutEpochs log.epochs n).nodup log.minted

theorem SessionLog.numbered_cut (n : Nat) :
    (log.cut n).numbered = log.numbered.take n := numbered_cutEpochs log.epochs n

theorem filter_take {α : Type} (p : α → Bool) (items : List α) (n : Nat) :
    (items.take n).filter p = (items.filter p).take ((items.take n).filter p).length := by
  have hsplit : items.filter p = (items.take n).filter p ++ (items.drop n).filter p := by
    rw [← filter_append, take_append_drop]
  rw [hsplit, take_left]

def logsUpTo (logs : JsString → SessionLog) (events : List JsonValue) (n : Nat)
    (session : JsString) : SessionLog :=
  (logs session).cut (eventsOf session (events.take n)).length

theorem Recorded.take {logs : JsString → SessionLog} {events : List JsonValue}
    (h : Recorded logs events) (n : Nat) : Recorded (logsUpTo logs events n) (events.take n) where
  session event hevent := h.session event (mem_of_mem_take hevent)
  events session := by
    unfold logsUpTo
    rw [SessionLog.numbered_cut]
    have htake : eventsOf session (events.take n) =
        (eventsOf session events).take (eventsOf session (events.take n)).length :=
      filter_take _ events n
    have hevents := forall₂_take (eventsOf session (events.take n)).length (h.events session)
    rwa [← htake] at hevents

end Tasks

end Fumie.AgentHost
