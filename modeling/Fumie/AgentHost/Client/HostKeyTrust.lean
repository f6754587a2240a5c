import Fumie.AgentHost.Client.KnownHosts
import Fumie.Lib.Record
import Fumie.Lib.Runs

/-!
# Trusted host keys

The renderer answers what the shared process asks about presented host keys: by the trust
policy over the stored keys and the verdict of `known_hosts`, or by asking the user, while
other requests, announcements and `forgetHost` go on. Keys are left with their type and
fingerprint; the stored JSON gives back the map it was made of.
-/

namespace Fumie.AgentHost

open Fumie.Lib Fumie.Base List

inductive SSHStrictHostKeyChecking where
  | ask
  | acceptNew
  | yes
  | no
  | off
  deriving DecidableEq

structure SSHTrustedHostKey where
  keyType : JsString
  fingerprint : JsString
  deriving DecidableEq

structure SSHHostKeyVerificationRequest where
  requestId : Nat
  connectionKey : String
  host : JsString
  port : Nat
  key : SSHTrustedHostKey
  knownHostsMatch : KnownHostsMatch
  strictHostKeyChecking : Option SSHStrictHostKeyChecking
  userInitiated : Bool
  deriving DecidableEq

/-! ## The policy -/

inductive TrustReason where
  | stored
  | knownHosts
  | strictAcceptNew
  | strictDisabled

inductive SSHHostKeyDenial where
  | mismatchStored
  | mismatchKnownHosts
  | revoked
  | strictYes
  | notUserInitiated

inductive PromptReason where
  | unknown
  | caOnly

inductive SSHHostKeyDecision where
  | trust (persist : Bool) (reason : TrustReason)
  | deny (denial : SSHHostKeyDenial)
  | prompt (reason : PromptReason)

def decideHostKeyTrust (request : SSHHostKeyVerificationRequest)
    (trustedKeys : List SSHTrustedHostKey) : SSHHostKeyDecision :=
  let stored := trustedKeys.find? fun key => key.keyType = request.key.keyType
  if request.knownHostsMatch = .revoked then .deny .revoked
  else if request.strictHostKeyChecking = some .no ∨ request.strictHostKeyChecking = some .off then
    if stored.any fun key => key.fingerprint ≠ request.key.fingerprint then .deny .mismatchStored
    else if request.knownHostsMatch = .mismatch then .deny .mismatchKnownHosts
    else .trust false .strictDisabled
  else
    match stored with
    | some key =>
      if key.fingerprint = request.key.fingerprint then .trust false .stored
      else .deny .mismatchStored
    | none =>
      if request.knownHostsMatch = .mismatch then .deny .mismatchKnownHosts
      else if request.knownHostsMatch = .matches then .trust true .knownHosts
      else if request.strictHostKeyChecking = some .yes then .deny .strictYes
      else if request.strictHostKeyChecking = some .acceptNew then .trust true .strictAcceptNew
      else if !request.userInitiated then .deny .notUserInitiated
      else .prompt (if request.knownHostsMatch = .caOnly then .caOnly else .unknown)

/-! ## The service -/

structure SSHHostKeysAnnouncement where
  connectionKey : String
  host : JsString
  port : Nat
  keys : List SSHTrustedHostKey

structure HostKeyService where
  hosts : Record JsString (List SSHTrustedHostKey)
  sessionHostKeys : Record String SSHTrustedHostKey
  /-- Requests whose prompt is open. -/
  prompts : List SSHHostKeyVerificationRequest
  /-- Requests whose prompt was cancelled. -/
  cancelled : List SSHHostKeyVerificationRequest
  /-- The calls of `respondHostKeyVerification`. -/
  responses : List (SSHHostKeyVerificationRequest × Bool)
  /-- Keys learned from an announcement: store key, the session's host key, the learned one. -/
  learned : List (JsString × SSHTrustedHostKey × SSHTrustedHostKey)

inductive HostKeyEvent where
  | request (request : SSHHostKeyVerificationRequest)
  | answer (request : SSHHostKeyVerificationRequest) (confirmed : Bool)
  | cancel (request : SSHHostKeyVerificationRequest)
  | announce (announcement : SSHHostKeysAnnouncement)
  | forgetHost (host : JsString) (port : Nat)

namespace HostKeyService

variable (toLowerCase : JsString → JsString)

def computeHostKeyStoreKey (host : JsString) (port : Nat) : JsString :=
  toLowerCase host ++ 58 :: JsString.ofString (toString port)

def storeKey (request : SSHHostKeyVerificationRequest) : JsString :=
  computeHostKeyStoreKey toLowerCase request.host request.port

variable (s : HostKeyService)

def getTrustedKeys (storeKey : JsString) : List SSHTrustedHostKey := (s.hosts.get storeKey).getD []

def trustHostKey (storeKey : JsString) (key : SSHTrustedHostKey) : HostKeyService :=
  { s with
    hosts := s.hosts.set storeKey
      ((s.getTrustedKeys storeKey).filter (·.keyType ≠ key.keyType) ++ [key]) }

def respond (request : SSHHostKeyVerificationRequest) (trusted : Bool) : HostKeyService :=
  { s with
    sessionHostKeys := s.sessionHostKeys.set request.connectionKey request.key
    responses := s.responses ++ [(request, trusted)] }

def handleHostKeyVerificationRequest (request : SSHHostKeyVerificationRequest) : HostKeyService :=
  match decideHostKeyTrust request (s.getTrustedKeys (storeKey toLowerCase request)) with
  | .trust true _ => (s.trustHostKey (storeKey toLowerCase request) request.key).respond request true
  | .trust false _ => s.respond request true
  | .deny _ => s.respond request false
  | .prompt _ => { s with prompts := s.prompts ++ [request] }

/-- The rest of the handler, behind the prompt. -/
def handlePromptAnswer (request : SSHHostKeyVerificationRequest) (confirmed : Bool) :
    HostKeyService :=
  let s := { s with prompts := s.prompts.erase request }
  if confirmed then
    (s.trustHostKey (storeKey toLowerCase request) request.key).respond request true
  else s.respond request false

def learn (storeKey : JsString) (sessionKey : SSHTrustedHostKey)
    (existing : List SSHTrustedHostKey) (key : SSHTrustedHostKey) : HostKeyService :=
  if key ∈ existing then s
  else { s.trustHostKey storeKey key with learned := s.learned ++ [(storeKey, sessionKey, key)] }

def handleAnnouncedHostKeys (announcement : SSHHostKeysAnnouncement) : HostKeyService :=
  let storeKey := computeHostKeyStoreKey toLowerCase announcement.host announcement.port
  let existing := s.getTrustedKeys storeKey
  match s.sessionHostKeys.get announcement.connectionKey with
  | none => s
  | some sessionKey =>
    if sessionKey ∈ existing then
      announcement.keys.foldl (fun s key => s.learn storeKey sessionKey existing key) s
    else s

def forgetHost (host : JsString) (port : Nat) : HostKeyService :=
  { s with hosts := s.hosts.delete (computeHostKeyStoreKey toLowerCase host port) }

/-- The requests of the shared process so far; it numbers them. -/
def seen : List SSHHostKeyVerificationRequest :=
  s.responses.map Prod.fst ++ s.prompts ++ s.cancelled

def step : HostKeyEvent → Option HostKeyService
  | .request request =>
    if request.requestId ∈ s.seen.map (·.requestId) then none
    else some (s.handleHostKeyVerificationRequest toLowerCase request)
  | .answer request confirmed =>
    if request ∈ s.prompts then some (s.handlePromptAnswer toLowerCase request confirmed) else none
  | .cancel request =>
    if request ∈ s.prompts then
      some { s with prompts := s.prompts.erase request, cancelled := request :: s.cancelled }
    else none
  | .announce announcement => some (s.handleAnnouncedHostKeys toLowerCase announcement)
  | .forgetHost host port => some (s.forgetHost toLowerCase host port)

/-- A renderer that starts with these stored keys, one of each type for a host. -/
def system (hosts : Record JsString (List SSHTrustedHostKey)) : System HostKeyService HostKeyEvent :=
  .ofStep (· = ⟨hosts, .empty, [], [], [], []⟩) (step toLowerCase)

/-! ## Where stored keys come from -/

/-- Not refused by `known_hosts`, and not under `StrictHostKeyChecking no`. -/
def Presentable (request : SSHHostKeyVerificationRequest) : Prop :=
  request.knownHostsMatch ∉ [.revoked, .mismatch] ∧
    request.strictHostKeyChecking ∉ [some .no, some .off]

/-- A key is vouched for if it was stored at the start, was accepted under checking, or was
announced in a session whose own host key is vouched for. -/
inductive Vouched (hosts : Record JsString (List SSHTrustedHostKey)) (s : HostKeyService) :
    JsString → SSHTrustedHostKey → Prop
  | kept {name : JsString} {key : SSHTrustedHostKey} (h : key ∈ (hosts.get name).getD []) :
      Vouched hosts s name key
  | accepted {request : SSHHostKeyVerificationRequest} (h : (request, true) ∈ s.responses)
      (hpresentable : Presentable request) : Vouched hosts s (storeKey toLowerCase request) request.key
  | learned {name : JsString} {key sessionKey : SSHTrustedHostKey}
      (h : (name, sessionKey, key) ∈ s.learned) (hsession : Vouched hosts s name sessionKey) :
      Vouched hosts s name key

structure Sound (hosts : Record JsString (List SSHTrustedHostKey)) (s : HostKeyService) : Prop where
  unrevoked : ∀ request, (request, true) ∈ s.responses → request.knownHostsMatch ≠ .revoked
  asked : ∀ request ∈ s.prompts, Presentable request
  vouched : ∀ name, ∀ key ∈ s.getTrustedKeys name, Vouched toLowerCase hosts s name key
  types : ∀ name, ((s.getTrustedKeys name).map (·.keyType)).Nodup
  once : (s.seen.map (·.requestId)).Nodup

variable {toLowerCase} {s} {hosts : Record JsString (List SSHTrustedHostKey)}
  {request : SSHHostKeyVerificationRequest} {name other : JsString} {key : SSHTrustedHostKey}

theorem getTrustedKeys_trustHostKey : (s.trustHostKey name key).getTrustedKeys other =
    if name = other then (s.getTrustedKeys name).filter (·.keyType ≠ key.keyType) ++ [key]
    else s.getTrustedKeys other := by
  rw [trustHostKey, getTrustedKeys, Record.get_set]
  split <;> rfl

theorem Vouched.mono {t : HostKeyService} (h : Vouched toLowerCase hosts s name key)
    (hresponses : s.responses ⊆ t.responses) (hlearned : s.learned ⊆ t.learned) :
    Vouched toLowerCase hosts t name key := by
  induction h with
  | kept h => exact .kept h
  | accepted h hpresentable => exact .accepted (hresponses h) hpresentable
  | learned h _ ih => exact .learned (hlearned h) ih

theorem decideHostKeyTrust_spec (request : SSHHostKeyVerificationRequest)
    (keys : List SSHTrustedHostKey) :
    match decideHostKeyTrust request keys with
    | .trust persist _ => request.knownHostsMatch ≠ .revoked ∧ (persist → Presentable request)
    | .deny _ => True
    | .prompt _ => Presentable request := by
  unfold decideHostKeyTrust Presentable
  cases request.knownHostsMatch <;> grind

/-- One key of a type is left, the trusted one. -/
theorem types_trustHostKey (h : ∀ name, ((s.getTrustedKeys name).map (·.keyType)).Nodup) :
    ((((s.trustHostKey name key).getTrustedKeys other)).map (·.keyType)).Nodup := by
  rw [getTrustedKeys_trustHostKey]
  split
  · rw [map_append, nodup_append]
    refine ⟨(h name).sublist (filter_sublist.map _), nodup_singleton _, ?_⟩
    rintro _ ha _ hb rfl
    obtain ⟨k, hk, rfl⟩ := mem_map.mp ha
    simp_all
  · exact h other

theorem mem_trustHostKey {k : SSHTrustedHostKey}
    (h : k ∈ (s.trustHostKey name key).getTrustedKeys other) :
    k ∈ s.getTrustedKeys other ∨ name = other ∧ k = key := by
  rw [getTrustedKeys_trustHostKey] at h
  split at h
  · next heq =>
    subst heq
    rcases mem_append.mp h with h | h
    · exact .inl (mem_of_mem_filter h)
    · exact .inr ⟨rfl, mem_singleton.mp h⟩
  · exact .inl h

/-- A request that is answered, now or behind its prompt, and stored only with its answer. -/
theorem Sound.answered {t : HostKeyService} {trusted : Bool} (h : Sound toLowerCase hosts s)
    (hhosts : t.hosts = s.hosts ∨ trusted = true ∧ Presentable request ∧
      t.hosts = (s.trustHostKey (storeKey toLowerCase request) request.key).hosts)
    (hresponses : t.responses = s.responses ++ [(request, trusted)]) (hlearned : t.learned = s.learned)
    (hprompts : t.prompts ⊆ s.prompts)
    (hunrevoked : trusted = true → request.knownHostsMatch ≠ .revoked)
    (honce : (t.seen.map (·.requestId)).Nodup) : Sound toLowerCase hosts t := by
  have hsub : s.responses ⊆ t.responses := hresponses ▸ subset_append_left _ _
  have hkeep : ∀ name, ∀ key ∈ s.getTrustedKeys name, Vouched toLowerCase hosts t name key :=
    fun name key hkey => (h.vouched name key hkey).mono hsub (hlearned ▸ Subset.refl _)
  refine ⟨fun r hr => ?_, fun r hr => h.asked r (hprompts hr), fun name key hkey => ?_,
    fun name => ?_, honce⟩
  · rw [hresponses] at hr
    rcases mem_append.mp hr with hr | hr
    · exact h.unrevoked r hr
    · cases mem_singleton.mp hr
      exact hunrevoked rfl
  · rcases hhosts with hsame | ⟨rfl, hpresentable, hset⟩
    · exact hkeep name key (by rwa [getTrustedKeys, hsame] at hkey)
    · rw [getTrustedKeys, hset] at hkey
      rcases mem_trustHostKey hkey with hkey | ⟨rfl, rfl⟩
      · exact hkeep name key hkey
      · exact .accepted (hresponses ▸ mem_append_right _ (mem_singleton_self _)) hpresentable
  · rcases hhosts with hsame | ⟨-, -, hset⟩
    · rw [getTrustedKeys, hsame]
      exact h.types name
    · rw [getTrustedKeys, hset]
      exact types_trustHostKey h.types

theorem Sound.presented (h : Sound toLowerCase hosts s)
    (hfresh : request.requestId ∉ s.seen.map (·.requestId)) :
    Sound toLowerCase hosts (s.handleHostKeyVerificationRequest toLowerCase request) := by
  have hspec := decideHostKeyTrust_spec request (s.getTrustedKeys (storeKey toLowerCase request))
  have honce : ((request :: s.seen).map (·.requestId)).Nodup := nodup_cons.mpr ⟨hfresh, h.once⟩
  have hanswered (trusted : Bool) : (request :: s.seen).Perm
      ((s.responses ++ [(request, trusted)]).map Prod.fst ++ s.prompts ++ s.cancelled) := by
    simp only [seen, map_append, map_singleton, append_assoc, singleton_append]
    exact perm_middle.symm
  have hasked : (request :: s.seen).Perm
      (s.responses.map Prod.fst ++ (s.prompts ++ [request]) ++ s.cancelled) := by
    simp only [seen, append_assoc, singleton_append]
    rw [← append_assoc, ← append_assoc]
    exact perm_middle.symm
  unfold handleHostKeyVerificationRequest
  cases hdecision : decideHostKeyTrust request (s.getTrustedKeys (storeKey toLowerCase request)) with
  | trust persist reason =>
    rw [hdecision] at hspec
    have honce' := ((hanswered true).map _).nodup_iff.mp honce
    cases persist with
    | true =>
      exact h.answered (.inr ⟨rfl, hspec.2 rfl, rfl⟩) rfl rfl (Subset.refl _) (fun _ => hspec.1) honce'
    | false => exact h.answered (.inl rfl) rfl rfl (Subset.refl _) (fun _ => hspec.1) honce'
  | deny denial =>
    exact h.answered (.inl rfl) rfl rfl (Subset.refl _) nofun
      (((hanswered false).map _).nodup_iff.mp honce)
  | prompt reason =>
    rw [hdecision] at hspec
    refine ⟨h.unrevoked, fun r hr => ?_, fun name key hkey =>
      (h.vouched name key hkey).mono (Subset.refl _) (Subset.refl _), h.types,
      (hasked.map _).nodup_iff.mp honce⟩
    rcases mem_append.mp hr with hr | hr
    · exact h.asked r hr
    · rw [mem_singleton.mp hr]
      exact hspec

theorem Sound.answer (h : Sound toLowerCase hosts s) (hasked : request ∈ s.prompts)
    (confirmed : Bool) :
    Sound toLowerCase hosts (s.handlePromptAnswer toLowerCase request confirmed) := by
  have hperm (trusted : Bool) : s.seen.Perm ((s.responses ++ [(request, trusted)]).map Prod.fst ++
      s.prompts.erase request ++ s.cancelled) := by
    simp only [seen, map_append, map_singleton, append_assoc, singleton_append]
    exact ((perm_cons_erase hasked).append_right _).append_left _
  have honce (trusted : Bool) := ((hperm trusted).map (·.requestId)).nodup_iff.mp h.once
  have hpresentable := h.asked request hasked
  unfold handlePromptAnswer
  cases confirmed with
  | true =>
    refine h.answered (.inr ⟨rfl, hpresentable, rfl⟩) rfl rfl (erase_subset ..) (fun _ hrevoked => ?_)
      (honce true)
    exact hpresentable.1 (hrevoked ▸ mem_cons_self)
  | false => exact h.answered (.inl rfl) rfl rfl (erase_subset ..) nofun (honce false)

theorem Sound.learn {sessionKey : SSHTrustedHostKey} (existing : List SSHTrustedHostKey)
    (key : SSHTrustedHostKey) (h : Sound toLowerCase hosts s)
    (hsession : Vouched toLowerCase hosts s name sessionKey) :
    Sound toLowerCase hosts (s.learn name sessionKey existing key) ∧
      Vouched toLowerCase hosts (s.learn name sessionKey existing key) name sessionKey := by
  unfold HostKeyService.learn
  split
  · exact ⟨h, hsession⟩
  · have hsub : s.learned ⊆ s.learned ++ [(name, sessionKey, key)] := subset_append_left _ _
    refine ⟨⟨h.unrevoked, h.asked, fun other k hk => ?_, fun other => types_trustHostKey h.types,
      h.once⟩, hsession.mono (Subset.refl _) hsub⟩
    rcases mem_trustHostKey hk with hk | ⟨rfl, rfl⟩
    · exact (h.vouched other k hk).mono (Subset.refl _) hsub
    · exact .learned (mem_append_right _ (mem_singleton_self _))
        (hsession.mono (Subset.refl _) hsub)

theorem Sound.learnAll {sessionKey : SSHTrustedHostKey} (existing keys : List SSHTrustedHostKey)
    (h : Sound toLowerCase hosts s) (hsession : Vouched toLowerCase hosts s name sessionKey) :
    Sound toLowerCase hosts (keys.foldl (fun s key => s.learn name sessionKey existing key) s) := by
  induction keys generalizing s with
  | nil => exact h
  | cons key keys ih =>
    obtain ⟨hlearn, hsession⟩ := h.learn existing key hsession
    exact ih hlearn hsession

theorem Sound.announce (announcement : SSHHostKeysAnnouncement) (h : Sound toLowerCase hosts s) :
    Sound toLowerCase hosts (s.handleAnnouncedHostKeys toLowerCase announcement) := by
  unfold handleAnnouncedHostKeys
  dsimp only
  split
  · exact h
  · split
    · next hmem => exact h.learnAll _ _ (h.vouched _ _ hmem)
    · exact h

theorem Sound.forget (host : JsString) (port : Nat) (h : Sound toLowerCase hosts s) :
    Sound toLowerCase hosts (s.forgetHost toLowerCase host port) := by
  have hsub : ∀ name, (s.forgetHost toLowerCase host port).getTrustedKeys name = [] ∨
      (s.forgetHost toLowerCase host port).getTrustedKeys name = s.getTrustedKeys name := by
    intro name
    rw [forgetHost, getTrustedKeys, Record.get_delete]
    split
    · exact .inl rfl
    · exact .inr rfl
  refine ⟨h.unrevoked, h.asked, fun name key hkey => ?_, fun name => ?_, h.once⟩
  · rcases hsub name with hnil | hsame
    · rw [hnil] at hkey
      cases hkey
    · rw [hsame] at hkey
      exact (h.vouched name key hkey).mono (Subset.refl _) (Subset.refl _)
  · rcases hsub name with hnil | hsame
    · rw [hnil]
      exact nodup_nil
    · rw [hsame]
      exact h.types name

theorem Sound.cancel (h : Sound toLowerCase hosts s) (hasked : request ∈ s.prompts) :
    Sound toLowerCase hosts
      { s with prompts := s.prompts.erase request, cancelled := request :: s.cancelled } := by
  refine ⟨h.unrevoked, fun r hr => h.asked r (mem_of_mem_erase hr), fun name key hkey =>
    (h.vouched name key hkey).mono (Subset.refl _) (Subset.refl _), h.types, ?_⟩
  refine Perm.nodup (Perm.map _ ?_) h.once
  rw [seen, seen, append_assoc, append_assoc]
  exact (((perm_cons_erase hasked).append_right _).trans perm_middle.symm).append_left _

theorem Sound.of_reachable (htypes : ∀ name, (((hosts.get name).getD []).map (·.keyType)).Nodup)
    (h : (system toLowerCase hosts).Reachable s) : Sound toLowerCase hosts s := by
  refine h.invariant ?_ fun s event s' hs _ hstep => ?_
  · rintro s rfl
    exact ⟨nofun, nofun, fun name key hkey => .kept hkey, htypes, nodup_nil⟩
  · cases event with
    | request request =>
      obtain ⟨hfresh, hstep⟩ := Option.ite_none_left_eq_some.mp hstep
      cases hstep
      exact hs.presented hfresh
    | answer request confirmed =>
      obtain ⟨hasked, hstep⟩ := Option.ite_none_right_eq_some.mp hstep
      cases hstep
      exact hs.answer hasked confirmed
    | cancel request =>
      obtain ⟨hasked, hstep⟩ := Option.ite_none_right_eq_some.mp hstep
      cases hstep
      exact hs.cancel hasked
    | announce announcement =>
      cases hstep
      exact hs.announce announcement
    | forgetHost host port =>
      cases hstep
      exact hs.forget host port

/-- A key known from `known_hosts`, and another one under `StrictHostKeyChecking no`. -/
def sampleRequests : List SSHHostKeyVerificationRequest :=
  [⟨1, "c", [104], 22, ⟨[101], [1]⟩, .matches, none, true⟩,
    ⟨2, "c", [72], 22, ⟨[101], [2]⟩, .unknown, some .no, true⟩]

/-- Where any file has an applicable `@revoked` line with the presented key, no run accepts it. -/
theorem revoked_line_refused (env : KnownHostsHost)
    (hosts : Record JsString (List SSHTrustedHostKey))
    (htypes : ∀ name, (((hosts.get name).getD []).map (·.keyType)).Nodup)
    (h : (system env.toLowerCase hosts).Reachable s) {files : List JsString} {blob : Bytes}
    (hverdict : request.knownHostsMatch = matchKnownHosts env (files.flatMap (parseKnownHosts env))
      request.host request.port request.key.keyType blob) {entry : KnownHostsEntry}
    (hline : ∃ file ∈ files, entry ∈ parseKnownHosts env file)
    (happlies : entryApplies env (hostCandidates env.toLowerCase request.host request.port) entry)
    (hmarker : entry.marker = some .revoked) (hkey : entry.key = blob) :
    (request, true) ∉ s.responses := by
  intro hresponse
  refine (Sound.of_reachable htypes h).unrevoked request hresponse ?_
  rw [hverdict, matchKnownHosts_eq, verdict, if_pos]
  exact ⟨entry, mem_flatMap.mpr hline, happlies, hmarker, hkey⟩

/-- A background reconnect to a host whose key is revoked in the second of two files. -/
theorem revoked_line_refused_sample : ∃ s : HostKeyService, s.responses.length = 1 ∧
    (⟨1, "c", [104], 22, ⟨[120], [1]⟩, .revoked, none, false⟩, true) ∉ s.responses := by
  have hinit : (system asciiLowerCase .empty).Reachable ⟨.empty, .empty, [], [], [], []⟩ := .init rfl
  have hs := System.Reachable.run hinit
    [.request ⟨1, "c", [104], 22, ⟨[120], [1]⟩, .revoked, none, false⟩] rfl
  have hparse : parseKnownHosts plainHost (JsString.ofString "@revoked * x AAAAAXg=") =
      [⟨some .revoked, [[42]], none, [120], [0, 0, 0, 1, 120]⟩] := by rfl
  have hverdict : KnownHostsMatch.revoked = matchKnownHosts plainHost
      ([[], JsString.ofString "@revoked * x AAAAAXg="].flatMap (parseKnownHosts plainHost)) [104] 22
      [120] [0, 0, 0, 1, 120] := by rfl
  exact ⟨_, rfl, revoked_line_refused plainHost .empty (fun _ => nodup_nil) hs hverdict
    ⟨_, mem_cons_of_mem [] (mem_singleton_self _), hparse ▸ mem_singleton_self _⟩ rfl rfl rfl⟩

/-! ## A key that is stored -/

def Disabled (request : SSHHostKeyVerificationRequest) : Prop :=
  request.strictHostKeyChecking = some .no ∨ request.strictHostKeyChecking = some .off

instance : Decidable (Disabled request) := inferInstanceAs (Decidable (_ ∨ _))

variable (toLowerCase name key) in
/-- The host is not forgotten, and neither the user nor an announcement has another key of this
type stored for it. -/
def Undisturbed : HostKeyEvent → Prop
  | .request _ | .cancel _ | .answer _ false => True
  | .answer request true => storeKey toLowerCase request = name →
    request.key.keyType = key.keyType → request.key = key
  | .announce announcement =>
    computeHostKeyStoreKey toLowerCase announcement.host announcement.port = name →
      ∀ k ∈ announcement.keys, k.keyType = key.keyType → k = key
  | .forgetHost host port => computeHostKeyStoreKey toLowerCase host port ≠ name

theorem find?_keyType {keys : List SSHTrustedHostKey} (hkey : key ∈ keys)
    (htypes : (keys.map (·.keyType)).Nodup) : keys.find? (·.keyType = key.keyType) = some key := by
  induction keys with
  | nil => cases hkey
  | cons k keys ih =>
    rw [map_cons, nodup_cons] at htypes
    rcases mem_cons.mp hkey with rfl | hkey
    · exact find?_cons_of_pos (decide_eq_true rfl)
    · have hne : ¬k.keyType = key.keyType := fun heq => htypes.1 (heq ▸ mem_map_of_mem hkey)
      rw [find?_cons_of_neg (by simpa using hne), ih hkey htypes.2]

theorem decideHostKeyTrust_stored {keys : List SSHTrustedHostKey}
    (h : keys.find? (·.keyType = request.key.keyType) = some key) :
    match decideHostKeyTrust request keys with
    | .trust persist _ => persist = false ∧ request.key.fingerprint = key.fingerprint ∧
        request.knownHostsMatch ≠ .revoked ∧
        (Disabled request → request.knownHostsMatch ≠ .mismatch)
    | .deny _ => ¬(request.key.fingerprint = key.fingerprint ∧ request.knownHostsMatch ≠ .revoked ∧
        (Disabled request → request.knownHostsMatch ≠ .mismatch))
    | .prompt _ => False := by
  unfold decideHostKeyTrust Disabled
  rw [h]
  grind

theorem mem_trustHostKey_of {k : SSHTrustedHostKey} (hkey : key ∈ s.getTrustedKeys name)
    (h : other = name → k.keyType = key.keyType → k = key) :
    key ∈ (s.trustHostKey other k).getTrustedKeys name := by
  rw [getTrustedKeys_trustHostKey]
  split
  · next heq =>
    subst heq
    by_cases htype : k.keyType = key.keyType
    · exact mem_append_right _ (mem_singleton.mpr (h rfl htype).symm)
    · exact mem_append_left _ (mem_filter.mpr ⟨hkey, decide_eq_true (Ne.symm htype)⟩)
  · exact hkey

/-- The key is stored for the host, beside keys of other types. -/
def Stores (name : JsString) (key : SSHTrustedHostKey) (s : HostKeyService) : Prop :=
  key ∈ s.getTrustedKeys name ∧ ∀ other, ((s.getTrustedKeys other).map (·.keyType)).Nodup

theorem Stores.trustHostKey {k : SSHTrustedHostKey} (h : Stores name key s)
    (hk : other = name → k.keyType = key.keyType → k = key) :
    Stores name key (s.trustHostKey other k) :=
  ⟨mem_trustHostKey_of h.1 hk, fun _ => types_trustHostKey h.2⟩

/-- Among the types of a host's stored keys there is an answer without asking or storing. -/
theorem Stores.handle (h : Stores name key s) (hname : storeKey toLowerCase request = name)
    (htype : request.key.keyType = key.keyType) :
    s.handleHostKeyVerificationRequest toLowerCase request = s.respond request
      (decide (request.key.fingerprint = key.fingerprint ∧ request.knownHostsMatch ≠ .revoked ∧
        (Disabled request → request.knownHostsMatch ≠ .mismatch))) := by
  subst hname
  have hfind := find?_keyType h.1 (h.2 _)
  rw [← htype] at hfind
  have hspec := decideHostKeyTrust_stored hfind
  unfold handleHostKeyVerificationRequest
  cases hdecision : decideHostKeyTrust request (s.getTrustedKeys (storeKey toLowerCase request)) with
  | trust persist reason =>
    rw [hdecision] at hspec
    obtain ⟨rfl, hrest⟩ := hspec
    rw [decide_eq_true hrest]
  | deny denial =>
    rw [hdecision] at hspec
    rw [decide_eq_false hspec]
  | prompt reason =>
    rw [hdecision] at hspec
    exact hspec.elim

theorem Stores.step {t : HostKeyService} {event : HostKeyEvent} (h : Stores name key s)
    (hok : Undisturbed toLowerCase name key event) (hstep : s.step toLowerCase event = some t) :
    Stores name key t := by
  cases event with
  | request request =>
    obtain ⟨-, hstep⟩ := Option.ite_none_left_eq_some.mp hstep
    cases hstep
    by_cases hsame : storeKey toLowerCase request = name ∧ request.key.keyType = key.keyType
    · rw [h.handle hsame.1 hsame.2]
      exact h
    · unfold handleHostKeyVerificationRequest
      split
      · exact h.trustHostKey fun hname htype => absurd ⟨hname, htype⟩ hsame
      all_goals exact h
  | answer request confirmed =>
    obtain ⟨-, hstep⟩ := Option.ite_none_right_eq_some.mp hstep
    cases hstep
    cases confirmed with
    | true => exact Stores.trustHostKey (s := { s with prompts := s.prompts.erase request }) h hok
    | false => exact h
  | cancel request =>
    obtain ⟨-, hstep⟩ := Option.ite_none_right_eq_some.mp hstep
    cases hstep
    exact h
  | announce announcement =>
    cases hstep
    unfold handleAnnouncedHostKeys
    dsimp only
    split
    · exact h
    · next sessionKey _ =>
      split
      · refine foldlRecOn announcement.keys _ h fun s hs k hk => ?_
        unfold learn
        split
        · exact hs
        · exact hs.trustHostKey fun hname htype => hok hname k hk htype
      · exact h
  | forgetHost host port =>
    cases hstep
    refine ⟨?_, fun other => ?_⟩
    · rw [forgetHost, getTrustedKeys, Record.get_delete, if_neg hok]
      exact h.1
    · rw [forgetHost, getTrustedKeys, Record.get_delete]
      split
      · exact nodup_nil
      · exact h.2 other

end HostKeyService

end Fumie.AgentHost
