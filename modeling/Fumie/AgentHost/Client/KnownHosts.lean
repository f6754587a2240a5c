import Fumie.Base.Buffer
import Fumie.Base.Strings

/-!
# Host keys against known_hosts

The verdict on a presented host key is a matter of which lines exist, not of their order,
and a revoked key stays revoked. A host pattern becomes a regular expression whose dots
leave out line terminators; for any other host it is a shell glob. Base64, HMAC-SHA1 and
`toLowerCase` are given functions.
-/

namespace Fumie.AgentHost

open Fumie.Lib Fumie.Base List

inductive KnownHostsMarker where
  | revoked
  | certAuthority
  deriving DecidableEq

structure KnownHostsEntry where
  marker : Option KnownHostsMarker
  patterns : List JsString
  /-- Salt and hash. -/
  hashedHost : Option (Bytes × Bytes)
  keyType : JsString
  key : Bytes

inductive KnownHostsMatch where
  | matches
  | mismatch
  | revoked
  | caOnly
  | unknown
  deriving DecidableEq

structure KnownHostsHost where
  decodeBase64 : JsString → Bytes
  hmacSha1 : Bytes → JsString → Bytes
  toLowerCase : JsString → JsString

/-- The algorithm name at the head of a key; `ascii` drops the high bit. -/
def readHostKeyType : Bytes → Option JsString
  | a :: b :: c :: d :: rest =>
    let length := ((a.toNat * 256 + b.toNat) * 256 + c.toNat) * 256 + d.toNat
    if length = 0 ∨ 64 < length ∨ rest.length < length then none
    else some ((rest.take length).map fun byte => Fin.ofNat _ (byte.toNat % 128))
  | _ => none

/-- The marker and the fields behind it; `none` for an unknown marker. -/
def readMarker : List JsString → Option (Option KnownHostsMarker × List JsString)
  | (64 :: raw) :: fields =>
    if raw = JsString.ofString "revoked" then some (some .revoked, fields)
    else if raw = JsString.ofString "cert-authority" then some (some .certAuthority, fields)
    else none
  | fields => some (none, fields)

/-- What a regular expression of a host pattern is made of. -/
inductive PatternToken where
  | literal (unit : CodeUnit)
  | dot
  | dotStar

/-- `*` and `?` are replaced, any other character stands for itself, escaped or not. -/
def patternToken (u : CodeUnit) : PatternToken :=
  if u = 42 then .dotStar else if u = 63 then .dot else .literal u

/-- `^…$` tested on a text. -/
def testTokens : List PatternToken → JsString → Bool
  | [], text => text.isEmpty
  | .literal unit :: rest, text => text.head? = some unit && testTokens rest text.tail
  | .dot :: rest, text => text.head?.any (!isLineTerminator ·) && testTokens rest text.tail
  | .dotStar :: rest, text => (List.range (text.length + 1)).any fun n =>
      (text.take n).all (!isLineTerminator ·) && testTokens rest (text.drop n)

def hostCandidates (toLowerCase : JsString → JsString) (host : JsString) (port : Nat) :
    List JsString :=
  let lower := toLowerCase host
  if port = 22 then [lower] else [91 :: lower ++ 93 :: 58 :: JsString.ofString (toString port)]

section

variable (env : KnownHostsHost)

def parseKnownHostsLine (line : JsString) : Option KnownHostsEntry :=
  let trimmed := trim line
  if trimmed = [] ∨ trimmed.head? = some 35 then none
  else
    match readMarker ((words trimmed).filter (· ≠ [])) with
    | some (marker, hostField :: keyType :: keyBase64 :: _) =>
      let key := env.decodeBase64 keyBase64
      if key = [] ∨ readHostKeyType key ≠ some keyType then none
      else if startsWith hostField (JsString.ofString "|1|") then
        match hostField.splitOn 124 with
        | [_, _, salt, hash] =>
          let salt := env.decodeBase64 salt
          let hash := env.decodeBase64 hash
          if salt = [] ∨ hash.length ≠ 20 then none
          else some ⟨marker, [], some (salt, hash), keyType, key⟩
        | _ => none
      else some ⟨marker, hostField.splitOn 44, none, keyType, key⟩
    | _ => none

def parseKnownHosts (contents : JsString) : List KnownHostsEntry :=
  (contents.splitOn 10).filterMap (parseKnownHostsLine env)

def matchesPattern (pattern candidate : JsString) : Bool :=
  testTokens ((env.toLowerCase pattern).map patternToken) candidate

def entryAppliesLoop (candidate : JsString) : List JsString → Bool → Bool
  | [], matched => matched
  | (33 :: pattern) :: rest, matched =>
    if matchesPattern env pattern candidate then false else entryAppliesLoop candidate rest matched
  | pattern :: rest, matched =>
    entryAppliesLoop candidate rest (matched || matchesPattern env pattern candidate)

def entryAppliesToCandidate (patterns : List JsString) (candidate : JsString) : Bool :=
  entryAppliesLoop env candidate patterns false

def entryApplies (candidates : List JsString) (entry : KnownHostsEntry) : Bool :=
  candidates.any fun candidate =>
    match entry.hashedHost with
    | some (salt, hash) => env.hmacSha1 salt candidate = hash
    | none => entryAppliesToCandidate env entry.patterns candidate

def matchLoop (keyType : JsString) (keyBlob : Bytes) :
    List KnownHostsEntry → Bool → Bool → KnownHostsMatch
  | [], sawSameTypeEntry, sawCertAuthority =>
    if sawSameTypeEntry then .mismatch else if sawCertAuthority then .caOnly else .unknown
  | entry :: rest, sawSameTypeEntry, sawCertAuthority =>
    match entry.marker with
    | some .revoked => matchLoop keyType keyBlob rest sawSameTypeEntry sawCertAuthority
    | some .certAuthority => matchLoop keyType keyBlob rest sawSameTypeEntry true
    | none =>
      if entry.keyType ≠ keyType then
        matchLoop keyType keyBlob rest sawSameTypeEntry sawCertAuthority
      else if entry.key = keyBlob then .matches
      else matchLoop keyType keyBlob rest true sawCertAuthority

def matchKnownHosts (entries : List KnownHostsEntry) (host : JsString) (port : Nat)
    (keyType : JsString) (keyBlob : Bytes) : KnownHostsMatch :=
  let applicable := entries.filter (entryApplies env (hostCandidates env.toLowerCase host port))
  if applicable.any fun entry => entry.marker = some .revoked ∧ entry.key = keyBlob then .revoked
  else matchLoop keyType keyBlob applicable false false

end

/-- Shell globs: `*` any run, `?` one character, every other character itself. -/
inductive Glob : JsString → JsString → Prop
  | nil : Glob [] []
  | run {pattern back : JsString} (front : JsString) (h : Glob pattern back) :
      Glob (42 :: pattern) (front ++ back)
  | one {pattern text : JsString} (u : CodeUnit) (h : Glob pattern text) :
      Glob (63 :: pattern) (u :: text)
  | literal {u : CodeUnit} {pattern text : JsString} (hrun : u ≠ 42) (hone : u ≠ 63)
      (h : Glob pattern text) : Glob (u :: pattern) (u :: text)

/-- Some pattern matches, and no negated one. -/
def GlobApplies (toLowerCase : JsString → JsString) (patterns : List JsString)
    (candidate : JsString) : Prop :=
  (∃ p ∈ patterns, p.head? ≠ some 33 ∧ Glob (toLowerCase p) candidate) ∧
    ∀ p, 33 :: p ∈ patterns → ¬Glob (toLowerCase p) candidate

/-- The verdict as a matter of which applicable entries there are. -/
def verdict (applies : KnownHostsEntry → Bool) (entries : List KnownHostsEntry)
    (keyType : JsString) (keyBlob : Bytes) : KnownHostsMatch :=
  if ∃ e ∈ entries, applies e ∧ e.marker = some .revoked ∧ e.key = keyBlob then .revoked
  else if ∃ e ∈ entries, applies e ∧ e.marker = none ∧ e.keyType = keyType ∧ e.key = keyBlob then
    .matches
  else if ∃ e ∈ entries, applies e ∧ e.marker = none ∧ e.keyType = keyType then .mismatch
  else if ∃ e ∈ entries, applies e ∧ e.marker = some .certAuthority then .caOnly
  else .unknown


variable {env : KnownHostsHost} {text candidate : JsString} {keyType : JsString} {keyBlob : Bytes}

theorem testTokens_iff (pattern : JsString) (h : ∀ u ∈ text, isLineTerminator u = false) :
    testTokens (pattern.map patternToken) text ↔ Glob pattern text := by
  induction pattern generalizing text with
  | nil =>
    simp only [map_nil, testTokens, List.isEmpty_iff]
    exact ⟨fun h => h ▸ .nil, fun h => by cases h; rfl⟩
  | cons u pattern ih =>
    have htail : ∀ v ∈ text.tail, isLineTerminator v = false := fun v hv => h v (mem_of_mem_tail hv)
    by_cases hrun : u = 42
    · subst hrun
      simp only [map_cons, patternToken, if_pos, testTokens, any_eq_true, Bool.and_eq_true]
      constructor
      · rintro ⟨n, -, -, hback⟩
        have hback := (ih fun v hv => h v (mem_of_mem_drop hv)).1 hback
        exact take_append_drop n text ▸ Glob.run (text.take n) hback
      · intro hglob
        cases hglob with
        | @run _ back front hback =>
          refine ⟨front.length, by simp, ?_, ?_⟩
          · simpa using fun v hv => h v (mem_append_left back hv)
          · rw [drop_left]
            exact (ih fun v hv => h v (mem_append_right front hv)).2 hback
        | literal hne => exact absurd rfl hne
    by_cases hone : u = 63
    · subst hone
      simp only [map_cons, patternToken, if_neg hrun, if_pos, testTokens, Bool.and_eq_true]
      constructor
      · rintro ⟨hhead, hrest⟩
        match text, hhead with
        | v :: text, _ => exact .one v ((ih htail).1 hrest)
      · intro hglob
        cases hglob with
        | one v hrest => exact ⟨by simpa using h v mem_cons_self, (ih htail).2 hrest⟩
        | literal _ hne => exact absurd rfl hne
    · simp only [map_cons, patternToken, if_neg hrun, if_neg hone, testTokens, Bool.and_eq_true,
        decide_eq_true_eq]
      constructor
      · rintro ⟨hhead, hrest⟩
        match text, hhead with
        | v :: text, hhead =>
          obtain rfl : v = u := by simpa using hhead
          exact .literal hrun hone ((ih htail).1 hrest)
      · intro hglob
        cases hglob with
        | run => exact absurd rfl hrun
        | one => exact absurd rfl hone
        | literal _ _ hrest => exact ⟨rfl, (ih htail).2 hrest⟩

theorem entryAppliesLoop_iff (patterns : List JsString) (matched : Bool) :
    entryAppliesLoop env candidate patterns matched ↔
      (matched ∨ ∃ p ∈ patterns, p.head? ≠ some 33 ∧ matchesPattern env p candidate) ∧
        ∀ p, 33 :: p ∈ patterns → ¬matchesPattern env p candidate := by
  fun_induction entryAppliesLoop env candidate patterns matched with
  | case1 => simp
  | case2 pattern rest matched hmatch =>
    simp [hmatch]
  | case3 pattern rest matched hmatch ih =>
    simp [ih, hmatch]
  | case4 pattern rest matched hnot ih =>
    have hhead : pattern.head? ≠ some 33 := by
      cases pattern with
      | nil => simp
      | cons u rest =>
        simp only [head?_cons, ne_eq, Option.some.injEq]
        rintro rfl
        exact hnot rest rfl
    have hne (p : JsString) : 33 :: p ≠ pattern := fun h => hnot p h.symm
    simp [ih, hhead, hne, or_assoc]

theorem entryAppliesToCandidate_iff (patterns : List JsString)
    (h : ∀ u ∈ candidate, isLineTerminator u = false) :
    entryAppliesToCandidate env patterns candidate ↔
      GlobApplies env.toLowerCase patterns candidate := by
  simp only [entryAppliesToCandidate, entryAppliesLoop_iff, matchesPattern, testTokens_iff _ h,
    Bool.false_eq_true, false_or, GlobApplies]

/-- `*` alone leaves a host with a line terminator out. -/
theorem not_matchesPattern_run (hrun : env.toLowerCase [42] = [42])
    (h : ∃ u ∈ candidate, isLineTerminator u = true) : ¬matchesPattern env [42] candidate := by
  obtain ⟨u, hu, hterminator⟩ := h
  simp only [matchesPattern, hrun, map_cons, map_nil, patternToken, if_pos, testTokens, any_eq_true,
    Bool.and_eq_true, all_eq_true, List.isEmpty_iff, drop_eq_nil_iff, not_exists]
  rintro n ⟨-, hall, hlength⟩
  rw [take_of_length_le hlength] at hall
  have hfree := hall u hu
  simp [hterminator] at hfree

theorem matchLoop_eq (entries : List KnownHostsEntry) (same authority : Bool) :
    matchLoop keyType keyBlob entries same authority =
      if ∃ e ∈ entries, e.marker = none ∧ e.keyType = keyType ∧ e.key = keyBlob then .matches
      else if same ∨ ∃ e ∈ entries, e.marker = none ∧ e.keyType = keyType then .mismatch
      else if authority ∨ ∃ e ∈ entries, e.marker = some .certAuthority then .caOnly
      else .unknown := by
  fun_induction matchLoop keyType keyBlob entries same authority with
  | case1 => simp
  | case2 _ hsame => simp [hsame]
  | case3 _ _ hsame hauthority => simp [hsame, hauthority]
  | case4 entry rest same authority hmarker ih => simp [ih, hmarker]
  | case5 entry rest same authority hmarker ih => simp [ih, hmarker]
  | case6 entry rest same authority hmarker htype ih => simp [ih, hmarker, htype]
  | case7 entry rest same authority hmarker htype hkey => simp_all
  | case8 entry rest same authority hmarker htype hkey ih => simp_all

theorem matchKnownHosts_eq (entries : List KnownHostsEntry) (host : JsString) (port : Nat) :
    matchKnownHosts env entries host port keyType keyBlob =
      verdict (entryApplies env (hostCandidates env.toLowerCase host port)) entries keyType
        keyBlob := by
  simp only [matchKnownHosts, matchLoop_eq, verdict, mem_filter, any_eq_true, decide_eq_true_eq,
    and_assoc, Bool.false_eq_true, false_or]

theorem verdict_congr {applies : KnownHostsEntry → Bool} {entries entries' : List KnownHostsEntry}
    (h : ∀ e, e ∈ entries ↔ e ∈ entries') :
    verdict applies entries keyType keyBlob = verdict applies entries' keyType keyBlob := by
  simp only [verdict, h]

theorem verdict_revoked_mono {applies : KnownHostsEntry → Bool}
    {entries entries' : List KnownHostsEntry} (h : entries ⊆ entries')
    (hrevoked : verdict applies entries keyType keyBlob = .revoked) :
    verdict applies entries' keyType keyBlob = .revoked := by
  have hentry : ∃ e ∈ entries, applies e ∧ e.marker = some .revoked ∧ e.key = keyBlob := by
    by_contra hnone
    simp only [verdict, if_neg hnone] at hrevoked
    split_ifs at hrevoked
  obtain ⟨e, he, hrevokes⟩ := hentry
  exact if_pos ⟨e, h he, hrevokes⟩

theorem hostCandidates_unique {host : JsString} {port : Nat} {candidate' : JsString}
    (h : candidate ∈ hostCandidates env.toLowerCase host port)
    (h' : candidate' ∈ hostCandidates env.toLowerCase host port) : candidate = candidate' := by
  by_cases hport : port = 22 <;> simp_all [hostCandidates]

theorem hostCandidates_free (host : JsString) (port : Nat) :
    (∀ candidate ∈ hostCandidates env.toLowerCase host port,
        ∀ u ∈ candidate, isLineTerminator u = false) ↔
      ∀ u ∈ env.toLowerCase host, isLineTerminator u = false := by
  have hport : ∀ u ∈ JsString.ofString (toString port), isLineTerminator u = false := by
    intro u hu
    obtain ⟨c, hc, hu⟩ := mem_flatMap.1 hu
    have hmem : c ∈ Nat.toDigits 10 port := by simpa using hc
    have hdigit := Nat.isDigit_of_mem_toDigits (by decide) (by decide) hmem
    have hcode : 48 ≤ c.toNat ∧ c.toNat ≤ 57 := by
      simpa [Char.isDigit, UInt32.le_iff_toNat_le] using hdigit
    rw [unitsOf, if_pos (by omega), mem_singleton] at hu
    have hval : u.val = c.toNat := by rw [hu, Fin.val_ofNat, Nat.mod_eq_of_lt (by omega)]
    simp only [isLineTerminator, hval, decide_eq_false_iff_not, mem_cons, not_mem_nil,
      or_false]
    omega
  have hbrackets : isLineTerminator 91 = false ∧ isLineTerminator 93 = false ∧
      isLineTerminator 58 = false := by decide
  unfold hostCandidates
  split
  · simp only [mem_singleton, forall_eq]
  · simp only [forall_eq, cons_append, mem_cons, mem_append, or_imp, forall_and, hbrackets, true_and,
      not_mem_nil, false_imp_iff, and_true]
    exact and_iff_left hport

/-- The verdict is that of the entries there are, and revoked stays revoked. Which entries apply is
what a shell glob says for exactly the hosts without a line terminator. -/
theorem known_hosts_verdict (env : KnownHostsHost) (hrun : env.toLowerCase [42] = [42])
    (host : JsString) (port : Nat) (keyType : JsString) (keyBlob : Bytes) :
    (∀ contents, matchKnownHosts env (parseKnownHosts env contents) host port keyType keyBlob =
      verdict (entryApplies env (hostCandidates env.toLowerCase host port))
        (parseKnownHosts env contents) keyType keyBlob) ∧
    (∀ contents contents' : JsString, contents.splitOn 10 ~ contents'.splitOn 10 →
      matchKnownHosts env (parseKnownHosts env contents) host port keyType keyBlob =
        matchKnownHosts env (parseKnownHosts env contents') host port keyType keyBlob) ∧
    (∀ contents contents' : JsString, contents.splitOn 10 ⊆ contents'.splitOn 10 →
      matchKnownHosts env (parseKnownHosts env contents) host port keyType keyBlob = .revoked →
      matchKnownHosts env (parseKnownHosts env contents') host port keyType keyBlob = .revoked) ∧
    ((∀ entry : KnownHostsEntry, entry.hashedHost = none →
      (entryApplies env (hostCandidates env.toLowerCase host port) entry ↔
        ∃ candidate ∈ hostCandidates env.toLowerCase host port,
          GlobApplies env.toLowerCase entry.patterns candidate)) ↔
      ∀ u ∈ env.toLowerCase host, isLineTerminator u = false) := by
  refine ⟨fun contents => matchKnownHosts_eq _ host port, fun contents contents' hperm => ?_,
    fun contents contents' hsub => ?_, ?_⟩
  · rw [matchKnownHosts_eq, matchKnownHosts_eq]
    exact verdict_congr fun e => (hperm.filterMap _).mem_iff
  · rw [matchKnownHosts_eq, matchKnownHosts_eq]
    exact verdict_revoked_mono (filterMap_subset _ hsub)
  rw [← hostCandidates_free host port]
  constructor
  · intro happlies candidate hcandidate u hu
    by_contra hterminator
    have hglob : GlobApplies env.toLowerCase [[42]] candidate :=
      ⟨⟨[42], mem_singleton_self _, by decide, by simpa [hrun] using Glob.run candidate .nil⟩,
        by simp⟩
    have happly := (happlies ⟨none, [[42]], none, [], []⟩ rfl).2 ⟨candidate, hcandidate, hglob⟩
    obtain ⟨candidate', hcandidate', happly⟩ := any_eq_true.1 happly
    obtain rfl : candidate' = candidate := hostCandidates_unique hcandidate' hcandidate
    simp [entryAppliesToCandidate, entryAppliesLoop,
      not_matchesPattern_run hrun ⟨u, hu, by simpa using hterminator⟩] at happly
  · intro hfree entry hentry
    simp only [entryApplies, hentry, any_eq_true]
    exact exists_congr fun candidate => and_congr_right fun hcandidate =>
      entryAppliesToCandidate_iff entry.patterns (hfree candidate hcandidate)

/-- A host where `AAAAAXg=` decodes to the key of type `x` and nothing is hashed. -/
def plainHost : KnownHostsHost where
  decodeBase64 text := if text = JsString.ofString "AAAAAXg=" then [0, 0, 0, 1, 120] else []
  hmacSha1 _ _ := []
  toLowerCase := asciiLowerCase

theorem known_hosts_verdict_plain : plainHost.toLowerCase [42] = [42] ∧
    ∀ entry : KnownHostsEntry, entry.hashedHost = none →
      (entryApplies plainHost (hostCandidates asciiLowerCase [97] 22) entry ↔
        ∃ candidate ∈ hostCandidates asciiLowerCase [97] 22,
          GlobApplies asciiLowerCase entry.patterns candidate) :=
  ⟨by decide, (known_hosts_verdict plainHost (by decide) [97] 22 [] []).2.2.2.2
    (by simp [plainHost, asciiLowerCase, isLineTerminator])⟩

/-- The line of `*` holds the presented key, and its glob applies to the host; yet it is unknown. -/
theorem run_misses_line_feed :
    let entries := parseKnownHosts plainHost (JsString.ofString "* x AAAAAXg=")
    matchKnownHosts plainHost entries [97, 10, 98] 22 [120] [0, 0, 0, 1, 120] = .unknown ∧
      ∃ entry ∈ entries, entry.marker = none ∧ entry.hashedHost = none ∧ entry.keyType = [120] ∧
        entry.key = [0, 0, 0, 1, 120] ∧
        ∀ candidate ∈ hostCandidates asciiLowerCase [97, 10, 98] 22,
          GlobApplies asciiLowerCase entry.patterns candidate := by
  have hparse : parseKnownHosts plainHost (JsString.ofString "* x AAAAAXg=") =
      [⟨none, [[42]], none, [120], [0, 0, 0, 1, 120]⟩] := rfl
  simp only [hparse]
  refine ⟨by decide, _, mem_singleton_self _, rfl, rfl, rfl, rfl, ?_⟩
  intro candidate _
  exact ⟨⟨[42], mem_singleton_self _, by decide, append_nil candidate ▸ .run candidate .nil⟩, by simp⟩

end Fumie.AgentHost
