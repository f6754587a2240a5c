import Fumie.AgentHost.Approval.PlainRules

/-!
# Verdicts after earlier calls

Without sticky flags the rules an approver has kept are those it would compile anew, so
its verdict does not depend on earlier calls. With a sticky flag a deny rule that has
matched once is next tried behind its match.
-/

namespace Fumie.AgentHost

open Fumie.Lib Fumie.Base List Bool JsString

namespace AutoApprove

/-! ## Kept rules -/

def ShouldAutoApproveOptions.FlagsWithin (allowed : Set JsString) (host : Host)
    (options : ShouldAutoApproveOptions) : Prop :=
  match options.autoApproveRules with
  | none => AutoApprove.FlagsWithin allowed host.defaultRules
  | some config => AutoApprove.FlagsWithin allowed config.entries

def freshRules (host : Host) (options : ShouldAutoApproveOptions) : AutoApproveRules :=
  ({} : CommandAutoApprover).compileRules host options.autoApproveRules

namespace CommandAutoApprover

/-- What is kept is what would be compiled. -/
structure Fresh (host : Host) (a : CommandAutoApprover) : Prop where
  fallback : ∀ rules, a.fallbackRules = some rules →
    rules = compileRuleEntries host.engine host.defaultRules
  cached : ∀ rules config, a.cachedRules = some rules → a.cachedRuleConfig = some config →
    rules = compileRuleEntries host.engine config.entries

variable {host : Host} {allowed : Set JsString}

theorem fresh_new : Fresh host {} where
  fallback _ h := nomatch h
  cached _ _ h := nomatch h

variable {a : CommandAutoApprover}

theorem Fresh.compileRules (h : a.Fresh host) (options : ShouldAutoApproveOptions) :
    a.compileRules host options.autoApproveRules = freshRules host options := by
  unfold freshRules CommandAutoApprover.compileRules
  cases options.autoApproveRules with
  | none =>
    cases hfallback : a.fallbackRules with
    | none => rfl
    | some rules => exact h.fallback rules hfallback
  | some config =>
    cases hcached : a.cachedRules with
    | none => rfl
    | some rules =>
      dsimp only
      split
      · next hconfig => exact h.cached rules config hcached hconfig
      · rfl

variable {options : ShouldAutoApproveOptions}

theorem plain_freshRules (hplain : ∀ flags ∈ allowed, ¬StickyFlags flags)
    (hoptions : options.FlagsWithin allowed host) : (freshRules host options).Plain := by
  unfold freshRules compileRules
  unfold ShouldAutoApproveOptions.FlagsWithin at hoptions
  cases hrules : options.autoApproveRules with
  | none | some _ =>
    rw [hrules] at hoptions
    exact plain_compileRuleEntries hplain hoptions

theorem Fresh.keepRules (h : a.Fresh host) (options : ShouldAutoApproveOptions) :
    (a.keepRules options.autoApproveRules (freshRules host options)).Fresh host := by
  unfold freshRules CommandAutoApprover.keepRules
  cases options.autoApproveRules with
  | none =>
    refine ⟨fun rules hrules => ?_, h.cached⟩
    cases hrules
    rfl
  | some config =>
    refine ⟨h.fallback, fun rules config' hrules hconfig => ?_⟩
    cases hrules
    cases hconfig
    rfl

theorem Fresh.evaluate (h : a.Fresh host) (hplain : ∀ flags ∈ allowed, ¬StickyFlags flags)
    (hoptions : options.FlagsWithin allowed host) (commandLine : JsString) :
    (a.evaluate host commandLine options).2.Fresh host ∧ (a.evaluate host commandLine options).1 =
        if (trimStart commandLine).length = 0 then ⟨.approved, false⟩
        else plainVerdict host options (trimStart commandLine) (freshRules host options) := by
  unfold CommandAutoApprover.evaluate
  dsimp only
  split
  · exact ⟨h, rfl⟩
  · rw [h.compileRules options, evaluateRules_plain (plain_freshRules hplain hoptions)]
    exact ⟨h.keepRules options, rfl⟩

theorem Fresh.after {a : CommandAutoApprover} (h : a.Fresh host)
    (hplain : ∀ flags ∈ allowed, ¬StickyFlags flags)
    {calls : List (JsString × ShouldAutoApproveOptions)}
    (hcalls : ∀ call ∈ calls, call.2.FlagsWithin allowed host) : (a.after host calls).Fresh host := by
  induction calls generalizing a with
  | nil => exact h
  | cons call rest ih =>
    exact ih (h.evaluate hplain (hcalls call mem_cons_self) call.1).1
      fun c hc => hcalls c (mem_cons_of_mem _ hc)

end CommandAutoApprover

/-! ## History independence -/

/-- The verdict on every line is that of a new approver, and each deny rule matches what
it matches there, whatever was evaluated before. -/
def HistoryIndependent (host : Host) (allowed : Set JsString) : Prop :=
  ∀ (calls : List (JsString × ShouldAutoApproveOptions)) (commandLine : JsString)
    (options : ShouldAutoApproveOptions),
    (∀ call ∈ calls, call.2.FlagsWithin allowed host) → options.FlagsWithin allowed host →
      ((({} : CommandAutoApprover).after host calls).evaluate host commandLine options).1 =
          (({} : CommandAutoApprover).evaluate host commandLine options).1 ∧
        ∀ command isPowerShell,
          (matchesRule host.engine isPowerShell command
              ((({} : CommandAutoApprover).after host calls).compileRules host
                options.autoApproveRules).denyRules).1 =
            (matchesRule host.engine isPowerShell command (freshRules host options).denyRules).1

/-! ## A sticky deny rule -/

def RM : JsString := [114, 109]

def RM_X : JsString := [114, 109, 32, 120]

structure Literal (host : Host) : Prop where
  accepts : ∀ flags, validFlags flags = true → host.engine.accepts RM flags = true
  empty : ∀ flags, host.engine.exec RM flags [] 0 = none
  start : ∀ flags, host.engine.exec RM flags RM_X 0 = some 2
  behind : ∀ flags, FLAG_Y ∈ flags → host.engine.exec RM flags RM_X 2 = none
  word : host.engine.exec (literalSource RM) [] RM_X 0 = some 2
  parse : host.captures false RM_X = some [⟨.command, RM_X⟩]

def rmEntry (flags : JsString) : JsString := 47 :: RM ++ 47 :: flags

def rmConfig (flags : JsString) : RuleConfig where
  ref := 0
  entries := [(rmEntry flags, .bool false), (RM, .rule true true)]

def rmOptions (flags : JsString) : ShouldAutoApproveOptions where
  autoApproveRules := some (rmConfig flags)
  language := some .bash

variable {flags : JsString}

theorem known_of_valid (h : validFlags (flags.filter (· ≠ FLAG_G)) = true) :
    flags.all (FLAGS.contains ·) = true := by
  rw [all_eq_true]
  intro u hu
  by_cases hg : u = FLAG_G
  · subst hg
    decide
  · simp only [validFlags, and_eq_true, all_eq_true] at h
    exact h.1.1 u (mem_filter.mpr ⟨hu, by simpa using hg⟩)

theorem regexEntry?_rmEntry (h : StickyFlags flags) :
    regexEntry? (rmEntry flags) = some (RM, flags) := by
  have hknown := known_of_valid h.2
  have hslash : ∀ u ∈ flags.reverse, decide (u ≠ 47) = true := by
    intro u hu
    have hflag := all_eq_true.mp hknown u (mem_reverse.mp hu)
    rw [decide_eq_true_eq]
    rintro rfl
    exact absurd hflag (by decide)
  have htake : ((RM ++ 47 :: flags).reverse.takeWhile (· ≠ 47)).reverse = flags := by
    rw [reverse_append, reverse_cons, append_assoc, takeWhile_append_of_pos hslash]
    simp
  have hlength : (RM ++ 47 :: flags).length - flags.length - 1 = 2 := by
    simp [RM]
    omega
  have hpattern : (RM ++ 47 :: flags).take 2 = RM := rfl
  rw [show rmEntry flags = 47 :: (RM ++ 47 :: flags) from rfl]
  unfold regexEntry?
  simp only [htake, hlength, hpattern]
  exact if_pos ⟨trivial, by simp, hknown, by decide, by decide⟩

theorem flagsWithin_rm {allowed : Set JsString} (hmem : flags ∈ allowed) (h : StickyFlags flags)
    (host : Host) : (rmOptions flags).FlagsWithin allowed host := by
  intro entry hentry pattern given hregex
  obtain rfl | hentry := mem_cons.mp hentry
  · rw [regexEntry?_rmEntry h] at hregex
    obtain ⟨-, rfl⟩ := Prod.mk.inj (Option.some.inj hregex)
    exact hmem
  · rw [mem_singleton.mp hentry] at hregex
    cases hregex

section Sticky

variable {host : Host} {flags : JsString}

def rmRegex (flags : JsString) (lastIndex : Nat) : RegExp :=
  { source := RM, flags := flags.filter (· ≠ FLAG_G), lastIndex }

theorem rmRegex_keepsIndex (h : StickyFlags flags) (n : Nat) :
    (rmRegex flags n).keepsIndex = true := by
  simp [RegExp.keepsIndex, rmRegex, h.1, show FLAG_Y ≠ FLAG_G by decide]

theorem convert_rmEntry (hhost : Literal host) (h : StickyFlags flags) :
    convertAutoApproveEntryToRegex host.engine (rmEntry flags) = rmRegex flags 0 := by
  have hconstruct : RegExp.construct host.engine RM (flags.filter (· ≠ FLAG_G)) =
      some (rmRegex flags 0) := by
    unfold RegExp.construct
    rw [h.2, hhost.accepts _ h.2]
    rfl
  have hendless : regExpLeadsToEndlessLoop host.engine (rmRegex flags 0) =
      (false, rmRegex flags 0) := by
    unfold regExpLeadsToEndlessLoop
    have hsource : (rmRegex flags 0).source ∉ [ofString "^", ofString "^$", ofString "$",
        ofString "^\\s*$"] := by
      show RM ∉ _
      decide
    have hnone : host.engine.exec (rmRegex flags 0).source (rmRegex flags 0).flags []
        (rmRegex flags 0).lastIndex = none := hhost.empty _
    rw [if_neg hsource]
    unfold RegExp.exec
    rw [rmRegex_keepsIndex h]
    simp only [if_true]
    rw [hnone]
    rfl
  unfold convertAutoApproveEntryToRegex
  rw [regexEntry?_rmEntry h]
  dsimp only
  rw [if_neg (by decide), hconstruct]
  dsimp only
  rw [hendless]
  rfl

def rmRule (host : Host) (flags : JsString) (lastIndex : Nat) : AutoApproveRule :=
  { AutoApproveRule.compile host.engine (rmEntry flags) with regex := rmRegex flags lastIndex }

def rmRules (host : Host) (flags : JsString) (lastIndex : Nat) : AutoApproveRules where
  denyRules := [rmRule host flags lastIndex]
  allowCommandLineRules := [AutoApproveRule.compile host.engine RM]

theorem compile_rm (hhost : Literal host) (h : StickyFlags flags) :
    compileRuleEntries host.engine (rmConfig flags).entries = rmRules host flags 0 := by
  have hrule : AutoApproveRule.compile host.engine (rmEntry flags) = rmRule host flags 0 := by
    unfold rmRule
    rw [← convert_rmEntry hhost h]
    rfl
  show AutoApproveRules.mk [] [AutoApproveRule.compile host.engine (rmEntry flags)] _ _ = _
  rw [hrule]
  rfl

theorem testRule_rm (h : StickyFlags flags) (n : Nat) (command : JsString) :
    testRule host.engine false command (rmRule host flags n) =
      match host.engine.exec RM (flags.filter (· ≠ FLAG_G)) command n with
      | none => (false, rmRule host flags 0)
      | some e => (true, rmRule host flags e) := by
  unfold testRule
  simp only [false_eq_true, if_false, Bool.false_and]
  unfold AutoApproveRule.test RegExp.test RegExp.exec
  rw [show (rmRule host flags n).regex = rmRegex flags n from rfl, rmRegex_keepsIndex h]
  simp only [if_true]
  rw [show (rmRegex flags n).source = RM from rfl,
    show (rmRegex flags n).flags = flags.filter (· ≠ FLAG_G) from rfl,
    show (rmRegex flags n).lastIndex = n from rfl]
  cases host.engine.exec RM (flags.filter (· ≠ FLAG_G)) command n with
  | none | some _ => rfl

theorem matchesRule_rm_start (hhost : Literal host) (h : StickyFlags flags) :
    matchesRule host.engine false RM_X (rmRules host flags 0).denyRules =
      (true, (rmRules host flags 2).denyRules) := by
  show matchesRule host.engine false RM_X [rmRule host flags 0] = _
  unfold matchesRule
  rw [testRule_rm h, hhost.start]
  rfl

theorem matchesRule_rm_behind (hhost : Literal host) (h : StickyFlags flags) :
    matchesRule host.engine false RM_X (rmRules host flags 2).denyRules =
      (false, (rmRules host flags 0).denyRules) := by
  show matchesRule host.engine false RM_X [rmRule host flags 2] = _
  unfold matchesRule
  rw [testRule_rm h, hhost.behind _ (mem_filter.mpr ⟨h.1, by decide⟩)]
  rfl

theorem parse_rm (hhost : Literal host) : extractSubCommands (rmOptions flags).isPowerShell
      (host.captures (rmOptions flags).isPowerShell RM_X) = some ⟨[RM_X], []⟩ := by
  rw [show (rmOptions flags).isPowerShell = false from rfl, hhost.parse]
  rfl

theorem evaluateRules_rm_start (hhost : Literal host) (h : StickyFlags flags) :
    evaluateRules host (rmOptions flags) RM_X (rmRules host flags 0) =
      (⟨.denied, false⟩, rmRules host flags 2) := by
  unfold evaluateRules
  rw [parse_rm hhost]
  have hsub : matchSubCommands host.engine (rmOptions flags).isPowerShell [RM_X]
      (rmRules host flags 0) = (.denied, rmRules host flags 2) := by
    rw [show (rmOptions flags).isPowerShell = false from rfl]
    unfold matchSubCommands matchSubCommandsFrom
    rw [if_neg (by decide), if_neg (by decide)]
    unfold matchSingleCommand
    rw [matchesRule_rm_start hhost h]
    rfl
  simp only [matchesCommandLineRule, rmRules, false_eq_true, if_false] at hsub ⊢
  rw [hsub]
  rfl

theorem evaluateRules_rm_behind (hhost : Literal host) (h : StickyFlags flags) :
    (evaluateRules host (rmOptions flags) RM_X (rmRules host flags 2)).1 = ⟨.approved, false⟩ := by
  unfold evaluateRules
  rw [parse_rm hhost]
  have hsub : matchSubCommands host.engine (rmOptions flags).isPowerShell [RM_X]
      (rmRules host flags 2) = (.noMatch, rmRules host flags 0) := by
    rw [show (rmOptions flags).isPowerShell = false from rfl]
    unfold matchSubCommands matchSubCommandsFrom
    rw [if_neg (by decide), if_neg (by decide)]
    unfold matchSingleCommand
    rw [matchesRule_rm_behind hhost h]
    rfl
  have hline : (matchesCommandLineRule host.engine RM_X
      (rmRules host flags 0).allowCommandLineRules).1 = true := by
    show (matchesCommandLineRule host.engine RM_X [AutoApproveRule.compile host.engine RM]).1 = true
    have hplain : (AutoApproveRule.compile host.engine RM).Plain :=
      AutoApproveRule.plain_compile fun pattern given hregex => by cases hregex
    rw [matchesCommandLineRule_plain (by
      intro rule hrule
      rw [mem_singleton.mp hrule]
      exact hplain)]
    simp only [any_cons, any_nil, Bool.or_false]
    show (host.engine.exec (literalSource RM) [] RM_X 0).isSome = true
    rw [hhost.word]
    rfl
  simp only [matchesCommandLineRule, rmRules, false_eq_true, if_false] at hsub hline ⊢
  rw [hsub]
  simp only [matchesCommandLineRule] at hline ⊢
  simp [hline]

end Sticky

namespace CommandAutoApprover

variable {host : Host} {flags : JsString}

def afterRm (host : Host) (flags : JsString) : CommandAutoApprover :=
  ({} : CommandAutoApprover).after host [(RM_X, rmOptions flags)]

theorem freshRules_rm (hhost : Literal host) (h : StickyFlags flags) :
    freshRules host (rmOptions flags) = rmRules host flags 0 := compile_rm hhost h

theorem compileRules_afterRm (hhost : Literal host) (h : StickyFlags flags) :
    (afterRm host flags).compileRules host (rmOptions flags).autoApproveRules =
      rmRules host flags 2 := by
  have hstate : afterRm host flags = { cachedRuleConfig := some (rmConfig flags)
                                       cachedRules := some (rmRules host flags 2) } := by
    show (CommandAutoApprover.evaluate host {} RM_X (rmOptions flags)).2 = _
    unfold evaluate
    rw [show trimStart RM_X = RM_X from rfl, if_neg (by decide)]
    rw [show ({} : CommandAutoApprover).compileRules host (rmOptions flags).autoApproveRules =
      rmRules host flags 0 from compile_rm hhost h, evaluateRules_rm_start hhost h]
    rfl
  rw [hstate]
  exact if_pos rfl

theorem evaluate_afterRm (hhost : Literal host) (h : StickyFlags flags) :
    ((afterRm host flags).evaluate host RM_X (rmOptions flags)).1 = ⟨.approved, false⟩ := by
  unfold evaluate
  rw [show trimStart RM_X = RM_X from rfl, if_neg (by decide), compileRules_afterRm hhost h]
  exact evaluateRules_rm_behind hhost h

end CommandAutoApprover

def plainHost : Host where
  engine := {
    accepts := fun _ _ => true
    exec := fun source flags input start =>
      let text := source.filter fun u => !(u == 94 || u == 92 || u == 98)
      if flags.contains FLAG_Y then
        if start ≤ input.length ∧ text.isPrefixOf (input.drop start) then some (start + text.length)
        else none
      else (indexOf text (input.drop start)).map (start + · + text.length) }
  captures := fun _ line => some [⟨.command, line⟩]
  defaultRules := []

theorem literal_plainHost : Literal plainHost where
  accepts _ _ := rfl
  empty flags := by
    by_cases hy : FLAG_Y ∈ flags
    · simp [plainHost, hy, RM]
    · simp [plainHost, hy, RM, indexOf]
  start flags := by
    by_cases hy : FLAG_Y ∈ flags
    · simp [plainHost, hy, RM, RM_X]
    · simp [plainHost, hy, RM, RM_X, indexOf]
  behind flags hy := by
    simp [plainHost, hy, RM, RM_X]
  word := by decide
  parse := rfl

end AutoApprove

end Fumie.AgentHost
