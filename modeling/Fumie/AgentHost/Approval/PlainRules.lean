import Fumie.AgentHost.Approval.CommandAutoApprover

/-!
# Rules that keep nothing between calls

An expression that is neither global nor sticky is matched from the start on every
call and is left as it was. For rule sets of such expressions matching is a function of
the rules, and a line is approved exactly when it passes every check.
-/

namespace Fumie.AgentHost

open Fumie.Lib Fumie.Base List

variable {key : JsString} {rule : AutoApproveRule}

namespace AutoApprove

/-! ## Flags -/

def StickyFlags (flags : JsString) : Prop :=
  FLAG_Y ∈ flags ∧ validFlags (flags.filter (· ≠ FLAG_G)) = true

def FlagsWithin (allowed : Set JsString) (entries : List (JsString × AutoApproveRuleValue)) :
    Prop :=
  ∀ entry ∈ entries, ∀ pattern flags, regexEntry? entry.1 = some (pattern, flags) → flags ∈ allowed

namespace RegExp

def Plain (r : RegExp) : Prop := r.keepsIndex = false

def isMatch (engine : RegExpEngine) (r : RegExp) (input : JsString) : Bool :=
  (engine.exec r.source r.flags input 0).isSome

theorem exec_flags (engine : RegExpEngine) (r : RegExp) (input : JsString) :
    (r.exec engine input).2.flags = r.flags := by
  unfold exec
  dsimp only
  split
  · split
    · rfl
    · rfl
  · split
    · rfl
    · rfl

theorem test_plain {r : RegExp} (h : r.Plain) (engine : RegExpEngine) (input : JsString) :
    r.test engine input = (r.isMatch engine input, r) := by
  have hindex : r.keepsIndex = false := h
  unfold test exec isMatch
  simp only [hindex, Bool.false_eq_true, if_false]
  cases engine.exec r.source r.flags input 0 with
  | none | some _ => rfl

theorem plain_of_flags {r : RegExp} (hg : FLAG_G ∉ r.flags) (hy : FLAG_Y ∉ r.flags) : r.Plain := by
  simp [Plain, keepsIndex, hg, hy]

end RegExp

variable {engine : RegExpEngine}

theorem plain_convert
    (h : ∀ pattern flags, regexEntry? key = some (pattern, flags) → ¬StickyFlags flags) :
    (convertAutoApproveEntryToRegex engine key).Plain := by
  unfold convertAutoApproveEntryToRegex
  cases hentry : regexEntry? key with
  | none =>
    dsimp only
    split
    · rfl
    · rfl
  | some entry =>
    obtain ⟨pattern, flags⟩ := entry
    dsimp only
    split
    · rfl
    · cases hconstruct : RegExp.construct engine pattern (flags.filter (· ≠ FLAG_G)) with
      | none => rfl
      | some regex =>
        have hregex : validFlags (flags.filter (· ≠ FLAG_G)) = true ∧
            regex.flags = flags.filter (· ≠ FLAG_G) := by
          unfold RegExp.construct at hconstruct
          split at hconstruct
          · next hvalid =>
            cases hconstruct
            exact ⟨(Bool.and_eq_true_iff.mp hvalid).1, rfl⟩
          · cases hconstruct
        have hsticky : FLAG_Y ∉ flags := fun hy => h pattern flags hentry ⟨hy, hregex.1⟩
        have hflags : (regExpLeadsToEndlessLoop engine regex).2.flags = regex.flags := by
          unfold regExpLeadsToEndlessLoop
          split
          · rfl
          · exact RegExp.exec_flags engine regex []
        dsimp only
        split
        · rfl
        · apply RegExp.plain_of_flags
          · rw [hflags, hregex.2]
            simp
          · rw [hflags, hregex.2]
            intro hy
            exact hsticky (List.mem_of_mem_filter hy)

/-! ## Matching -/

namespace AutoApproveRule

def Plain (rule : AutoApproveRule) : Prop :=
  rule.regex.Plain ∧ ∀ regex ∈ rule.regexCaseInsensitive, regex.Plain

def isMatch (engine : RegExpEngine) (isPowerShell : Bool) (command : JsString)
    (rule : AutoApproveRule) : Bool :=
  let regex := if isPowerShell then rule.regexCaseInsensitive.getD rule.regex else rule.regex
  regex.isMatch engine command ||
    isPowerShell && command.head? == some 40 && regex.isMatch engine command.tail

theorem plain_compile
    (h : ∀ pattern flags, regexEntry? key = some (pattern, flags) → ¬StickyFlags flags) :
    (compile engine key).Plain := by
  have hregex : (convertAutoApproveEntryToRegex engine key).Plain := plain_convert h
  refine ⟨hregex, fun regex hmem => ?_⟩
  unfold compile at hmem
  dsimp only at hmem
  split at hmem
  · cases hmem
  · cases hmem
    have hflags : (convertAutoApproveEntryToRegex engine key).keepsIndex = false := hregex
    simp only [RegExp.keepsIndex, Bool.or_eq_false_iff, contains_eq_mem,
      decide_eq_false_iff_not] at hflags
    apply RegExp.plain_of_flags
    · simp only [mem_append, mem_singleton, not_or]
      exact ⟨hflags.1, by decide⟩
    · simp only [mem_append, mem_singleton, not_or]
      exact ⟨hflags.2, by decide⟩

theorem test_plain (h : rule.Plain) (engine : RegExpEngine) (input : JsString) :
    rule.test engine input = (rule.regex.isMatch engine input, rule) := by
  unfold test
  rw [RegExp.test_plain h.1]

theorem testCaseInsensitive_plain (h : rule.Plain) (engine : RegExpEngine) (input : JsString) :
    rule.testCaseInsensitive engine input =
      ((rule.regexCaseInsensitive.getD rule.regex).isMatch engine input, rule) := by
  unfold testCaseInsensitive
  cases hvariant : rule.regexCaseInsensitive with
  | none => exact test_plain h engine input
  | some regex =>
    dsimp only
    rw [RegExp.test_plain (h.2 regex hvariant)]
    rw [← hvariant]
    refine Prod.ext ?_ rfl
    rw [hvariant]
    rfl

end AutoApproveRule

theorem testRule_plain (h : rule.Plain) (engine : RegExpEngine) (isPowerShell : Bool)
    (command : JsString) :
    testRule engine isPowerShell command rule =
      (rule.isMatch engine isPowerShell command, rule) := by
  unfold testRule AutoApproveRule.isMatch
  cases isPowerShell with
  | false =>
    simp only [Bool.false_eq_true, if_false, Bool.false_and, Bool.or_false]
    rw [AutoApproveRule.test_plain h]
    simp
  | true =>
    simp only [if_true, Bool.true_and]
    rw [AutoApproveRule.testCaseInsensitive_plain h, AutoApproveRule.testCaseInsensitive_plain h]
    cases (rule.regexCaseInsensitive.getD rule.regex).isMatch engine command with
    | true => rfl
    | false =>
      cases command.head? == some 40 with
      | true | false => simp

theorem matchesRule_plain {rules : List AutoApproveRule} (h : ∀ rule ∈ rules, rule.Plain)
    (engine : RegExpEngine) (isPowerShell : Bool) (command : JsString) :
    matchesRule engine isPowerShell command rules =
      (rules.any (·.isMatch engine isPowerShell command), rules) := by
  induction rules with
  | nil => rfl
  | cons rule rest ih =>
    have hrest := ih fun r hr => h r (mem_cons_of_mem _ hr)
    unfold matchesRule
    rw [testRule_plain (h rule mem_cons_self), hrest, any_cons]
    cases rule.isMatch engine isPowerShell command with
    | true | false => rfl

theorem matchesCommandLineRule_plain {rules : List AutoApproveRule}
    (h : ∀ rule ∈ rules, rule.Plain) (engine : RegExpEngine) (commandLine : JsString) :
    matchesCommandLineRule engine commandLine rules =
      (rules.any (·.regex.isMatch engine commandLine), rules) := by
  induction rules with
  | nil => rfl
  | cons rule rest ih =>
    have hrest := ih fun r hr => h r (mem_cons_of_mem _ hr)
    unfold matchesCommandLineRule
    rw [AutoApproveRule.test_plain (h rule mem_cons_self), hrest, any_cons]
    cases rule.regex.isMatch engine commandLine with
    | true | false => rfl

namespace AutoApproveRules

structure Plain (rules : AutoApproveRules) : Prop where
  allow : ∀ rule ∈ rules.allowRules, rule.Plain
  deny : ∀ rule ∈ rules.denyRules, rule.Plain
  allowLine : ∀ rule ∈ rules.allowCommandLineRules, rule.Plain
  denyLine : ∀ rule ∈ rules.denyCommandLineRules, rule.Plain

end AutoApproveRules

def Undenied (engine : RegExpEngine) (isPowerShell : Bool) (rules : AutoApproveRules)
    (command : JsString) : Prop :=
  canHandle command = false ∧ isTransientEnvVar command = false ∧
    ∀ rule ∈ rules.denyRules, rule.isMatch engine isPowerShell command = false

variable {rules : AutoApproveRules}

theorem matchSingleCommand_plain (h : rules.Plain) (engine : RegExpEngine) (isPowerShell : Bool)
    (command : JsString) :
    matchSingleCommand engine isPowerShell command rules =
      (if rules.denyRules.any (·.isMatch engine isPowerShell command) then .denied
        else if rules.allowRules.any (·.isMatch engine isPowerShell command) then .approved
        else .noMatch, rules) := by
  unfold matchSingleCommand
  rw [matchesRule_plain h.deny]
  dsimp only
  rw [matchesRule_plain h.allow]
  split
  · rfl
  · rfl

theorem matchSubCommandsFrom_plain {rules : AutoApproveRules} (h : rules.Plain)
    (engine : RegExpEngine) (isPowerShell : Bool) (subCommands : List JsString) (allApproved : Bool) :
    (matchSubCommandsFrom engine isPowerShell allApproved subCommands rules).2 = rules ∧
      ((matchSubCommandsFrom engine isPowerShell allApproved subCommands rules).1 ≠ .denied ↔
        ∀ command ∈ subCommands, Undenied engine isPowerShell rules command) ∧
      ((matchSubCommandsFrom engine isPowerShell allApproved subCommands rules).1 = .approved ↔
        allApproved = true ∧ ∀ command ∈ subCommands, Undenied engine isPowerShell rules command ∧
          ∃ rule ∈ rules.allowRules, rule.isMatch engine isPowerShell command = true) := by
  induction subCommands generalizing allApproved with
  | nil =>
    unfold matchSubCommandsFrom
    cases allApproved with
    | true | false => simp
  | cons command rest ih =>
    unfold matchSubCommandsFrom
    split
    · next hsed =>
      have hnot : ¬Undenied engine isPowerShell rules command := fun hu => by
        rw [hu.1] at hsed
        cases hsed
      simp [hnot]
    split
    · next henv =>
      have hnot : ¬Undenied engine isPowerShell rules command := fun hu => by
        rw [hu.2.1] at henv
        cases henv
      simp [hnot]
    next hsed henv =>
    rw [matchSingleCommand_plain h]
    by_cases hdeny : rules.denyRules.any (·.isMatch engine isPowerShell command) = true
    · have hnot : ¬Undenied engine isPowerShell rules command := fun hu => by
        obtain ⟨rule, hrule, hmatch⟩ := any_eq_true.mp hdeny
        rw [hu.2.2 rule hrule] at hmatch
        cases hmatch
      rw [if_pos hdeny, if_pos rfl]
      simp [hnot]
    · have hundenied : Undenied engine isPowerShell rules command := by
        refine ⟨Bool.not_eq_true _ ▸ hsed, Bool.not_eq_true _ ▸ henv, fun rule hrule => ?_⟩
        rw [← Bool.not_eq_true]
        intro hmatch
        exact hdeny (any_eq_true.mpr ⟨rule, hrule, hmatch⟩)
      rw [if_neg hdeny]
      by_cases hallow : rules.allowRules.any (·.isMatch engine isPowerShell command) = true
      · rw [if_pos hallow, if_neg (by simp)]
        obtain ⟨hstate, hdenied, happroved⟩ := ih (allApproved && decide
          (CommandApprovalResult.approved = CommandApprovalResult.approved))
        have hrule := any_eq_true.mp hallow
        refine ⟨hstate, ?_, ?_⟩
        · rw [hdenied, forall_mem_cons]
          exact ⟨fun hall => ⟨hundenied, hall⟩, fun hall => hall.2⟩
        · rw [happroved, forall_mem_cons]
          simp only [decide_true, Bool.and_true]
          exact ⟨fun hall => ⟨hall.1, ⟨hundenied, hrule⟩, hall.2⟩, fun hall => ⟨hall.1, hall.2.2⟩⟩
      · rw [if_neg hallow, if_neg (by simp)]
        obtain ⟨hstate, hdenied, happroved⟩ := ih (allApproved && decide
          (CommandApprovalResult.noMatch = CommandApprovalResult.approved))
        refine ⟨hstate, ?_, ?_⟩
        · rw [hdenied, forall_mem_cons]
          exact ⟨fun hall => ⟨hundenied, hall⟩, fun hall => hall.2⟩
        · rw [happroved, forall_mem_cons]
          constructor
          · rintro ⟨hfalse, -⟩
            simp at hfalse
          · rintro ⟨-, ⟨-, rule, hrule, hmatch⟩, -⟩
            exact (hallow (any_eq_true.mpr ⟨rule, hrule, hmatch⟩)).elim

/-! ## Approval -/

/-- Every check of a line that is not blank is passed. -/
structure Approves (host : Host) (options : ShouldAutoApproveOptions) (trimmed : JsString)
    (rules : AutoApproveRules) (parsed : ParsedCommandLine) : Prop where
  lineUndenied : ∀ rule ∈ rules.denyCommandLineRules, rule.regex.isMatch host.engine trimmed = false
  parse : extractSubCommands options.isPowerShell (host.captures options.isPowerShell trimmed) =
    some parsed
  undenied : ∀ command ∈ parsed.subCommands, Undenied host.engine options.isPowerShell rules command
  allowed : (∀ command ∈ parsed.subCommands, ∃ rule ∈ rules.allowRules,
      rule.isMatch host.engine options.isPowerShell command = true) ∨
    ∃ rule ∈ rules.allowCommandLineRules, rule.regex.isMatch host.engine trimmed = true
  writes : ∀ dest ∈ parsed.unsafeWriteDests, options.approvesDest dest = true

def plainVerdict (host : Host) (options : ShouldAutoApproveOptions) (trimmed : JsString)
    (rules : AutoApproveRules) : CommandApprovalEvaluation :=
  if rules.denyCommandLineRules.any (·.regex.isMatch host.engine trimmed) then ⟨.denied, false⟩
  else
    match extractSubCommands options.isPowerShell (host.captures options.isPowerShell trimmed) with
    | none => ⟨.noMatch, false⟩
    | some parsed =>
      let refused := parsed.unsafeWriteDests.any fun dest => !options.approvesDest dest
      let subResult :=
        (matchSubCommands host.engine options.isPowerShell parsed.subCommands rules).1
      if subResult = .denied then ⟨.denied, false⟩
      else
        let result :=
          if rules.allowCommandLineRules.any (·.regex.isMatch host.engine trimmed) then .approved
          else subResult
        if result = .approved ∧ refused then ⟨.noMatch, false⟩
        else ⟨result, decide (result = .noMatch) && !refused⟩

theorem evaluateRules_plain {host : Host} (h : rules.Plain) (options : ShouldAutoApproveOptions)
    (trimmed : JsString) :
    evaluateRules host options trimmed rules = (plainVerdict host options trimmed rules, rules) := by
  unfold evaluateRules plainVerdict
  rw [matchesCommandLineRule_plain h.denyLine]
  cases rules.denyCommandLineRules.any (·.regex.isMatch host.engine trimmed) with
  | true => rfl
  | false =>
    cases extractSubCommands options.isPowerShell (host.captures options.isPowerShell trimmed) with
    | none => rfl
    | some parsed =>
      have hsub : matchSubCommands host.engine options.isPowerShell parsed.subCommands rules =
          ((matchSubCommands host.engine options.isPowerShell parsed.subCommands rules).1, rules) :=
        Prod.ext rfl (matchSubCommandsFrom_plain h _ _ _ _).1
      simp only [Bool.false_eq_true, if_false]
      rw [hsub, matchesCommandLineRule_plain h.allowLine]
      generalize (matchSubCommands host.engine options.isPowerShell parsed.subCommands rules).1 =
        subResult
      by_cases hdenied : subResult = .denied
      · rw [if_pos hdenied, if_pos hdenied]
      rw [if_neg hdenied, if_neg hdenied]
      generalize (if rules.allowCommandLineRules.any (·.regex.isMatch host.engine trimmed) = true
        then CommandApprovalResult.approved else subResult) = result
      by_cases hrefused : result = .approved ∧
          (parsed.unsafeWriteDests.any fun dest => !options.approvesDest dest) = true
      · rw [if_pos hrefused, if_pos hrefused]
      · rw [if_neg hrefused, if_neg hrefused]

theorem plainVerdict_approved {host : Host} (h : rules.Plain) (options : ShouldAutoApproveOptions)
    (trimmed : JsString) :
    (plainVerdict host options trimmed rules).result = .approved ↔
      ∃ parsed, Approves host options trimmed rules parsed := by
  unfold plainVerdict
  by_cases hline : rules.denyCommandLineRules.any (·.regex.isMatch host.engine trimmed) = true
  · rw [if_pos hline]
    refine iff_of_false (by simp) ?_
    rintro ⟨parsed, happroves⟩
    obtain ⟨rule, hrule, hmatch⟩ := any_eq_true.mp hline
    rw [happroves.lineUndenied rule hrule] at hmatch
    cases hmatch
  rw [if_neg hline]
  have hundenied : ∀ rule ∈ rules.denyCommandLineRules,
      rule.regex.isMatch host.engine trimmed = false := by
    intro rule hrule
    rw [← Bool.not_eq_true]
    intro hmatch
    exact hline (any_eq_true.mpr ⟨rule, hrule, hmatch⟩)
  cases hparse : extractSubCommands options.isPowerShell
      (host.captures options.isPowerShell trimmed) with
  | none =>
    refine iff_of_false (by simp) ?_
    rintro ⟨parsed, happroves⟩
    rw [happroves.parse] at hparse
    cases hparse
  | some parsed =>
    obtain ⟨-, hdenied, happroved⟩ := matchSubCommandsFrom_plain h host.engine
      options.isPowerShell parsed.subCommands true
    dsimp only
    unfold matchSubCommands
    -- The parse is the only one there is.
    have honly : ∀ parsed', Approves host options trimmed rules parsed' → parsed' = parsed :=
      fun parsed' happroves => Option.some.inj (happroves.parse.symm.trans hparse)
    by_cases hden : (matchSubCommandsFrom host.engine options.isPowerShell true
        parsed.subCommands rules).1 = .denied
    · rw [if_pos hden]
      refine iff_of_false (by simp) ?_
      rintro ⟨parsed', happroves⟩
      obtain rfl := honly parsed' happroves
      exact hdenied.mpr happroves.undenied hden
    rw [if_neg hden]
    have hall := hdenied.mp hden
    have hresult : (if rules.allowCommandLineRules.any (·.regex.isMatch host.engine trimmed) = true
          then CommandApprovalResult.approved
          else (matchSubCommandsFrom host.engine options.isPowerShell true
            parsed.subCommands rules).1) = .approved ↔
        (∀ command ∈ parsed.subCommands, ∃ rule ∈ rules.allowRules,
          rule.isMatch host.engine options.isPowerShell command = true) ∨
        ∃ rule ∈ rules.allowCommandLineRules, rule.regex.isMatch host.engine trimmed = true := by
      rw [← any_eq_true]
      split
      · next hallow => simp [hallow]
      · next hallow =>
        rw [happroved]
        constructor
        · rintro ⟨-, hrules⟩
          exact .inl fun command hcommand => (hrules command hcommand).2
        · rintro (hrules | hline')
          · exact ⟨rfl, fun command hcommand => ⟨hall command hcommand, hrules command hcommand⟩⟩
          · exact (hallow hline').elim
    generalize (if rules.allowCommandLineRules.any (·.regex.isMatch host.engine trimmed) = true
      then CommandApprovalResult.approved
      else (matchSubCommandsFrom host.engine options.isPowerShell true
        parsed.subCommands rules).1) = result at hresult ⊢
    by_cases hwrites : (parsed.unsafeWriteDests.any fun dest => !options.approvesDest dest) = true
    · have hrefused : ¬∃ parsed, Approves host options trimmed rules parsed := by
        rintro ⟨parsed', happroves⟩
        obtain rfl := honly parsed' happroves
        obtain ⟨dest, hdest, hrefuse⟩ := any_eq_true.mp hwrites
        rw [happroves.writes dest hdest] at hrefuse
        cases hrefuse
      refine iff_of_false ?_ hrefused
      split
      · simp
      · next hsplit => exact fun happ => hsplit ⟨happ, hwrites⟩
    · rw [if_neg (fun hand => hwrites hand.2)]
      have haccepted : ∀ dest ∈ parsed.unsafeWriteDests, options.approvesDest dest = true := by
        intro dest hdest
        by_contra hrefused
        apply hwrites
        refine any_eq_true.mpr ⟨dest, hdest, ?_⟩
        rw [eq_false_of_ne_true hrefused]
        rfl
      refine hresult.trans ⟨fun hallowed => ⟨parsed, ?_⟩, ?_⟩
      · exact {
          lineUndenied := hundenied
          parse := hparse
          undenied := hall
          allowed := hallowed
          writes := haccepted }
      · rintro ⟨parsed', happroves⟩
        obtain rfl := honly parsed' happroves
        exact happroves.allowed

/-! ## Compiled rules -/

theorem plain_addRuleEntry (h : rules.Plain) {entry : JsString × AutoApproveRuleValue}
    (hentry : (AutoApproveRule.compile engine entry.1).Plain) :
    (addRuleEntry engine rules entry).Plain := by
  have happend : ∀ {l : List AutoApproveRule}, (∀ rule ∈ l, rule.Plain) →
      ∀ rule ∈ l ++ [AutoApproveRule.compile engine entry.1], rule.Plain := by
    intro l hl rule hrule
    obtain hrule | hrule := mem_append.mp hrule
    · exact hl rule hrule
    · rw [mem_singleton.mp hrule]
      exact hentry
  obtain ⟨key, value⟩ := entry
  match value with
  | .bool true | .rule true false => exact { h with allow := happend h.allow }
  | .bool false | .rule false false => exact { h with deny := happend h.deny }
  | .rule true true => exact { h with allowLine := happend h.allowLine }
  | .rule false true => exact { h with denyLine := happend h.denyLine }
  | .null => exact h

theorem plain_compileRuleEntries {allowed : Set JsString}
    (hallowed : ∀ flags ∈ allowed, ¬StickyFlags flags)
    {entries : List (JsString × AutoApproveRuleValue)} (h : FlagsWithin allowed entries) :
    (compileRuleEntries engine entries).Plain := by
  have hfold : ∀ (l : List (JsString × AutoApproveRuleValue)) (rules : AutoApproveRules),
      FlagsWithin allowed l → rules.Plain → (l.foldl (addRuleEntry engine) rules).Plain := by
    intro l
    induction l with
    | nil => exact fun _ _ hrules => hrules
    | cons entry rest ih =>
      intro rules hl hrules
      apply ih _ (fun e he => hl e (mem_cons_of_mem _ he))
      apply plain_addRuleEntry hrules
      apply AutoApproveRule.plain_compile
      intro pattern flags hregex
      exact hallowed flags (hl entry mem_cons_self pattern flags hregex)
  refine hfold entries {} h ⟨?_, ?_, ?_, ?_⟩
  all_goals
    exact nofun

end AutoApprove

end Fumie.AgentHost
