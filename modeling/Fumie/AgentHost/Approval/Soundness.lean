import Fumie.AgentHost.Approval.History

/-!
# What an approved line has passed

A line is approved only when nothing denies it, every sub-command or the line as a whole
is allowed, and every write goes to a harmless place or one the destination check takes.
More deny rules approve fewer lines.
-/

namespace Fumie.AgentHost

open Fumie.Lib Fumie.Base List

variable {trimmed : JsString}

variable (isPowerShell : Bool) (captures : List Capture)

namespace AutoApprove

/-! ## Captures -/

def commandsOf : List JsString :=
  (captures.filter (·.name = .command)).map (·.text)

/-- Where a captured redirect writes, if it is one that must be checked. -/
def Capture.uncheckedDest (c : Capture) : Option (Option JsString) :=
  if c.name = .command then none
  else if c.isRedirect then
    match classifyFileRedirect c.text isPowerShell with
    | .unsafeWrite dest => some dest
    | _ => none
  else none

theorem foldl_add (parsed : ParsedCommandLine) :
    captures.foldl (ParsedCommandLine.add isPowerShell) parsed =
      ⟨parsed.subCommands ++ commandsOf captures,
        parsed.unsafeWriteDests ++ captures.filterMap (Capture.uncheckedDest isPowerShell)⟩ := by
  induction captures generalizing parsed with
  | nil => simp [commandsOf]
  | cons c rest ih =>
    rw [foldl_cons, ih]
    unfold ParsedCommandLine.add
    by_cases hcommand : c.name = .command
    · simp [hcommand, commandsOf, Capture.uncheckedDest]
    · rw [if_neg hcommand]
      by_cases hredirect : c.isRedirect = true
      · rw [if_pos hredirect]
        cases hclass : classifyFileRedirect c.text isPowerShell with
        | read | safeWrite | unsafeWrite dest =>
          simp [hcommand, hredirect, hclass, commandsOf, Capture.uncheckedDest]
      · rw [if_neg hredirect]
        simp [hcommand, hredirect, commandsOf, Capture.uncheckedDest]

variable {parsed : ParsedCommandLine}

theorem extractSubCommands_some {isPowerShell : Bool} {captures : Option (List Capture)}
    (h : extractSubCommands isPowerShell captures = some parsed) :
    ∃ cs, captures = some cs ∧ parsed.subCommands = commandsOf cs ∧
      parsed.unsafeWriteDests = cs.filterMap (Capture.uncheckedDest isPowerShell) := by
  unfold extractSubCommands at h
  split at h
  · cases h
  · next cs =>
    split at h
    · cases h
    · rw [foldl_add] at h
      dsimp only at h
      split at h
      · cases h
        exact ⟨cs, rfl, nil_append _, nil_append _⟩
      · cases h

/-! ## Soundness -/

/-- What approval of a line that is not blank promises, over the rules newly compiled. -/
structure Passed (host : Host) (options : ShouldAutoApproveOptions) (trimmed : JsString)
    (rules : AutoApproveRules) (captures : List Capture) : Prop where
  parse : host.captures options.isPowerShell trimmed = some captures
  lineUndenied : ∀ rule ∈ rules.denyCommandLineRules, rule.regex.isMatch host.engine trimmed = false
  undenied : ∀ c ∈ captures, c.name = .command → ∀ rule ∈ rules.denyRules,
    rule.isMatch host.engine options.isPowerShell c.text = false
  notInPlace : ∀ c ∈ captures, c.name = .command →
    canHandle c.text = false ∧ isTransientEnvVar c.text = false
  allowed : (∀ c ∈ captures, c.name = .command → ∃ rule ∈ rules.allowRules,
      rule.isMatch host.engine options.isPowerShell c.text = true) ∨
    ∃ rule ∈ rules.allowCommandLineRules, rule.regex.isMatch host.engine trimmed = true
  writes : ∀ c ∈ captures, c.name ≠ .command → c.isRedirect = true → ∀ dest,
    classifyFileRedirect c.text options.isPowerShell = .unsafeWrite dest →
      options.approvesDest dest = true

theorem Approves.passed {host : Host} {options : ShouldAutoApproveOptions}
    {rules : AutoApproveRules} (h : Approves host options trimmed rules parsed) :
    ∃ captures, Passed host options trimmed rules captures := by
  obtain ⟨cs, hcs, hcommands, hdests⟩ := extractSubCommands_some h.parse
  have hmem : ∀ c ∈ cs, c.name = .command → c.text ∈ parsed.subCommands := by
    intro c hc hname
    rw [hcommands]
    exact mem_map.mpr ⟨c, mem_filter.mpr ⟨hc, by simpa using hname⟩, rfl⟩
  refine ⟨cs, ?_⟩
  exact {
    parse := hcs
    lineUndenied := h.lineUndenied
    undenied := fun c hc hname => (h.undenied _ (hmem c hc hname)).2.2
    notInPlace := fun c hc hname =>
      ⟨(h.undenied _ (hmem c hc hname)).1, (h.undenied _ (hmem c hc hname)).2.1⟩
    allowed := h.allowed.imp (fun hall c hc hname => hall _ (hmem c hc hname)) id
    writes := by
      intro c hc hname hredirect dest hclass
      apply h.writes
      rw [hdests]
      refine mem_filterMap.mpr ⟨c, hc, ?_⟩
      unfold Capture.uncheckedDest
      rw [if_neg hname, if_pos hredirect, hclass] }

/-! ## More deny rules -/

def AutoApproveRuleValue.denies : AutoApproveRuleValue → Bool
  | .bool approve => !approve
  | .rule approve _ => !approve
  | .null => false

def AddsDeny (entries entries' : List (JsString × AutoApproveRuleValue)) : Prop :=
  (∀ entry ∈ entries, entry.2.denies = true → entry ∈ entries') ∧
    ∀ entry ∈ entries', entry.2.denies = false → entry ∈ entries

theorem mem_compileRuleEntries {engine : RegExpEngine}
    {entries : List (JsString × AutoApproveRuleValue)} {rule : AutoApproveRule} :
    (rule ∈ (compileRuleEntries engine entries).allowRules ↔ ∃ key,
        rule = AutoApproveRule.compile engine key ∧
          ((key, .bool true) ∈ entries ∨ (key, .rule true false) ∈ entries)) ∧
      (rule ∈ (compileRuleEntries engine entries).denyRules ↔ ∃ key,
        rule = AutoApproveRule.compile engine key ∧
          ((key, .bool false) ∈ entries ∨ (key, .rule false false) ∈ entries)) ∧
      (rule ∈ (compileRuleEntries engine entries).allowCommandLineRules ↔ ∃ key,
        rule = AutoApproveRule.compile engine key ∧ (key, .rule true true) ∈ entries) ∧
      (rule ∈ (compileRuleEntries engine entries).denyCommandLineRules ↔ ∃ key,
        rule = AutoApproveRule.compile engine key ∧ (key, .rule false true) ∈ entries) := by
  induction entries using reverseRecOn with
  | nil => simp [compileRuleEntries]
  | append_singleton entries entry ih =>
    obtain ⟨hallow, hdeny, hallowLine, hdenyLine⟩ := ih
    obtain ⟨key, value⟩ := entry
    have hfold : compileRuleEntries engine (entries ++ [(key, value)]) =
        addRuleEntry engine (compileRuleEntries engine entries) (key, value) := by
      unfold compileRuleEntries
      rw [foldl_append]
      rfl
    rw [hfold]
    match value with
    | .bool true | .bool false | .rule true true | .rule true false | .rule false true
    | .rule false false | .null =>
      simp only [addRuleEntry, mem_append, mem_singleton, hallow, hdeny, hallowLine,
        hdenyLine, Prod.mk.injEq, reduceCtorEq, and_false, or_false, AutoApproveRuleValue.bool.injEq,
        AutoApproveRuleValue.rule.injEq, Bool.false_eq_true, Bool.true_eq_false, and_true,
        true_and, iff_self]
      try grind

theorem Approves.of_addsDeny {host : Host} {options options' : ShouldAutoApproveOptions}
    {entries entries' : List (JsString × AutoApproveRuleValue)}
    (hadds : AddsDeny entries entries') (hlanguage : options'.language = options.language)
    (hwrites : options'.isWriteDestApproved = options.isWriteDestApproved)
    (h : Approves host options' trimmed (compileRuleEntries host.engine entries') parsed) :
    Approves host options trimmed (compileRuleEntries host.engine entries) parsed := by
  have hshell : options'.isPowerShell = options.isPowerShell := by
    unfold ShouldAutoApproveOptions.isPowerShell
    rw [hlanguage]
  have hdest : options'.approvesDest = options.approvesDest := by
    funext dest
    unfold ShouldAutoApproveOptions.approvesDest
    rw [hwrites]
  obtain ⟨hline, hparse, hundenied, hallowed, haccepted⟩ := h
  rw [hshell] at hparse hundenied hallowed
  rw [hdest] at haccepted
  have hallow : ∀ rule ∈ (compileRuleEntries host.engine entries').allowRules,
      rule ∈ (compileRuleEntries host.engine entries).allowRules := by
    intro rule hrule
    obtain ⟨key, hkey, hmem⟩ := mem_compileRuleEntries.1.mp hrule
    exact mem_compileRuleEntries.1.mpr
      ⟨key, hkey, hmem.imp (fun hm => hadds.2 _ hm rfl) fun hm => hadds.2 _ hm rfl⟩
  have hallowLine : ∀ rule ∈ (compileRuleEntries host.engine entries').allowCommandLineRules,
      rule ∈ (compileRuleEntries host.engine entries).allowCommandLineRules := by
    intro rule hrule
    obtain ⟨key, hkey, hmem⟩ := mem_compileRuleEntries.2.2.1.mp hrule
    exact mem_compileRuleEntries.2.2.1.mpr ⟨key, hkey, hadds.2 _ hmem rfl⟩
  have hdeny : ∀ rule ∈ (compileRuleEntries host.engine entries).denyRules,
      rule ∈ (compileRuleEntries host.engine entries').denyRules := by
    intro rule hrule
    obtain ⟨key, hkey, hmem⟩ := mem_compileRuleEntries.2.1.mp hrule
    exact mem_compileRuleEntries.2.1.mpr
      ⟨key, hkey, hmem.imp (fun hm => hadds.1 _ hm rfl) fun hm => hadds.1 _ hm rfl⟩
  have hdenyLine : ∀ rule ∈ (compileRuleEntries host.engine entries).denyCommandLineRules,
      rule ∈ (compileRuleEntries host.engine entries').denyCommandLineRules := by
    intro rule hrule
    obtain ⟨key, hkey, hmem⟩ := mem_compileRuleEntries.2.2.2.mp hrule
    exact mem_compileRuleEntries.2.2.2.mpr ⟨key, hkey, hadds.1 _ hmem rfl⟩
  exact {
    lineUndenied := fun rule hrule => hline rule (hdenyLine rule hrule)
    parse := hparse
    undenied := fun command hcommand => ⟨(hundenied command hcommand).1,
      (hundenied command hcommand).2.1,
      fun rule hrule => (hundenied command hcommand).2.2 rule (hdeny rule hrule)⟩
    allowed := by
      obtain hall | ⟨rule, hrule, hmatch⟩ := hallowed
      · refine .inl fun command hcommand => ?_
        obtain ⟨rule, hrule, hmatch⟩ := hall command hcommand
        exact ⟨rule, hallow rule hrule, hmatch⟩
      · exact .inr ⟨rule, hallowLine rule hrule, hmatch⟩
    writes := haccepted }

/-! ## The theorem -/

structure SoundApproval (host : Host) (allowed : Set JsString) : Prop where
  passed : ∀ (calls : List (JsString × ShouldAutoApproveOptions)) (commandLine : JsString)
    (options : ShouldAutoApproveOptions),
    (∀ call ∈ calls, call.2.FlagsWithin allowed host) → options.FlagsWithin allowed host →
    trimStart commandLine ≠ [] →
    ((({} : CommandAutoApprover).after host calls).evaluate host commandLine options).1.result =
      .approved →
    ∃ captures, Passed host options (trimStart commandLine) (freshRules host options) captures
  moreDeny : ∀ (calls calls' : List (JsString × ShouldAutoApproveOptions))
    (commandLine : JsString) (options : ShouldAutoApproveOptions) (config config' : RuleConfig),
    (∀ call ∈ calls ++ calls', call.2.FlagsWithin allowed host) →
    FlagsWithin allowed config.entries → FlagsWithin allowed config'.entries →
    AddsDeny config.entries config'.entries →
    ((({} : CommandAutoApprover).after host calls').evaluate host commandLine
      { options with autoApproveRules := some config' }).1.result = .approved →
    ((({} : CommandAutoApprover).after host calls).evaluate host commandLine
      { options with autoApproveRules := some config }).1.result = .approved

section

variable {host : Host} {allowed : Set JsString}

theorem evaluate_approved (hplain : ∀ flags ∈ allowed, ¬StickyFlags flags)
    {calls : List (JsString × ShouldAutoApproveOptions)}
    (hcalls : ∀ call ∈ calls, call.2.FlagsWithin allowed host) (options : ShouldAutoApproveOptions)
    (hoptions : options.FlagsWithin allowed host) (commandLine : JsString) :
    ((({} : CommandAutoApprover).after host calls).evaluate host commandLine options).1.result =
        .approved ↔
      trimStart commandLine = [] ∨
        ∃ parsed, Approves host options (trimStart commandLine) (freshRules host options) parsed := by
  have hfresh := CommandAutoApprover.fresh_new.after hplain hcalls
  rw [(hfresh.evaluate hplain hoptions commandLine).2]
  by_cases hblank : trimStart commandLine = []
  · rw [if_pos (length_eq_zero_iff.mpr hblank)]
    exact iff_of_true rfl (.inl hblank)
  · rw [if_neg fun hlength => hblank (length_eq_zero_iff.mp hlength),
      plainVerdict_approved (CommandAutoApprover.plain_freshRules hplain hoptions)]
    exact (or_iff_right hblank).symm

theorem soundApproval_of_plain (hplain : ∀ flags ∈ allowed, ¬StickyFlags flags) :
    SoundApproval host allowed where
  passed calls commandLine options hcalls hoptions hblank happroved := by
    obtain hempty | ⟨parsed, happroves⟩ :=
      (evaluate_approved hplain hcalls options hoptions commandLine).mp happroved
    · exact (hblank hempty).elim
    · exact happroves.passed
  moreDeny calls calls' commandLine options config config' hcalls hconfig hconfig' hadds
      happroved := by
    have hmem : ∀ call ∈ calls, call.2.FlagsWithin allowed host := fun call hcall =>
      hcalls call (mem_append_left _ hcall)
    have hmem' : ∀ call ∈ calls', call.2.FlagsWithin allowed host := fun call hcall =>
      hcalls call (mem_append_right _ hcall)
    have hfewer := evaluate_approved hplain hmem { options with autoApproveRules := some config }
      hconfig commandLine
    have hmore := evaluate_approved hplain hmem'
      { options with autoApproveRules := some config' } hconfig' commandLine
    apply hfewer.mpr
    obtain hempty | ⟨parsed, happroves⟩ := hmore.mp happroved
    · exact .inl hempty
    · have hsame : { options with autoApproveRules := some config' }.language =
          { options with autoApproveRules := some config }.language := rfl
      exact .inr ⟨parsed, Approves.of_addsDeny hadds hsame rfl happroves⟩

theorem not_passed_rm (hhost : Literal host) {flags : JsString} (h : StickyFlags flags)
    {captures : List Capture} :
    ¬Passed host (rmOptions flags) RM_X (freshRules host (rmOptions flags)) captures := by
  intro hpassed
  rw [CommandAutoApprover.freshRules_rm hhost h] at hpassed
  have hcaptures : captures = [⟨.command, RM_X⟩] :=
    Option.some.inj (hpassed.parse.symm.trans hhost.parse)
  have hundenied := hpassed.undenied ⟨.command, RM_X⟩ (by rw [hcaptures]; simp) rfl
    (rmRule host flags 0) (by simp [rmRules])
  have hmatch : (rmRule host flags 0).isMatch host.engine false RM_X = true := by
    unfold AutoApproveRule.isMatch RegExp.isMatch
    simp only [Bool.false_eq_true, if_false, Bool.false_and, Bool.or_false]
    rw [show (rmRule host flags 0).regex = rmRegex flags 0 from rfl,
      show (rmRegex flags 0).source = RM from rfl, hhost.start]
    rfl
  rw [show (rmOptions flags).isPowerShell = false from rfl, hmatch] at hundenied
  cases hundenied

end

end AutoApprove

end Fumie.AgentHost
