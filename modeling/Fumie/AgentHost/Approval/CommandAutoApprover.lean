import Fumie.Base.Strings

/-!
# The command auto approver

`node/commandAutoApprover.ts`: allow and deny rules compiled from the configuration are
matched against the sub-commands of a shell command line and against the whole line.
Compiled rules are kept from call to call, and with them what their regular expressions
keep. The engine of regular expressions and the tree-sitter parser are not part of the
repository and are parameters.
-/

namespace Fumie.AgentHost

open Fumie.Lib Fumie.Base JsString

namespace AutoApprove

/-! ## Regular expressions -/

structure RegExpEngine where
  accepts : (pattern flags : JsString) → Bool
  exec : (source flags input : JsString) → Nat → Option Nat

structure RegExp where
  source : JsString
  flags : JsString
  lastIndex : Nat := 0

def FLAGS : JsString := [100, 103, 105, 109, 115, 117, 118, 121]

def FLAG_G : CodeUnit := 103
def FLAG_I : CodeUnit := 105
def FLAG_U : CodeUnit := 117
def FLAG_V : CodeUnit := 118
def FLAG_Y : CodeUnit := 121

def validFlags (flags : JsString) : Bool :=
  flags.all (FLAGS.contains ·) && decide flags.Nodup &&
    !(flags.contains FLAG_U && flags.contains FLAG_V)

namespace RegExp

/-- `new RegExp(pattern, flags)`, `none` where it throws. -/
def construct (engine : RegExpEngine) (pattern flags : JsString) : Option RegExp :=
  if validFlags flags && engine.accepts pattern flags then some { source := pattern, flags } else none

def keepsIndex (r : RegExp) : Bool := r.flags.contains FLAG_G || r.flags.contains FLAG_Y

def exec (engine : RegExpEngine) (r : RegExp) (input : JsString) : Option Nat × RegExp :=
  let start := if r.keepsIndex then r.lastIndex else 0
  match engine.exec r.source r.flags input start with
  | none => (none, if r.keepsIndex then { r with lastIndex := 0 } else r)
  | some e => (some e, if r.keepsIndex then { r with lastIndex := e } else r)

def test (engine : RegExpEngine) (r : RegExp) (input : JsString) : Bool × RegExp :=
  ((r.exec engine input).1.isSome, (r.exec engine input).2)

end RegExp

/-- `/(?!.*)/`. -/
def neverMatchRegex : RegExp := { source := ofString "(?!.*)", flags := [] }

/-- `/^[A-Z_][A-Z0-9_]*=/i`. -/
def isTransientEnvVar (command : JsString) : Bool :=
  match command with
  | [] => false
  | u :: rest =>
    (isAsciiLetter u || u.val == 95) &&
      (rest.dropWhile fun u => isAsciiLetter u || isDecimalDigit u || u.val == 95).head? == some 61

def regExpLeadsToEndlessLoop (engine : RegExpEngine) (r : RegExp) : Bool × RegExp :=
  if r.source ∈ [ofString "^", ofString "^$", ofString "$",
      ofString "^\\s*$"] then (false, r)
  else
    let (found, r) := r.exec engine []
    (found.isSome && r.lastIndex == 0, r)

/-! ## Rules -/

def regexEntry? (value : JsString) : Option (JsString × JsString) :=
  match value with
  | [] => none
  | u :: rest =>
    let flags := (rest.reverse.takeWhile (· ≠ 47)).reverse
    let pattern := rest.take (rest.length - flags.length - 1)
    if u = 47 ∧ 47 ∈ rest ∧ flags.all (FLAGS.contains ·) ∧ pattern ≠ [] ∧
        pattern.all (!isLineTerminator ·) then
      some (pattern, flags)
    else none

def isRegExpCharacter (u : CodeUnit) : Bool :=
  u.val ∈ [92, 123, 125, 42, 43, 63, 124, 94, 36, 46, 91, 93, 40, 41]

def escapeRegExpCharacters (value : JsString) : JsString :=
  value.flatMap fun u => if isRegExpCharacter u then [92, u] else [u]

/-- `%%PATH_SEP%`, which any number of percent signs may follow. -/
def PATH_SEP : JsString := ofString "%%PATH_SEP%"

def replacePathSep : Nat → JsString → JsString
  | 0, value => value
  | _, [] => []
  | fuel + 1, u :: rest =>
    if PATH_SEP.isPrefixOf (u :: rest) then
      ofString "[/\\\\]" ++
        replacePathSep fuel (((u :: rest).drop PATH_SEP.length).dropWhile (· = 37))
    else u :: replacePathSep fuel rest

def literalSource (value : JsString) : JsString :=
  let sanitized :=
    if 47 ∈ value ∨ 92 ∈ value then
      let pattern := escapeRegExpCharacters
        (value.flatMap fun u => if u = 47 ∨ u = 92 then ofString "%%PATH_SEP%%" else [u])
      ofString "^(?:\\.[/\\\\])?" ++ replacePathSep pattern.length pattern
    else escapeRegExpCharacters value
  ofString "^" ++ sanitized ++ ofString "\\b"

def convertAutoApproveEntryToRegex (engine : RegExpEngine) (value : JsString) : RegExp :=
  match regexEntry? value with
  | some (pattern, flags) =>
    if pattern = ofString ".*" then { source := pattern, flags := [] }
    else
      match RegExp.construct engine pattern (flags.filter (· ≠ FLAG_G)) with
      | none => neverMatchRegex
      | some regex =>
        let (endless, regex) := regExpLeadsToEndlessLoop engine regex
        if endless then neverMatchRegex else regex
  | none =>
    if value = [] then neverMatchRegex else { source := literalSource value, flags := [] }

inductive AutoApproveRuleValue where
  | bool (approve : Bool)
  | null
  | rule (approve : Bool) (matchCommandLine : Bool)
  deriving DecidableEq

/-- A configuration object: which object it is and its entries in order. -/
structure RuleConfig where
  ref : Nat
  entries : List (JsString × AutoApproveRuleValue)
  deriving DecidableEq

structure AutoApproveRule where
  regex : RegExp
  /-- `none` where `regex` ignores case itself: both fields are then one object. -/
  regexCaseInsensitive : Option RegExp

namespace AutoApproveRule

def compile (engine : RegExpEngine) (key : JsString) : AutoApproveRule :=
  let regex := convertAutoApproveEntryToRegex engine key
  { regex
    regexCaseInsensitive :=
      if regex.flags.contains FLAG_I then none
      else some { source := regex.source, flags := regex.flags ++ [FLAG_I] } }

def test (engine : RegExpEngine) (rule : AutoApproveRule) (input : JsString) :
    Bool × AutoApproveRule :=
  ((rule.regex.test engine input).1, { rule with regex := (rule.regex.test engine input).2 })

def testCaseInsensitive (engine : RegExpEngine) (rule : AutoApproveRule) (input : JsString) :
    Bool × AutoApproveRule :=
  match rule.regexCaseInsensitive with
  | none => rule.test engine input
  | some regex =>
    ((regex.test engine input).1,
      { rule with regexCaseInsensitive := some (regex.test engine input).2 })

end AutoApproveRule

structure AutoApproveRules where
  allowRules : List AutoApproveRule := []
  denyRules : List AutoApproveRule := []
  allowCommandLineRules : List AutoApproveRule := []
  denyCommandLineRules : List AutoApproveRule := []

/-- One turn of the loop of `_compileRuleEntries`. -/
def addRuleEntry (engine : RegExpEngine) (rules : AutoApproveRules)
    (entry : JsString × AutoApproveRuleValue) : AutoApproveRules :=
  let rule := AutoApproveRule.compile engine entry.1
  match entry.2 with
  | .bool true | .rule true false => { rules with allowRules := rules.allowRules ++ [rule] }
  | .bool false | .rule false false => { rules with denyRules := rules.denyRules ++ [rule] }
  | .rule true true =>
    { rules with allowCommandLineRules := rules.allowCommandLineRules ++ [rule] }
  | .rule false true =>
    { rules with denyCommandLineRules := rules.denyCommandLineRules ++ [rule] }
  | .null => rules

def compileRuleEntries (engine : RegExpEngine)
    (entries : List (JsString × AutoApproveRuleValue)) : AutoApproveRules :=
  entries.foldl (addRuleEntry engine) {}

/-! ## Matching -/

inductive CommandApprovalResult where
  | approved
  | denied
  | noMatch
  deriving DecidableEq

section

variable (engine : RegExpEngine)

/-- `rules.some(rule => rule.regex.test(commandLine))`. -/
def matchesCommandLineRule (engine : RegExpEngine) (commandLine : JsString) :
    List AutoApproveRule → Bool × List AutoApproveRule
  | [] => (false, [])
  | rule :: rest =>
    if (rule.test engine commandLine).1 then (true, (rule.test engine commandLine).2 :: rest)
    else
      ((matchesCommandLineRule engine commandLine rest).1,
        (rule.test engine commandLine).2 :: (matchesCommandLineRule engine commandLine rest).2)

variable (isPowerShell : Bool) (command : JsString) (rules : AutoApproveRules)

/-- One turn of the loop of `_matchesRule`. -/
def testRule (rule : AutoApproveRule) : Bool × AutoApproveRule :=
  let first := if isPowerShell then rule.testCaseInsensitive engine command
    else rule.test engine command
  if first.1 then first
  else if isPowerShell && command.head? == some 40 then
    first.2.testCaseInsensitive engine command.tail
  else first

def matchesRule (engine : RegExpEngine) (isPowerShell : Bool) (command : JsString) :
    List AutoApproveRule → Bool × List AutoApproveRule
  | [] => (false, [])
  | rule :: rest =>
    if (testRule engine isPowerShell command rule).1 then
      (true, (testRule engine isPowerShell command rule).2 :: rest)
    else
      ((matchesRule engine isPowerShell command rest).1,
        (testRule engine isPowerShell command rule).2 ::
          (matchesRule engine isPowerShell command rest).2)

def matchSingleCommand : CommandApprovalResult × AutoApproveRules :=
  let denied := matchesRule engine isPowerShell command rules.denyRules
  let rules := { rules with denyRules := denied.2 }
  if denied.1 then (.denied, rules)
  else
    let allowed := matchesRule engine isPowerShell command rules.allowRules
    let rules := { rules with allowRules := allowed.2 }
    (if allowed.1 then .approved else .noMatch, rules)

def isInPlaceWord (word : JsString) : Bool :=
  (word.head? == some 45 && (word.tail.takeWhile isAsciiLetter).any fun u => u == 105 || u == 73) ||
    word == ofString "--in-place" || startsWith word (ofString "--in-place=")

def canHandle : Bool :=
  startsWith command (ofString "sed") &&
    (match command.drop 3 with
      | [] => false
      | u :: _ => isStrWhiteSpace u) &&
    (words command).any isInPlaceWord

/-- The loop of `_matchSubCommands`. -/
def matchSubCommandsFrom (engine : RegExpEngine) (isPowerShell allApproved : Bool) :
    List JsString → AutoApproveRules → CommandApprovalResult × AutoApproveRules
  | [], rules => (if allApproved then .approved else .noMatch, rules)
  | subCommand :: rest, rules =>
    if canHandle subCommand then (.denied, rules)
    else if isTransientEnvVar subCommand then (.denied, rules)
    else
      let single := matchSingleCommand engine isPowerShell subCommand rules
      if single.1 = .denied then (.denied, single.2)
      else
        matchSubCommandsFrom engine isPowerShell (allApproved && decide (single.1 = .approved)) rest
          single.2

def matchSubCommands (subCommands : List JsString) (rules : AutoApproveRules) :
    CommandApprovalResult × AutoApproveRules :=
  matchSubCommandsFrom engine isPowerShell true subCommands rules

end

/-! ## Redirects -/

def SAFE_POSIX_REDIRECT_TARGETS : List JsString :=
  ["/dev/null", "/dev/stdout", "/dev/stderr", "/dev/tty"].map ofString

def isQuoted (text : JsString) : Bool :=
  startsWith text [39] && endsWith text [39] || startsWith text [34] && endsWith text [34]

/-- `slice(1, -1)`. -/
def unquoted (text : JsString) : JsString := text.tail.dropLast

def isDescriptorDuplication (text : JsString) : Bool :=
  match text with
  | [] => false
  | u :: rest =>
    u == 38 && (rest.takeWhile isDecimalDigit != []) &&
      (rest.dropWhile isDecimalDigit == [] || rest.dropWhile isDecimalDigit == [45])

def isSafeRedirectDestination (dest : JsString) (isPowerShell : Bool) : Bool :=
  let cleaned := trim dest
  if cleaned.length = 0 then false
  else if isPowerShell && asciiLowerCase cleaned == ofString "$null" then true
  else
    let cleaned := if isQuoted cleaned then unquoted cleaned else cleaned
    isDescriptorDuplication cleaned ||
      !isPowerShell && SAFE_POSIX_REDIRECT_TARGETS.contains cleaned

inductive FileRedirectClassification where
  | read
  | safeWrite
  | unsafeWrite (dest : Option JsString)
  deriving DecidableEq

/-- `(.+)$`. -/
def restOfLine? (text : JsString) : Option JsString :=
  if text ≠ [] ∧ text.all (!isLineTerminator ·) then some text else none

/-- `\s*(.+)$`; white space is given back from the end until the rest matches. -/
def afterSpaces? (text : JsString) : Option JsString :=
  ((List.range ((text.takeWhile isStrWhiteSpace).length + 1)).reverse).firstM fun n =>
    restOfLine? (text.drop n)

/-- `\|?\s*(.+)$`. -/
def afterClobber? (text : JsString) : Option JsString :=
  (if text.head? = some 124 then afterSpaces? text.tail else none).orElse fun _ =>
    afterSpaces? text

/-- What the group of `(?:[0-9]+|&|\*)?>>?\|?\s*(.+)$` holds: the destination behind the
first `>` from which the rest matches. -/
def redirectDest? : JsString → Option JsString
  | [] => none
  | u :: rest =>
    (if u = 62 then
      (if rest.head? = some 62 then afterClobber? rest.tail else none).orElse fun _ =>
        afterClobber? rest
    else none).orElse fun _ => redirectDest? rest

def classifyFileRedirect (redirectText : JsString) (isPowerShell : Bool) :
    FileRedirectClassification :=
  if 62 ∉ redirectText then .read
  else
    match redirectDest? redirectText with
    | none => .unsafeWrite none
    | some dest =>
      let rawDest := trim dest
      if isSafeRedirectDestination rawDest isPowerShell then .safeWrite
      else .unsafeWrite (some (if isQuoted rawDest then unquoted rawDest else rawDest))

/-! ## The parse -/

/-- The captures of the two queries. An assignment that is part of a command is captured
like any other and passed over. -/
inductive CaptureName where
  | command
  | fileRedirect
  | redirection
  | genericToken
  | heredocRedirect
  | herestringRedirect
  | unanalyzable (assignmentOfCommand : Bool)
  deriving DecidableEq

structure Capture where
  name : CaptureName
  text : JsString

def isNoSpaceRedirect (text : JsString) : Bool :=
  match text with
  | [] => false
  | u :: rest => u == 62 || (isDecimalDigit u || u == 42) && rest.head? == some 62

def Capture.isRedirect (c : Capture) : Bool :=
  match c.name with
  | .fileRedirect | .redirection => true
  | .genericToken => isNoSpaceRedirect c.text
  | _ => false

structure ParsedCommandLine where
  subCommands : List JsString := []
  unsafeWriteDests : List (Option JsString) := []

def ParsedCommandLine.add (isPowerShell : Bool) (parsed : ParsedCommandLine) (c : Capture) :
    ParsedCommandLine :=
  if c.name = .command then { parsed with subCommands := parsed.subCommands ++ [c.text] }
  else if c.isRedirect then
    match classifyFileRedirect c.text isPowerShell with
    | .unsafeWrite dest => { parsed with unsafeWriteDests := parsed.unsafeWriteDests ++ [dest] }
    | _ => parsed
  else parsed

/-- `_extractSubCommands` on the captures of the command line; there are none where no
parser is loaded, the parse fails or is refused for its errors. -/
def extractSubCommands (isPowerShell : Bool) (captures : Option (List Capture)) :
    Option ParsedCommandLine :=
  match captures with
  | none => none
  | some captures =>
    if captures.any fun c => c.name == .unanalyzable false then none
    else
      let parsed := captures.foldl (ParsedCommandLine.add isPowerShell) {}
      if parsed.subCommands.length > 0 ∨ parsed.unsafeWriteDests.length > 0 then some parsed
      else none

/-! ## The approver -/

structure CommandApprovalEvaluation where
  result : CommandApprovalResult
  autoApproveRuleResolvable : Bool
  deriving DecidableEq

inductive ShellLanguage where
  | bash
  | powershell
  deriving DecidableEq

structure ShouldAutoApproveOptions where
  isWriteDestApproved : Option (JsString → Bool) := none
  autoApproveRules : Option RuleConfig := none
  language : Option ShellLanguage := none

def ShouldAutoApproveOptions.isPowerShell (options : ShouldAutoApproveOptions) : Bool :=
  options.language = some .powershell

/-- What the approver is built on: the engine, the parser's captures for a line in the
grammar of PowerShell or of bash, and the table of bundled rules. -/
structure Host where
  engine : RegExpEngine
  captures : (isPowerShell : Bool) → JsString → Option (List Capture)
  defaultRules : List (JsString × AutoApproveRuleValue)

def ShouldAutoApproveOptions.approvesDest (options : ShouldAutoApproveOptions)
    (dest : Option JsString) : Bool :=
  match dest, options.isWriteDestApproved with
  | some dest, some isWriteDestApproved => isWriteDestApproved dest
  | _, _ => false

def evaluateRules (host : Host) (options : ShouldAutoApproveOptions) (trimmed : JsString)
    (rules : AutoApproveRules) : CommandApprovalEvaluation × AutoApproveRules :=
  let lineDenied := matchesCommandLineRule host.engine trimmed rules.denyCommandLineRules
  let rules := { rules with denyCommandLineRules := lineDenied.2 }
  if lineDenied.1 then (⟨.denied, false⟩, rules)
  else
    match extractSubCommands options.isPowerShell (host.captures options.isPowerShell trimmed) with
    | none => (⟨.noMatch, false⟩, rules)
    | some parsed =>
      let hasUnapprovedRedirect :=
        parsed.unsafeWriteDests.any fun dest => !options.approvesDest dest
      let subCommands := matchSubCommands host.engine options.isPowerShell parsed.subCommands rules
      let rules := subCommands.2
      if subCommands.1 = .denied then (⟨.denied, false⟩, rules)
      else
        let lineAllowed := matchesCommandLineRule host.engine trimmed rules.allowCommandLineRules
        let rules := { rules with allowCommandLineRules := lineAllowed.2 }
        let result := if lineAllowed.1 then .approved else subCommands.1
        if result = .approved ∧ hasUnapprovedRedirect then (⟨.noMatch, false⟩, rules)
        else (⟨result, decide (result = .noMatch) && !hasUnapprovedRedirect⟩, rules)

structure CommandAutoApprover where
  fallbackRules : Option AutoApproveRules := none
  cachedRuleConfig : Option RuleConfig := none
  cachedRules : Option AutoApproveRules := none

namespace CommandAutoApprover

variable (host : Host) (a : CommandAutoApprover) (ruleConfig : Option RuleConfig)

def compileRules : AutoApproveRules :=
  match ruleConfig with
  | none => a.fallbackRules.getD (compileRuleEntries host.engine host.defaultRules)
  | some config =>
    match a.cachedRules with
    | some rules =>
      if a.cachedRuleConfig = some config then rules
      else compileRuleEntries host.engine config.entries
    | none => compileRuleEntries host.engine config.entries

def keepRules (rules : AutoApproveRules) : CommandAutoApprover :=
  match ruleConfig with
  | none => { a with fallbackRules := some rules }
  | some config => { a with cachedRuleConfig := some config, cachedRules := some rules }

def evaluate (commandLine : JsString) (options : ShouldAutoApproveOptions) :
    CommandApprovalEvaluation × CommandAutoApprover :=
  let trimmed := trimStart commandLine
  if trimmed.length = 0 then (⟨.approved, false⟩, a)
  else
    let evaluation := evaluateRules host options trimmed (a.compileRules host options.autoApproveRules)
    (evaluation.1, a.keepRules options.autoApproveRules evaluation.2)

def after (calls : List (JsString × ShouldAutoApproveOptions)) : CommandAutoApprover :=
  calls.foldl (fun a call => (a.evaluate host call.1 call.2).2) a

end CommandAutoApprover

end AutoApprove

end Fumie.AgentHost
