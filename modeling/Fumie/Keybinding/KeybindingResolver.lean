import Fumie.ContextKey.Implication
import Fumie.Lib.Record

/-!
# Keybinding resolver

The items of a resolver are grouped by their first chord, in order, and by command for
lookups by command. An item that a later one overwrites leaves the lookup by command
only; `resolve` still finds it. `substituteConstants` is a parameter: it decides which
items are skipped as never active and which defaults a removal meets.
-/

namespace Fumie.Keybinding

open Fumie.Lib Fumie.ContextKey

structure ResolvedKeybindingItem where
  chords : List String
  bubble : Bool
  command : Option String
  commandArgs : JsValue
  when : Option ContextKeyExpression
  isDefault : Bool

structure ResolverHost where
  js : JsHost
  substituteConstants : ContextKeyExpression → Option ContextKeyExpression

inductive ResolutionResult where
  | noMatchingKb
  | moreChordsNeeded
  | kbFound (commandId : Option String) (commandArgs : JsValue) (isBubble : Bool)

variable (host : ResolverHost)

/-! ## When-clauses -/

def isTrue : ContextKeyExpression → Bool
  | .true => true
  | _ => false

def isFalse : ContextKeyExpression → Bool
  | .false => true
  | _ => false

def whenIsIncluded (c : TestComparison) (a b : Option ContextKeyExpression) : Bool :=
  match b with
  | none => true
  | some b =>
    if isTrue b then true
    else
      match a with
      | none => false
      | some a => if isTrue a then false else implies c a b

def whenIsEntirelyIncluded (a b : Option ContextKeyExpression) : Bool :=
  whenIsIncluded (sourceComparison host.js) a b

def contextMatchesRules (context : Context) (rules : Option ContextKeyExpression) : Bool :=
  match rules with
  | none => true
  | some rules => rules.evaluate host.js context

/-! ## Removals -/

def hasCommand (item : ResolvedKeybindingItem) : Bool :=
  match item.command with
  | none => false
  | some command => command ≠ ""

def removedCommand (rule : ResolvedKeybindingItem) : Option String :=
  rule.command.bind fun command =>
    match command.toList with
    | '-' :: rest => some (String.ofList rest)
    | _ => none

def isTargetedForRemoval (defaultKb : ResolvedKeybindingItem) (keypress : List String)
    (when : Option ContextKeyExpression) : Bool :=
  keypress.isPrefixOf defaultKb.chords &&
    match when with
    | none => true
    | some when =>
      if isTrue when then true
      else
        match defaultKb.when with
        | none => false
        | some defaultWhen =>
          whenIsEntirelyIncluded host (host.substituteConstants defaultWhen)
            (host.substituteConstants when)

def handleRemovals (rules : List ResolvedKeybindingItem) : List ResolvedKeybindingItem :=
  let removals := rules.filter fun rule => (removedCommand rule).isSome
  if removals.isEmpty then rules
  else
    rules.filter fun rule =>
      if !hasCommand rule then true
      else if (removedCommand rule).isSome then false
      else
        let commandRemovals := removals.filter fun removal => removedCommand removal = rule.command
        if commandRemovals.isEmpty || !rule.isDefault then true
        else
          !commandRemovals.any fun removal =>
            isTargetedForRemoval host rule removal.chords removal.when

/-! ## The maps -/

abbrev Entry := Nat × ResolvedKeybindingItem

structure KeybindingResolver where
  /-- By the first chord. -/
  map : Record String (List Entry)
  /-- By command. -/
  lookupMap : Record String (List Entry)

namespace KeybindingResolver

/-- Whether the chords agree as far as both go. -/
def prefixAgrees (a b : List String) : Bool := a.isPrefixOf b || b.isPrefixOf a

def overwrites (item conflict : ResolvedKeybindingItem) : Bool :=
  conflict.command ≠ item.command && prefixAgrees conflict.chords.tail item.chords.tail &&
    whenIsEntirelyIncluded host conflict.when item.when

variable (r : KeybindingResolver)

variable (context : Context) (entry : Entry) (pressedChords : List String) (keypress : String)

def addToLookupMap : KeybindingResolver :=
  match entry.2.command with
  | none => r
  | some command =>
    if command = "" then r
    else
      { r with lookupMap :=
          r.lookupMap.set command ((r.lookupMap.get command).getD [] ++ [entry]) }

def removeFromLookupMap : KeybindingResolver :=
  match entry.2.command with
  | none => r
  | some command =>
    if command = "" then r
    else
      match r.lookupMap.get command with
      | none => r
      | some entries =>
        { r with lookupMap := r.lookupMap.set command (entries.eraseP fun e => e.1 = entry.1) }

def addKeyPress (entry : Entry) : KeybindingResolver :=
  match r.map.get keypress with
  | none => { r with map := r.map.set keypress [entry] }.addToLookupMap entry
  | some conflicts =>
    let r := (conflicts.reverse.filter fun conflict => overwrites host entry.2 conflict.2).foldl
      removeFromLookupMap r
    { r with map := r.map.set keypress (conflicts ++ [entry]) }.addToLookupMap entry

def addItem : KeybindingResolver :=
  match entry.2.chords with
  | [] => r
  | keypress :: _ =>
    match entry.2.when.bind host.substituteConstants with
    | none => r.addKeyPress host keypress entry
    | some when => if isFalse when then r else r.addKeyPress host keypress entry

def create (defaultKeybindings overrides : List ResolvedKeybindingItem) : KeybindingResolver :=
  ((handleRemovals host (defaultKeybindings ++ overrides)).zipIdx.map Prod.swap).foldl
    (addItem host) { map := .empty, lookupMap := .empty }

/-! ## Resolution -/

def findCommand (entries : List Entry) : Option Entry :=
  entries.reverse.find? fun entry => contextMatchesRules host context entry.2.when

def candidates : Option (List Entry) :=
  match pressedChords with
  | [] => none
  | first :: rest =>
    (r.map.get first).map fun kbCandidates =>
      if rest.isEmpty then kbCandidates
      else kbCandidates.filter fun candidate => rest.isPrefixOf candidate.2.chords.tail

def select : Option Entry :=
  (r.candidates pressedChords).bind fun entries => findCommand host context entries

def resolve (currentChords : List String) (keypress : String) : ResolutionResult :=
  let pressedChords := currentChords ++ [keypress]
  match r.select host context pressedChords with
  | none => .noMatchingKb
  | some result =>
    if pressedChords.length < result.2.chords.length then .moreChordsNeeded
    else .kbFound result.2.command result.2.commandArgs result.2.bubble

def lookupKeybindings (commandId : String) : List Entry :=
  ((r.lookupMap.get commandId).getD []).reverse

end KeybindingResolver

end Fumie.Keybinding
