import Fumie.AgentHost.State.SessionState

/-!
# Customization enablement decisions

A customization carries a list of explicit decisions, at most one for each of the
three scopes, sorted from the most specific scope to the widest. The first decision
counts; no decision anywhere means enabled.
-/

namespace Fumie.AgentHost

open Option

inductive CustomizationType where
  | plugin | directory | agent | skill | prompt | rule | hook | mcpServer
  deriving DecidableEq

inductive CustomizationEnablementKind where
  | global | workspace | session
  deriving DecidableEq

def CustomizationEnablement.kind : CustomizationEnablement → CustomizationEnablementKind
  | .global _ => .global
  | .workspace _ _ => .workspace
  | .session _ => .session

def defaultCustomizationEnabled : Bool := true

def getCustomizationEnablementDecision (enablement : List CustomizationEnablement) :
    Option CustomizationEnablement :=
  enablement.head?

def isCustomizationEnabled (enablement : List CustomizationEnablement) : Bool :=
  ((getCustomizationEnablementDecision enablement).map (·.enabled)).getD defaultCustomizationEnabled

structure CustomizationScopeEnablement where
  global : Bool
  workspace : Bool
  session : Bool
  deriving DecidableEq

def getCustomizationScopeEnablement (enablement : List CustomizationEnablement) :
    CustomizationScopeEnablement :=
  let global := ((enablement.find? fun decision => decision.kind = .global).map (·.enabled)).getD
    defaultCustomizationEnabled
  let workspace :=
    ((enablement.find? fun decision => decision.kind = .workspace).map (·.enabled)).getD global
  { global, workspace, session := isCustomizationEnabled enablement }

def CustomizationScopeEnablement.at (values : CustomizationScopeEnablement) :
    CustomizationEnablementKind → Bool
  | .global => values.global
  | .workspace => values.workspace
  | .session => values.session

def customizationEnablementOrder : CustomizationEnablementKind → Nat
  | .session => 0
  | .workspace => 1
  | .global => 2

def sortCustomizationEnablement (enablement : List CustomizationEnablement) :
    List CustomizationEnablement :=
  enablement.insertionSort fun a b =>
    customizationEnablementOrder a.kind ≤ customizationEnablementOrder b.kind

def withCustomizationEnablement (current : List CustomizationEnablement)
    (kind : CustomizationEnablementKind) (entry : CustomizationEnablement) :
    List CustomizationEnablement :=
  sortCustomizationEnablement ((current.filter fun decision => decision.kind ≠ kind) ++ [entry])

/-! ## Sorted lists with one decision a scope -/

/-- The sorted list of at most one decision a scope. -/
def decisionsOf (session : Option Bool) (workspace : Option (Uri × Bool))
    (global : Option Bool) : List CustomizationEnablement :=
  (session.map .session).toList ++ (workspace.map fun w => .workspace w.1 w.2).toList ++
    (global.map .global).toList

section

variable (session global : Option Bool) (workspace : Option (Uri × Bool))

@[simp] theorem sort_decisionsOf :
    sortCustomizationEnablement (decisionsOf session workspace global) =
      decisionsOf session workspace global := by
  cases session <;> cases workspace <;> cases global <;> rfl

theorem with_session (v : Bool) :
    withCustomizationEnablement (decisionsOf session workspace global) .session (.session v) =
      decisionsOf (some v) workspace global := by
  cases session <;> cases workspace <;> cases global <;> rfl

theorem with_workspace (uri : Uri) (v : Bool) :
    withCustomizationEnablement (decisionsOf session workspace global) .workspace
      (.workspace uri v) = decisionsOf session (some (uri, v)) global := by
  cases session <;> cases workspace <;> cases global <;> rfl

theorem scopeEnablement_decisionsOf :
    getCustomizationScopeEnablement (decisionsOf session workspace global) =
      { global := global.getD defaultCustomizationEnabled
        workspace := (workspace.map Prod.snd).getD (global.getD defaultCustomizationEnabled)
        session := session.getD
          ((workspace.map Prod.snd).getD (global.getD defaultCustomizationEnabled)) } := by
  cases session <;> cases workspace <;> cases global <;> rfl

theorem find_decisionsOf (kind : CustomizationEnablementKind) :
    (decisionsOf session workspace global).find? (fun decision => decision.kind = kind) =
      match kind with
      | .session => session.map .session
      | .workspace => workspace.map fun w => .workspace w.1 w.2
      | .global => global.map .global := by
  cases session <;> cases workspace <;> cases global <;> cases kind <;> rfl

end

theorem decisionsOf_inj {session session' global global' : Option Bool}
    {workspace workspace' : Option (Uri × Bool)} :
    decisionsOf session workspace global = decisionsOf session' workspace' global' ↔
      session = session' ∧ workspace = workspace' ∧ global = global' := by
  constructor
  · intro h
    have hfind := fun kind => congrArg
      (List.find? fun decision : CustomizationEnablement => decision.kind = kind) h
    simp only [find_decisionsOf] at hfind
    refine ⟨?_, ?_, ?_⟩
    · exact map_injective (fun _ _ hv => CustomizationEnablement.session.inj hv) (hfind .session)
    · refine map_injective (fun v w hv => ?_) (hfind .workspace)
      obtain ⟨huri, henabled⟩ := CustomizationEnablement.workspace.inj hv
      exact Prod.ext huri henabled
    · exact map_injective (fun _ _ hv => CustomizationEnablement.global.inj hv) (hfind .global)
  · rintro ⟨rfl, rfl, rfl⟩
    rfl

end Fumie.AgentHost
