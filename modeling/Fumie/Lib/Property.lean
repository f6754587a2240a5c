import Mathlib

/-!
# Optional properties of a JSON object

A property of an object is absent, present without a value, `null` or a value. A delta
between two versions of an object has a property where the versions differ; a cleared
property is spelled `null`, which a text keeps, and read as a property without a value,
which a spread copies. `applied_clearing` says that nothing is lost on the way.
-/

namespace Fumie.Lib

inductive Property (α : Type) where
  | absent
  | undefined
  | null
  | value (a : α)
  deriving DecidableEq, Inhabited

namespace Property

variable {α : Type}

/-- `JSON.parse(JSON.stringify(object))`: a property that is `undefined` is dropped. -/
def overJson : Property α → Property α
  | .absent => .absent
  | .undefined => .absent
  | .null => .null
  | .value a => .value a

def carried : Property α → Option (Option α)
  | .absent => none
  | .undefined => some none
  | .null => some none
  | .value a => some (some a)

@[simp] theorem carried_overJson_absent : (absent : Property α).overJson.carried = none := rfl

variable [DecidableEq α]

def clearing (current last : Option α) : Property α :=
  if current = last then .absent
  else
    match current with
    | none => .null
    | some a => .value a

def changed (current last : α) : Option α := if current = last then none else some current

@[simp] theorem applied_clearing (current last : Option α) :
    (clearing current last).overJson.carried.getD last = current := by
  by_cases h : current = last
  · simp [clearing, overJson, carried, h]
  · cases current with
    | none | some _ => simp [clearing, overJson, carried, h]

@[simp] theorem applied_changed (current last : α) :
    (changed current last).getD last = current := by
  by_cases h : current = last
  · simp [changed, h]
  · simp [changed, h]

end Property

end Fumie.Lib
