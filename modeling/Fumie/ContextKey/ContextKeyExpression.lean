import Fumie.ContextKey.JsValues

/-!
# When-clauses

The expression trees of when-clauses with their evaluation, the order that sorts and
matches them, and the test for implication. A clause that is neither a constant nor a
conjunction or disjunction is a `ContextKeyTest`. Trees are taken as they are: nothing
here needs them to be normalised.

The comparisons are written over a comparison of tests, so that the walk of `implies`
can be repeated with a finer one.
-/

namespace Fumie.ContextKey

/-- The source and the flags of a regular expression. -/
structure RegExp where
  source : String
  flags : String
  deriving DecidableEq

inductive ContextKeyTest where
  | defined (key : String)
  | not (key : String)
  | equals (key : String) (value : JsValue)
  | notEquals (key : String) (value : JsValue)
  | regex (key : String) (regexp : Option RegExp)
  | notRegex (key : String) (regexp : Option RegExp)
  | isIn (key valueKey : String)
  | notIn (key valueKey : String)
  | greater (key : String) (value : JsValue)
  | greaterEquals (key : String) (value : JsValue)
  | smaller (key : String) (value : JsValue)
  | smallerEquals (key : String) (value : JsValue)
  deriving DecidableEq

inductive ContextKeyExpression where
  | false
  | true
  | test (t : ContextKeyTest)
  | and (expr : List ContextKeyExpression)
  | or (expr : List ContextKeyExpression)

abbrev Context := String → JsValue

/-! ## Evaluation -/

namespace ContextKeyTest

variable (host : JsHost) (context : Context)

/-- `item.startsWith('file:///')`. -/
def isFileUri (item : String) : Bool := "file:///".toList.isPrefixOf item.toList

def evaluateIn (key valueKey : String) : Bool :=
  let item := context key
  match context valueKey with
  | .object source =>
    match host.contents source with
    | .array elements =>
      if item ∈ elements then Bool.true
      else
        match item with
        | .string s =>
          host.isWindows && isFileUri s && elements.any fun element =>
            match element with
            | .string t => host.toLowerCase t = host.toLowerCase s
            | _ => Bool.false
        | _ => Bool.false
    | .record ownKeys =>
      match item with
      | .string s =>
        if s ∈ ownKeys then Bool.true
        else
          host.isWindows && isFileUri s && ownKeys.any fun key =>
            host.toLowerCase key = host.toLowerCase s
      | _ => Bool.false
  | _ => Bool.false

def evaluateRegex (key : String) : Option RegExp → Bool
  | none => Bool.false
  | some regexp => host.regexpTest regexp.source regexp.flags ((context key).toText host)

def evaluateComparison (compare : JsNumeric → JsNumeric → Bool) (key : String) : JsValue → Bool
  | .string _ => Bool.false
  | value => compare ((context key).parseFloat host) (value.toNumeric host)

def evaluate : ContextKeyTest → Bool
  | .defined key => (context key).truthy
  | .not key => !(context key).truthy
  | .equals key value => (context key).looseEquals host value
  | .notEquals key value => !(context key).looseEquals host value
  | .regex key regexp => evaluateRegex host context key regexp
  | .notRegex key regexp => !evaluateRegex host context key regexp
  | .isIn key valueKey => evaluateIn host context key valueKey
  | .notIn key valueKey => !evaluateIn host context key valueKey
  | .greater key value => evaluateComparison host context (fun a b => b.lt a) key value
  | .greaterEquals key value =>
    evaluateComparison host context (fun a b => b.lt a || a.eq b) key value
  | .smaller key value => evaluateComparison host context (fun a b => a.lt b) key value
  | .smallerEquals key value =>
    evaluateComparison host context (fun a b => a.lt b || a.eq b) key value

end ContextKeyTest

mutual

def ContextKeyExpression.evaluate (host : JsHost) (context : Context) : ContextKeyExpression → Bool
  | .false => Bool.false
  | .true => Bool.true
  | .test t => t.evaluate host context
  | .and expr => evaluateAll host context expr
  | .or expr => evaluateAny host context expr

def evaluateAll (host : JsHost) (context : Context) : List ContextKeyExpression → Bool
  | [] => true
  | e :: rest => e.evaluate host context && evaluateAll host context rest

def evaluateAny (host : JsHost) (context : Context) : List ContextKeyExpression → Bool
  | [] => false
  | e :: rest => e.evaluate host context || evaluateAny host context rest

end

/-! ## The order of tests -/

def ContextKeyTest.type : ContextKeyTest → Int
  | .defined _ => 2
  | .not _ => 3
  | .equals _ _ => 4
  | .notEquals _ _ => 5
  | .regex _ _ => 7
  | .notRegex _ _ => 8
  | .isIn _ _ => 10
  | .notIn _ _ => 11
  | .greater _ _ => 12
  | .greaterEquals _ _ => 13
  | .smaller _ _ => 14
  | .smallerEquals _ _ => 15

def ContextKeyExpression.type : ContextKeyExpression → Int
  | .false => 0
  | .true => 1
  | .test t => t.type
  | .and _ => 6
  | .or _ => 9

def cmp1 (key1 key2 : String) : Int :=
  if key1 < key2 then -1 else if key2 < key1 then 1 else 0

def cmp2 (host : JsHost) (key1 : String) (value1 : JsValue) (key2 : String) (value2 : JsValue) :
    Int :=
  if key1 < key2 then -1
  else if key2 < key1 then 1
  else if value1.lt host value2 then -1
  else if value2.lt host value1 then 1
  else 0

def regexpSource (regexp : Option RegExp) : String := (regexp.map (·.source)).getD ""

/-- Regular expressions are compared by their source alone. -/
def cmpRegex (key1 : String) (regexp1 : Option RegExp) (key2 : String)
    (regexp2 : Option RegExp) : Int :=
  if key1 < key2 then -1
  else if key2 < key1 then 1
  else cmp1 (regexpSource regexp1) (regexpSource regexp2)

namespace ContextKeyTest

def cmp (host : JsHost) : ContextKeyTest → ContextKeyTest → Int
  | .defined key, .defined key' => cmp1 key key'
  | .not key, .not key' => cmp1 key key'
  | .equals key value, .equals key' value' => cmp2 host key value key' value'
  | .notEquals key value, .notEquals key' value' => cmp2 host key value key' value'
  | .regex key regexp, .regex key' regexp' => cmpRegex key regexp key' regexp'
  | .notRegex key regexp, .notRegex key' regexp' => cmpRegex key regexp key' regexp'
  | .isIn key valueKey, .isIn key' valueKey' =>
    cmp2 host key (.string valueKey) key' (.string valueKey')
  | .notIn key valueKey, .notIn key' valueKey' =>
    cmp2 host key (.string valueKey) key' (.string valueKey')
  | .greater key value, .greater key' value' => cmp2 host key value key' value'
  | .greaterEquals key value, .greaterEquals key' value' => cmp2 host key value key' value'
  | .smaller key value, .smaller key' value' => cmp2 host key value key' value'
  | .smallerEquals key value, .smallerEquals key' value' => cmp2 host key value key' value'
  | a, b => a.type - b.type

/-- `this.equals(other)`. -/
def same : ContextKeyTest → ContextKeyTest → Bool
  | .defined key, .defined key' => key = key'
  | .not key, .not key' => key = key'
  | .equals key value, .equals key' value' => key = key' && value.strictEquals value'
  | .notEquals key value, .notEquals key' value' => key = key' && value.strictEquals value'
  | .regex key regexp, .regex key' regexp' =>
    key = key' && regexpSource regexp = regexpSource regexp'
  | .notRegex key regexp, .notRegex key' regexp' =>
    key = key' && regexpSource regexp = regexpSource regexp'
  | .isIn key valueKey, .isIn key' valueKey' => key = key' && valueKey = valueKey'
  | .notIn key valueKey, .notIn key' valueKey' => key = key' && valueKey = valueKey'
  | .greater key value, .greater key' value' => key = key' && value.strictEquals value'
  | .greaterEquals key value, .greaterEquals key' value' =>
    key = key' && value.strictEquals value'
  | .smaller key value, .smaller key' value' => key = key' && value.strictEquals value'
  | .smallerEquals key value, .smallerEquals key' value' =>
    key = key' && value.strictEquals value'
  | _, _ => Bool.false

end ContextKeyTest

/-! ## The order of expressions -/

structure TestComparison where
  cmp : ContextKeyTest → ContextKeyTest → Int
  same : ContextKeyTest → ContextKeyTest → Bool

def sourceComparison (host : JsHost) : TestComparison where
  cmp := ContextKeyTest.cmp host
  same := ContextKeyTest.same

variable (c : TestComparison)

mutual

def ContextKeyExpression.cmp : ContextKeyExpression → ContextKeyExpression → Int
  | .test t, .test t' => c.cmp t t'
  | .and expr, .and expr' =>
    if expr.length < expr'.length then -1
    else if expr'.length < expr.length then 1
    else cmpExprs expr expr'
  | .or expr, .or expr' =>
    if expr.length < expr'.length then -1
    else if expr'.length < expr.length then 1
    else cmpExprs expr expr'
  | a, b => a.type - b.type

def cmpExprs : List ContextKeyExpression → List ContextKeyExpression → Int
  | e :: rest, e' :: rest' => if e.cmp e' ≠ 0 then e.cmp e' else cmpExprs rest rest'
  | _, _ => 0

end

mutual

def ContextKeyExpression.equals : ContextKeyExpression → ContextKeyExpression → Bool
  | .false, .false => Bool.true
  | .true, .true => Bool.true
  | .test t, .test t' => c.same t t'
  | .and expr, .and expr' => expr.length = expr'.length && equalsExprs expr expr'
  | .or expr, .or expr' => expr.length = expr'.length && equalsExprs expr expr'
  | _, _ => Bool.false

def equalsExprs : List ContextKeyExpression → List ContextKeyExpression → Bool
  | e :: rest, e' :: rest' => e.equals e' && equalsExprs rest rest'
  | _, _ => true

end

/-! ## Implication -/

def allElementsIncluded : List ContextKeyExpression → List ContextKeyExpression → Bool
  | [], _ => true
  | _ :: _, [] => false
  | p :: ps, q :: qs =>
    if p.cmp c q < 0 then false
    else if p.cmp c q = 0 then allElementsIncluded ps qs
    else allElementsIncluded (p :: ps) qs

mutual

/-- `implies(p, q)` where `q` is neither a conjunction nor a disjunction. -/
def impliesSingle (q : ContextKeyExpression) : ContextKeyExpression → Bool
  | .false => true
  | .or _ => if q.type = 1 then true else false
  | .and expr => if q.type = 1 then true else impliesSingleAny q expr
  | p => if q.type = 1 then true else p.equals c q

/-- `implies(element, q)` for some element of a conjunction. -/
def impliesSingleAny (q : ContextKeyExpression) : List ContextKeyExpression → Bool
  | [] => false
  | p :: rest => impliesSingle q p || impliesSingleAny q rest

end

mutual

def implies (p : ContextKeyExpression) : ContextKeyExpression → Bool
  | .or qs =>
    match p with
    | .false => true
    | .or ps => allElementsIncluded c ps qs
    | p => impliesAny p qs
  | .and qs =>
    match p with
    | .false => true
    | .or _ => false
    | .and ps => allElementsIncluded c qs ps
    | p => p.equals c (.and qs)
  | q => impliesSingle c q p

/-- `implies(p, element)` for some element of a disjunction. -/
def impliesAny (p : ContextKeyExpression) : List ContextKeyExpression → Bool
  | [] => false
  | q :: rest => implies p q || impliesAny p rest

end

end Fumie.ContextKey
