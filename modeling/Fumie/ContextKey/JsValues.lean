import Mathlib

/-!
# JavaScript values in context keys

The values a context key can have, with the operators that when-clauses apply to them.
What belongs to the host (number syntax, regular expressions, the contents of objects)
is a `JsHost`. Negative zero is zero: no operator here tells them apart.
-/

namespace Fumie.ContextKey

/-- A JavaScript number. -/
inductive JsNumeric where
  | nan
  | negInfinity
  | finite (q : ℚ)
  | posInfinity
  deriving DecidableEq

/-- `a < b`. -/
def JsNumeric.lt : JsNumeric → JsNumeric → Bool
  | .nan, _ | _, .nan => false
  | .negInfinity, b => b ≠ .negInfinity
  | .posInfinity, _ => false
  | .finite _, .negInfinity => false
  | .finite a, .finite b => decide (a < b)
  | .finite _, .posInfinity => true

/-- `a === b`. -/
def JsNumeric.eq (a b : JsNumeric) : Bool := a ≠ .nan && a = b

/-- An object is known by its identity. -/
inductive JsValue where
  | undefined
  | null
  | boolean (b : Bool)
  | number (n : JsNumeric)
  | string (s : String)
  | object (identity : Nat)
  deriving DecidableEq

inductive JsContents where
  | array (elements : List JsValue)
  | record (ownKeys : List String)

/-- The parts of the language and the platform that the operators rest on. -/
structure JsHost where
  /-- `Number(text)`. -/
  toNumber : String → JsNumeric
  /-- `parseFloat(text)`. -/
  parseFloat : String → JsNumeric
  /-- `String(n)`. -/
  numberText : JsNumeric → String
  /-- `String(object)`. -/
  objectText : Nat → String
  contents : Nat → JsContents
  /-- `new RegExp(source, flags).test(text)`. -/
  regexpTest : String → String → String → Bool
  toLowerCase : String → String
  isWindows : Bool

namespace JsValue

def truthy : JsValue → Bool
  | .undefined | .null => false
  | .boolean b => b
  | .number n => n ≠ .nan && n ≠ .finite 0
  | .string s => s ≠ ""
  | .object _ => true

/-- `a === b`. -/
def strictEquals : JsValue → JsValue → Bool
  | .number a, .number b => a.eq b
  | a, b => a = b

variable (host : JsHost)

def toText : JsValue → String
  | .undefined => "undefined"
  | .null => "null"
  | .boolean b => if b then "true" else "false"
  | .number n => host.numberText n
  | .string s => s
  | .object o => host.objectText o

def toPrimitive : JsValue → JsValue
  | .object o => .string (host.objectText o)
  | v => v

def toNumeric : JsValue → JsNumeric
  | .undefined => .nan
  | .null => .finite 0
  | .boolean b => .finite (if b then 1 else 0)
  | .number n => n
  | .string s => host.toNumber s
  | .object o => host.toNumber (host.objectText o)

def lt (a b : JsValue) : Bool :=
  match a.toPrimitive host, b.toPrimitive host with
  | .string s, .string t => decide (s < t)
  | a, b => (a.toNumeric host).lt (b.toNumeric host)

/-- `a == b`. -/
def looseEquals : JsValue → JsValue → Bool
  | .undefined, .undefined | .undefined, .null | .null, .undefined | .null, .null => true
  | .undefined, _ | .null, _ | _, .undefined | _, .null => false
  | .object o, .object o' => o = o'
  | .string s, .string t => s = t
  | .object o, .string s | .string s, .object o => host.objectText o = s
  | a, b => (a.toNumeric host).eq (b.toNumeric host)

def parseFloat (v : JsValue) : JsNumeric := host.parseFloat (v.toText host)

end JsValue

end Fumie.ContextKey
