import Fumie.Base.Strings

/-!
# Ternary search trees

A key is a list of segments. Every level of the tree is an AVL tree of segments, whose
middle child is the next level. The loops over a stack of visited nodes are recursions
here: a frame of the stack is what a call has left to do.

An element may be `undefined`, which is `none`; a node without a value has no element at
all, so its value is an `Option (Option V)`.
-/

namespace Fumie.Base

open Fumie.Lib List

/-! ## Key iterators -/

def stringSegments (key : JsString) : List JsString := key.map fun unit => [unit]

namespace PathIterator

/-- `ch === CharCode.Slash || ch === CharCode.Backslash`. -/
def isSeparator (ch : CodeUnit) : Bool := ch.val = 47 || ch.val = 92

variable (key rest : JsString)

def reset : JsString := key.rdropWhile isSeparator

/-- `value()` after a call of `next`. -/
def value : JsString :=
  (rest.dropWhile isSeparator).takeWhile fun ch => !isSeparator ch

def next : JsString :=
  (rest.dropWhile isSeparator).dropWhile fun ch => !isSeparator ch

theorem length_next_lt {rest : JsString} (h : rest ≠ []) : (next rest).length < rest.length := by
  unfold next
  cases hdrop : rest.dropWhile isSeparator with
  | nil => exact length_pos_iff.mpr h
  | cons ch tail =>
    have hle := (dropWhile_suffix isSeparator (l := rest)).length_le
    rw [hdrop, length_cons] at hle
    have hsep : isSeparator ch = false := by
      have hnot := head?_dropWhile_not isSeparator rest
      rw [hdrop] at hnot
      simpa using hnot
    rw [dropWhile_cons_of_pos (by rw [hsep]; rfl)]
    have hle' := (dropWhile_suffix (fun ch => !isSeparator ch) (l := tail)).length_le
    omega

def segmentsFrom (rest : JsString) : List JsString :=
  if h : next rest = [] then [value rest]
  else value rest :: segmentsFrom (next rest)
termination_by rest.length
decreasing_by
  refine length_next_lt fun hnil => h ?_
  rw [hnil]
  rfl

def segments : List JsString := segmentsFrom (reset key)

end PathIterator

inductive KeyKind where
  | strings
  | paths

def KeyKind.segments : KeyKind → JsString → List JsString
  | strings, key => stringSegments key
  | paths, key => PathIterator.segments key

/-! ## Nodes -/

inductive TernaryNode (S K V : Type) where
  | undefined
  | node (height : Nat) (segment : S) (value : Option (Option V)) (key : Option K)
      (left mid right : TernaryNode S K V)

inductive Dir where
  | left
  | mid
  | right
  deriving DecidableEq

namespace TernaryNode

variable {S K V : Type}

def height : TernaryNode S K V → Nat
  | undefined => 0
  | node h _ _ _ _ _ _ => h

def balanceFactor : TernaryNode S K V → Int
  | undefined => 0
  | node _ _ _ _ l _ r => r.height - l.height

def made (segment : S) (value : Option (Option V)) (key : Option K)
    (left mid right : TernaryNode S K V) : TernaryNode S K V :=
  node (1 + max left.height right.height) segment value key left mid right

def updateHeight : TernaryNode S K V → TernaryNode S K V
  | undefined => undefined
  | node _ s v k l m r => made s v k l m r

def rotateLeft : TernaryNode S K V → TernaryNode S K V
  | node _ s v k l m (node _ s' v' k' l' m' r') => made s' v' k' (made s v k l m l') m' r'
  | t => t

def rotateRight : TernaryNode S K V → TernaryNode S K V
  | node _ s v k (node _ s' v' k' l' m' r') m r => made s' v' k' l' m' (made s v k r' m r)
  | t => t

def rotateRightChild : TernaryNode S K V → TernaryNode S K V
  | node h s v k l m r => node h s v k l m r.rotateRight
  | t => t

def rotateLeftChild : TernaryNode S K V → TernaryNode S K V
  | node h s v k l m r => node h s v k l.rotateLeft m r
  | t => t

/-! ## Writing -/

def rebalanceAfterSet (d1 : Dir) (d2 : Option Dir) (t : TernaryNode S K V) :
    Option (TernaryNode S K V) :=
  if t.updateHeight.balanceFactor < -1 ∨ 1 < t.updateHeight.balanceFactor then
    match d1, d2 with
    | .right, some .right => some t.updateHeight.rotateLeft
    | .left, some .left => some t.updateHeight.rotateRight
    | .right, some .left => some t.updateHeight.rotateRightChild.rotateLeft
    | .left, some .right => some t.updateHeight.rotateLeftChild.rotateRight
    | _, _ => none
  else some t.updateHeight

def newNodes (key : K) (element : Option V) : List S → TernaryNode S K V
  | [] => undefined
  | [segment] => node 1 segment (some element) (some key) undefined undefined undefined
  | segment :: rest => node 1 segment none none undefined (newNodes key element rest) undefined

variable [LinearOrder S]

def set (key : K) (element : Option V) (segments : List S) :
    TernaryNode S K V → Option (TernaryNode S K V × Option Dir)
  | undefined =>
    some (newNodes key element segments, if segments.length ≤ 1 then none else some .mid)
  | node h s v k l m r =>
    match segments with
    | [] => some (node h s v k l m r, none)
    | segment :: rest =>
      if segment < s then
        (l.set key element segments).bind fun (l', d) =>
          (rebalanceAfterSet .left d (node h s v k l' m r)).map fun t => (t, some .left)
      else if s < segment then
        (r.set key element segments).bind fun (r', d) =>
          (rebalanceAfterSet .right d (node h s v k l m r')).map fun t => (t, some .right)
      else if rest = [] then some (node h s (some element) (some key) l m r, none)
      else
        (m.set key element rest).bind fun (m', d) =>
          (rebalanceAfterSet .mid d (node h s v k l m' r)).map fun t => (t, some .mid)

/-- `_getNode`. -/
def getNode (segments : List S) : TernaryNode S K V → TernaryNode S K V
  | undefined => undefined
  | node h s v k l m r =>
    match segments with
    | [] => undefined
    | segment :: rest =>
      if segment < s then l.getNode segments
      else if s < segment then r.getNode segments
      else if rest = [] then node h s v k l m r
      else m.getNode rest

def value : TernaryNode S K V → Option (Option V)
  | undefined => none
  | node _ _ v _ _ _ _ => v

/-- One turn of `_balanceByStack`. -/
def balance (t : TernaryNode S K V) : TernaryNode S K V :=
  match t.updateHeight with
  | undefined => undefined
  | node h s v k l m r =>
    if 1 < (node h s v k l m r).balanceFactor then
      if 0 ≤ r.balanceFactor then (node h s v k l m r).rotateLeft
      else (node h s v k l m r).rotateRightChild.rotateLeft
    else if (node h s v k l m r).balanceFactor < -1 then
      if l.balanceFactor ≤ 0 then (node h s v k l m r).rotateRight
      else (node h s v k l m r).rotateLeftChild.rotateRight
    else node h s v k l m r

/-- `_min`. -/
def min : TernaryNode S K V → TernaryNode S K V
  | undefined => undefined
  | node h s v k undefined m r => node h s v k undefined m r
  | node _ _ _ _ l _ _ => l.min

def removeMin : TernaryNode S K V → TernaryNode S K V
  | undefined => undefined
  | node _ _ _ _ undefined _ r => r
  | node h s v k l m r => balance (node h s v k l.removeMin m r)

variable (truthy : V → Bool)

def isFalsy : Option (Option V) → Bool
  | none => true
  | some none => false
  | some (some v) => !truthy v

def removeNode : TernaryNode S K V → TernaryNode S K V
  | undefined => undefined
  | node h s v k l undefined r =>
    if isFalsy truthy v then
      match l, r with
      | undefined, r => r
      | l, undefined => l
      | l, r =>
        match r.min with
        | node _ s' v' (some k') _ _ _ => balance (node h s' v' (some k') l undefined r.removeMin)
        | _ => node h s v k l undefined r
    else node h s v k l undefined r
  | t => t

/-- What `_delete` does to the node it found, up to the last balancing. -/
def deleteFound (superStr : Bool) : TernaryNode S K V → TernaryNode S K V
  | undefined => undefined
  | node h s v k l m r =>
    if superStr then removeNode truthy (node 1 s v k undefined undefined undefined)
    else removeNode truthy (node h s none none l m r)

/-- `_delete`, `none` if the node is not found. -/
def deleteNode (superStr : Bool) (segments : List S) :
    TernaryNode S K V → Option (TernaryNode S K V)
  | undefined => none
  | node h s v k l m r =>
    match segments with
    | [] => none
    | segment :: rest =>
      if segment < s then
        (l.deleteNode superStr segments).map fun l' => balance (node h s v k l' m r)
      else if s < segment then
        (r.deleteNode superStr segments).map fun r' => balance (node h s v k l m r')
      else if rest = [] then some (deleteFound truthy superStr (node h s v k l m r))
      else (m.deleteNode superStr rest).map fun m' => balance (node h s v k l m' r)

/-! ## Reading -/

/-- `Undef.unwrap(value) || candidate`. -/
def orCandidate (candidate : Option V) : Option (Option V) → Option V
  | some (some v) => if truthy v then some v else candidate
  | _ => candidate

def findSubstr (segments : List S) (candidate : Option V) : TernaryNode S K V → Option V
  | undefined => candidate
  | node _ s v _ l m r =>
    match segments with
    | [] => candidate
    | segment :: rest =>
      if segment < s then l.findSubstr segments candidate
      else if s < segment then r.findSubstr segments candidate
      else if rest = [] then orCandidate truthy candidate v
      else m.findSubstr rest (orCandidate truthy candidate v)

/-- `_dfsEntries`. -/
def entries : TernaryNode S K V → List (Option K × Option V)
  | undefined => []
  | node _ _ v k l m r =>
    l.entries ++ (v.map fun element => (k, element)).toList ++ m.entries ++ r.entries

def get (segments : List S) (t : TernaryNode S K V) : Option V := (t.getNode segments).value.join

def findSuperstr (segments : List S) (t : TernaryNode S K V) : List (Option K × Option V) :=
  match t.getNode segments with
  | undefined => []
  | node _ _ _ _ _ m _ => m.entries

/-- `_isBalanced`, in every level. -/
def isBalanced : TernaryNode S K V → Bool
  | undefined => true
  | node h s v k l m r =>
    let bf := (node h s v k l m r).balanceFactor
    if bf < -1 ∨ 1 < bf then false else l.isBalanced && m.isBalanced && r.isBalanced

end TernaryNode

end Fumie.Base
