import Fumie.Base.TernarySearchTree

/-!
# The shape of ternary search trees

The nodes of one level, from left to right, are its items. Rotations keep the items, so
what a tree stores is told by them, and the heights are kept apart.
-/

namespace Fumie.Base

open List Option

namespace TernaryNode

variable {S K V : Type}

/-- A node without its place in its level. -/
structure Item (S K V : Type) where
  segment : S
  value : Option (Option V)
  key : Option K
  mid : TernaryNode S K V

def items : TernaryNode S K V → List (Item S K V)
  | undefined => []
  | node _ s v k l m r => l.items ++ ⟨s, v, k, m⟩ :: r.items

theorem items_node (h : Nat) (s : S) (v : Option (Option V)) (k : Option K)
    (l m r : TernaryNode S K V) :
    (node h s v k l m r).items = l.items ++ ⟨s, v, k, m⟩ :: r.items := rfl

theorem items_made (s : S) (v : Option (Option V)) (k : Option K) (l m r : TernaryNode S K V) :
    (made s v k l m r).items = l.items ++ ⟨s, v, k, m⟩ :: r.items := rfl

theorem items_updateHeight (t : TernaryNode S K V) : t.updateHeight.items = t.items := by
  cases t with
  | undefined | node _ _ _ _ _ _ _ => rfl

theorem items_rotateLeft (t : TernaryNode S K V) : t.rotateLeft.items = t.items := by
  unfold rotateLeft
  split
  · simp only [items_made, items, append_assoc, cons_append]
  · rfl

theorem items_rotateRight (t : TernaryNode S K V) : t.rotateRight.items = t.items := by
  unfold rotateRight
  split
  · simp only [items_made, items, append_assoc, cons_append]
  · rfl

theorem items_rotateRightChild (t : TernaryNode S K V) : t.rotateRightChild.items = t.items := by
  cases t with
  | undefined => rfl
  | node h s v k l m r => exact congrArg (l.items ++ ⟨s, v, k, m⟩ :: ·) (items_rotateRight r)

theorem items_rotateLeftChild (t : TernaryNode S K V) : t.rotateLeftChild.items = t.items := by
  cases t with
  | undefined => rfl
  | node h s v k l m r => exact congrArg (· ++ ⟨s, v, k, m⟩ :: r.items) (items_rotateLeft l)

variable {t t' : TernaryNode S K V} {segments : List S}

theorem items_rebalanceAfterSet {d1 : Dir} {d2 : Option Dir}
    (h : rebalanceAfterSet d1 d2 t = some t') : t'.items = t.items := by
  unfold rebalanceAfterSet at h
  split at h
  · split at h
    · cases h
      rw [items_rotateLeft, items_updateHeight]
    · cases h
      rw [items_rotateRight, items_updateHeight]
    · cases h
      rw [items_rotateLeft, items_rotateRightChild, items_updateHeight]
    · cases h
      rw [items_rotateRight, items_rotateLeftChild, items_updateHeight]
    · cases h
  · cases h
    exact items_updateHeight t

theorem items_balance (t : TernaryNode S K V) : t.balance.items = t.items := by
  cases t with
  | undefined => rfl
  | node h s v k l m r =>
    unfold balance updateHeight made
    dsimp only
    split
    · split
      · exact items_rotateLeft _
      · rw [items_rotateLeft, items_rotateRightChild]
        rfl
    · split
      · split
        · exact items_rotateRight _
        · rw [items_rotateRight, items_rotateLeftChild]
          rfl
      · rfl

/-! ## Heights -/

/-- The heights are right, and every level is an AVL tree. -/
def Balanced : TernaryNode S K V → Prop
  | undefined => True
  | node h _ _ _ l m r =>
    h = 1 + max l.height r.height ∧ l.height ≤ r.height + 1 ∧ r.height ≤ l.height + 1 ∧
      l.Balanced ∧ m.Balanced ∧ r.Balanced

theorem height_made (s : S) (v : Option (Option V)) (k : Option K) (l m r : TernaryNode S K V) :
    (made s v k l m r).height = 1 + max l.height r.height := rfl

variable {v : Option (Option V)}

theorem Balanced.made {s : S} {k : Option K} {l m r : TernaryNode S K V} (hl : l.Balanced)
    (hm : m.Balanced) (hr : r.Balanced) (hle : l.height ≤ r.height + 1)
    (hge : r.height ≤ l.height + 1) : (made s v k l m r).Balanced :=
  ⟨rfl, hle, hge, hl, hm, hr⟩

theorem Balanced.isBalanced (h : t.Balanced) : t.isBalanced = true := by
  induction t with
  | undefined => rfl
  | node h' s v k l m r ihl ihm ihr =>
    obtain ⟨-, hle, hge, hl, hm, hr⟩ := h
    unfold TernaryNode.isBalanced
    rw [if_neg]
    · rw [ihl hl, ihm hm, ihr hr]
      rfl
    · unfold balanceFactor
      dsimp only
      omega

theorem rotated_left {h : Nat} {s : S} {v : Option (Option V)} {k : Option K}
    {l m r : TernaryNode S K V} (hl : l.Balanced) (hm : m.Balanced) (hr : r.Balanced)
    (hheavy : r.height = l.height + 2) :
    (0 ≤ r.balanceFactor → (node h s v k l m r).rotateLeft.Balanced ∧
      r.height ≤ (node h s v k l m r).rotateLeft.height ∧
      (node h s v k l m r).rotateLeft.height ≤ r.height + 1 ∧
      (0 < r.balanceFactor → (node h s v k l m r).rotateLeft.height = r.height)) ∧
    (r.balanceFactor < 0 → (node h s v k l m r).rotateRightChild.rotateLeft.Balanced ∧
      (node h s v k l m r).rotateRightChild.rotateLeft.height = r.height) := by
  cases r with
  | undefined => exact absurd hheavy (by show ¬0 = _; omega)
  | node hr' sr vr kr lr mr rr =>
    obtain ⟨hh, hle, hge, hlr, hmr, hrr⟩ := hr
    have hheavy' : hr' = l.height + 2 := hheavy
    have hfactor : (node hr' sr vr kr lr mr rr).balanceFactor = (rr.height : Int) - lr.height := rfl
    rw [hfactor]
    constructor
    · intro hpos
      have hrot : (node h s v k l m (node hr' sr vr kr lr mr rr)).rotateLeft =
          TernaryNode.made sr vr kr (TernaryNode.made s v k l m lr) mr rr := rfl
      have hinner : (TernaryNode.made s v k l m lr).height = 1 + max l.height lr.height := rfl
      rw [hrot, height_made]
      refine ⟨(Balanced.made hl hm hlr (by omega) (by omega)).made hmr hrr (by omega) (by omega),
        ?_, ?_, fun hstrict => ?_⟩
      · omega
      · omega
      · omega
    · intro hneg
      cases lr with
      | undefined => exact absurd hneg (by show ¬(_ - ((0 : Nat) : Int) < 0); omega)
      | node hlr' sl vl kl ll ml rl =>
        obtain ⟨hh', hle', hge', hll, hml, hrl⟩ := hlr
        have hlr'' : (node hlr' sl vl kl ll ml rl).height = hlr' := rfl
        rw [hlr''] at hh hle hge hneg
        have hrot : (node h s v k l m (node hr' sr vr kr (node hlr' sl vl kl ll ml rl) mr
            rr)).rotateRightChild.rotateLeft =
            TernaryNode.made sl vl kl (TernaryNode.made s v k l m ll) ml
              (TernaryNode.made sr vr kr rl mr rr) := rfl
        have hleft : (TernaryNode.made s v k l m ll).height = 1 + max l.height ll.height := rfl
        have hright : (TernaryNode.made sr vr kr rl mr rr).height = 1 + max rl.height rr.height :=
          rfl
        rw [hrot, height_made]
        refine ⟨(Balanced.made hl hm hll (by omega) (by omega)).made hml
          (Balanced.made hrl hmr hrr (by omega) (by omega)) (by omega) (by omega), ?_⟩
        omega

theorem rotated_right {h : Nat} {s : S} {v : Option (Option V)} {k : Option K}
    {l m r : TernaryNode S K V} (hl : l.Balanced) (hm : m.Balanced) (hr : r.Balanced)
    (hheavy : l.height = r.height + 2) :
    (l.balanceFactor ≤ 0 → (node h s v k l m r).rotateRight.Balanced ∧
      l.height ≤ (node h s v k l m r).rotateRight.height ∧
      (node h s v k l m r).rotateRight.height ≤ l.height + 1 ∧
      (l.balanceFactor < 0 → (node h s v k l m r).rotateRight.height = l.height)) ∧
    (0 < l.balanceFactor → (node h s v k l m r).rotateLeftChild.rotateRight.Balanced ∧
      (node h s v k l m r).rotateLeftChild.rotateRight.height = l.height) := by
  cases l with
  | undefined => exact absurd hheavy (by show ¬0 = _; omega)
  | node hl' sl vl kl ll ml rl =>
    obtain ⟨hh, hle, hge, hll, hml, hrl⟩ := hl
    have hheavy' : hl' = r.height + 2 := hheavy
    have hfactor : (node hl' sl vl kl ll ml rl).balanceFactor = (rl.height : Int) - ll.height := rfl
    rw [hfactor]
    constructor
    · intro hpos
      have hrot : (node h s v k (node hl' sl vl kl ll ml rl) m r).rotateRight =
          TernaryNode.made sl vl kl ll ml (TernaryNode.made s v k rl m r) := rfl
      have hinner : (TernaryNode.made s v k rl m r).height = 1 + max rl.height r.height := rfl
      rw [hrot, height_made]
      refine ⟨hll.made hml (Balanced.made hrl hm hr (by omega) (by omega)) (by omega) (by omega),
        ?_, ?_, fun hstrict => ?_⟩
      · omega
      · omega
      · omega
    · intro hneg
      cases rl with
      | undefined => exact absurd hneg (by show ¬(0 < ((0 : Nat) : Int) - _); omega)
      | node hrl' sr vr kr lr mr rr =>
        obtain ⟨hh', hle', hge', hlr, hmr, hrr⟩ := hrl
        have hrl'' : (node hrl' sr vr kr lr mr rr).height = hrl' := rfl
        rw [hrl''] at hh hle hge hneg
        have hrot : (node h s v k (node hl' sl vl kl ll ml (node hrl' sr vr kr lr mr rr)) m
            r).rotateLeftChild.rotateRight =
            TernaryNode.made sr vr kr (TernaryNode.made sl vl kl ll ml lr) mr
              (TernaryNode.made s v k rr m r) := rfl
        have hleft : (TernaryNode.made sl vl kl ll ml lr).height =
            1 + max ll.height lr.height := rfl
        have hright : (TernaryNode.made s v k rr m r).height = 1 + max rr.height r.height := rfl
        rw [hrot, height_made]
        refine ⟨(Balanced.made hll hml hlr (by omega) (by omega)).made hmr
          (Balanced.made hrr hm hr (by omega) (by omega)) (by omega) (by omega), ?_⟩
        omega

theorem balanced_balance {h : Nat} {s : S} {k : Option K} {l m r : TernaryNode S K V}
    (hl : l.Balanced) (hm : m.Balanced) (hr : r.Balanced) (hle : l.height ≤ r.height + 2)
    (hge : r.height ≤ l.height + 2) :
    (node h s v k l m r).balance.Balanced ∧
      max l.height r.height ≤ (node h s v k l m r).balance.height ∧
      (node h s v k l m r).balance.height ≤ 1 + max l.height r.height ∧
      (l.height ≤ r.height + 1 → r.height ≤ l.height + 1 →
        (node h s v k l m r).balance.height = 1 + max l.height r.height) := by
  have hfactor : (node (1 + max l.height r.height) s v k l m r).balanceFactor =
      (r.height : Int) - l.height := rfl
  unfold balance updateHeight TernaryNode.made
  dsimp only
  rw [hfactor]
  split
  · obtain ⟨hone, htwo⟩ := rotated_left (h := 1 + max l.height r.height) (s := s) (v := v) (k := k)
      hl hm hr (by omega)
    split
    · next hpos =>
      obtain ⟨hbalanced, hlow, hhigh, -⟩ := hone hpos
      exact ⟨hbalanced, by omega, by omega, by omega⟩
    · next hneg =>
      obtain ⟨hbalanced, heq⟩ := htwo (by omega)
      exact ⟨hbalanced, by omega, by omega, by omega⟩
  · split
    · obtain ⟨hone, htwo⟩ := rotated_right (h := 1 + max l.height r.height) (s := s) (v := v)
        (k := k) hl hm hr (by omega)
      split
      · next hneg =>
        obtain ⟨hbalanced, hlow, hhigh, -⟩ := hone hneg
        exact ⟨hbalanced, by omega, by omega, by omega⟩
      · next hpos =>
        obtain ⟨hbalanced, heq⟩ := htwo (by omega)
        exact ⟨hbalanced, by omega, by omega, by omega⟩
    · have hheight : (node (1 + max l.height r.height) s v k l m r).height =
          1 + max l.height r.height := rfl
      exact ⟨Balanced.made hl hm hr (by omega) (by omega), by omega, by omega, fun _ _ => hheight⟩

/-! ## Writing keeps the balance -/

def Grown (t t' : TernaryNode S K V) (d : Option Dir) : Prop :=
  t = undefined ∨ d = some .left ∧ t'.balanceFactor = -1 ∨ d = some .right ∧ t'.balanceFactor = 1

structure AfterSet (t t' : TernaryNode S K V) (d : Option Dir) : Prop where
  balanced : t'.Balanced
  height : t'.height = t.height ∨ t'.height = t.height + 1 ∧ Grown t t' d

variable {h : Nat} {s : S} {v : Option (Option V)} {k : Option K} {l m r : TernaryNode S K V}

variable {d : Option Dir} {l' : TernaryNode S K V}

theorem rebalanceAfterSet_left (ht : (node h s v k l m r).Balanced) (hl : AfterSet l l' d) :
    ∃ t', rebalanceAfterSet .left d (node h s v k l' m r) = some t' ∧
      AfterSet (node h s v k l m r) t' (some .left) := by
  obtain ⟨hh, hle, hge, -, hm, hr⟩ := ht
  have hheight : (node h s v k l m r).height = h := rfl
  have hfactor : (node h s v k l' m r).updateHeight.balanceFactor = (r.height : Int) - l'.height :=
    rfl
  have hmade : (node h s v k l' m r).updateHeight.height = 1 + max l'.height r.height := rfl
  unfold rebalanceAfterSet
  rw [hfactor]
  by_cases hin : (r.height : Int) - l'.height < -1 ∨ 1 < (r.height : Int) - l'.height
  · rw [if_pos hin]
    rcases hl.height with hsame | ⟨hgrown, hlean⟩
    · omega
    · have hheavy : l'.height = r.height + 2 := by omega
      obtain ⟨hone, htwo⟩ := rotated_right (h := 1 + max l'.height r.height) (s := s) (v := v)
        (k := k) hl.balanced hm hr hheavy
      rcases hlean with rfl | ⟨rfl, hleft⟩ | ⟨rfl, hright⟩
      · have hzero : (undefined : TernaryNode S K V).height = 0 := rfl
        omega
      · obtain ⟨hbalanced, -, -, heq⟩ := hone (by omega)
        have hheight' := heq (by omega)
        exact ⟨_, rfl, hbalanced, .inl (by show _ = h; exact hheight'.trans (by omega))⟩
      · obtain ⟨hbalanced, heq⟩ := htwo (by omega)
        exact ⟨_, rfl, hbalanced, .inl (by show _ = h; exact heq.trans (by omega))⟩
  · rw [if_neg hin]
    refine ⟨_, rfl, hl.balanced.made hm hr (by omega) (by omega), ?_⟩
    rw [hmade, hheight]
    by_cases hsame : 1 + max l'.height r.height = h
    · exact .inl hsame
    · refine .inr ⟨?_, .inr (.inl ⟨rfl, ?_⟩)⟩
      · rcases hl.height with heq | ⟨hgrown, -⟩
        · omega
        · omega
      · rw [hfactor]
        rcases hl.height with heq | ⟨hgrown, -⟩
        · omega
        · omega

variable {r' : TernaryNode S K V}

theorem rebalanceAfterSet_right (ht : (node h s v k l m r).Balanced) (hr : AfterSet r r' d) :
    ∃ t', rebalanceAfterSet .right d (node h s v k l m r') = some t' ∧
      AfterSet (node h s v k l m r) t' (some .right) := by
  obtain ⟨hh, hle, hge, hl, hm, -⟩ := ht
  have hheight : (node h s v k l m r).height = h := rfl
  have hfactor : (node h s v k l m r').updateHeight.balanceFactor = (r'.height : Int) - l.height :=
    rfl
  have hmade : (node h s v k l m r').updateHeight.height = 1 + max l.height r'.height := rfl
  unfold rebalanceAfterSet
  rw [hfactor]
  by_cases hin : (r'.height : Int) - l.height < -1 ∨ 1 < (r'.height : Int) - l.height
  · rw [if_pos hin]
    rcases hr.height with hsame | ⟨hgrown, hlean⟩
    · omega
    · have hheavy : r'.height = l.height + 2 := by omega
      obtain ⟨hone, htwo⟩ := rotated_left (h := 1 + max l.height r'.height) (s := s) (v := v)
        (k := k) hl hm hr.balanced hheavy
      rcases hlean with rfl | ⟨rfl, hleft⟩ | ⟨rfl, hright⟩
      · have hzero : (undefined : TernaryNode S K V).height = 0 := rfl
        omega
      · obtain ⟨hbalanced, heq⟩ := htwo (by omega)
        exact ⟨_, rfl, hbalanced, .inl (by show _ = h; exact heq.trans (by omega))⟩
      · obtain ⟨hbalanced, -, -, heq⟩ := hone (by omega)
        have hheight' := heq (by omega)
        exact ⟨_, rfl, hbalanced, .inl (by show _ = h; exact hheight'.trans (by omega))⟩
  · rw [if_neg hin]
    refine ⟨_, rfl, hl.made hm hr.balanced (by omega) (by omega), ?_⟩
    rw [hmade, hheight]
    by_cases hsame : 1 + max l.height r'.height = h
    · exact .inl hsame
    · refine .inr ⟨?_, .inr (.inr ⟨rfl, ?_⟩)⟩
      · rcases hr.height with heq | ⟨hgrown, -⟩
        · omega
        · omega
      · rw [hfactor]
        rcases hr.height with heq | ⟨hgrown, -⟩
        · omega
        · omega

variable {m' : TernaryNode S K V}

theorem rebalanceAfterSet_mid (ht : (node h s v k l m r).Balanced) (hm : m'.Balanced) :
    ∃ t', rebalanceAfterSet .mid d (node h s v k l m' r) = some t' ∧
      AfterSet (node h s v k l m r) t' (some .mid) := by
  obtain ⟨hh, hle, hge, hl, -, hr⟩ := ht
  have hfactor : (node h s v k l m' r).updateHeight.balanceFactor = (r.height : Int) - l.height :=
    rfl
  unfold rebalanceAfterSet
  rw [hfactor, if_neg (by omega)]
  exact ⟨_, rfl, hl.made hm hr hle hge, .inl hh.symm⟩

theorem newNodes_balanced (key : K) (element : Option V) (segments : List S) :
    (newNodes key element segments).Balanced ∧ (newNodes key element segments).height ≤ 1 ∧
      (segments ≠ [] → (newNodes key element segments).height = 1) := by
  induction segments with
  | nil => exact ⟨trivial, Nat.zero_le 1, fun h => absurd rfl h⟩
  | cons segment rest ih =>
    cases rest with
    | nil => exact ⟨⟨rfl, Nat.zero_le 1, Nat.zero_le 1, trivial, trivial, trivial⟩, Nat.le_refl 1,
      fun _ => rfl⟩
    | cons next rest =>
      exact ⟨⟨rfl, Nat.zero_le 1, Nat.zero_le 1, trivial, ih.1, trivial⟩, Nat.le_refl 1,
        fun _ => rfl⟩

variable [LinearOrder S]

theorem set_balanced (key : K) (element : Option V) (hne : segments ≠ []) (ht : t.Balanced) :
    ∃ t' d, t.set key element segments = some (t', d) ∧ AfterSet t t' d := by
  induction t generalizing segments with
  | undefined =>
    obtain ⟨hbalanced, -, hone⟩ := newNodes_balanced key element segments
    exact ⟨_, _, rfl, hbalanced, .inr ⟨hone hne, .inl rfl⟩⟩
  | node h s v k l m r ihl ihm ihr =>
    obtain ⟨hh, hle, hge, hl, hm, hr⟩ := id ht
    cases segments with
    | nil => exact absurd rfl hne
    | cons segment rest =>
      unfold TernaryNode.set
      dsimp only
      split
      · obtain ⟨l', d, hset, hafter⟩ := ihl hne hl
        obtain ⟨t', hbalance, hafter'⟩ := rebalanceAfterSet_left ht hafter
        rw [hset, bind_some]
        rw [hbalance]
        exact ⟨t', _, rfl, hafter'⟩
      · split
        · obtain ⟨r', d, hset, hafter⟩ := ihr hne hr
          obtain ⟨t', hbalance, hafter'⟩ := rebalanceAfterSet_right ht hafter
          rw [hset, bind_some]
          rw [hbalance]
          exact ⟨t', _, rfl, hafter'⟩
        · split
          · exact ⟨_, _, rfl, ⟨hh, hle, hge, hl, hm, hr⟩, .inl rfl⟩
          · next hrest =>
            obtain ⟨m', d, hset, hafter⟩ := ihm hrest hm
            obtain ⟨t', hbalance, hafter'⟩ := rebalanceAfterSet_mid (d := d) ht hafter.balanced
            rw [hset, bind_some]
            rw [hbalance]
            exact ⟨t', _, rfl, hafter'⟩

/-! ## Deleting keeps the balance -/

structure AfterDelete (t t' : TernaryNode S K V) : Prop where
  balanced : t'.Balanced
  height : t'.height = t.height ∨ t'.height + 1 = t.height

omit [LinearOrder S] in
theorem balance_left (ht : (node h s v k l m r).Balanced) (hl : AfterDelete l l') :
    AfterDelete (node h s v k l m r) (node h s v k l' m r).balance := by
  obtain ⟨hh, hle, hge, -, hm, hr⟩ := ht
  have hheight : (node h s v k l m r).height = h := rfl
  have hcases := hl.height
  obtain ⟨hbalanced, hlow, hhigh, hexact⟩ := balanced_balance (h := h) (s := s) (v := v) (k := k)
    hl.balanced hm hr (by omega) (by omega)
  refine ⟨hbalanced, ?_⟩
  rw [hheight]
  by_cases hin : l'.height ≤ r.height + 1 ∧ r.height ≤ l'.height + 1
  · have heq := hexact hin.1 hin.2
    omega
  · omega

omit [LinearOrder S] in
theorem balance_right (ht : (node h s v k l m r).Balanced) (hr : AfterDelete r r') :
    AfterDelete (node h s v k l m r) (node h s v k l m r').balance := by
  obtain ⟨hh, hle, hge, hl, hm, -⟩ := ht
  have hheight : (node h s v k l m r).height = h := rfl
  have hcases := hr.height
  obtain ⟨hbalanced, hlow, hhigh, hexact⟩ := balanced_balance (h := h) (s := s) (v := v) (k := k)
    hl hm hr.balanced (by omega) (by omega)
  refine ⟨hbalanced, ?_⟩
  rw [hheight]
  by_cases hin : l.height ≤ r'.height + 1 ∧ r'.height ≤ l.height + 1
  · have heq := hexact hin.1 hin.2
    omega
  · omega

omit [LinearOrder S] in
theorem balance_mid (ht : (node h s v k l m r).Balanced) (hm : m'.Balanced) :
    AfterDelete (node h s v k l m r) (node h s v k l m' r).balance := by
  obtain ⟨hh, hle, hge, hl, -, hr⟩ := ht
  obtain ⟨hbalanced, -, -, hexact⟩ := balanced_balance (h := h) (s := s) (v := v) (k := k)
    hl hm hr (by omega) (by omega)
  exact ⟨hbalanced, .inl ((hexact hle hge).trans hh.symm)⟩

omit [LinearOrder S] in
theorem removeMin_balanced (ht : t.Balanced) (hne : t ≠ undefined) : AfterDelete t t.removeMin := by
  induction t with
  | undefined => exact absurd rfl hne
  | node h s v k l m r ihl ihm ihr =>
    cases l with
    | undefined =>
      obtain ⟨hh, hle, hge, -, -, hr⟩ := ht
      refine ⟨hr, .inr ?_⟩
      have hzero : (undefined : TernaryNode S K V).height = 0 := rfl
      show r.height + 1 = h
      omega
    | node h' s' v' k' l' m' r' =>
      have hl := ihl ht.2.2.2.1 fun h => by cases h
      exact balance_left ht hl

def CanDelete (truthy : V → Bool) (superStr : Bool) : TernaryNode S K V → Prop
  | undefined => True
  | node _ _ v _ l m r =>
    if superStr then l = undefined ∧ r = undefined ∧ (v = none ∨ isFalsy truthy v = false)
    else m = undefined → l ≠ undefined → r ≠ undefined →
      ∀ h s v k l' m' r', r.min = node h s v (some k) l' m' r' → m' = undefined

variable {truthy : V → Bool}

omit [LinearOrder S] in
theorem removeNode_balanced (truthy : V → Bool) (ht : (node h s v k l m r).Balanced) :
    AfterDelete (node h s v k l m r) (removeNode truthy (node h s v k l m r)) := by
  have hsame : AfterDelete (node h s v k l m r) (node h s v k l m r) := ⟨ht, .inl rfl⟩
  have hheight : (node h s v k l m r).height = h := rfl
  have hzero : (undefined : TernaryNode S K V).height = 0 := rfl
  obtain ⟨hh, hle, hge, hl, hm, hr⟩ := id ht
  cases m with
  | node h' s' v' k' l' m' r' => exact hsame
  | undefined =>
    unfold removeNode
    dsimp only
    split
    · split
      · exact ⟨hr, by omega⟩
      · exact ⟨hl, by omega⟩
      · next _ hne =>
        split
        · have hafter := removeMin_balanced hr fun hnil => hne hnil
          refine ⟨?_, ?_⟩
          · exact (balance_right ⟨hh, hle, hge, hl, hm, hr⟩ hafter).balanced
          · exact (balance_right ⟨hh, hle, hge, hl, hm, hr⟩ hafter).height
        · exact hsame
    · exact hsame

theorem deleteNode_balanced {superStr : Bool} (ht : t.Balanced)
    (hcan : (t.getNode segments).CanDelete truthy superStr)
    (hdelete : t.deleteNode truthy superStr segments = some t') : AfterDelete t t' := by
  induction t generalizing segments t' with
  | undefined => cases hdelete
  | node h s v k l m r ihl ihm ihr =>
    obtain ⟨hh, hle, hge, hl, hm, hr⟩ := id ht
    cases segments with
    | nil => cases hdelete
    | cons segment rest =>
      unfold deleteNode at hdelete
      unfold getNode at hcan
      dsimp only at hdelete hcan
      split at hdelete
      · next hlt =>
        rw [if_pos hlt] at hcan
        obtain ⟨l', hl', rfl⟩ := map_eq_some_iff.mp hdelete
        exact balance_left ht (ihl hl hcan hl')
      · next hlt =>
        rw [if_neg hlt] at hcan
        split at hdelete
        · next hgt =>
          rw [if_pos hgt] at hcan
          obtain ⟨r', hr', rfl⟩ := map_eq_some_iff.mp hdelete
          exact balance_right ht (ihr hr hcan hr')
        · next hgt =>
          rw [if_neg hgt] at hcan
          split at hdelete
          · next hrest =>
            rw [if_pos hrest] at hcan
            cases hdelete
            cases superStr with
            | true =>
              obtain ⟨rfl, rfl, -⟩ := hcan
              have hone : h = 1 := hh
              subst hone
              have hleaf : (node 1 s v k undefined undefined undefined :
                  TernaryNode S K V).Balanced := ⟨rfl, hle, hge, trivial, trivial, trivial⟩
              obtain ⟨hbalanced, hheight⟩ := removeNode_balanced truthy hleaf
              exact ⟨hbalanced, hheight⟩
            | false =>
              have hcleared : (node h s none none l m r).Balanced := ht
              obtain ⟨hbalanced, hheight⟩ := removeNode_balanced truthy hcleared
              exact ⟨hbalanced, hheight⟩
          · next hrest =>
            rw [if_neg hrest] at hcan
            obtain ⟨m', hm', rfl⟩ := map_eq_some_iff.mp hdelete
            exact balance_mid ht (ihm hm hcan hm').balanced

end TernaryNode

end Fumie.Base
