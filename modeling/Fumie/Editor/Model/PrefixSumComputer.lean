import Fumie.Lib.Transducer

/-!
# Prefix sums

Two computers of prefix sums over one list of values. `PrefixSumComputer` trusts the prefix
sums up to an index and looks a sum up by binary search; `ConstantTimePrefixSumComputer`
keeps a table from sums to indices, which it completes when it is asked. An array is here
the function that reads it; nothing is read behind its end.
-/

namespace Fumie.Editor

open Fumie.Lib List Function

def toUint32 (n : Nat) : Nat := n % 2 ^ 32

structure PrefixSumComputer where
  values : List Nat
  prefixSum : Nat → Nat
  prefixSumValidIndex : Int

namespace PrefixSumComputer

def new (values : List Nat) : PrefixSumComputer := ⟨values, fun _ => 0, -1⟩

variable (c : PrefixSumComputer)

def change (fresh : Bool) (index : Nat) (values : List Nat) : PrefixSumComputer where
  values := values
  prefixSum i :=
    if fresh ∧ min c.prefixSumValidIndex (index - 1) < i then 0 else c.prefixSum i
  prefixSumValidIndex := min c.prefixSumValidIndex (index - 1)

def insertValues (insertIndex : Nat) (insertValues : List Nat) : PrefixSumComputer :=
  if insertValues = [] then c
  else c.change true insertIndex
    (c.values.take insertIndex ++ (insertValues ++ c.values.drop insertIndex))

def setValue (index value : Nat) : PrefixSumComputer :=
  if c.values[index]? = some (toUint32 value) then c
  else c.change false index (c.values.set index (toUint32 value))

def removeValues (startIndex count : Nat) : PrefixSumComputer :=
  if c.values.length ≤ startIndex then c
  else if min count (c.values.length - startIndex) = 0 then c
  else c.change true startIndex (c.values.take startIndex ++
    c.values.drop (startIndex + min count (c.values.length - startIndex)))

/-- The loop of `_getPrefixSum` over `n` indices from `i` on. -/
def sumUp (values : List Nat) (prefixSum : Nat → Nat) (i : Nat) : Nat → Nat → Nat
  | 0 => prefixSum
  | n + 1 => sumUp values
      (Function.update prefixSum i (toUint32 (prefixSum (i - 1) + values.getD i 0))) (i + 1) n

/-- `_getPrefixSum` behind its first return. -/
def complete (index : Nat) : PrefixSumComputer :=
  let startIndex := (c.prefixSumValidIndex + 1).toNat
  let prefixSum := if startIndex = 0 then Function.update c.prefixSum 0 (c.values.getD 0 0)
    else c.prefixSum
  let startIndex := if startIndex = 0 then 1 else startIndex
  { c with
    prefixSum := sumUp c.values prefixSum startIndex (index + 1 - startIndex)
    prefixSumValidIndex := max c.prefixSumValidIndex index }

def prefixSumAt (index : Nat) : PrefixSumComputer × Nat :=
  if index ≤ c.prefixSumValidIndex then (c, c.prefixSum index)
  else
    let index := if c.values.length ≤ index then c.values.length - 1 else index
    (c.complete index, (c.complete index).prefixSum index)

def getTotalSum : PrefixSumComputer × Nat :=
  if c.values.length = 0 then (c, 0) else c.prefixSumAt (c.values.length - 1)

def getPrefixSum (index : Int) : PrefixSumComputer × Nat :=
  if index < 0 then (c, 0) else c.prefixSumAt index.toNat

def search (c : PrefixSumComputer) (sum low high mid midStart : Int) : Int × Int :=
  if low ≤ high then
    let mid := low + (high - low) / 2
    let midStop : Int := c.prefixSum mid.toNat
    let midStart := midStop - c.values.getD mid.toNat 0
    if sum < midStart then search c sum low (mid - 1) mid midStart
    else if midStop ≤ sum then search c sum (mid + 1) high mid midStart
    else (mid, midStart)
  else (mid, midStart)
termination_by (high + 1 - low).toNat

def getIndexOf (sum : Nat) : PrefixSumComputer × (Int × Int) :=
  let c := c.getTotalSum.1
  let found := c.search sum 0 (c.values.length - 1) 0 0
  (c, found.1, sum - found.2)

end PrefixSumComputer

structure ConstantTimePrefixSumComputer where
  values : List Nat
  isValid : Bool
  validEndIndex : Int
  prefixSum : Nat → Nat
  indexBySum : Nat → Option Nat
  indexBySumLength : Nat

namespace ConstantTimePrefixSumComputer

def new (values : List Nat) : ConstantTimePrefixSumComputer :=
  ⟨values, false, -1, fun _ => 0, fun _ => none, 0⟩

variable (c : ConstantTimePrefixSumComputer)

/-- A change of the values, and `_invalidate`. -/
def change (index : Nat) (values : List Nat) : ConstantTimePrefixSumComputer :=
  { c with values, isValid := false, validEndIndex := min c.validEndIndex (index - 1) }

def removeValues (start deleteCount : Nat) : ConstantTimePrefixSumComputer :=
  c.change start (c.values.take start ++ c.values.drop (start + deleteCount))

def insertValues (insertIndex : Nat) (insertArr : List Nat) : ConstantTimePrefixSumComputer :=
  c.change insertIndex (c.values.take insertIndex ++ (insertArr ++ c.values.drop insertIndex))

def setValue (index value : Nat) : ConstantTimePrefixSumComputer :=
  if c.values[index]? = some value then c else c.change index (c.values.set index value)

def sumAbove (i : Nat) : Nat :=
  if 0 < i then c.prefixSum (i - 1) else 0

/-- One round of the loop of `_ensureValid`; the inner loop writes `i` at as many sums as the
value says. -/
def addEntry (i : Nat) : ConstantTimePrefixSumComputer :=
  { c with
    prefixSum := Function.update c.prefixSum i (c.sumAbove i + c.values.getD i 0)
    indexBySum := fun sum =>
      if c.sumAbove i ≤ sum ∧ sum < c.sumAbove i + c.values.getD i 0 then some i
      else c.indexBySum sum }

def addEntries (c : ConstantTimePrefixSumComputer) (i : Nat) : Nat → ConstantTimePrefixSumComputer
  | 0 => c
  | n + 1 => addEntries (c.addEntry i) (i + 1) n

def finish : ConstantTimePrefixSumComputer :=
  { c with
    indexBySum := fun sum => if sum < c.sumAbove c.values.length then c.indexBySum sum else none
    indexBySumLength := c.sumAbove c.values.length
    isValid := true
    validEndIndex := c.values.length - 1 }

def ensureValid : ConstantTimePrefixSumComputer :=
  if c.isValid then c
  else (c.addEntries (c.validEndIndex + 1).toNat
    (c.values.length - (c.validEndIndex + 1).toNat)).finish

def getTotalSum : Nat := c.ensureValid.indexBySumLength

def getPrefixSum (count : Nat) : Nat :=
  if count = 0 then 0 else c.ensureValid.prefixSum (count - 1)

def getIndexOf (sum : Nat) : Int × Int :=
  match c.ensureValid.indexBySum sum with
  | none =>
    let lastIdx := max 0 (c.values.length - 1)
    (lastIdx, sum - c.ensureValid.sumAbove lastIdx)
  | some idx => (idx, sum - c.ensureValid.sumAbove idx)

end ConstantTimePrefixSumComputer

/-! ## Calls -/

inductive SumCall
  | insertValues (insertIndex : Nat) (values : List Nat)
  | removeValues (start count : Nat)
  | setValue (index value : Nat)
  | getPrefixSum (count : Nat)
  | getTotalSum
  | getIndexOf (sum : Nat)

inductive SumAnswer
  | sum (n : Nat)
  | index (found : Int × Int)
  deriving DecidableEq

def PrefixSumComputer.read (c : PrefixSumComputer) : SumCall → PrefixSumComputer × List SumAnswer
  | .insertValues i xs => (c.insertValues i xs, [])
  | .removeValues start count => (c.removeValues start count, [])
  | .setValue i value => (c.setValue i value, [])
  | .getPrefixSum count => ((c.getPrefixSum (count - 1)).1, [.sum (c.getPrefixSum (count - 1)).2])
  | .getTotalSum => (c.getTotalSum.1, [.sum c.getTotalSum.2])
  | .getIndexOf sum => ((c.getIndexOf sum).1, [.index (c.getIndexOf sum).2])

def ConstantTimePrefixSumComputer.read (c : ConstantTimePrefixSumComputer) :
    SumCall → ConstantTimePrefixSumComputer × List SumAnswer
  | .insertValues i xs => (c.insertValues i xs, [])
  | .removeValues start count => (c.removeValues start count, [])
  | .setValue i value => (c.setValue i value, [])
  | .getPrefixSum count => (c.ensureValid, [.sum (c.getPrefixSum count)])
  | .getTotalSum => (c.ensureValid, [.sum c.getTotalSum])
  | .getIndexOf sum => (c.ensureValid, [.index (c.getIndexOf sum)])

/-! ## The values alone -/

namespace PrefixSums

/-- The entry that contains a sum, and where in it. Behind the last one is another entry. -/
def indexOf : List Nat → Nat → Nat × Nat
  | [], sum => (0, sum)
  | v :: values, sum =>
    if sum < v then (0, sum) else ((indexOf values (sum - v)).1 + 1, (indexOf values (sum - v)).2)

def read (values : List Nat) : SumCall → List Nat × List SumAnswer
  | .insertValues i xs => (values.take i ++ (xs ++ values.drop i), [])
  | .removeValues start count => (values.take start ++ values.drop (start + count), [])
  | .setValue i value => (values.set i value, [])
  | .getPrefixSum count => (values, [.sum (values.take count).sum])
  | .getTotalSum => (values, [.sum values.sum])
  -- what lies behind the last entry is found in it
  | .getIndexOf sum =>
    (values, [.index ((indexOf values.dropLast sum).1, (indexOf values.dropLast sum).2)])

def InRange (values : List Nat) : SumCall → Prop
  | .insertValues i _ | .removeValues i _ => i ≤ values.length
  | .setValue i _ => i < values.length
  | .getPrefixSum count => count ≤ values.length
  | .getTotalSum | .getIndexOf _ => True

def Allowed (values : List Nat) : List SumCall → Prop
  | [] => values.sum < 2 ^ 32
  | call :: calls => values.sum < 2 ^ 32 ∧ InRange values call ∧ Allowed (read values call).1 calls

end PrefixSums

namespace PrefixSums

variable {values values' : List Nat}

theorem sum_take_add_one (values : List Nat) (i : Nat) :
    (values.take (i + 1)).sum = (values.take i).sum + values.getD i 0 := by
  induction values generalizing i with
  | nil => simp
  | cons v values ih =>
    cases i with
    | zero => simp
    | succ i =>
      rw [take_succ_cons, take_succ_cons, sum_cons, sum_cons, ih, getD_cons_succ, Nat.add_assoc]

theorem sum_take_mono : Monotone fun i => (values.take i).sum := monotone_nat_of_le_succ fun i => by
  rw [sum_take_add_one]
  exact Nat.le_add_right _ _

theorem sum_take_le (i : Nat) : (values.take i).sum ≤ values.sum := by
  have hsum := congrArg List.sum (take_append_drop i values)
  rw [sum_append] at hsum
  omega

theorem take_congr {n i : Nat} (h : values.take n = values'.take n) (hi : i ≤ n) :
    values.take i = values'.take i := by
  have htake := congrArg (take i) h
  rwa [take_take, take_take, Nat.min_eq_left hi] at htake

theorem exists_entry {sum n : Nat} (h : sum < (values.take n).sum) :
    ∃ i < n, (values.take i).sum ≤ sum ∧ sum < (values.take (i + 1)).sum := by
  induction n with
  | zero => exact absurd h (Nat.not_lt_zero sum)
  | succ n ih =>
    by_cases hlt : sum < (values.take n).sum
    · obtain ⟨i, hi, hentry⟩ := ih hlt
      exact ⟨i, Nat.lt_succ_of_lt hi, hentry⟩
    · exact ⟨n, Nat.lt_succ_self n, not_lt.mp hlt, h⟩

theorem indexOf_eq {sum i : Nat} (h : (values.take i).sum ≤ sum)
    (h' : sum < (values.take (i + 1)).sum) :
    indexOf values sum = (i, sum - (values.take i).sum) := by
  induction values generalizing sum i with
  | nil =>
    rw [take_nil] at h'
    exact absurd h' (Nat.not_lt_zero sum)
  | cons v values ih =>
    rw [take_succ_cons, sum_cons] at h'
    rw [indexOf]
    cases i with
    | zero => rw [if_pos (by simpa using h'), take_zero, sum_nil, Nat.sub_zero]
    | succ i =>
      rw [take_succ_cons, sum_cons] at h ⊢
      rw [if_neg (by omega), @ih (sum - v) i (by omega) (by omega), Nat.sub_sub]

theorem indexOf_congr {sum n : Nat} (h : values.take n = values'.take n)
    (hsum : sum < (values.take n).sum) : indexOf values sum = indexOf values' sum := by
  obtain ⟨i, hi, hle, hlt⟩ := exists_entry hsum
  rw [indexOf_eq hle hlt]
  rw [take_congr h hi] at hlt
  rw [take_congr h (Nat.le_of_lt hi)] at hle ⊢
  exact (indexOf_eq hle hlt).symm

theorem indexOf_of_le {sum : Nat} (h : values.sum ≤ sum) :
    indexOf values sum = (values.length, sum - values.sum) := by
  induction values generalizing sum with
  | nil => rfl
  | cons v values ih =>
    rw [sum_cons] at h
    rw [indexOf, if_neg (by omega), ih (by omega), length_cons, sum_cons, Nat.sub_sub]

theorem indexOf_dropLast {sum i : Nat} (hi : i < values.length) (hle : (values.take i).sum ≤ sum)
    (hlt : sum < (values.take (i + 1)).sum ∨ i + 1 = values.length) :
    indexOf values.dropLast sum = (i, sum - (values.take i).sum) := by
  rw [dropLast_eq_take]
  by_cases hend : i + 1 = values.length
  · rw [← hend, Nat.add_sub_cancel, indexOf_of_le hle, length_take, Nat.min_eq_left hi.le]
  · have hlt := hlt.resolve_right hend
    rw [← indexOf_congr (n := i + 1) ?_ hlt, indexOf_eq hle hlt]
    rw [take_take, Nat.min_eq_left (by omega)]

def Summed (values : List Nat) (prefixSum : Nat → Nat) (n : Nat) : Prop :=
  ∀ i < n, prefixSum i = (values.take (i + 1)).sum

theorem Summed.update {prefixSum : Nat → Nat} {i n : Nat} (h : Summed values prefixSum i)
    (hn : n = (values.take (i + 1)).sum) :
    Summed values (Function.update prefixSum i n) (i + 1) := by
  intro k hk
  by_cases hki : k = i
  · rw [hki, update_self, hn]
  · rw [update_of_ne hki]
    exact h k (by omega)

/-! ## What the changes leave -/

theorem take_take_append {i : Nat} (hi : i ≤ values.length) (xs : List Nat) :
    values.take i = (values.take i ++ xs).take i := by
  rw [take_append_of_le_length (by rw [length_take]; omega), take_take, Nat.min_self]

theorem le_length_take_append {i : Nat} (hi : i ≤ values.length) (xs : List Nat) :
    i ≤ (values.take i ++ xs).length := by
  rw [length_append, length_take]
  omega

theorem set_of_getElem? {i value : Nat} (h : values[i]? = some value) :
    values.set i value = values := by
  obtain ⟨hi, rfl⟩ := List.getElem?_eq_some_iff.mp h
  exact set_getElem_self hi

end PrefixSums

open PrefixSums

namespace PrefixSumComputer

structure Valid (c : PrefixSumComputer) (values : List Nat) : Prop where
  values_eq : c.values = values
  low : -1 ≤ c.prefixSumValidIndex
  high : c.prefixSumValidIndex < values.length
  summed : Summed values c.prefixSum (c.prefixSumValidIndex + 1).toNat

variable {c : PrefixSumComputer} {values values' : List Nat} {index : Nat}

theorem Valid.change (h : c.Valid values) (fresh : Bool)
    (hsame : values.take index = values'.take index) (hindex : index ≤ values'.length) :
    (c.change fresh index values').Valid values' := by
  have hlow := h.low
  refine ⟨rfl, ?_, ?_, fun i hi => ?_⟩
  · show -1 ≤ min _ _
    omega
  · show min _ _ < _
    omega
  · have hi' : (i : Int) < min c.prefixSumValidIndex (index - 1) + 1 := Int.lt_toNat.mp hi
    show (if _ then 0 else c.prefixSum i) = _
    rw [if_neg fun hafter => by omega, h.summed i (by omega),
      take_congr (i := i + 1) hsame (by omega)]

theorem Valid.insertValues (h : c.Valid values) {i : Nat} (xs : List Nat) (hi : i ≤ values.length) :
    (c.insertValues i xs).Valid (values.take i ++ (xs ++ values.drop i)) := by
  unfold PrefixSumComputer.insertValues
  split_ifs with hnil
  · rw [hnil, nil_append, take_append_drop]
    exact h
  · rw [h.values_eq]
    exact h.change true (take_take_append hi _) (le_length_take_append hi _)

theorem Valid.removeValues (h : c.Valid values) {start : Nat} (count : Nat)
    (hstart : start ≤ values.length) :
    (c.removeValues start count).Valid (values.take start ++ values.drop (start + count)) := by
  unfold PrefixSumComputer.removeValues
  rw [h.values_eq]
  split_ifs with hbehind hnone
  · rw [take_of_length_le hbehind, drop_eq_nil_of_le (by omega), append_nil]
    exact h
  · rw [(by omega : count = 0), Nat.add_zero, take_append_drop]
    exact h
  · have hdrop : values.drop (start + min count (values.length - start)) =
        values.drop (start + count) := by
      rcases Nat.le_total count (values.length - start) with hle | hle
      · rw [Nat.min_eq_left hle]
      · rw [drop_eq_nil_of_le (by omega), drop_eq_nil_of_le (by omega)]
    rw [hdrop]
    exact h.change true (take_take_append hstart _) (le_length_take_append hstart _)

theorem Valid.setValue (h : c.Valid values) {i value : Nat} (hi : i < values.length)
    (hvalue : value < 2 ^ 32) : (c.setValue i value).Valid (values.set i value) := by
  unfold PrefixSumComputer.setValue
  rw [h.values_eq, toUint32, Nat.mod_eq_of_lt hvalue]
  split_ifs with hsame
  · rw [set_of_getElem? hsame]
    exact h
  · exact h.change false (take_set_of_le (Nat.le_refl i)).symm (by rw [length_set]; omega)

theorem sumUp_summed {prefixSum : Nat → Nat} {i : Nat} (n : Nat) (hi : 0 < i)
    (h : Summed values prefixSum i) (hbound : values.sum < 2 ^ 32) :
    Summed values (sumUp values prefixSum i n) (i + n) := by
  induction n generalizing prefixSum i with
  | zero => exact h
  | succ n ih =>
    rw [(by omega : i + (n + 1) = i + 1 + n)]
    refine ih (Nat.succ_pos i) (h.update ?_)
    have hsum := sum_take_add_one values i
    have hle := @sum_take_le values (i + 1)
    rw [h (i - 1) (Nat.sub_lt hi Nat.one_pos), Nat.sub_add_cancel hi, toUint32,
      Nat.mod_eq_of_lt (by omega), hsum]

theorem Valid.complete (h : c.Valid values) (hindex : c.prefixSumValidIndex < index)
    (hlength : index < values.length) (hbound : values.sum < 2 ^ 32) :
    (c.complete index).Valid values := by
  have hlow := h.low
  have hvalid : (c.complete index).prefixSumValidIndex = index := max_eq_right hindex.le
  refine ⟨h.values_eq, by omega, by omega, ?_⟩
  rw [hvalid, PrefixSumComputer.complete, h.values_eq]
  by_cases hstart : (c.prefixSumValidIndex + 1).toNat = 0
  · have hzero : Summed values c.prefixSum 0 := fun i hi => absurd hi (Nat.not_lt_zero i)
    have hsummed := sumUp_summed (index + 1 - 1) Nat.one_pos
      (hzero.update (n := values.getD 0 0) (by simpa using (sum_take_add_one values 0).symm)) hbound
    simp only [hstart, if_true]
    rwa [(by omega : 1 + (index + 1 - 1) = ((index : Int) + 1).toNat)] at hsummed
  · have hsummed := sumUp_summed (index + 1 - (c.prefixSumValidIndex + 1).toNat)
      (Nat.pos_of_ne_zero hstart) h.summed hbound
    simp only [hstart, if_false]
    rwa [(by omega : (c.prefixSumValidIndex + 1).toNat +
      (index + 1 - (c.prefixSumValidIndex + 1).toNat) = ((index : Int) + 1).toNat)] at hsummed

theorem Valid.prefixSumAt (h : c.Valid values) (hlength : index < values.length)
    (hbound : values.sum < 2 ^ 32) :
    (c.prefixSumAt index).1.Valid values ∧ index ≤ (c.prefixSumAt index).1.prefixSumValidIndex ∧
      (c.prefixSumAt index).2 = (values.take (index + 1)).sum := by
  unfold PrefixSumComputer.prefixSumAt
  simp only [h.values_eq, if_neg (not_le.mpr hlength)]
  split_ifs with hle
  · exact ⟨h, hle, h.summed index (by omega)⟩
  · have hcomplete := h.complete (not_le.mp hle) hlength hbound
    have hvalid : (c.complete index).prefixSumValidIndex = index := max_eq_right (not_le.mp hle).le
    exact ⟨hcomplete, hvalid.ge, hcomplete.summed index (by omega)⟩

theorem Valid.getTotalSum (h : c.Valid values) (hbound : values.sum < 2 ^ 32) :
    c.getTotalSum.1.Valid values ∧ Summed values c.getTotalSum.1.prefixSum values.length ∧
      c.getTotalSum.2 = values.sum := by
  unfold PrefixSumComputer.getTotalSum
  rw [h.values_eq]
  split_ifs with hnil
  · rw [length_eq_zero_iff.mp hnil]
    exact ⟨length_eq_zero_iff.mp hnil ▸ h, fun i hi => absurd hi (Nat.not_lt_zero i), rfl⟩
  · obtain ⟨hvalid, hle, hsum⟩ := h.prefixSumAt (by omega : values.length - 1 < _) hbound
    refine ⟨hvalid, fun i hi => hvalid.summed i (by omega), ?_⟩
    rw [hsum, Nat.sub_add_cancel (Nat.pos_of_ne_zero hnil), take_length]

theorem search_eq (hvalues : c.values = values)
    (hsummed : Summed values c.prefixSum values.length) {sum k : Nat}
    (hle : (values.take k).sum ≤ sum)
    (hlt : sum < (values.take (k + 1)).sum ∨ k + 1 = values.length) {low high : Int} (mid midStart : Int) (hlow : 0 ≤ low) (hk : low ≤ k) (hk' : k ≤ high)
    (hhigh : high < values.length) :
    c.search sum low high mid midStart = ((k : Int), ((values.take k).sum : Int)) := by
  induction hn : (high + 1 - low).toNat using Nat.strong_induction_on
    generalizing low high mid midStart with
  | _ n ih =>
    obtain ⟨m, hm⟩ := Int.eq_ofNat_of_zero_le (by omega : 0 ≤ low + (high - low) / 2)
    have hstop := hsummed m (by omega)
    have hsum := sum_take_add_one values m
    rw [search, if_pos (hk.trans hk')]
    simp only [hm, Int.toNat_natCast, hvalues, hstop]
    split_ifs with hbefore hbehind
    · have hkm : k < m := by
        by_contra hnot
        have hmono := @sum_take_mono values m k (not_lt.mp hnot)
        simp only at hmono
        omega
      exact ih _ (by omega) m _ hlow hk (by omega) (by omega) rfl
    · by_cases hmk : m < k
      · exact ih _ (by omega) m _ (by omega) (by omega) hk' hhigh rfl
      · have hmono := @sum_take_mono values (k + 1) (m + 1) (by omega)
        simp only at hmono
        obtain rfl : m = k := by omega
        rw [search, if_neg (by omega)]
        exact Prod.ext rfl (by simp only; omega)
    · have hkm : k = m := by
        rcases Nat.lt_trichotomy k m with h | h | h
        · have hmono := @sum_take_mono values (k + 1) m h
          simp only at hmono
          omega
        · exact h
        · have hmono := @sum_take_mono values (m + 1) k h
          simp only at hmono
          omega
      rw [hkm]
      exact Prod.ext rfl (by simp only; omega)

theorem Valid.getIndexOf (h : c.Valid values) (sum : Nat) (hbound : values.sum < 2 ^ 32) :
    (c.getIndexOf sum).1.Valid values ∧ (c.getIndexOf sum).2 =
      (((indexOf values.dropLast sum).1 : Int), ((indexOf values.dropLast sum).2 : Int)) := by
  obtain ⟨hvalid, hsummed, -⟩ := h.getTotalSum hbound
  refine ⟨hvalid, ?_⟩
  unfold PrefixSumComputer.getIndexOf
  simp only [hvalid.values_eq]
  by_cases hnil : values = []
  · rw [search, if_neg (by rw [hnil]; decide), hnil]
    exact Prod.ext rfl (Int.sub_zero _)
  · have hlength := length_pos_of_ne_nil hnil
    have hfound : ∃ k < values.length, (values.take k).sum ≤ sum ∧
        (sum < (values.take (k + 1)).sum ∨ k + 1 = values.length) := by
      by_cases hsum : sum < values.sum
      · rw [← take_length (l := values)] at hsum
        obtain ⟨k, hk, hle, hlt⟩ := exists_entry hsum
        exact ⟨k, hk, hle, .inl hlt⟩
      · exact ⟨values.length - 1, by omega, (sum_take_le _).trans (not_lt.mp hsum), .inr (by omega)⟩
    obtain ⟨k, hk, hle, hlt⟩ := hfound
    rw [search_eq hvalid.values_eq hsummed hle hlt 0 0 (Int.le_refl 0) (Int.natCast_nonneg k)
      (by omega) (by omega), indexOf_dropLast hk hle hlt, Nat.cast_sub hle]

theorem Valid.read (h : c.Valid values) {call : SumCall} (hcall : InRange values call)
    (hbound : values.sum < 2 ^ 32) (hnext : (PrefixSums.read values call).1.sum < 2 ^ 32) :
    (c.read call).1.Valid (PrefixSums.read values call).1 ∧
      (c.read call).2 = (PrefixSums.read values call).2 := by
  cases call with
  | insertValues i xs => exact ⟨h.insertValues xs hcall, rfl⟩
  | removeValues start count => exact ⟨h.removeValues count hcall, rfl⟩
  | setValue i value =>
    refine ⟨h.setValue hcall ?_, rfl⟩
    exact (le_sum_of_mem (mem_set hcall value)).trans_lt hnext
  | getPrefixSum count =>
    cases count with
    | zero => exact ⟨h, rfl⟩
    | succ count =>
      obtain ⟨hvalid, -, hanswer⟩ := h.prefixSumAt hcall hbound
      have hget : c.getPrefixSum ((count + 1 : Nat) - 1) = c.prefixSumAt count := by
        rw [PrefixSumComputer.getPrefixSum, if_neg (by omega)]
        exact congrArg c.prefixSumAt (by omega)
      simp only [PrefixSumComputer.read, hget]
      exact ⟨hvalid, by rw [hanswer]; rfl⟩
  | getTotalSum =>
    obtain ⟨hvalid, -, hanswer⟩ := h.getTotalSum hbound
    exact ⟨hvalid, by rw [PrefixSumComputer.read, hanswer]; rfl⟩
  | getIndexOf sum =>
    obtain ⟨hvalid, hanswer⟩ := h.getIndexOf sum hbound
    exact ⟨hvalid, by rw [PrefixSumComputer.read, hanswer]; rfl⟩

end PrefixSumComputer

namespace ConstantTimePrefixSumComputer

structure Entered (c : ConstantTimePrefixSumComputer) (values : List Nat) (i : Nat) : Prop where
  values_eq : c.values = values
  summed : Summed values c.prefixSum i
  indexed : ∀ sum < (values.take i).sum, c.indexBySum sum = some (indexOf values sum).1

/-- Nothing is in the tables behind the last entry. -/
structure Ended (c : ConstantTimePrefixSumComputer) (values : List Nat) : Prop where
  length : c.indexBySumLength = values.sum
  behind : ∀ sum, values.sum ≤ sum → c.indexBySum sum = none

structure Valid (c : ConstantTimePrefixSumComputer) (values : List Nat) : Prop where
  low : -1 ≤ c.validEndIndex
  high : c.validEndIndex < values.length
  entered : c.Entered values (c.validEndIndex + 1).toNat
  complete : c.isValid → c.validEndIndex = values.length - 1 ∧ c.Ended values

variable {c : ConstantTimePrefixSumComputer} {values values' : List Nat}

theorem Valid.change (h : c.Valid values) {index : Nat}
    (hsame : values.take index = values'.take index) (hindex : index ≤ values'.length) :
    (c.change index values').Valid values' := by
  have hlow := h.low
  have hmin : ((min c.validEndIndex (index - 1)) + 1).toNat ≤ index := by omega
  have hmin' : ((min c.validEndIndex (index - 1)) + 1).toNat ≤ (c.validEndIndex + 1).toNat := by
    omega
  refine ⟨?_, ?_, ⟨rfl, fun i hi => ?_, fun sum hsum => ?_⟩, fun hvalid => by cases hvalid⟩
  · show -1 ≤ min _ _
    omega
  · show min _ _ < _
    omega
  · have hi' : i < ((min c.validEndIndex (index - 1)) + 1).toNat := hi
    exact (h.entered.summed i (hi'.trans_le hmin')).trans
      (congrArg List.sum (take_congr hsame (by omega)))
  · have htake := take_congr hsame hmin
    have hsum' : sum < (values.take ((min c.validEndIndex (index - 1)) + 1).toNat).sum := by
      rw [htake]
      exact hsum
    rw [← indexOf_congr htake hsum']
    exact h.entered.indexed sum (hsum'.trans_le (sum_take_mono hmin'))

theorem Entered.sumAbove {i : Nat} (h : c.Entered values i) :
    c.sumAbove i = (values.take i).sum := by
  rw [ConstantTimePrefixSumComputer.sumAbove]
  split_ifs with hi
  · rw [h.summed (i - 1) (Nat.sub_lt hi Nat.one_pos), Nat.sub_add_cancel hi]
  · rw [Nat.eq_zero_of_not_pos hi]
    rfl

theorem Entered.addEntry {i : Nat} (h : c.Entered values i) :
    (c.addEntry i).Entered values (i + 1) := by
  have hsum := sum_take_add_one values i
  refine ⟨h.values_eq, h.summed.update ?_, fun sum hlt => ?_⟩
  · rw [h.sumAbove, h.values_eq, hsum]
  · show (if _ ∧ _ then some i else c.indexBySum sum) = _
    rw [h.sumAbove, h.values_eq, ← hsum]
    split_ifs with hentry
    · rw [indexOf_eq hentry.1 hlt]
    · exact h.indexed sum (by omega)

theorem Entered.addEntries {i : Nat} (n : Nat) (h : c.Entered values i) :
    (c.addEntries i n).Entered values (i + n) := by
  induction n generalizing c i with
  | zero => exact h
  | succ n ih =>
    rw [(by omega : i + (n + 1) = i + 1 + n)]
    exact ih h.addEntry

theorem Entered.finish (h : c.Entered values values.length) :
    c.finish.Valid values ∧ c.finish.Entered values values.length ∧ c.finish.Ended values := by
  have habove := h.sumAbove
  rw [take_length] at habove
  have hlength : c.sumAbove c.values.length = values.sum := by rw [h.values_eq, habove]
  have hentered : c.finish.Entered values values.length := by
    refine ⟨h.values_eq, h.summed, fun sum hlt => ?_⟩
    have hindexed := h.indexed sum hlt
    rw [take_length] at hlt
    show (if _ then _ else none) = _
    rw [hlength, if_pos hlt, hindexed]
  have hend : c.finish.validEndIndex = values.length - 1 := by
    show (c.values.length : Int) - 1 = _
    rw [h.values_eq]
  have hended : c.finish.Ended values :=
    ⟨hlength, fun sum hle => if_neg (by rw [hlength]; exact not_lt.mpr hle)⟩
  refine ⟨⟨by omega, by omega, ?_, fun _ => ⟨hend, hended⟩⟩, hentered, hended⟩
  rwa [hend, (by omega : ((values.length : Int) - 1 + 1).toNat = values.length)]

theorem Valid.ensureValid (h : c.Valid values) :
    c.ensureValid.Valid values ∧ c.ensureValid.Entered values values.length ∧
      c.ensureValid.Ended values := by
  have hentered := h.entered
  have hhigh := h.high
  unfold ConstantTimePrefixSumComputer.ensureValid
  split_ifs with hvalid
  · obtain ⟨hend, hended⟩ := h.complete hvalid
    rw [hend, (by omega : ((values.length : Int) - 1 + 1).toNat = values.length)] at hentered
    exact ⟨h, hentered, hended⟩
  · have hfull := hentered.addEntries (values.length - (c.validEndIndex + 1).toNat)
    rw [(by omega : (c.validEndIndex + 1).toNat + (values.length - (c.validEndIndex + 1).toNat) =
      values.length)] at hfull
    rw [hentered.values_eq]
    exact hfull.finish

theorem Valid.getIndexOf (h : c.Valid values) (sum : Nat) : c.getIndexOf sum =
    (((indexOf values.dropLast sum).1 : Int), ((indexOf values.dropLast sum).2 : Int)) := by
  obtain ⟨-, hentered, hended⟩ := h.ensureValid
  have habove : ∀ k ≤ values.length, c.ensureValid.sumAbove k = (values.take k).sum := fun k hk =>
    Entered.sumAbove ⟨hentered.values_eq, fun i hi => hentered.summed i (hi.trans_le hk),
      fun sum hlt => hentered.indexed sum (hlt.trans_le (sum_take_mono hk))⟩
  unfold ConstantTimePrefixSumComputer.getIndexOf
  by_cases hsum : sum < values.sum
  · rw [← take_length (l := values)] at hsum
    obtain ⟨k, hk, hle, hlt⟩ := exists_entry hsum
    rw [hentered.indexed sum hsum, indexOf_eq hle hlt, indexOf_dropLast hk hle (.inl hlt)]
    simp only [habove k hk.le, Nat.cast_sub hle]
  · have hle := (sum_take_le (values.length - 1)).trans (not_lt.mp hsum)
    rw [hended.behind sum (not_lt.mp hsum), dropLast_eq_take, indexOf_of_le hle, Nat.cast_sub hle]
    simp only [h.entered.values_eq, Nat.zero_max, habove _ (Nat.sub_le _ _), length_take,
      Nat.min_eq_left (Nat.sub_le _ _)]

theorem Valid.read (h : c.Valid values) {call : SumCall} (hcall : InRange values call) :
    (c.read call).1.Valid (PrefixSums.read values call).1 ∧
      (c.read call).2 = (PrefixSums.read values call).2 := by
  have hvalues := h.entered.values_eq
  obtain ⟨hvalid, hentered, hended⟩ := h.ensureValid
  cases call with
  | insertValues i xs =>
    refine ⟨?_, rfl⟩
    show (c.change i (c.values.take i ++ (xs ++ c.values.drop i))).Valid _
    rw [hvalues]
    exact h.change (take_take_append hcall _) (le_length_take_append hcall _)
  | removeValues start count =>
    refine ⟨?_, rfl⟩
    show (c.change start (c.values.take start ++ c.values.drop (start + count))).Valid _
    rw [hvalues]
    exact h.change (take_take_append hcall _) (le_length_take_append hcall _)
  | setValue i value =>
    refine ⟨?_, rfl⟩
    simp only [ConstantTimePrefixSumComputer.read, ConstantTimePrefixSumComputer.setValue, hvalues]
    split_ifs with hsame
    · show c.Valid (values.set i value)
      rw [set_of_getElem? hsame]
      exact h
    · refine h.change (take_set_of_le (Nat.le_refl i)).symm ?_
      rw [length_set]
      exact Nat.le_of_lt hcall
  | getPrefixSum count =>
    refine ⟨hvalid, ?_⟩
    cases count with
    | zero => rfl
    | succ count =>
      have hsum := hentered.summed count hcall
      rw [ConstantTimePrefixSumComputer.read, ConstantTimePrefixSumComputer.getPrefixSum,
        if_neg (Nat.succ_ne_zero count), Nat.add_sub_cancel, hsum]
      rfl
  | getTotalSum =>
    exact ⟨hvalid, by rw [ConstantTimePrefixSumComputer.read, getTotalSum, hended.length]; rfl⟩
  | getIndexOf sum =>
    exact ⟨hvalid, by rw [ConstantTimePrefixSumComputer.read, h.getIndexOf]; rfl⟩

end ConstantTimePrefixSumComputer

namespace PrefixSums

theorem feed_eq {σ : Type} {answer : σ → SumCall → σ × List SumAnswer} {Valid : σ → List Nat → Prop}
    (hstep : ∀ c values call, Valid c values → InRange values call → values.sum < 2 ^ 32 →
      (read values call).1.sum < 2 ^ 32 →
        Valid (answer c call).1 (read values call).1 ∧ (answer c call).2 = (read values call).2)
    {c : σ} {values : List Nat} {calls : List SumCall} (h : Valid c values)
    (hcalls : Allowed values calls) : (feed answer c calls).2 = (feed read values calls).2 := by
  induction calls generalizing c values with
  | nil => rfl
  | cons call calls ih =>
    obtain ⟨hbound, hcall, hrest⟩ := hcalls
    have hnext : (read values call).1.sum < 2 ^ 32 := by
      cases calls with
      | nil => exact hrest
      | cons next calls => exact hrest.1
    obtain ⟨hvalid, hanswer⟩ := hstep c values call h hcall hbound hnext
    rw [feed_cons, feed_cons, hanswer, ih hvalid hrest]

/-- Both computers answer every sequence of calls as the values alone do, and a sum below the
total lies in the entry found. -/
theorem prefixSums_agree {values : List Nat} {calls : List SumCall} (h : Allowed values calls) :
    (feed PrefixSumComputer.read (.new values) calls).2 = (feed read values calls).2 ∧
      (feed ConstantTimePrefixSumComputer.read (.new values) calls).2 = (feed read values calls).2 ∧
      ∀ (values : List Nat) (sum : Nat), sum < values.sum →
        (values.take (indexOf values.dropLast sum).1).sum + (indexOf values.dropLast sum).2 = sum ∧
          (indexOf values.dropLast sum).2 < values.getD (indexOf values.dropLast sum).1 0 := by
  refine ⟨@feed_eq _ PrefixSumComputer.read PrefixSumComputer.Valid
    (fun c values call h hcall hbound hnext => h.read hcall hbound hnext) _ _ _ ?_ h,
    @feed_eq _ ConstantTimePrefixSumComputer.read ConstantTimePrefixSumComputer.Valid
      (fun c values call h hcall _ _ => h.read hcall) _ _ _ ?_ h, fun values sum hsum => ?_⟩
  · exact ⟨rfl, Int.le_refl _, by show (-1 : Int) < _; omega,
      fun i hi => absurd hi (Nat.not_lt_zero i)⟩
  · exact ⟨Int.le_refl _, by show (-1 : Int) < _; omega, ⟨rfl,
      fun i hi => absurd hi (Nat.not_lt_zero i), fun sum hsum => absurd hsum (Nat.not_lt_zero sum)⟩,
      fun hvalid => by cases hvalid⟩
  · rw [← take_length (l := values)] at hsum
    obtain ⟨k, hk, hle, hlt⟩ := exists_entry hsum
    rw [indexOf_dropLast hk hle (.inl hlt)]
    have hentry := sum_take_add_one values k
    exact ⟨Nat.add_sub_of_le hle, by simp only; omega⟩

theorem prefixSums_agree_sample :
    Allowed [3, 0, 2] [.getIndexOf 3, .removeValues 1 1, .getIndexOf 7] ∧
      (feed PrefixSumComputer.read (.new [3, 0, 2])
        [.getIndexOf 3, .removeValues 1 1, .getIndexOf 7]).2 = [.index (2, 0), .index (1, 4)] := by
  have h : Allowed [3, 0, 2] [.getIndexOf 3, .removeValues 1 1, .getIndexOf 7] :=
    ⟨by decide, trivial, by decide, (by decide : 1 ≤ 3), by decide, trivial,
      (by decide : [3, 2].sum < 2 ^ 32)⟩
  exact ⟨h, (prefixSums_agree h).1.trans (by decide)⟩

end PrefixSums

end Fumie.Editor
