import Fumie.Base.Buffer
import Mathlib.Logic.Function.Basic

/-!
# Searching bytes

`binaryIndexOf` slides the needle along the haystack and compares it from its end. An
alignment is where the needle starts; with a negative offset it may start in front of the
haystack, where only the bytes inside are compared.
-/

namespace Fumie.Base

open List Function Bool

/-- The least position the predicate holds of, or -1. -/
def firstIndex (p : Nat → Bool) (length : Nat) : Int :=
  match (range length).find? p with
  | some k => k
  | none => -1

variable {k : Nat}

variable {p : Nat → Bool} {s result : Int}

theorem firstIndex_eq {length : Nat} (hk : k < length) (hp : p k = true)
    (hfirst : ∀ k' < k, p k' = false) : firstIndex p length = k := by
  have hfind : (range length).find? p = some k := by
    refine find?_range_eq_some.mpr ⟨hp, mem_range.mpr hk, fun k' hk' => ?_⟩
    rw [hfirst k' hk']
    rfl
  unfold firstIndex
  rw [hfind]

theorem firstIndex_none {length : Nat} (hnone : ∀ k < length, p k = false) :
    firstIndex p length = -1 := by
  have hfind : (range length).find? p = none := by
    refine find?_eq_none.mpr fun k hk => ?_
    rw [hnone k (mem_range.mp hk)]
    exact false_ne_true
  unfold firstIndex
  rw [hfind]

/-! ## The search -/

def byteAt (haystack : Bytes) (i : Int) : Option UInt8 :=
  if 0 ≤ i then haystack[i.toNat]? else none

def indexOfByte (haystack : Bytes) (byte : UInt8) (offset : Int) : Int :=
  let start := if offset < 0 then max (haystack.length + offset) 0 else offset
  firstIndex (fun k => decide (start ≤ k) && haystack[k]? == some byte) haystack.length

def indexOfTable (needle : Bytes) : UInt8 → UInt8 :=
  (range needle.length).foldl
    (fun table i => Function.update table (needle.getD i 0) (UInt8.ofNat (needle.length - i - 1)))
    fun _ => UInt8.ofNat needle.length

def indexOfLoop (haystack needle : Bytes) (hne : needle ≠ []) (table : UInt8 → UInt8) (i : Int)
    (j : Nat) : Int :=
  if i < haystack.length then
    if byteAt haystack i = needle[j]? then
      if j = 0 then i
      else indexOfLoop haystack needle hne table (i - 1) (j - 1)
    else
      match byteAt haystack i with
      | some byte =>
        indexOfLoop haystack needle hne table
          (i + max (needle.length - j : Int) (table byte).toNat) (needle.length - 1)
      | none => -1
  else -1
termination_by ((haystack.length - (i - j) : Int).toNat, j)
decreasing_by
  · rw [show i - 1 - ((j - 1 : Nat) : Int) = i - j by omega]
    exact Prod.Lex.right _ (by omega)
  · refine Prod.Lex.left _ _ ?_
    have hpos := length_pos_iff.mpr hne
    have hmax := le_max_left (needle.length - j : Int) (table byte).toNat
    omega

def binaryIndexOf (haystack needle : Bytes) (offset : Int) : Int :=
  match needle with
  | [] => 0
  | [byte] => indexOfByte haystack byte offset
  | first :: second :: rest =>
    if (haystack.length : Int) - offset < (first :: second :: rest).length then -1
    else
      indexOfLoop haystack (first :: second :: rest) (cons_ne_nil _ _)
        (indexOfTable (first :: second :: rest))
        (offset + (first :: second :: rest).length - 1) ((first :: second :: rest).length - 1)

def naiveIndexOf (haystack needle : Bytes) (offset : Int) : Int :=
  firstIndex (fun k => decide (offset ≤ k) && needle.isPrefixOf (haystack.drop k)) haystack.length

/-! ## Alignments -/

def Fits (haystack needle : Bytes) (s : Int) : Prop :=
  ∀ j < needle.length, 0 ≤ s + j → byteAt haystack (s + j) = needle[j]?

def OccursAt (haystack needle : Bytes) (k : Nat) : Prop := needle <+: haystack.drop k

variable {haystack needle : Bytes}

theorem byteAt_natCast (haystack : Bytes) (k : Nat) : byteAt haystack k = haystack[k]? := by
  unfold byteAt
  rw [if_pos (Int.natCast_nonneg k), Int.toNat_natCast]

theorem byteAt_of_le {i : Int} (hi : (haystack.length : Int) ≤ i) : byteAt haystack i = none := by
  unfold byteAt
  rw [if_pos (by omega)]
  exact getElem?_eq_none (by omega)

theorem fits_iff_occursAt (k : Nat) : Fits haystack needle k ↔ OccursAt haystack needle k := by
  have hat (j : Nat) : byteAt haystack (k + j) = (haystack.drop k)[j]? := by
    rw [← Int.natCast_add, byteAt_natCast, getElem?_drop]
  constructor
  · intro h
    refine prefix_iff_getElem?.mpr fun j hj => ?_
    rw [← hat, h j hj (by omega), getElem?_eq_getElem hj]
  · intro h j hj _
    rw [hat, getElem?_eq_getElem hj]
    exact prefix_iff_getElem?.mp h j hj

theorem OccursAt.lt (hne : needle ≠ []) (h : OccursAt haystack needle k) : k < haystack.length := by
  have hle := List.IsPrefix.length_le h
  have hpos := length_pos_iff.mpr hne
  rw [length_drop] at hle
  omega

variable {offset : Int}

theorem naiveIndexOf_of_first (hne : needle ≠ []) (hoccurs : OccursAt haystack needle k)
    (hle : offset ≤ k) (hfirst : ∀ k' < k, offset ≤ (k' : Int) → ¬OccursAt haystack needle k') :
    naiveIndexOf haystack needle offset = k := by
  refine firstIndex_eq (hoccurs.lt hne) ?_ fun k' hk' => ?_
  · rw [and_eq_true]
    exact ⟨decide_eq_true hle, isPrefixOf_iff_prefix.mpr hoccurs⟩
  · rw [and_eq_false_iff]
    by_cases hle' : offset ≤ (k' : Int)
    · refine .inr (eq_false_iff.mpr fun hprefix => ?_)
      exact hfirst k' hk' hle' ( isPrefixOf_iff_prefix.mp hprefix)
    · exact .inl (decide_eq_false hle')

theorem naiveIndexOf_none (hnone : ∀ k : Nat, offset ≤ k → ¬OccursAt haystack needle k) :
    naiveIndexOf haystack needle offset = -1 := by
  refine firstIndex_none fun k _ => ?_
  rw [and_eq_false_iff]
  by_cases hle : offset ≤ (k : Int)
  · refine .inr (eq_false_iff.mpr fun hprefix => ?_)
    exact hnone k hle ( isPrefixOf_iff_prefix.mp hprefix)
  · exact .inl (decide_eq_false hle)

theorem exists_first (hoccurs : OccursAt haystack needle k) (hle : offset ≤ k) :
    ∃ k₀ : Nat, OccursAt haystack needle k₀ ∧ offset ≤ k₀ ∧ k₀ ≤ k ∧
      ∀ k' < k₀, offset ≤ (k' : Int) → ¬OccursAt haystack needle k' := by
  classical
  have hex : ∃ k : Nat, OccursAt haystack needle k ∧ offset ≤ k := ⟨k, hoccurs, hle⟩
  refine ⟨Nat.find hex, (Nat.find_spec hex).1, (Nat.find_spec hex).2,
    Nat.find_min' hex ⟨hoccurs, hle⟩, fun k' hk' hle' hoccurs' => ?_⟩
  exact Nat.find_min hex hk' ⟨hoccurs', hle'⟩

/-! ## Skips -/

def Skips (needle : Bytes) (table : UInt8 → UInt8) (seen : Nat) : Prop :=
  ∀ byte, (table byte).toNat ≤ needle.length ∧
    ∀ q < seen, needle[q]? = some byte → (table byte).toNat + q + 1 ≤ needle.length

theorem skips_step {table : UInt8 → UInt8} {i : Nat} (hi : i < needle.length)
    (h : Skips needle table i) :
    Skips needle
      (Function.update table (needle.getD i 0) (UInt8.ofNat (needle.length - i - 1))) (i + 1) := by
  have hget : needle[i]? = some (needle.getD i 0) := by
    rw [getD_eq_getElem?_getD, getElem?_eq_getElem hi]
    rfl
  have hmod : (UInt8.ofNat (needle.length - i - 1)).toNat ≤ needle.length - i - 1 := by
    rw [UInt8.toNat_ofNat']
    exact Nat.mod_le _ _
  intro byte
  by_cases hbyte : byte = needle.getD i 0
  · subst hbyte
    rw [update_self]
    refine ⟨by omega, fun q hq _ => ?_⟩
    omega
  · rw [update_of_ne hbyte]
    refine ⟨(h byte).1, fun q hq hneedle => ?_⟩
    have hqi : q ≠ i := by
      rintro rfl
      rw [hget] at hneedle
      exact hbyte (Option.some.inj hneedle).symm
    exact (h byte).2 q (by omega) hneedle

theorem skips_indexOfTable (needle : Bytes) : Skips needle (indexOfTable needle) needle.length := by
  have hrun : ∀ seen ≤ needle.length, Skips needle
      ((range seen).foldl
        (fun table i =>
          Function.update table (needle.getD i 0) (UInt8.ofNat (needle.length - i - 1)))
        fun _ => UInt8.ofNat needle.length) seen := by
    intro seen hseen
    induction seen with
    | zero =>
      refine fun byte => ⟨?_, fun q hq => absurd hq (Nat.not_lt_zero q)⟩
      show (UInt8.ofNat needle.length).toNat ≤ needle.length
      rw [UInt8.toNat_ofNat']
      exact Nat.mod_le _ _
    | succ seen ih =>
      rw [range_succ, foldl_append]
      exact skips_step hseen (ih (Nat.le_of_succ_le hseen))
  exact hrun needle.length le_rfl

/-! ## The loop -/

def Finds (haystack needle : Bytes) (s result : Int) : Prop :=
  (∃ s', s ≤ s' ∧ Fits haystack needle s' ∧ (∀ s'', s ≤ s'' → s'' < s' → ¬Fits haystack needle s'') ∧
    result = if 0 ≤ s' then s' else -1) ∨
  ((∀ s', s ≤ s' → ¬Fits haystack needle s') ∧ result = -1)

theorem Finds.skip {s₁ : Int} (hle : s ≤ s₁)
    (hskip : ∀ s', s ≤ s' → s' < s₁ → ¬Fits haystack needle s')
    (h : Finds haystack needle s₁ result) : Finds haystack needle s result := by
  obtain ⟨s', hs', hfits, hfirst, hresult⟩ | ⟨hnone, hresult⟩ := h
  · refine .inl ⟨s', hle.trans hs', hfits, fun s'' hs hs'' => ?_, hresult⟩
    rcases lt_or_ge s'' s₁ with hlt | hge
    · exact hskip s'' hs hlt
    · exact hfirst s'' hge hs''
  · refine .inr ⟨fun s' hs => ?_, hresult⟩
    rcases lt_or_ge s' s₁ with hlt | hge
    · exact hskip s' hs hlt
    · exact hnone s' hge

theorem not_fits_of_length_le (hne : needle ≠ [])
    (hs : (haystack.length : Int) < s + needle.length) : ¬Fits haystack needle s := by
  intro h
  have hpos := length_pos_iff.mpr hne
  have hlast := h (needle.length - 1) (by omega) (by omega)
  rw [byteAt_of_le (by omega), getElem?_eq_getElem (by omega)] at hlast
  cases hlast

theorem indexOfLoop_spec (hne : needle ≠ []) {table : UInt8 → UInt8}
    (hskips : Skips needle table needle.length) (i : Int) (j : Nat) (hj : j < needle.length)
    (hback : ∀ j', j < j' → j' < needle.length → byteAt haystack (i - j + j') = needle[j']?) :
    Finds haystack needle (i - j) (indexOfLoop haystack needle hne table i j) := by
  fun_induction indexOfLoop haystack needle hne table i j with
  | case1 i hi heq =>
    -- the whole needle has been compared
    refine .inl ⟨i - (0 : Nat), le_rfl, fun j' hj' _ => ?_, fun s'' hs hlt => by omega, ?_⟩
    · rcases Nat.eq_zero_or_pos j' with rfl | hpos
      · rw [← heq]
        congr 1
        omega
      · exact hback j' hpos hj'
    · have hinside : 0 ≤ i := by
        by_contra hneg
        unfold byteAt at heq
        rw [if_neg hneg, getElem?_eq_getElem hj] at heq
        cases heq
      rw [if_pos (by omega)]
      omega
  | case2 i j hi heq hzero ih =>
    have hs : i - 1 - ((j - 1 : Nat) : Int) = i - j := by omega
    rw [hs] at ih
    refine ih (by omega) fun j' hlt hj' => ?_
    rcases Nat.lt_or_ge j j' with hlater | hle
    · exact hback j' hlater hj'
    · obtain rfl : j' = j := by omega
      rw [← heq]
      congr 1
      omega
  | case3 i j hi hmiss byte hbyte ih =>
    have hpos := length_pos_iff.mpr hne
    have hinside : 0 ≤ i := by
      by_contra hneg
      unfold byteAt at hbyte
      rw [if_neg hneg] at hbyte
      cases hbyte
    refine Finds.skip ?_ (fun s' hs hlt hfits => ?_) (ih (by omega) fun j' hlt hj' => by omega)
    · have hmax := le_max_left (needle.length - j : Int) (table byte).toNat
      omega
    · -- the byte that was read lies over position `q` of the needle
      obtain ⟨q, hq⟩ : ∃ q : Nat, (q : Int) = i - s' := by
        refine ⟨(i - s').toNat, Int.toNat_of_nonneg ?_⟩
        have hle := (hskips byte).1
        omega
      have hat := hfits q (by omega) (by omega)
      rw [hq, show s' + (i - s') = i by omega] at hat
      rcases eq_or_lt_of_le hs with rfl | hlater
      · obtain rfl : q = j := by omega
        exact hmiss hat
      · have hskip := (hskips byte).2 q (by omega) (by rw [← hat, hbyte])
        omega
  | case4 i j hi hmiss hnone =>
    -- in front of the haystack: the whole overlap has been compared
    have houtside : i < 0 := by
      by_contra hge
      unfold byteAt at hnone
      rw [if_pos (by omega), getElem?_eq_getElem (by omega)] at hnone
      cases hnone
    refine .inl ⟨i - j, le_rfl, fun j' hj' hge => ?_, fun s'' hs hlt => by omega, ?_⟩
    · exact hback j' (by omega) hj'
    · rw [if_neg (by omega)]
  | case5 i j hi =>
    have hlast : needle.length = j + 1 := by
      by_contra hmore
      have hnext := hback (j + 1) (Nat.lt_succ_self j) (by omega)
      rw [byteAt_of_le (by omega), getElem?_eq_getElem (by omega)] at hnext
      cases hnext
    exact .inr ⟨fun s' hs => not_fits_of_length_le hne (by omega), rfl⟩

/-! ## The naive search -/

def Answers (haystack needle : Bytes) (offset : Int) : Prop :=
  0 ≤ offset ∨ (∀ k, ¬OccursAt haystack needle k) ∨
    if needle.length = 1 then
      ∀ k : Nat, (k : Int) < haystack.length + offset → ¬OccursAt haystack needle k
    else ∀ s, offset ≤ s → s < 0 → ¬Fits haystack needle s

theorem naiveIndexOf_eq_neg_one_iff (hne : needle ≠ []) : naiveIndexOf haystack needle offset = -1 ↔
      ∀ k : Nat, offset ≤ k → ¬OccursAt haystack needle k := by
  refine ⟨fun h k hle hoccurs => ?_, naiveIndexOf_none⟩
  obtain ⟨k₀, hoccurs₀, hle₀, -, hfirst⟩ := exists_first hoccurs hle
  rw [naiveIndexOf_of_first hne hoccurs₀ hle₀ hfirst] at h
  omega

theorem Finds.answers_iff (hlong : needle.length ≠ 1) (hne : needle ≠ [])
    (h : Finds haystack needle offset result) :
    result = naiveIndexOf haystack needle offset ↔ Answers haystack needle offset := by
  unfold Answers
  rw [if_neg hlong]
  obtain ⟨s, hs, hfits, hfirst, rfl⟩ | ⟨hnone, rfl⟩ := h
  · by_cases hinside : 0 ≤ s
    · obtain ⟨k, rfl⟩ := Int.eq_ofNat_of_zero_le hinside
      have hnaive := naiveIndexOf_of_first hne ((fits_iff_occursAt k).mp hfits) hs
        fun k' hk' hle hoccurs => hfirst k' hle (by omega) ((fits_iff_occursAt k').mpr hoccurs)
      rw [if_pos hinside, hnaive]
      exact ⟨fun _ => .inr (.inr fun s' hs' hneg => hfirst s' hs' (by omega)), fun _ => rfl⟩
    · rw [if_neg hinside, eq_comm, naiveIndexOf_eq_neg_one_iff hne]
      constructor
      · intro hnone
        exact .inr (.inl fun k => hnone k (by omega))
      · rintro (hoffset | hnone | hclear)
        · omega
        · exact fun k _ => hnone k
        · exact absurd hfits (hclear s hs (by omega))
  · have hclear (k : Nat) (hle : offset ≤ k) : ¬OccursAt haystack needle k :=
      fun hoccurs => hnone k hle ((fits_iff_occursAt k).mpr hoccurs)
    rw [naiveIndexOf_none hclear]
    exact ⟨fun _ => .inr (.inr fun s hs _ => hnone s hs), fun _ => rfl⟩

theorem occursAt_byte {byte : UInt8} : OccursAt haystack [byte] k ↔ haystack[k]? = some byte := by
  unfold OccursAt
  rw [prefix_iff_getElem?]
  constructor
  · intro h
    have hfirst := h 0 Nat.zero_lt_one
    rw [getElem?_drop] at hfirst
    exact hfirst
  · intro h j hj
    obtain rfl : j = 0 := Nat.lt_one_iff.mp hj
    rw [getElem?_drop]
    exact h

theorem indexOfByte_eq (haystack : Bytes) (byte : UInt8) (offset : Int) :
    indexOfByte haystack byte offset = naiveIndexOf haystack [byte]
      (if offset < 0 then max (haystack.length + offset) 0 else offset) := by
  have hsame (k : Nat) : (haystack[k]? == some byte) = [byte].isPrefixOf (haystack.drop k) := by
    rw [Bool.eq_iff_iff, beq_iff_eq, isPrefixOf_iff_prefix]
    exact occursAt_byte.symm
  unfold indexOfByte naiveIndexOf
  simp only [hsame]

theorem naiveIndexOf_later_iff {start : Int} (hne : needle ≠ []) (hle : offset ≤ start) :
    naiveIndexOf haystack needle start = naiveIndexOf haystack needle offset ↔
      ∀ k : Nat, offset ≤ k → (k : Int) < start → ¬OccursAt haystack needle k := by
  constructor
  · intro h k hoffset hk hoccurs
    obtain ⟨k₀, hoccurs₀, hle₀, hk₀, hfirst⟩ := exists_first hoccurs hoffset
    rw [naiveIndexOf_of_first hne hoccurs₀ hle₀ hfirst] at h
    by_cases hnone : ∀ k : Nat, start ≤ k → ¬OccursAt haystack needle k
    · rw [naiveIndexOf_none hnone] at h
      omega
    · push Not at hnone
      obtain ⟨k₁, hk₁, hoccurs₁⟩ := hnone
      obtain ⟨k₂, hoccurs₂, hle₂, -, hfirst₂⟩ := exists_first hoccurs₁ hk₁
      rw [naiveIndexOf_of_first hne hoccurs₂ hle₂ hfirst₂] at h
      omega
  · intro hclear
    by_cases hnone : ∀ k : Nat, start ≤ k → ¬OccursAt haystack needle k
    · rw [naiveIndexOf_none hnone, naiveIndexOf_none fun k hk => ?_]
      rcases lt_or_ge (k : Int) start with hlt | hge
      · exact hclear k hk hlt
      · exact hnone k hge
    · push Not at hnone
      obtain ⟨k₁, hk₁, hoccurs₁⟩ := hnone
      obtain ⟨k₂, hoccurs₂, hle₂, -, hfirst₂⟩ := exists_first hoccurs₁ hk₁
      rw [naiveIndexOf_of_first hne hoccurs₂ hle₂ hfirst₂]
      refine (naiveIndexOf_of_first hne hoccurs₂ (hle.trans hle₂) fun k' hk' hk => ?_).symm
      rcases lt_or_ge (k' : Int) start with hlt | hge
      · exact hclear k' hk hlt
      · exact hfirst₂ k' hk' hge

theorem indexOfByte_answers_iff (haystack : Bytes) (byte : UInt8) (offset : Int) :
    indexOfByte haystack byte offset = naiveIndexOf haystack [byte] offset ↔
      Answers haystack [byte] offset := by
  have hne : [byte] ≠ [] := cons_ne_nil _ _
  rw [indexOfByte_eq]
  unfold Answers
  rw [if_pos length_singleton]
  split
  · next hneg =>
    rw [naiveIndexOf_later_iff hne (by omega)]
    constructor
    · exact fun h => .inr (.inr fun k hk => h k (by omega) (by omega))
    · rintro (hoffset | hnone | hclear) k hk hlt
      · omega
      · exact hnone k
      · exact hclear k (by omega)
  · next hnonneg => exact ⟨fun _ => .inl (by omega), fun _ => rfl⟩

end Fumie.Base
