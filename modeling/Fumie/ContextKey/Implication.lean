import Fumie.ContextKey.ContextKeyExpression

/-!
# Implication between when-clauses

`implies` matches subexpressions by `cmp` and `equals`. Neither tells a number from an
operand that is not numeric, nor two regular expressions of one source and different
flags, so a match need not be of equal expressions. Where the answer does not change
when such tests are told apart, it is right.
-/

namespace Fumie.ContextKey

open List Bool

structure TestComparison.Exact (c : TestComparison) : Prop where
  cmp : ∀ t t', c.cmp t t' = 0 → t = t'
  same : ∀ t t', c.same t t' = true → t = t'

def exactComparison (host : JsHost) : TestComparison where
  cmp t t' := if t ≠ t' ∧ t.cmp host t' = 0 then 1 else t.cmp host t'
  same t t' := t = t'

theorem exact_exactComparison (host : JsHost) : (exactComparison host).Exact where
  cmp t t' h := by
    by_contra hne
    unfold exactComparison at h
    by_cases hzero : t.cmp host t' = 0
    · simp [hne, hzero] at h
    · simp [hzero] at h
  same t t' h := by simpa [exactComparison] using h

/-! ## Matched expressions are equal -/

theorem ContextKeyTest.type_ne (t : ContextKeyTest) :
    t.type ≠ 0 ∧ t.type ≠ 1 ∧ t.type ≠ 6 ∧ t.type ≠ 9 := by
  cases t <;> simp [ContextKeyTest.type]

def ContextKeyExpression.shape : ContextKeyExpression → Nat
  | .false => 0
  | .true => 1
  | .test _ => 2
  | .and _ => 3
  | .or _ => 4

theorem shape_eq_of_cmp {c : TestComparison} {e e' : ContextKeyExpression}
    (h : e.cmp c e' = 0) : e.shape = e'.shape := by
  by_contra hne
  have htype : e.cmp c e' = e.type - e'.type := by
    cases e <;> cases e' <;> first | rfl | exact absurd rfl hne
  rw [htype] at h
  cases e with
  | test t =>
    have ht := t.type_ne
    cases e' <;> simp only [ContextKeyExpression.shape, not_true_eq_false] at hne <;>
      simp only [ContextKeyExpression.type] at h <;> omega
  | _ =>
    cases e' with
    | test t =>
      have ht := t.type_ne
      simp only [ContextKeyExpression.type] at h
      omega
    | _ =>
      simp only [ContextKeyExpression.type] at h
      first | omega | exact hne rfl

section

variable {c : TestComparison}

mutual

theorem eq_of_cmp (hc : c.Exact) : ∀ {e e' : ContextKeyExpression}, e.cmp c e' = 0 → e = e' := by
  intro e e' h
  have hshape := shape_eq_of_cmp h
  match e, e' with
  | .false, .false => rfl
  | .true, .true => rfl
  | .test t, .test t' => exact congrArg _ (hc.cmp t t' h)
  | .and es, .and es' =>
    unfold ContextKeyExpression.cmp at h
    split at h
    · cases h
    · split at h
      · cases h
      · exact congrArg _ (eq_of_cmpExprs hc (by omega) h)
  | .or es, .or es' =>
    unfold ContextKeyExpression.cmp at h
    split at h
    · cases h
    · split at h
      · cases h
      · exact congrArg _ (eq_of_cmpExprs hc (by omega) h)

theorem eq_of_cmpExprs (hc : c.Exact) : ∀ {es es' : List ContextKeyExpression}, es.length = es'.length →
    cmpExprs c es es' = 0 → es = es'
  | [], [], _, _ => rfl
  | e :: rest, e' :: rest', hlength, h => by
    unfold cmpExprs at h
    split at h
    · rename_i hne
      exact absurd h hne
    · rename_i heq
      have hhead := eq_of_cmp hc (Classical.not_not.mp heq)
      have htail := eq_of_cmpExprs hc (Nat.succ.inj hlength) h
      rw [hhead, htail]

end

mutual

theorem eq_of_equals (hc : c.Exact) : ∀ {e e' : ContextKeyExpression}, e.equals c e' = true → e = e'
  | .false, .false, _ => rfl
  | .true, .true, _ => rfl
  | .test t, .test t', h => congrArg _ (hc.same t t' h)
  | .and es, .and es', h => by
    simp only [ContextKeyExpression.equals, and_eq_true, decide_eq_true_eq] at h
    exact congrArg _ (eq_of_equalsExprs hc h.1 h.2)
  | .or es, .or es', h => by
    simp only [ContextKeyExpression.equals, and_eq_true, decide_eq_true_eq] at h
    exact congrArg _ (eq_of_equalsExprs hc h.1 h.2)

theorem eq_of_equalsExprs (hc : c.Exact) : ∀ {es es' : List ContextKeyExpression}, es.length = es'.length →
    equalsExprs c es es' = true → es = es'
  | [], [], _, _ => rfl
  | e :: rest, e' :: rest', hlength, h => by
    simp only [equalsExprs, and_eq_true] at h
    have hhead := eq_of_equals hc h.1
    have htail := eq_of_equalsExprs hc (Nat.succ.inj hlength) h.2
    rw [hhead, htail]

end

theorem subset_of_allElementsIncluded (hc : c.Exact) {ps qs : List ContextKeyExpression}
    (h : allElementsIncluded c ps qs = true) : ps ⊆ qs := by
  induction qs generalizing ps with
  | nil =>
    cases ps with
    | nil => exact nil_subset _
    | cons p ps => cases h
  | cons q qs ih =>
    cases ps with
    | nil => exact nil_subset _
    | cons p ps =>
      unfold allElementsIncluded at h
      split at h
      · cases h
      · split at h
        · rename_i hzero
          obtain rfl := eq_of_cmp hc hzero
          exact cons_subset_cons p (ih h)
        · exact subset_cons_of_subset q (ih h)

end

/-! ## Implied expressions hold -/

section

variable (host : JsHost) (context : Context)

variable (es : List ContextKeyExpression)

theorem evaluateAll_iff :
    evaluateAll host context es = true ↔ ∀ e ∈ es, e.evaluate host context = true := by
  induction es with
  | nil => simp [evaluateAll]
  | cons e rest ih => simp [evaluateAll, ih]

theorem evaluateAny_iff :
    evaluateAny host context es = true ↔ ∃ e ∈ es, e.evaluate host context = true := by
  induction es with
  | nil => simp [evaluateAny]
  | cons e rest ih => simp [evaluateAny, ih]

theorem evaluate_of_type_one {q : ContextKeyExpression} (h : q.type = 1) :
    q.evaluate host context = true := by
  cases q with
  | true => rfl
  | test t => exact absurd h t.type_ne.2.1
  | _ => cases h

variable {c : TestComparison}

mutual

theorem holds_of_impliesSingle (hc : c.Exact)
    (q : ContextKeyExpression) : ∀ {p : ContextKeyExpression},
    impliesSingle c q p = true → p.evaluate host context = true →
      q.evaluate host context = true := by
  intro p h hp
  match p with
  | .false => cases hp
  | .true =>
    unfold impliesSingle at h
    split at h
    · rename_i htrue
      exact evaluate_of_type_one host context htrue
    · rw [← eq_of_equals hc h]
      exact hp
  | .test t =>
    unfold impliesSingle at h
    split at h
    · rename_i htrue
      exact evaluate_of_type_one host context htrue
    · rw [← eq_of_equals hc h]
      exact hp
  | .or es =>
    unfold impliesSingle at h
    split at h
    · rename_i htrue
      exact evaluate_of_type_one host context htrue
    · cases h
  | .and es =>
    unfold impliesSingle at h
    split at h
    · rename_i htrue
      exact evaluate_of_type_one host context htrue
    · exact holds_of_impliesSingleAny hc q h hp

theorem holds_of_impliesSingleAny (hc : c.Exact)
    (q : ContextKeyExpression) : ∀ {es : List ContextKeyExpression},
    impliesSingleAny c q es = true → evaluateAll host context es = true →
      q.evaluate host context = true
  | [], h, _ => nomatch h
  | e :: rest, h, hall => by
    simp only [impliesSingleAny, or_eq_true] at h
    simp only [evaluateAll, and_eq_true] at hall
    rcases h with h | h
    · exact holds_of_impliesSingle hc q h hall.1
    · exact holds_of_impliesSingleAny hc q h hall.2

end

mutual

theorem holds_of_implies (hc : c.Exact) (p : ContextKeyExpression) : ∀ {q : ContextKeyExpression},
    implies c p q = true → p.evaluate host context = true → q.evaluate host context = true := by
  intro q h hp
  match q with
  | .false => exact holds_of_impliesSingle host context hc .false h hp
  | .true => rfl
  | .test t => exact holds_of_impliesSingle host context hc (.test t) h hp
  | .and qs =>
    unfold implies at h
    split at h
    · cases hp
    · cases h
    · rename_i ps
      rw [ContextKeyExpression.evaluate, evaluateAll_iff] at hp ⊢
      exact fun e he => hp e (subset_of_allElementsIncluded hc h he)
    · rw [← eq_of_equals hc h]
      exact hp
  | .or qs =>
    unfold implies at h
    split at h
    · cases hp
    · rename_i ps
      rw [ContextKeyExpression.evaluate, evaluateAny_iff] at hp ⊢
      obtain ⟨e, he, hholds⟩ := hp
      exact ⟨e, subset_of_allElementsIncluded hc h he, hholds⟩
    · exact holds_of_impliesAny hc p h hp

theorem holds_of_impliesAny (hc : c.Exact)
    (p : ContextKeyExpression) : ∀ {qs : List ContextKeyExpression},
    impliesAny c p qs = true → p.evaluate host context = true → evaluateAny host context qs = true
  | [], h, _ => nomatch h
  | q :: rest, h, hp => by
    simp only [impliesAny, or_eq_true] at h
    simp only [evaluateAny, or_eq_true]
    rcases h with h | h
    · exact .inl (holds_of_implies hc p h hp)
    · exact .inr (holds_of_impliesAny hc p h hp)

end

end

end Fumie.ContextKey
