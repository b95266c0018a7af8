import Mathlib.Algebra.BigOperators.Group.Finset.Sigma
import LinProg.Proofs.Tableau.Pivot

namespace LinProg.Tableau

open Finset

/-- The solution that continues values of the non-basic variables, which are given as an
assignment that is zero at the basic ones. -/
def completion (t : Tableau ℚ) (free : ℕ → ℚ) (j : ℕ) : ℚ :=
  free j + ∑ i : Fin t.rows.size,
    if t.rows[i].basic = j then -t.rows[i].equation.residual free else 0

def sumRows (t : Tableau ℚ) (f : BasicRow ℚ → ℚ) : ℚ := ∑ i : Fin t.rows.size, f t.rows[i]

variable {t : Tableau ℚ} {free : ℕ → ℚ}

theorem form_completion (h : Canonical t) {e : Equation ℚ} (he : e.coefficients.size = t.width) :
    e.form (t.completion free) = e.form free -
      ∑ i : Fin t.rows.size, e.coefficient t.rows[i].basic * t.rows[i].equation.residual free := by
  have hlt (i : Fin t.rows.size) : t.rows[i].basic ∈ range t.width :=
    mem_range.mpr (h.basic_lt_width (Array.getElem?_eq_getElem i.isLt))
  simp only [Equation.form, completion, he, mul_add, sum_add_distrib, mul_sum]
  rw [sum_comm, sub_eq_add_neg, ← sum_neg_distrib]
  congr 1
  refine sum_congr rfl fun i _ ↦ ?_
  simp only [mul_ite, mul_zero]
  rw [sum_ite_eq, if_pos (hlt i), mul_neg]

theorem completion_basic (h : Canonical t) {i : ℕ} {r : BasicRow ℚ} (hr : t.rows[i]? = some r)
    (hfree : free r.basic = 0) : t.completion free r.basic = -r.equation.residual free := by
  obtain ⟨hi, rfl⟩ := Array.getElem?_eq_some_iff.mp hr
  rw [completion, hfree, zero_add, sum_eq_single (⟨i, hi⟩ : Fin t.rows.size)]
  · exact if_pos rfl
  · intro k _ hk
    refine if_neg fun hb ↦ hk (Fin.ext ?_)
    exact h.basic_injective (Array.getElem?_eq_getElem k.isLt) hr hb
  · intro hk
    exact absurd (mem_univ _) hk

theorem completion_of_nonbasic {j : ℕ}
    (hj : ∀ (i : ℕ) (r : BasicRow ℚ), t.rows[i]? = some r → r.basic ≠ j) :
    t.completion free j = free j := by
  rw [completion, sum_eq_zero, add_zero]
  intro i _
  exact if_neg (hj i _ (Array.getElem?_eq_getElem i.isLt))

theorem holds_completion (h : Canonical t) (free : ℕ → ℚ) : t.Holds (t.completion free) := by
  intro k q hq
  obtain ⟨hk, rfl⟩ := Array.getElem?_eq_some_iff.mp hq
  rw [Equation.residual, form_completion h (h.size_row k _ hq),
    sum_eq_single (⟨k, hk⟩ : Fin t.rows.size)]
  · have hone := h.basis k k _ _ hq hq
    rw [if_pos rfl] at hone
    simp only [Fin.getElem_fin]
    rw [hone, Equation.residual]
    ring
  · intro i _ hi
    have hzero := h.basis i k _ _ (Array.getElem?_eq_getElem i.isLt) hq
    rw [if_neg fun he ↦ hi (Fin.ext he)] at hzero
    simp only [Fin.getElem_fin]
    rw [hzero, zero_mul]
  · intro hi
    exact absurd (mem_univ _) hi

def Priced (t : Tableau ℚ) : Prop :=
  ∀ (i : ℕ) (r : BasicRow ℚ), t.rows[i]? = some r → t.objective.coefficient r.basic = 0

/-- No basic variable has a coefficient in the objective beyond a tolerance. -/
def PricedWithin (tolerance : ℚ) (t : Tableau ℚ) : Prop :=
  ∀ (i : ℕ) (r : BasicRow ℚ), t.rows[i]? = some r → |t.objective.coefficient r.basic| ≤ tolerance

theorem pricedWithin_zero : t.PricedWithin 0 ↔ t.Priced :=
  forall₂_congr fun _ _ ↦ imp_congr_right fun _ ↦ abs_nonpos_iff

theorem Priced.within (hp : t.Priced) {tolerance : ℚ} (ht : 0 ≤ tolerance) :
    t.PricedWithin tolerance :=
  fun i r hr ↦ (pricedWithin_zero.mpr hp i r hr).trans ht

theorem residual_objective_completion (h : Canonical t) (hp : t.Priced) :
    t.objective.residual (t.completion free) = t.objective.residual free := by
  rw [Equation.residual, form_completion h h.size_objective, sum_eq_zero, sub_zero,
    Equation.residual]
  intro i _
  have hzero := hp i _ (Array.getElem?_eq_getElem i.isLt)
  simp only [Fin.getElem_fin]
  rw [hzero, zero_mul]

/-- The solution that is zero at all non-basic variables. -/
def basicAssignment (t : Tableau ℚ) : ℕ → ℚ := t.completion fun _ ↦ 0

theorem holds_basicAssignment (h : Canonical t) : t.Holds t.basicAssignment :=
  holds_completion h _

theorem residual_zero (e : Equation ℚ) : e.residual (fun _ ↦ 0) = -e.rhs := by
  simp [Equation.residual, Equation.form]

theorem basicAssignment_basic (h : Canonical t) {i : ℕ} {r : BasicRow ℚ}
    (hr : t.rows[i]? = some r) : t.basicAssignment r.basic = r.equation.rhs := by
  rw [basicAssignment, completion_basic h hr rfl, residual_zero, neg_neg]

theorem basicAssignment_of_nonbasic {j : ℕ}
    (hj : ∀ (i : ℕ) (r : BasicRow ℚ), t.rows[i]? = some r → r.basic ≠ j) :
    t.basicAssignment j = 0 := completion_of_nonbasic hj

def basicTotal (t : Tableau ℚ) : ℚ := ∑ i : Fin t.rows.size, |t.rows[i].equation.rhs|

theorem getElem?_foldl_set (l : List (BasicRow ℚ)) (v : Array ℚ) {j : ℕ} (hj : j < v.size) :
    ((∀ r ∈ l, r.basic ≠ j) →
      (l.foldl (fun v r ↦ v.setIfInBounds r.basic r.equation.rhs) v)[j]? = v[j]?) ∧
    ∀ c, (∃ r ∈ l, r.basic = j) → (∀ r ∈ l, r.basic = j → r.equation.rhs = c) →
      (l.foldl (fun v r ↦ v.setIfInBounds r.basic r.equation.rhs) v)[j]? = some c := by
  induction l generalizing v with
  | nil => simp
  | cons r l ih =>
    obtain ⟨hnone, hsome⟩ := ih (v.setIfInBounds r.basic r.equation.rhs) (by simpa using hj)
    rw [List.foldl_cons]
    constructor
    · intro hall
      rw [hnone fun q hq ↦ hall q (List.mem_cons_of_mem r hq)]
      exact Array.getElem?_setIfInBounds_ne (hall r List.mem_cons_self)
    · intro c hex hc
      by_cases hl : ∃ q ∈ l, q.basic = j
      · exact hsome c hl fun q hq ↦ hc q (List.mem_cons_of_mem r hq)
      · have hb : r.basic = j := by
          obtain ⟨q, hq, hqj⟩ := hex
          rcases List.mem_cons.mp hq with rfl | hq
          · exact hqj
          · exact absurd ⟨q, hq, hqj⟩ hl
        rw [hnone fun q hq hqj ↦ hl ⟨q, hq, hqj⟩, hb, hc r List.mem_cons_self hb]
        exact Array.getElem?_setIfInBounds_self_of_lt hj

theorem basicPoint_eq (h : Canonical t) :
    t.basicPoint = (List.range t.numVars).map t.basicAssignment := by
  have hsize (l : List (BasicRow ℚ)) (v : Array ℚ) :
      (l.foldl (fun v r ↦ v.setIfInBounds r.basic r.equation.rhs) v).size = v.size := by
    induction l generalizing v with
    | nil => rfl
    | cons r l ih => rw [List.foldl_cons, ih, Array.size_setIfInBounds]
  rw [basicPoint, ← Array.foldl_toList]
  apply List.ext_getElem?
  intro j
  rw [Array.getElem?_toList, List.getElem?_map]
  by_cases hj : j < t.numVars
  · obtain ⟨hnone, hsome⟩ :=
      getElem?_foldl_set t.rows.toList (Array.replicate t.numVars 0) (by simpa using hj)
    rw [List.getElem?_range hj, Option.map_some]
    by_cases hb : ∃ r ∈ t.rows.toList, r.basic = j
    · obtain ⟨r, hr, rfl⟩ := hb
      obtain ⟨i, hi, -⟩ := h.mem_rows hr
      rw [basicAssignment_basic h hi]
      refine hsome _ ⟨r, hr, rfl⟩ fun q hq hqr ↦ ?_
      obtain ⟨k, hk, -⟩ := h.mem_rows hq
      obtain rfl := h.basic_injective hk hi hqr
      rw [Option.some_inj.mp (hk.symm.trans hi)]
    · rw [hnone fun r hr hrj ↦ hb ⟨r, hr, hrj⟩, basicAssignment_of_nonbasic]
      · simp [hj]
      · intro i r hi hrj
        exact hb ⟨r, Array.mem_toList_iff.mpr (Array.mem_of_getElem? hi), hrj⟩
  · rw [Array.getElem?_eq_none, List.getElem?_eq_none]
    · rfl
    · simpa using hj
    · rw [hsize]
      simpa using hj

end LinProg.Tableau
