import Mathlib.Algebra.Order.BigOperators.Group.Finset
import LinProg.Proofs.Tableau.BasicPoint

namespace LinProg.Tableau

open Finset

def RhsNonneg (t : Tableau ℚ) : Prop :=
  ∀ (i : ℕ) (r : BasicRow ℚ), t.rows[i]? = some r → 0 ≤ r.equation.rhs

variable {t : Tableau ℚ} {row column : ℕ} {r : BasicRow ℚ}

theorem RhsNonneg.pivot (h : Canonical t) (hrhs : t.RhsNonneg) (hr : t.rows[row]? = some r)
    (hpos : 0 < r.equation.coefficient column)
    (hmin : ∀ (i : ℕ) (q : BasicRow ℚ), t.rows[i]? = some q → 0 < q.equation.coefficient column →
      r.equation.rhs / r.equation.coefficient column ≤
        q.equation.rhs / q.equation.coefficient column) :
    (t.pivot row column).RhsNonneg := by
  have hratio : 0 ≤ r.equation.rhs / r.equation.coefficient column :=
    div_nonneg (hrhs row r hr) hpos.le
  intro i q' hq'
  rcases rows_pivot_cases h hr hq' with ⟨-, rfl⟩ | ⟨q, hq, -, -, he, -⟩
  · exact hratio
  · have hle : q.equation.coefficient column *
        (r.equation.rhs / r.equation.coefficient column) ≤ q.equation.rhs := by
      rcases le_or_gt (q.equation.coefficient column) 0 with hn | hp
      · exact (mul_nonpos_of_nonpos_of_nonneg hn hratio).trans (hrhs i q hq)
      · rw [mul_comm]
        exact (le_div_iff₀ hp).mp (hmin i q hq hp)
    rw [he]
    exact sub_nonneg.mpr hle

theorem RhsNonneg.pivot_of_rhs_eq_zero (h : Canonical t) (hrhs : t.RhsNonneg)
    (hr : t.rows[row]? = some r) (hzero : r.equation.rhs = 0) :
    (t.pivot row column).RhsNonneg := by
  have hp : (pivotEquation r column).rhs = 0 := by
    rw [pivotEquation, Equation.divide]
    simp [hzero]
  intro i q' hq'
  rcases rows_pivot_cases h hr hq' with ⟨-, rfl⟩ | ⟨q, hq, -, -, he, -⟩
  · exact hp.ge
  · rw [he, hp, mul_zero, sub_zero]
    exact hrhs i q hq

theorem PricedWithin.pivot {tolerance : ℚ} (h : Canonical t) (hp : t.PricedWithin tolerance)
    (hr : t.rows[row]? = some r) (hc : r.equation.coefficient column ≠ 0) :
    (t.pivot row column).PricedWithin tolerance := by
  intro i q' hq'
  rw [(objective_pivot_eq h hr).2]
  rcases rows_pivot_cases h hr hq' with ⟨-, rfl⟩ | ⟨q, hq, hi, hb, -, -⟩
  · rw [coefficient_pivotEquation_self hc, mul_one, sub_self, abs_zero]
    exact (abs_nonneg _).trans (hp row r hr)
  -- the pivot row has no entry for the variables basic elsewhere, so their costs stay
  · rw [hb, pivotEquation, Equation.coefficient_divide, h.basis i row q r hq hr, if_neg hi,
      zero_div, mul_zero, sub_zero]
    exact hp i q hq

theorem Priced.pivot (h : Canonical t) (hp : t.Priced) (hr : t.rows[row]? = some r)
    (hc : r.equation.coefficient column ≠ 0) : (t.pivot row column).Priced :=
  pricedWithin_zero.mp ((pricedWithin_zero.mpr hp).pivot h hr hc)

theorem basicAssignment_nonneg (h : Canonical t) (hrhs : t.RhsNonneg) (j : ℕ) :
    0 ≤ t.basicAssignment j := by
  by_cases hb : ∃ (i : ℕ) (r : BasicRow ℚ), t.rows[i]? = some r ∧ r.basic = j
  · obtain ⟨i, r, hr, rfl⟩ := hb
    rw [basicAssignment_basic h hr]
    exact hrhs i r hr
  · rw [basicAssignment_of_nonbasic fun i r hr hj ↦ hb ⟨i, r, hr, hj⟩]

theorem le_residual_objective_basicAssignment {tolerance : ℚ} (h : Canonical t)
    (hp : t.PricedWithin tolerance) :
    -t.objective.rhs - tolerance * t.basicTotal ≤ t.objective.residual t.basicAssignment := by
  have hterm (i : Fin t.rows.size) :
      t.objective.coefficient t.rows[i].basic * t.rows[i].equation.residual (fun _ ↦ 0) ≤
        tolerance * |t.rows[i].equation.rhs| := by
    rw [residual_zero, mul_neg]
    calc -(t.objective.coefficient t.rows[i].basic * t.rows[i].equation.rhs)
        ≤ |t.objective.coefficient t.rows[i].basic| * |t.rows[i].equation.rhs| := by
          rw [← abs_mul]
          exact neg_le_abs _
      _ ≤ tolerance * |t.rows[i].equation.rhs| :=
          mul_le_mul_of_nonneg_right (hp i _ (Array.getElem?_eq_getElem i.isLt)) (abs_nonneg _)
  have hsum := sum_le_sum fun i (_ : i ∈ univ) ↦ hterm i
  have hzero : t.objective.form (fun _ ↦ 0) = 0 := by simp [Equation.form]
  rw [← mul_sum] at hsum
  rw [basicAssignment, Equation.residual, form_completion h h.size_objective, hzero]
  unfold basicTotal
  linarith

/-- Where the objective row is positive by no more than a tolerance, no point has an objective
that exceeds the basic one by more than the tolerance for each unit of the variables. -/
theorem residual_objective_le_within {tolerance : ℚ} (h : Canonical t)
    (hp : t.PricedWithin tolerance) {x : ℕ → ℚ}
    (hx : ∀ j < t.width, t.objective.coefficient j * x j ≤ tolerance * x j) :
    t.objective.residual x ≤ t.objective.residual t.basicAssignment +
      tolerance * (∑ j ∈ range t.width, x j + t.basicTotal) := by
  have hform : t.objective.form x ≤ tolerance * ∑ j ∈ range t.width, x j := by
    rw [Equation.form, h.size_objective, mul_sum]
    exact sum_le_sum fun j hj ↦ hx j (mem_range.mp hj)
  have hbasic := le_residual_objective_basicAssignment h hp
  rw [Equation.residual]
  linarith

theorem residual_objective_le (h : Canonical t) (hp : t.Priced) {x : ℕ → ℚ}
    (hx : ∀ j < t.width, t.objective.coefficient j * x j ≤ 0) :
    t.objective.residual x ≤ t.objective.residual t.basicAssignment := by
  have hle := residual_objective_le_within h (pricedWithin_zero.mpr hp) fun j hj ↦
    (hx j hj).trans_eq (zero_mul (x j)).symm
  rwa [zero_mul, add_zero] at hle

/-- The solution in which a non-basic variable has grown from zero. -/
def ray (t : Tableau ℚ) (column : ℕ) (amount : ℚ) : ℕ → ℚ :=
  t.completion fun j ↦ if j = column then amount else 0

theorem holds_ray (h : Canonical t) (column : ℕ) (amount : ℚ) : t.Holds (t.ray column amount) :=
  holds_completion h _

theorem residual_ite (e : Equation ℚ) (amount : ℚ) :
    e.residual (fun j ↦ if j = column then amount else 0) =
      e.coefficient column * amount - e.rhs := by
  rw [Equation.residual, Equation.form]
  simp only [mul_ite, mul_zero, sum_ite_eq', mem_range]
  split_ifs with hlt
  · rfl
  · rw [Equation.coefficient_of_le (Nat.le_of_not_lt hlt), zero_mul]

theorem ray_basic (h : Canonical t) {i : ℕ} (hr : t.rows[i]? = some r) (hb : r.basic ≠ column)
    (amount : ℚ) : t.ray column amount r.basic =
      r.equation.rhs - r.equation.coefficient column * amount := by
  rw [ray, completion_basic h hr (if_neg hb), residual_ite]
  ring

theorem ray_of_nonbasic {j : ℕ} {amount : ℚ}
    (hj : ∀ (i : ℕ) (r : BasicRow ℚ), t.rows[i]? = some r → r.basic ≠ j) :
    t.ray column amount j = if j = column then amount else 0 := completion_of_nonbasic hj

theorem Priced.basic_ne (hp : t.Priced) (hc : t.objective.coefficient column ≠ 0) {i : ℕ}
    (hr : t.rows[i]? = some r) : r.basic ≠ column := by
  rintro rfl
  exact hc (hp i r hr)

theorem ray_nonneg (h : Canonical t) (hrhs : t.RhsNonneg) (hp : t.Priced)
    (hc : t.objective.coefficient column ≠ 0)
    (hentries : ∀ (i : ℕ) (r : BasicRow ℚ), t.rows[i]? = some r →
      r.equation.coefficient column ≤ 0) {amount : ℚ} (ha : 0 ≤ amount) (j : ℕ) :
    0 ≤ t.ray column amount j := by
  by_cases hb : ∃ (i : ℕ) (r : BasicRow ℚ), t.rows[i]? = some r ∧ r.basic = j
  · obtain ⟨i, r, hr, rfl⟩ := hb
    have hnonpos := mul_nonpos_of_nonpos_of_nonneg (hentries i r hr) ha
    have hnonneg := hrhs i r hr
    rw [ray_basic h hr (hp.basic_ne hc hr)]
    linarith
  · rw [ray_of_nonbasic fun i r hr hj ↦ hb ⟨i, r, hr, hj⟩]
    split_ifs
    · exact ha
    · exact le_rfl

def rayDirection (t : Tableau ℚ) (column j : ℕ) : ℚ := t.ray column 1 j - t.ray column 0 j

theorem ray_eq (h : Canonical t) (hp : t.Priced) (hc : t.objective.coefficient column ≠ 0)
    (amount : ℚ) (j : ℕ) :
    t.ray column amount j = t.ray column 0 j + amount * t.rayDirection column j := by
  unfold rayDirection
  by_cases hb : ∃ (i : ℕ) (r : BasicRow ℚ), t.rows[i]? = some r ∧ r.basic = j
  · obtain ⟨i, r, hr, rfl⟩ := hb
    simp only [ray_basic h hr (hp.basic_ne hc hr)]
    ring
  · simp only [ray_of_nonbasic fun i r hr hj ↦ hb ⟨i, r, hr, hj⟩]
    split_ifs <;> ring

theorem residual_objective_ray (h : Canonical t) (hp : t.Priced) (amount : ℚ) :
    t.objective.residual (t.ray column amount) =
      t.objective.coefficient column * amount - t.objective.rhs := by
  rw [ray, residual_objective_completion h hp, residual_ite]

theorem exists_ray_gt (h : Canonical t) (hp : t.Priced)
    (hc : 0 < t.objective.coefficient column) (bound : ℚ) :
    ∃ amount, 0 ≤ amount ∧ bound < t.objective.residual (t.ray column amount) := by
  refine ⟨max 0 ((bound + t.objective.rhs + 1) / t.objective.coefficient column),
    le_max_left _ _, ?_⟩
  have hle := mul_le_mul_of_nonneg_left (le_max_right 0
    ((bound + t.objective.rhs + 1) / t.objective.coefficient column)) hc.le
  rw [mul_div_cancel₀ _ hc.ne'] at hle
  rw [residual_objective_ray h hp]
  linarith

end LinProg.Tableau
