import LinProg.Proofs.Tableau.Feasible
import LinProg.Proofs.Tableau.System

namespace LinProg.Tableau

open Finset

variable {t₀ t t' : Tableau ℚ} {value : (ℕ → ℚ) → ℚ}

theorem Represents.residual_objective_eq (h : Represents t₀ value t) (hp : t.Priced)
    (h' : Represents t₀ value t') (free : ℕ → ℚ) :
    t'.objective.residual free = t.objective.residual free +
      t.sumRows fun r ↦ t'.objective.coefficient r.basic * r.equation.residual free := by
  have hx := holds_completion h.canonical free
  have hx' := (h'.holds_iff _).mpr ((h.holds_iff _).mp hx)
  have hsize : t'.objective.coefficients.size = t.width := by
    rw [h'.canonical.size_objective, h'.width, h.width]
  have hown := h.objective _ hx
  have hother := h'.objective _ hx'
  rw [residual_objective_completion h.canonical hp] at hown
  rw [Equation.residual, form_completion h.canonical hsize, ← hown] at hother
  rw [Equation.residual, sumRows]
  linarith

theorem Represents.reducedCost_eq (h : Represents t₀ value t) (hp : t.Priced)
    (h' : Represents t₀ value t') (j : ℕ) :
    t'.objective.coefficient j = t.objective.coefficient j +
      t.sumRows fun r ↦ t'.objective.coefficient r.basic * r.equation.coefficient j := by
  have hone := h.residual_objective_eq hp h' fun k ↦ if k = j then 1 else 0
  have hzero := h.residual_objective_eq hp h' fun k ↦ if k = j then 0 else 0
  simp only [sumRows, residual_ite, mul_one, mul_zero, zero_sub, mul_sub, sum_sub_distrib, mul_neg,
    sum_neg_distrib] at hone hzero
  rw [sumRows]
  linarith

/-- Where a cost is positive in one tableau and not in the other, some row tells the two apart. -/
theorem Represents.exists_mul_neg (h : Represents t₀ value t) (hp : t.Priced)
    (h' : Represents t₀ value t') {j : ℕ} (hpos : 0 < t.objective.coefficient j)
    (hle : t'.objective.coefficient j ≤ 0) :
    ∃ (i : ℕ) (r : BasicRow ℚ), t.rows[i]? = some r ∧
      t'.objective.coefficient r.basic * r.equation.coefficient j < 0 := by
  rw [h.reducedCost_eq hp h', sumRows] at hle
  obtain ⟨i, -, hi⟩ := exists_lt_of_sum_lt (s := univ) (g := fun _ ↦ (0 : ℚ))
    (f := fun i : Fin t.rows.size ↦
      t'.objective.coefficient t.rows[i].basic * t.rows[i].equation.coefficient j)
    (by rw [sum_const_zero]; linarith)
  exact ⟨i, _, Array.getElem?_eq_getElem i.isLt, hi⟩

end LinProg.Tableau
