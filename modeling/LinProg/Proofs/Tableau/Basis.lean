import LinProg.Proofs.Tableau.Feasible
import LinProg.Proofs.Tableau.System

namespace LinProg.Tableau

open Finset

def basis (t : Tableau ℚ) : Finset ℕ := (t.rows.toList.map (·.basic)).toFinset

variable {t₀ t t' : Tableau ℚ} {value : (ℕ → ℚ) → ℚ} {row column : ℕ} {r : BasicRow ℚ}

theorem mem_basis {j : ℕ} :
    j ∈ t.basis ↔ ∃ (i : ℕ) (r : BasicRow ℚ), t.rows[i]? = some r ∧ r.basic = j := by
  simp only [basis, List.mem_toFinset, List.mem_map, Array.mem_toList_iff,
    Array.mem_iff_getElem?, exists_and_right.symm]
  exact exists_comm

theorem basis_subset (h : Canonical t) : t.basis ⊆ range t.width := by
  intro j hj
  obtain ⟨i, r, hr, rfl⟩ := mem_basis.mp hj
  exact mem_range.mpr (h.basic_lt_width hr)

theorem basicAssignment_of_not_mem {j : ℕ} (hj : j ∉ t.basis) : t.basicAssignment j = 0 := by
  apply basicAssignment_of_nonbasic
  intro i r hr hb
  exact hj (mem_basis.mpr ⟨i, r, hr, hb⟩)

theorem Priced.not_mem_basis (hp : t.Priced) {j : ℕ} (hj : t.objective.coefficient j ≠ 0) :
    j ∉ t.basis := by
  intro hmem
  obtain ⟨i, r, hr, rfl⟩ := mem_basis.mp hmem
  exact hj (hp i r hr)

theorem form_of_basic (h : Canonical t) (hr : t.rows[row]? = some r) {x : ℕ → ℚ}
    (hx : ∀ j ∉ t.basis, x j = 0) : r.equation.form x = x r.basic := by
  have hone := h.basis row row r r hr hr
  rw [if_pos rfl] at hone
  rw [Equation.form, h.size_row row r hr, sum_eq_single r.basic, hone, one_mul]
  · intro j _ hj
    by_cases hmem : j ∈ t.basis
    · obtain ⟨i, q, hq, rfl⟩ := mem_basis.mp hmem
      have hne : i ≠ row := by
        rintro rfl
        exact hj (congrArg BasicRow.basic (Option.some_inj.mp (hq.symm.trans hr)))
      rw [h.basis i row q r hq hr, if_neg hne, zero_mul]
    · rw [hx j hmem, mul_zero]
  · intro hlt
    exact absurd (mem_range.mpr (h.basic_lt_width hr)) hlt

theorem eq_basicAssignment (h : Canonical t) {x : ℕ → ℚ} (hx : t.Holds x)
    (hzero : ∀ j ∉ t.basis, x j = 0) : x = t.basicAssignment := by
  funext j
  by_cases hj : j ∈ t.basis
  · obtain ⟨i, r, hr, rfl⟩ := mem_basis.mp hj
    have hrow := hx i r hr
    rw [Equation.residual, form_of_basic h hr hzero, sub_eq_zero] at hrow
    rw [hrow, basicAssignment_basic h hr]
  · rw [hzero j hj, basicAssignment_of_not_mem hj]

theorem Represents.basicAssignment_eq (h : Represents t₀ value t) (h' : Represents t₀ value t')
    (hbasis : t.basis = t'.basis) : t.basicAssignment = t'.basicAssignment := by
  apply eq_basicAssignment h'.canonical
  · exact (h'.holds_iff _).mpr ((h.holds_iff _).mp (holds_basicAssignment h.canonical))
  · intro j hj
    rw [← hbasis] at hj
    exact basicAssignment_of_not_mem hj

theorem Represents.objective_rhs (h : Represents t₀ value t) (hp : t.Priced) :
    -t.objective.rhs = value t.basicAssignment := by
  rw [← h.objective _ (holds_basicAssignment h.canonical), basicAssignment,
    residual_objective_completion h.canonical hp, residual_zero]

theorem mem_basis_pivot (h : Canonical t) (hr : t.rows[row]? = some r) {j : ℕ} :
    j ∈ (t.pivot row column).basis ↔ j = column ∨ j ∈ t.basis ∧ j ≠ r.basic := by
  rw [mem_basis]
  constructor
  · rintro ⟨i, q', hq', rfl⟩
    rcases rows_pivot_cases h hr hq' with ⟨-, rfl⟩ | ⟨q, hq, hi, hb, -, -⟩
    · exact .inl rfl
    · rw [hb]
      refine .inr ⟨mem_basis.mpr ⟨i, q, hq, rfl⟩, fun he ↦ hi ?_⟩
      exact h.basic_injective hq hr he
  · rintro (rfl | ⟨hj, hne⟩)
    · refine ⟨row, ⟨j, pivotEquation r j⟩, ?_, rfl⟩
      rw [getElem?_rows_pivot hr, hr, Option.map_some, pivotedRow_self]
    · obtain ⟨i, q, hq, rfl⟩ := mem_basis.mp hj
      have hi : i ≠ row := by
        rintro rfl
        exact hne (congrArg BasicRow.basic (Option.some_inj.mp (hq.symm.trans hr)))
      refine ⟨i, ⟨q.basic, q.equation.eliminate column (pivotEquation r column)⟩, ?_, rfl⟩
      rw [getElem?_rows_pivot hr, hq, Option.map_some, pivotedRow_of_ne hi]

theorem objective_rhs_pivot (h : Canonical t) (hr : t.rows[row]? = some r) :
    (t.pivot row column).objective.rhs = t.objective.rhs -
      t.objective.coefficient column * (r.equation.rhs / r.equation.coefficient column) :=
  (objective_pivot_eq h hr).1

theorem basicAssignment_pivot (h : Canonical t) (hr : t.rows[row]? = some r)
    (hc : r.equation.coefficient column ≠ 0) (hzero : r.equation.rhs = 0) :
    (t.pivot row column).basicAssignment = t.basicAssignment := by
  symm
  apply eq_basicAssignment (h.pivot hr hc)
  · exact (holds_pivot h hr hc _).mpr (holds_basicAssignment h)
  · intro j hj
    rw [mem_basis_pivot h hr, not_or, not_and_or, not_not] at hj
    rcases hj.2 with hmem | rfl
    · exact basicAssignment_of_not_mem hmem
    · rw [basicAssignment_basic h hr, hzero]

end LinProg.Tableau
