import LinProg.Proofs.Tableau.Equation

namespace LinProg.Tableau

def Holds (t : Tableau ℚ) (x : ℕ → ℚ) : Prop :=
  ∀ (i : ℕ) (r : BasicRow ℚ), t.rows[i]? = some r → r.equation.residual x = 0

instance (t : Tableau ℚ) (x : ℕ → ℚ) : Decidable (t.Holds x) :=
  decidable_of_iff (∀ r ∈ t.rows.toList, r.equation.residual x = 0)
    ⟨fun h _ r hr ↦ h r (Array.mem_toList_iff.mpr (Array.mem_of_getElem? hr)), fun h r hr ↦ by
      obtain ⟨i, hi⟩ := Array.mem_iff_getElem?.mp (Array.mem_toList_iff.mp hr)
      exact h i r hi⟩

/-- The coefficient of a basic variable is one in its own row and zero in the others. -/
structure Canonical (t : Tableau ℚ) : Prop where
  size_row : ∀ (i : ℕ) (r : BasicRow ℚ), t.rows[i]? = some r →
    r.equation.coefficients.size = t.width
  size_objective : t.objective.coefficients.size = t.width
  basis : ∀ (i k : ℕ) (r q : BasicRow ℚ), t.rows[i]? = some r → t.rows[k]? = some q →
    q.equation.coefficient r.basic = if i = k then 1 else 0

namespace Canonical

variable {t : Tableau ℚ}

theorem basic_lt_width (h : Canonical t) {i : ℕ} {r : BasicRow ℚ} (hr : t.rows[i]? = some r) :
    r.basic < t.width := by
  have hone := h.basis i i r r hr hr
  rw [if_pos rfl] at hone
  rw [← h.size_row i r hr]
  exact Equation.lt_size_of_coefficient_ne (by rw [hone]; exact one_ne_zero)

theorem mem_rows (h : Canonical t) {r : BasicRow ℚ} (hr : r ∈ t.rows.toList) :
    ∃ i : ℕ, t.rows[i]? = some r ∧ r.equation.coefficients.size = t.width := by
  obtain ⟨i, hi⟩ := Array.mem_iff_getElem?.mp (Array.mem_toList_iff.mp hr)
  exact ⟨i, hi, h.size_row i r hi⟩

theorem size_eq_of_mem (h : Canonical t) {r : BasicRow ℚ} (hr : r ∈ t.rows.toList)
    {e : Equation ℚ} (he : e.coefficients.size = t.width) :
    r.equation.coefficients.size = e.coefficients.size := by
  obtain ⟨-, -, hsize⟩ := h.mem_rows hr
  exact hsize.trans he.symm

theorem basic_injective (h : Canonical t) {i k : ℕ} {r q : BasicRow ℚ}
    (hr : t.rows[i]? = some r) (hq : t.rows[k]? = some q) (hb : r.basic = q.basic) : i = k := by
  by_contra hik
  have hzero := h.basis i k r q hr hq
  have hone := h.basis k k q q hq hq
  rw [if_neg hik, hb] at hzero
  rw [if_pos rfl, hzero] at hone
  exact zero_ne_one hone

end Canonical

def pivotEquation (r : BasicRow ℚ) (column : ℕ) : Equation ℚ :=
  r.equation.divide (r.equation.coefficient column)

def pivotedRow (p : Equation ℚ) (row column i : ℕ) (q : BasicRow ℚ) : BasicRow ℚ :=
  if i = row then ⟨column, p⟩ else ⟨q.basic, q.equation.eliminate column p⟩

variable {t : Tableau ℚ} {row column : ℕ} {r : BasicRow ℚ}

theorem pivot_eq (hr : t.rows[row]? = some r) :
    t.pivot row column =
      { t with
        rows := t.rows.mapIdx (pivotedRow (pivotEquation r column) row column)
        objective := t.objective.eliminate column (pivotEquation r column) } := by
  simp only [pivot, hr]
  rfl

theorem getElem?_rows_pivot (hr : t.rows[row]? = some r) (i : ℕ) :
    (t.pivot row column).rows[i]? =
      t.rows[i]?.map (pivotedRow (pivotEquation r column) row column i) := by
  rw [pivot_eq hr, Array.getElem?_mapIdx]

theorem objective_pivot (hr : t.rows[row]? = some r) :
    (t.pivot row column).objective = t.objective.eliminate column (pivotEquation r column) := by
  rw [pivot_eq hr]

theorem pivotedRow_of_ne {p : Equation ℚ} {i : ℕ} {q : BasicRow ℚ} (hi : i ≠ row) :
    pivotedRow p row column i q = ⟨q.basic, q.equation.eliminate column p⟩ := if_neg hi

theorem pivotedRow_self {p : Equation ℚ} {q : BasicRow ℚ} :
    pivotedRow p row column row q = ⟨column, p⟩ := if_pos rfl

theorem coefficient_pivotEquation_self (hc : r.equation.coefficient column ≠ 0) :
    (pivotEquation r column).coefficient column = 1 := by
  rw [pivotEquation, Equation.coefficient_divide, div_self hc]

theorem Canonical.size_pivotEquation (h : Canonical t) (hr : t.rows[row]? = some r) :
    (pivotEquation r column).coefficients.size = t.width := by
  rw [pivotEquation, Equation.size_divide, h.size_row row r hr]

theorem objective_pivot_eq (h : Canonical t) (hr : t.rows[row]? = some r) :
    (t.pivot row column).objective.rhs =
        t.objective.rhs - t.objective.coefficient column * (pivotEquation r column).rhs ∧
      ∀ j, (t.pivot row column).objective.coefficient j = t.objective.coefficient j -
        t.objective.coefficient column * (pivotEquation r column).coefficient j := by
  have hsize : (pivotEquation r column).coefficients.size = t.objective.coefficients.size := by
    rw [h.size_pivotEquation hr, h.size_objective]
  rw [objective_pivot hr]
  exact (Equation.eliminate_eq hsize column).2

theorem rows_pivot_cases (h : Canonical t) (hr : t.rows[row]? = some r) {i : ℕ} {q' : BasicRow ℚ}
    (hq' : (t.pivot row column).rows[i]? = some q') :
    (i = row ∧ q' = ⟨column, pivotEquation r column⟩) ∨
    ∃ q, t.rows[i]? = some q ∧ i ≠ row ∧ q'.basic = q.basic ∧
      q'.equation.rhs =
        q.equation.rhs - q.equation.coefficient column * (pivotEquation r column).rhs ∧
      ∀ j, q'.equation.coefficient j = q.equation.coefficient j -
        q.equation.coefficient column * (pivotEquation r column).coefficient j := by
  rw [getElem?_rows_pivot hr, Option.map_eq_some_iff] at hq'
  obtain ⟨q, hq, rfl⟩ := hq'
  by_cases hi : i = row
  · subst hi
    exact .inl ⟨rfl, pivotedRow_self⟩
  · have hsize : (pivotEquation r column).coefficients.size = q.equation.coefficients.size := by
      rw [h.size_pivotEquation hr, h.size_row i q hq]
    obtain ⟨-, hrhs, hcoeff⟩ := Equation.eliminate_eq hsize column
    rw [pivotedRow_of_ne hi]
    exact .inr ⟨q, hq, hi, rfl, hrhs, hcoeff⟩

theorem holds_pivot (h : Canonical t) (hr : t.rows[row]? = some r)
    (hc : r.equation.coefficient column ≠ 0) (x : ℕ → ℚ) :
    (t.pivot row column).Holds x ↔ t.Holds x := by
  have hp : (pivotEquation r column).residual x =
      r.equation.residual x / r.equation.coefficient column :=
    Equation.residual_divide _ _ _
  have hsize (i : ℕ) (q : BasicRow ℚ) (hq : t.rows[i]? = some q) :
      (pivotEquation r column).coefficients.size = q.equation.coefficients.size := by
    rw [h.size_pivotEquation hr, h.size_row i q hq]
  constructor
  · intro hx
    have hzero : r.equation.residual x = 0 := by
      have hrow := hx row _ (by rw [getElem?_rows_pivot hr, hr, Option.map_some])
      rw [pivotedRow_self, hp, div_eq_zero_iff] at hrow
      exact hrow.resolve_right hc
    intro i q hq
    by_cases hi : i = row
    · subst hi
      rw [hr, Option.some_inj] at hq
      rwa [← hq]
    · have hrow := hx i _ (by rw [getElem?_rows_pivot hr, hq, Option.map_some])
      rw [pivotedRow_of_ne hi, Equation.residual_eliminate (hsize i q hq), hp, hzero] at hrow
      simpa using hrow
  · intro hx i q' hq'
    rw [getElem?_rows_pivot hr, Option.map_eq_some_iff] at hq'
    obtain ⟨q, hq, rfl⟩ := hq'
    have hzero := hx row r hr
    by_cases hi : i = row
    · subst hi
      rw [pivotedRow_self, hp, hzero, zero_div]
    · rw [pivotedRow_of_ne hi, Equation.residual_eliminate (hsize i q hq), hp, hzero, hx i q hq]
      ring

theorem residual_objective_pivot (h : Canonical t) (hr : t.rows[row]? = some r) {x : ℕ → ℚ}
    (hx : t.Holds x) : (t.pivot row column).objective.residual x = t.objective.residual x := by
  have hsize : (pivotEquation r column).coefficients.size = t.objective.coefficients.size := by
    rw [h.size_pivotEquation hr, h.size_objective]
  rw [objective_pivot hr, Equation.residual_eliminate hsize, pivotEquation,
    Equation.residual_divide, hx row r hr]
  ring

theorem Canonical.pivot (h : Canonical t) (hr : t.rows[row]? = some r)
    (hc : r.equation.coefficient column ≠ 0) : Canonical (t.pivot row column) := by
  have hone := coefficient_pivotEquation_self hc
  have hzero {i : ℕ} {p : BasicRow ℚ} (hp : t.rows[i]? = some p) (hi : i ≠ row) :
      (pivotEquation r column).coefficient p.basic = 0 := by
    rw [pivotEquation, Equation.coefficient_divide, h.basis i row p r hp hr, if_neg hi, zero_div]
  refine ⟨?_, ?_, ?_⟩
  · intro i q' hq'
    rw [getElem?_rows_pivot hr, Option.map_eq_some_iff] at hq'
    obtain ⟨q, hq, rfl⟩ := hq'
    rw [width_pivot]
    by_cases hi : i = row
    · subst hi
      rw [pivotedRow_self, h.size_pivotEquation hr]
    · have hsize : (pivotEquation r column).coefficients.size = q.equation.coefficients.size := by
        rw [h.size_pivotEquation hr, h.size_row i q hq]
      rw [pivotedRow_of_ne hi, (Equation.eliminate_eq hsize column).1, h.size_row i q hq]
  · have hobj : (pivotEquation r column).coefficients.size = t.objective.coefficients.size := by
      rw [h.size_pivotEquation hr, h.size_objective]
    rw [width_pivot, objective_pivot hr, (Equation.eliminate_eq hobj column).1, h.size_objective]
  · intro i k p' q' hp' hq'
    rcases rows_pivot_cases h hr hq' with ⟨rfl, rfl⟩ | ⟨q, hq, hk, -, -, hcoeff⟩
    · rcases rows_pivot_cases h hr hp' with ⟨rfl, rfl⟩ | ⟨p, hp, hi, hb, -, -⟩
      · rw [if_pos rfl]
        exact hone
      · rw [hb, if_neg hi]
        exact hzero hp hi
    · rw [hcoeff]
      rcases rows_pivot_cases h hr hp' with ⟨rfl, rfl⟩ | ⟨p, hp, hi, hb, -, -⟩
      · rw [hone, if_neg (Ne.symm hk)]
        ring
      · rw [hb, hzero hp hi, h.basis i k p q hp hq]
        ring

end LinProg.Tableau
