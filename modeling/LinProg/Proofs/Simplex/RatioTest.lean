import LinProg.Proofs.Simplex.PivotChoice
import LinProg.Proofs.Tableau.Pivot

namespace LinProg.Simplex

variable {t : Tableau ℚ} {tolerance : ℚ} {column : ℕ} {leaving : Leaving ℚ}

theorem ratio_eq (column : ℕ) (r : BasicRow ℚ) :
    ratio column r = max 0 r.equation.rhs / r.equation.coefficient column := by
  rw [ratio, Scalar.positivePart_rat]

theorem leavingRow_eq_none_iff :
    leavingRow t tolerance column = none ↔
      ∀ r ∈ t.rows, r.equation.coefficient column ≤ tolerance := by
  constructor
  · intro h r hr
    obtain ⟨i, hi⟩ := Array.mem_iff_getElem?.mp hr
    exact entry_le_of_leavingRow h hi
  · intro h
    cases hrow : leavingRow t tolerance column with
    | none => rfl
    | some leaving =>
      obtain ⟨r, hr, hentry, -⟩ := admits_of_leavingRow hrow
      exact absurd hentry (not_lt_of_ge (h r (Array.mem_of_getElem? hr)))

theorem ratio_le_add_of_leavingRow (ht : 0 ≤ tolerance)
    (h : leavingRow t tolerance column = some leaving) {i : ℕ} {r : BasicRow ℚ}
    (hr : t.rows[i]? = some r) (hentry : tolerance < r.equation.coefficient column) :
    leaving.ratio ≤ ratio column r + t.rows.size * tolerance := by
  have hle := foldl_considerRow_le_add ht column _ leaving h (r, i) (mem_zipIdx_rows.mpr hr) hentry
  rwa [List.length_zipIdx, Array.length_toList] at hle

theorem rhs_pivotEquation_le (ht : 0 ≤ tolerance) {q : BasicRow ℚ}
    (hq : leaving.Admits tolerance column q) :
    (Tableau.pivotEquation q column).rhs ≤ leaving.ratio := by
  obtain ⟨hentry, -, hratio⟩ := hq
  rw [hratio, ratio_eq, Tableau.pivotEquation, Equation.divide]
  exact div_le_div_of_nonneg_right (le_max_right _ _) (ht.trans_lt hentry).le

/-- A pivot with a ratio above that of another row lowers this row below zero by the excess times
its entry. -/
theorem neg_le_rhs_eliminate {e p : Equation ℚ} {excess : ℚ} (hentry : 0 < e.coefficient column)
    (hp : p.rhs ≤ e.rhs / e.coefficient column + excess) :
    -(excess * e.coefficient column) ≤ (e.eliminate column p).rhs := by
  have hle := mul_le_mul_of_nonneg_left hp hentry.le
  rw [mul_add, mul_div_cancel₀ _ hentry.ne'] at hle
  rw [Equation.rhs_eliminate]
  linarith only [hle]

theorem neg_le_rhs_pivot (ht : 0 ≤ tolerance) (h : leavingRow t tolerance column = some leaving)
    {i : ℕ} {r : BasicRow ℚ} (hi : i ≠ leaving.row) (hr : t.rows[i]? = some r)
    (hrhs : 0 ≤ r.equation.rhs) (hentry : tolerance < r.equation.coefficient column) :
    ∃ r', (t.pivot leaving.row column).rows[i]? = some r' ∧ r'.basic = r.basic ∧
      -(t.rows.size * tolerance * r.equation.coefficient column) ≤ r'.equation.rhs := by
  obtain ⟨q, hq, hadmits⟩ := admits_of_leavingRow h
  have hrow : (t.pivot leaving.row column).rows[i]? =
      some ⟨r.basic, r.equation.eliminate column (Tableau.pivotEquation q column)⟩ := by
    rw [Tableau.getElem?_rows_pivot hq, hr, Option.map_some, Tableau.pivotedRow_of_ne hi]
  have hratio : ratio column r = r.equation.rhs / r.equation.coefficient column := by
    rw [ratio_eq, max_eq_right hrhs]
  have hle := (rhs_pivotEquation_le ht hadmits).trans (ratio_le_add_of_leavingRow ht h hr hentry)
  rw [hratio] at hle
  exact ⟨_, hrow, rfl, neg_le_rhs_eliminate (ht.trans_lt hentry) hle⟩

/-- The row that leaves need not have the smallest ratio, and then the pivot makes the right-hand
side of another row negative. Both errors are bounded by the tolerance times the number of rows. -/
theorem ratioTest_error (t : Tableau ℚ) (column : ℕ) :
    let tolerance : ℚ := (Tolerances.standard : Tolerances ℚ).pivot
    let error : ℚ := t.rows.size * tolerance
    tolerance = 1 / 10 ^ 9 ∧
    (leavingRow t tolerance column = none ↔
      ∀ r ∈ t.rows, r.equation.coefficient column ≤ tolerance) ∧
    ∀ leaving, leavingRow t tolerance column = some leaving →
      (∃ r, t.rows[leaving.row]? = some r ∧ tolerance < r.equation.coefficient column ∧
        leaving.ratio = max 0 r.equation.rhs / r.equation.coefficient column) ∧
      (∀ r ∈ t.rows, tolerance < r.equation.coefficient column →
        leaving.ratio ≤ max 0 r.equation.rhs / r.equation.coefficient column + error) ∧
      ∀ i r, i ≠ leaving.row → t.rows[i]? = some r → 0 ≤ r.equation.rhs →
        tolerance < r.equation.coefficient column →
        ∃ r', (t.pivot leaving.row column).rows[i]? = some r' ∧ r'.basic = r.basic ∧
          -(error * r.equation.coefficient column) ≤ r'.equation.rhs := by
  intro tolerance error
  have ht : 0 ≤ tolerance := Tolerances.standard_pivot_pos.le
  refine ⟨standard_pivot_eq, leavingRow_eq_none_iff, fun leaving h ↦ ⟨?_, ?_, ?_⟩⟩
  · obtain ⟨r, hr, hentry, -, hratio⟩ := admits_of_leavingRow h
    exact ⟨r, hr, hentry, hratio.trans (ratio_eq column r)⟩
  · intro r hr hentry
    obtain ⟨i, hi⟩ := Array.mem_iff_getElem?.mp hr
    rw [← ratio_eq]
    exact ratio_le_add_of_leavingRow ht h hi hentry
  · intro i r hi hr hrhs hentry
    exact neg_le_rhs_pivot ht h hi hr hrhs hentry

/-- Each of these rows is taken for one within the tolerance of the one before it. -/
example :
    let rows : Array (BasicRow ℚ) := #[⟨3, ⟨#[2], 0⟩⟩, ⟨2, ⟨#[2], 2⟩⟩, ⟨1, ⟨#[2], 4⟩⟩]
    leavingRow ⟨1, 0, 0, rows, ⟨#[1], 0⟩, []⟩ 1 0 = some ⟨2, 1, 2⟩ := by
  decide +kernel

end LinProg.Simplex
