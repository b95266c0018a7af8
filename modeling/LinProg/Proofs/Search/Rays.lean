import Mathlib.Algebra.Order.Archimedean.Basic
import LinProg.Proofs.Search.Nodes
import LinProg.Proofs.Simplex.Termination

namespace LinProg

theorem nonneg_of_forall_le {l a s : ℚ} (h : ∀ amount, 0 ≤ amount → l ≤ a + amount * s) :
    0 ≤ s := by
  by_contra hneg
  rw [not_le] at hneg
  have hstart := h 0 le_rfl
  have hpast := h ((a - l + 1) / -s) (div_nonneg (by linarith) (by linarith))
  rw [div_mul_eq_mul_div, div_neg, mul_div_assoc, div_self hneg.ne] at hpast
  linarith

/-- Bounds that never stop one value from growing in a direction do not stop another. -/
theorem Within.add_mul {bounds : Extended ℚ × Extended ℚ} {a b s : ℚ}
    (h : ∀ amount, 0 ≤ amount → Within bounds (a + amount * s)) (hb : Within bounds b)
    {amount : ℚ} (hamount : 0 ≤ amount) : Within bounds (b + amount * s) := by
  obtain ⟨lower, upper⟩ := bounds
  obtain ⟨hl, hu⟩ := hb
  constructor
  · cases lower with
    | negInf => simp
    | posInf => simp at hl
    | fin l =>
      have hs : 0 ≤ s := nonneg_of_forall_le fun amount ha ↦ Extended.below_fin.mp (h amount ha).1
      exact Extended.below_of_ge hl (le_add_of_nonneg_right (mul_nonneg hamount hs))
  · cases upper with
    | negInf => simp at hu
    | posInf => simp
    | fin u =>
      have hs : 0 ≤ -s := nonneg_of_forall_le (l := -u) (a := -a) fun amount ha ↦ by
        have hle := Extended.below_fin.mp (h amount ha).2
        linarith
      refine Extended.below_of_le hu (add_le_of_nonpos_right ?_)
      exact mul_nonpos_of_nonneg_of_nonpos hamount (by linarith)

def along (x : Array ℚ) (d : ℕ → ℚ) (amount : ℚ) : Array ℚ := x.mapIdx fun j a ↦ a + amount * d j

theorem getD_along {x : Array ℚ} {j : ℕ} (hj : j < x.size) (d : ℕ → ℚ) (amount : ℚ) :
    ((along x d amount)[j]?).getD 0 = (x[j]?).getD 0 + amount * d j := by
  simp [along, Array.getElem?_mapIdx, Array.getElem?_eq_getElem hj]

theorem dot_along {a : List ℚ} {x : Array ℚ} (ha : a.length = x.size) (d : ℕ → ℚ) (amount : ℚ) :
    dot a (ColumnMap.assignment (along x d amount).toList) =
      dot a (ColumnMap.assignment x.toList) + amount * dot a d := by
  rw [← dot_add_mul]
  refine dot_congr fun j hj ↦ ?_
  simp only [ColumnMap.assignment, List.getD_eq_getElem?_getD, Array.getElem?_toList]
  exact getD_along (ha ▸ hj) d amount

namespace Problem

def Unbounded (p : Problem ℚ) : Prop :=
  ∀ bound, ∃ y, p.Feasible y ∧ p.direction.Better (p.objectiveValue y) bound

variable {p : Problem ℚ} {x y : Array ℚ} {d : ℕ → ℚ} {amount : ℚ}

theorem activity_along (hp : p.WellPosed) (hx : x.size = p.numColumns) {r : Row ℚ}
    (hr : r ∈ p.rows) (d : ℕ → ℚ) (amount : ℚ) :
    r.activity (along x d amount) = r.activity x +
      amount * dot (StandardForm.rowCoefficients p.numColumns r) d := by
  have hsize : (along x d amount).size = p.numColumns := by simp [along, hx]
  rw [Row.activity_eq (hp.rows_valid r hr) hsize.le, Row.activity_eq (hp.rows_valid r hr) hx.le,
    dot_along (by rw [StandardForm.length_rowCoefficients, hx])]

theorem objectiveValue_along (hx : x.size = p.numColumns) (d : ℕ → ℚ) (amount : ℚ) :
    p.objectiveValue (along x d amount) = p.objectiveValue x +
      amount * dot (p.columns.toList.map (·.objective)) d := by
  have hsize : (along x d amount).size = p.numColumns := by simp [along, hx]
  have hvalue (z : Array ℚ) (hz : z.size = p.numColumns) :
      p.objectiveValue z = dot (p.columns.toList.map (·.objective))
        (ColumnMap.assignment z.toList) := StandardForm.objectiveValue_eq p z.toList hz
  rw [hvalue _ hsize, hvalue x hx, dot_along (by simp [hx, numColumns])]

/-- If one feasible point can go without end in a direction, all of them can. -/
theorem feasible_along (hp : p.WellPosed)
    (h : ∀ amount, 0 ≤ amount → p.Feasible (along x d amount)) (hy : p.Feasible y)
    (hamount : 0 ≤ amount) : p.Feasible (along y d amount) := by
  have hx : x.size = p.numColumns := by simpa [along] using (h 0 le_rfl).size
  refine ⟨by simpa [along] using hy.size, fun r hr ↦ ?_, fun j c hj ↦ ?_⟩
  · rw [activity_along hp hy.size hr]
    refine Within.add_mul (a := r.activity x) (fun amount ha ↦ ?_) (hy.rows r hr) hamount
    rw [← activity_along hp hx hr]
    exact (h amount ha).rows r hr
  · have hlt : j < p.numColumns := (Array.getElem?_eq_some_iff.mp hj).1
    rw [getD_along (hy.size ▸ hlt)]
    refine Within.add_mul (a := (x[j]?).getD 0) (fun amount ha ↦ ?_) (hy.columns j c hj) hamount
    rw [← getD_along (hx ▸ hlt)]
    exact (h amount ha).columns j c hj

end Problem

namespace StandardForm

variable {p : Problem ℚ}

theorem getD_pointOf (p : Problem ℚ) (v : ℕ → ℚ) {j : ℕ} (hj : j < p.numColumns) :
    ((pointOf p v)[j]?).getD 0 = dot (unitRow (columnMaps p) j) v +
      ColumnMap.constantPart (unitCoefficients (columnMaps p).length j) (columnMaps p) := by
  have hlt : j < (columnMaps p).length := by rwa [length_columnMaps]
  have hsum := ColumnMap.dot_spreadAll (length_unitCoefficients (columnMaps p).length j)
    ((List.range (ColumnMap.totalWidth (columnMaps p))).map v)
  rw [dot_unitCoefficients hlt, ← unitRow_eq] at hsum
  have hown : dot (unitRow (columnMaps p) j) v = dot (unitRow (columnMaps p) j)
      (ColumnMap.assignment ((List.range (ColumnMap.totalWidth (columnMaps p))).map v)) := by
    refine dot_congr fun k hk ↦ (assignment_map_range ?_ v).symm
    rwa [unitRow_eq, ColumnMap.length_spreadAll (length_unitCoefficients _ j)] at hk
  rw [hown, hsum, pointOf, List.getElem?_toArray, ColumnMap.assignment,
    List.getD_eq_getElem?_getD]

def columnDirection (p : Problem ℚ) (w : ℕ → ℚ) (j : ℕ) : ℚ := dot (unitRow (columnMaps p) j) w

theorem size_pointOf (p : Problem ℚ) (v : ℕ → ℚ) : (pointOf p v).size = p.numColumns := by
  simp [pointOf, length_columnMaps]

theorem pointOf_along (p : Problem ℚ) (v w : ℕ → ℚ) (amount : ℚ) :
    pointOf p (fun j ↦ v j + amount * w j) = along (pointOf p v) (columnDirection p w) amount := by
  have hsize : (along (pointOf p v) (columnDirection p w) amount).size = p.numColumns := by
    simp [along, size_pointOf]
  refine Array.ext (by rw [size_pointOf, hsize]) fun j hj hj' ↦ ?_
  have hlt : j < p.numColumns := by rwa [size_pointOf] at hj
  have hvalue := getD_along (by rwa [size_pointOf]) (columnDirection p w) amount
    (x := pointOf p v) (j := j)
  rw [getD_pointOf p v hlt, columnDirection, add_right_comm, ← dot_add_mul,
    ← getD_pointOf p (fun j ↦ v j + amount * w j) hlt] at hvalue
  simpa [Array.getElem?_eq_getElem hj, Array.getElem?_eq_getElem hj'] using hvalue.symm

end StandardForm

namespace Problem

open StandardForm

variable {p : Problem ℚ}

/-- A direction without end that makes the objective better. -/
structure Ray (p : Problem ℚ) (d : ℕ → ℚ) : Prop where
  feasible : ∀ y, p.Feasible y → ∀ amount, 0 ≤ amount → p.Feasible (along y d amount)
  better : 0 < directionSign p * dot (p.columns.toList.map (·.objective)) d

theorem exists_ray_of_phase (hp : p.WellPosed) {s : Simplex ℚ}
    (h : Simplex.Sound (ofProblem p false 0) s) (hs : s.phase = .done .unbounded) :
    ∃ d, p.Ray d := by
  have hpast : s.pastPhaseOne = true := by rw [Simplex.pastPhaseOne, hs]
  have hshaped := shaped_ofProblem p false 0
  have hrepresents := h.faithful.represents_two hpast
  obtain ⟨column, hcolumn, hcost, hentries⟩ := h.unbounded hs
  have hpoint (amount : ℚ) : pointOf p (s.tableau.ray column amount) =
      along (pointOf p (s.tableau.ray column 0))
        (columnDirection p (s.tableau.rayDirection column)) amount := by
    rw [← pointOf_along]
    congr 1
    funext j
    exact Tableau.ray_eq hrepresents.canonical h.priced hcost.ne' amount j
  have hfeasible (amount : ℚ) (ha : 0 ≤ amount) : p.Feasible
      (along (pointOf p (s.tableau.ray column 0))
        (columnDirection p (s.tableau.rayDirection column)) amount) := by
    rw [← hpoint]
    exact (feasible_of_admits hp (h.rowWithoutActivity hpast) (hrepresents.admits_ray hshaped
      h.rhs_nonneg h.priced (h.idle hpast) hcolumn hcost.ne' hentries ha)).1
  refine ⟨_, fun y hy amount ha ↦ feasible_along hp hfeasible hy ha, ?_⟩
  -- along the ray the objective grows by the reduced cost
  have hobjective (amount : ℚ) := objective_pointOf p false 0 (s.tableau.ray column amount)
  have hstart := hobjective 0
  have hone := hobjective 1
  rw [Tableau.objective_ray h.priced hrepresents] at hstart hone
  rw [hpoint 1, objectiveValue_along (size_pointOf p _)] at hone
  linarith

theorem exists_ray (hp : p.WellPosed) (hunbounded : p.Unbounded) : ∃ d, p.Ray d := by
  -- the exact method ends, and of its three verdicts only one agrees with the problem
  let config : SolveConfig ℚ := { (.default : SolveConfig ℚ) with presolve := false }
  obtain ⟨n, hdone⟩ :=
    (Simplex.sound_start p config).exists_isDone (StandardForm.shaped_ofProblem p false 0)
  have h := Simplex.sound_steps p config (Simplex.iterate_advance_steps _ n)
  generalize Simplex.advance^[n] (Simplex.start p config .exact).value = s at hdone h
  cases hs : s.phase with
  | one objective | two => simp [Simplex.isDone, hs] at hdone
  | done terminal =>
    cases terminal with
    | unbounded => exact exists_ray_of_phase hp h hs
    | optimal =>
      obtain ⟨y, hy, hbetter⟩ := hunbounded (p.objectiveValue (s.solution p).values)
      exact absurd hbetter (h.not_better_of_optimal hp hs hy)
    | infeasible =>
      obtain ⟨y, hy, -⟩ := hunbounded 0
      exact absurd hy (h.not_feasible_of_infeasible hp hs y)

theorem exists_denominator (d : ℕ → ℚ) (n : ℕ) :
    ∃ m : ℕ, 0 < m ∧ ∀ j < n, ∃ z : ℤ, (m : ℚ) * d j = z := by
  induction n with
  | zero => exact ⟨1, Nat.one_pos, by simp⟩
  | succ n ih =>
    obtain ⟨m, hm, hints⟩ := ih
    refine ⟨m * (d n).den, Nat.mul_pos hm (d n).den_pos, fun j hj ↦ ?_⟩
    push_cast
    rcases Nat.lt_succ_iff_lt_or_eq.mp hj with hj | rfl
    · obtain ⟨z, hz⟩ := hints j hj
      refine ⟨z * (d n).den, ?_⟩
      rw [mul_right_comm, hz]
      push_cast
      rfl
    · refine ⟨m * (d j).num, ?_⟩
      rw [mul_assoc, Rat.den_mul_eq_num]
      push_cast
      rfl

theorem Integral.along {y : Array ℚ} (hy : y.size = p.numColumns) (hint : p.Integral y)
    {d : ℕ → ℚ} {amount : ℚ} (hd : ∀ j < p.numColumns, ∃ z : ℤ, amount * d j = z) :
    p.Integral (along y d amount) := by
  intro j c hj hc
  have hlt : j < p.numColumns := (Array.getElem?_eq_some_iff.mp hj).1
  obtain ⟨z, hz⟩ := hint j c hj hc
  obtain ⟨z', hz'⟩ := hd j hlt
  refine ⟨z + z', ?_⟩
  rw [getD_along (hy ▸ hlt), hz, hz']
  push_cast
  rfl

/-- Integrality leaves an unbounded objective unbounded, if it leaves a point. -/
theorem Unbounded.integral (hp : p.WellPosed) (hunbounded : p.Unbounded) {y : Array ℚ}
    (hy : p.Feasible y) (hint : p.Integral y) (bound : ℚ) :
    ∃ z, p.Feasible z ∧ p.Integral z ∧ p.direction.Better (p.objectiveValue z) bound := by
  obtain ⟨d, hd⟩ := exists_ray hp hunbounded
  obtain ⟨m, hm, hints⟩ := exists_denominator d p.numColumns
  have hgain : 0 < m * (directionSign p * dot (p.columns.toList.map (·.objective)) d) :=
    mul_pos (Nat.cast_pos.mpr hm) hd.better
  obtain ⟨k, hk⟩ := exists_nat_gt ((directionSign p * bound -
    directionSign p * p.objectiveValue y) /
      (m * (directionSign p * dot (p.columns.toList.map (·.objective)) d)))
  rw [div_lt_iff₀ hgain] at hk
  refine ⟨along y d (k * m), hd.feasible y hy _ (by positivity), ?_, ?_⟩
  · refine hint.along hy.size fun j hj ↦ ?_
    obtain ⟨z, hz⟩ := hints j hj
    refine ⟨k * z, ?_⟩
    rw [mul_assoc, hz]
    push_cast
    rfl
  · rw [better_iff, objectiveValue_along hy.size]
    linarith

end Problem

end LinProg
