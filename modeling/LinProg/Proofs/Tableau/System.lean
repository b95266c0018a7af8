import LinProg.Proofs.Tableau.Pivot

namespace LinProg.Tableau

open Finset

/-- The tableau has the variables and the solutions of another one, and on the solutions its
objective row stands for the given value. -/
structure Represents (t₀ : Tableau ℚ) (value : (ℕ → ℚ) → ℚ) (t : Tableau ℚ) : Prop where
  canonical : Canonical t
  numVars : t.numVars = t₀.numVars
  numSlack : t.numSlack = t₀.numSlack
  numArtificial : t.numArtificial = t₀.numArtificial
  duals : t.duals = t₀.duals
  holds_iff : ∀ x, t.Holds x ↔ t₀.Holds x
  objective : ∀ x, t.Holds x → t.objective.residual x = value x

variable {t₀ t : Tableau ℚ} {value : (ℕ → ℚ) → ℚ}

theorem Represents.artificialStart (h : Represents t₀ value t) :
    t.artificialStart = t₀.artificialStart := by
  rw [Tableau.artificialStart, h.numVars, h.numSlack]
  rfl

theorem Represents.width (h : Represents t₀ value t) : t.width = t₀.width := by
  rw [Tableau.width, h.numVars, h.numSlack, h.numArtificial]
  rfl

theorem Represents.pivot (h : Represents t₀ value t) {row column : ℕ} {r : BasicRow ℚ}
    (hr : t.rows[row]? = some r) (hc : r.equation.coefficient column ≠ 0) :
    Represents t₀ value (t.pivot row column) where
  canonical := h.canonical.pivot hr hc
  numVars := by rw [pivot_eq hr, ← h.numVars]
  numSlack := by rw [pivot_eq hr, ← h.numSlack]
  numArtificial := by rw [pivot_eq hr, ← h.numArtificial]
  duals := by rw [pivot_eq hr, ← h.duals]
  holds_iff x := (holds_pivot h.canonical hr hc x).trans (h.holds_iff x)
  objective x hx := by
    have hx' := (holds_pivot h.canonical hr hc x).mp hx
    rw [residual_objective_pivot h.canonical hr hx', h.objective x hx']

theorem driveOut_cases {tolerance : ℚ} (ht : 0 ≤ tolerance) (t : Tableau ℚ) (row : ℕ) :
    (t.driveOut tolerance row = t ∧ ∀ r, t.rows[row]? = some r → t.artificialStart ≤ r.basic →
      ∀ j < t.artificialStart, |r.equation.coefficient j| ≤ tolerance) ∨
    ∃ r column, t.rows[row]? = some r ∧ t.artificialStart ≤ r.basic ∧
      column < t.artificialStart ∧ r.equation.coefficient column ≠ 0 ∧
      t.driveOut tolerance row = t.pivot row column := by
  unfold driveOut
  cases hr : t.rows[row]? with
  | none => exact .inl ⟨rfl, by simp⟩
  | some r =>
    by_cases hb : t.artificialStart ≤ r.basic
    · simp only [if_pos hb]
      cases hf : (r.equation.coefficients.extract 0 t.artificialStart).findIdx?
          fun x ↦ decide (tolerance < Scalar.abs x) with
      | none =>
        refine .inl ⟨rfl, fun q hq _ j hj ↦ ?_⟩
        obtain rfl := Option.some_inj.mp hq
        by_cases hlt : j < r.equation.coefficients.size
        · have h := Array.findIdx?_eq_none_iff.mp hf _ (Equation.mem_extract.mpr ⟨j, hj, hlt, rfl⟩)
          rw [decide_eq_false_iff_not, Scalar.abs_rat] at h
          exact le_of_not_gt h
        · rw [Equation.coefficient_of_le (Nat.le_of_not_lt hlt), abs_zero]
          exact ht
      | some column =>
        obtain ⟨hlt, hx, -⟩ := Array.findIdx?_eq_some_iff_getElem.mp hf
        rw [decide_eq_true_iff, Scalar.abs_rat] at hx
        simp only [Array.size_extract, Array.getElem_extract, Nat.zero_add] at hlt hx
        rw [← Equation.coefficient_of_lt (by omega)] at hx
        exact .inr ⟨r, column, rfl, hb, by omega, abs_pos.mp (ht.trans_lt hx), rfl⟩
    · exact .inl ⟨by simp only [if_neg hb], fun q hq hq' ↦ by
        obtain rfl := Option.some_inj.mp hq
        exact absurd hq' hb⟩

/-- What pivots keep is kept by driving out artificial variables. -/
theorem driveOutArtificials_invariant {P : Tableau ℚ → Prop} {tolerance : ℚ} (ht : 0 ≤ tolerance)
    (hpivot : ∀ (t : Tableau ℚ) (row column : ℕ) (r : BasicRow ℚ), P t → t.rows[row]? = some r →
      r.equation.coefficient column ≠ 0 → P (t.pivot row column))
    (h : P t) : P (t.driveOutArtificials tolerance) := by
  unfold driveOutArtificials
  generalize List.range t.rows.size = rows
  induction rows generalizing t with
  | nil => exact h
  | cons row rows ih =>
    refine ih ?_
    rcases driveOut_cases ht t row with ⟨he, -⟩ | ⟨r, column, hr, -, -, hc, he⟩
    · rwa [he]
    · rw [he]
      exact hpivot t row column r h hr hc

/-- Eliminating basic variables from an objective, on the way through the rows. -/
def restoredObjective (tolerance : ℚ) (objective : Equation ℚ) (rows : List (BasicRow ℚ)) :
    Equation ℚ :=
  rows.foldl (fun e r ↦
    let k := e.coefficient r.basic
    if tolerance < Scalar.abs k then e.subScaled k r.equation else e) objective

theorem objective_restoreObjective (t : Tableau ℚ) (objective : Equation ℚ) (tolerance : ℚ) :
    (t.restoreObjective objective tolerance).objective =
      restoredObjective tolerance objective t.rows.toList := by
  rw [restoredObjective, Array.foldl_toList]
  rfl

theorem restoredObjective_invariant {P : Equation ℚ → Prop} {tolerance : ℚ}
    {objective : Equation ℚ} {rows : List (BasicRow ℚ)}
    (hstep : ∀ e, P e → ∀ r ∈ rows, ∀ k, P (e.subScaled k r.equation)) (h : P objective) :
    P (restoredObjective tolerance objective rows) := by
  induction rows generalizing objective with
  | nil => exact h
  | cons r rows ih =>
    refine ih (fun e he q hq k ↦ hstep e he q (List.mem_cons_of_mem r hq) k) ?_
    dsimp only
    split_ifs
    · exact hstep objective h r List.mem_cons_self _
    · exact h

def StandsFor (t : Tableau ℚ) (value : (ℕ → ℚ) → ℚ) (e : Equation ℚ) : Prop :=
  e.coefficients.size = t.width ∧ ∀ x, t.Holds x → e.residual x = value x

theorem StandsFor.add (h : Canonical t) {e : Equation ℚ} (he : t.StandsFor value e)
    {r : BasicRow ℚ} (hr : r ∈ t.rows.toList) : t.StandsFor value (e.add r.equation) := by
  obtain ⟨i, hi, -⟩ := h.mem_rows hr
  have hsize := h.size_eq_of_mem hr he.1
  refine ⟨(Equation.size_add hsize).trans he.1, fun x hx ↦ ?_⟩
  rw [Equation.residual_add hsize, hx i r hi, he.2 x hx, add_zero]

theorem StandsFor.subScaled (h : Canonical t) {e : Equation ℚ} (he : t.StandsFor value e)
    {r : BasicRow ℚ} (hr : r ∈ t.rows.toList) (k : ℚ) :
    t.StandsFor value (e.subScaled k r.equation) := by
  obtain ⟨i, hi, -⟩ := h.mem_rows hr
  have hsize := h.size_eq_of_mem hr he.1
  refine ⟨(Equation.size_subScaled hsize k).trans he.1, fun x hx ↦ ?_⟩
  rw [Equation.residual_subScaled hsize, hx i r hi, he.2 x hx, mul_zero, sub_zero]

theorem Represents.withObjective (h : Represents t₀ value t) {value' : (ℕ → ℚ) → ℚ}
    {objective : Equation ℚ} (ho : t.StandsFor value' objective) :
    Represents t₀ value' { t with objective } :=
  ⟨⟨h.canonical.size_row, ho.1, h.canonical.basis⟩, h.numVars, h.numSlack, h.numArtificial,
    h.duals, h.holds_iff, ho.2⟩

theorem Represents.restoreObjective (h : Represents t₀ value t) {objective : Equation ℚ}
    {value' : (ℕ → ℚ) → ℚ} (ho : t.StandsFor value' objective) (tolerance : ℚ) :
    Represents t₀ value' (t.restoreObjective objective tolerance) := by
  have hrestored : t.StandsFor value' (t.restoreObjective objective tolerance).objective := by
    rw [objective_restoreObjective]
    exact restoredObjective_invariant (fun e he r hr k ↦ he.subScaled h.canonical hr k) ho
  exact h.withObjective hrestored

theorem Represents.driveOutArtificials (h : Represents t₀ value t) {tolerance : ℚ}
    (ht : 0 ≤ tolerance) : Represents t₀ value (t.driveOutArtificials tolerance) :=
  driveOutArtificials_invariant ht (fun _ _ _ _ h hr hc ↦ h.pivot hr hc) h

def artificialSum (t : Tableau ℚ) (x : ℕ → ℚ) : ℚ :=
  ∑ k ∈ range t.numArtificial, x (t.artificialStart + k)

def minusSum (t : Tableau ℚ) : Equation ℚ :=
  ⟨(List.replicate t.artificialStart (0 : ℚ) ++ List.replicate t.numArtificial (-1 : ℚ)).toArray, 0⟩

theorem size_minusSum (t : Tableau ℚ) : t.minusSum.coefficients.size = t.width := by
  simp [minusSum, width, artificialStart]

theorem coefficient_minusSum (t : Tableau ℚ) (j : ℕ) :
    t.minusSum.coefficient j = if t.artificialStart ≤ j ∧ j < t.width then -1 else 0 := by
  have hw : t.width = t.artificialStart + t.numArtificial := rfl
  simp only [Equation.coefficient, minusSum, List.getElem?_toArray, List.getElem?_append,
    List.length_replicate, List.getElem?_replicate]
  by_cases h₁ : j < t.artificialStart
  · rw [if_pos h₁, if_pos h₁, if_neg (by omega)]
    rfl
  · by_cases h₂ : j - t.artificialStart < t.numArtificial
    · rw [if_neg h₁, if_pos h₂, if_pos (by omega)]
      rfl
    · rw [if_neg h₁, if_neg h₂, if_neg (by omega)]
      rfl

theorem residual_minusSum (t : Tableau ℚ) (x : ℕ → ℚ) :
    t.minusSum.residual x = -t.artificialSum x := by
  have hform : t.minusSum.form x = -t.artificialSum x := by
    rw [minusSum, Equation.form_mk, dot_append, dot_replicate_zero, dot_replicate,
      List.length_replicate, artificialSum]
    ring
  rw [Equation.residual, hform]
  exact sub_zero _

def pricedSum (start : ℕ) (objective : Equation ℚ) (rows : List (BasicRow ℚ)) : Equation ℚ :=
  rows.foldl (fun e r ↦ if start ≤ r.basic then e.add r.equation else e) objective

theorem phaseOneObjective_eq (t : Tableau ℚ) :
    t.phaseOneObjective = pricedSum t.artificialStart t.minusSum t.rows.toList := by
  rw [pricedSum, Array.foldl_toList]
  rfl

theorem pricedSum_invariant {P : Equation ℚ → Prop} {start : ℕ} {objective : Equation ℚ}
    {rows : List (BasicRow ℚ)} (hstep : ∀ e, P e → ∀ r ∈ rows, P (e.add r.equation))
    (h : P objective) : P (pricedSum start objective rows) := by
  induction rows generalizing objective with
  | nil => exact h
  | cons r rows ih =>
    refine ih (fun e he q hq ↦ hstep e he q (List.mem_cons_of_mem r hq)) ?_
    dsimp only
    split_ifs
    · exact hstep objective h r List.mem_cons_self
    · exact h

theorem Represents.phaseOne (h : Represents t₀ value t) :
    Represents t₀ (fun x ↦ -t₀.artificialSum x) { t with objective := t.phaseOneObjective } := by
  have hsum (x : ℕ → ℚ) : t.artificialSum x = t₀.artificialSum x := by
    rw [artificialSum, h.numArtificial, h.artificialStart, artificialSum]
  have hstart : t.StandsFor (fun x ↦ -t₀.artificialSum x) t.minusSum :=
    ⟨size_minusSum t, fun x _ ↦ by rw [residual_minusSum, hsum]⟩
  refine h.withObjective ?_
  rw [phaseOneObjective_eq]
  exact pricedSum_invariant (fun e he r hr ↦ he.add h.canonical hr) hstart

end LinProg.Tableau
