import Mathlib.Algebra.BigOperators.Fin
import LinProg.Proofs.Simplex.Accuracy
import LinProg.Proofs.Tableau.Multipliers

namespace LinProg.Simplex

open Finset Tableau ColumnMap

def cutoff (tolerance d : ℚ) : ℚ := if |d| < tolerance then 0 else d

/-- The sum of the multipliers of the constraints that a row gave rise to. -/
def rowMultiplier (form : StandardForm ℚ) (y : ℕ → ℚ) (i : ℕ) : ℚ :=
  ∑ k, if (form.constraints.get k).origin = .row i then y k else 0

variable {form : StandardForm ℚ} {tolerances : Tolerances ℚ} {s t : Simplex ℚ}

theorem rowMultiplier_eq_zero (y : ℕ → ℚ) {i : ℕ}
    (h : ∀ c ∈ form.constraints, c.origin ≠ .row i) : rowMultiplier form y i = 0 := by
  apply sum_eq_zero
  intro k _
  exact if_neg (h _ (List.getElem_mem k.isLt))

def addMultiplier (sense : ℚ) (ds : Array ℚ) (m : Origin × ℚ) : Array ℚ :=
  match m.1 with
  | .row i => ds.modify i (· + sense * m.2)
  | .columnRange _ => ds

theorem getElem?_addMultiplier (sense : ℚ) (ds : Array ℚ) (m : Origin × ℚ) (i : ℕ) :
    (addMultiplier sense ds m)[i]? =
      ds[i]?.map (· + sense * if m.1 = .row i then m.2 else 0) := by
  obtain ⟨origin, y⟩ := m
  cases origin with
  | columnRange j => simp [addMultiplier]
  | row j =>
    simp only [addMultiplier, Array.getElem?_modify, Origin.row.injEq]
    split_ifs <;> simp

theorem getElem?_foldl_addMultiplier (sense : ℚ) (ms : List (Origin × ℚ)) (ds : Array ℚ) (i : ℕ) :
    (ms.foldl (addMultiplier sense) ds)[i]? =
      ds[i]?.map (· + sense * (ms.map fun m ↦ if m.1 = .row i then m.2 else 0).sum) := by
  induction ms generalizing ds with
  | nil => simp
  | cons m ms ih =>
    rw [List.foldl_cons, ih, getElem?_addMultiplier, Option.map_map, List.map_cons, List.sum_cons]
    congr 1
    funext d
    simp only [Function.comp_apply]
    ring

theorem multipliers_eq (h : Faithful form tolerances s) :
    s.multipliers =
      List.ofFn fun k : Fin form.constraints.length ↦
        ((form.constraints.get k).origin, s.tableau.multiplier k) := by
  apply List.ext_getElem?
  intro k
  rw [multipliers, h.form_eq, h.represents.duals, List.getElem?_zipWith, List.getElem?_ofFn]
  by_cases hk : k < form.constraints.length
  · have hc := List.getElem?_eq_getElem hk
    rw [duals_ofForm hc, hc, dif_pos hk]
    simp only [multiplier, h.represents.duals, duals_ofForm hc]
    rfl
  · rw [List.getElem?_eq_none (Nat.le_of_not_lt hk), dif_neg hk]

theorem duals_of_pastPhaseOne (hpast : s.pastPhaseOne = true) (n : ℕ) :
    s.duals n = (s.multipliers.foldl (addMultiplier s.form.sense) (Array.replicate n 0)).map
      (cutoff s.tolerances.pivot) := by
  have hcut : (fun d : ℚ ↦ if Scalar.abs d < s.tolerances.pivot then (0 : ℚ) else d) =
      cutoff s.tolerances.pivot := by
    funext d
    rw [Scalar.abs_rat]
    rfl
  unfold pastPhaseOne at hpast
  unfold duals
  rw [← hcut]
  split at hpast
  · cases hpast
  · cases hpast
  all_goals
    next hphase =>
      simp only [hphase]
      rfl

theorem duals_of_phaseOne (hpast : s.pastPhaseOne = false) (n : ℕ) :
    s.duals n = Array.replicate n 0 := by
  unfold pastPhaseOne at hpast
  unfold duals
  split at hpast
  · next hphase => simp only [hphase]
  · next hphase => simp only [hphase]
  all_goals cases hpast

def rowTotal (ms : List (Origin × ℚ)) (i : ℕ) : ℚ :=
  (ms.map fun m ↦ if m.1 = .row i then m.2 else 0).sum

/-- The dual of a row, counted from zero. -/
def rowDual (s : Simplex ℚ) (i : ℕ) : ℚ :=
  if s.pastPhaseOne then cutoff s.tolerances.pivot (s.form.sense * rowTotal s.multipliers i) else 0

theorem getElem?_duals (s : Simplex ℚ) (n i : ℕ) :
    (s.duals n)[i]? = if i < n then some (s.rowDual i) else none := by
  unfold rowDual
  cases hpast : s.pastPhaseOne with
  | false =>
    rw [duals_of_phaseOne hpast, Array.getElem?_replicate]
    rfl
  | true =>
    rw [duals_of_pastPhaseOne hpast, Array.getElem?_map, getElem?_foldl_addMultiplier,
      Array.getElem?_replicate, if_pos rfl]
    split_ifs
    · rw [Option.map_some, Option.map_some, zero_add]
      rfl
    · rfl

theorem duals_eq_ofFn (s : Simplex ℚ) (n : ℕ) :
    s.duals n = Array.ofFn fun i : Fin n ↦ s.rowDual i := by
  apply Array.ext_getElem?
  intro i
  rw [getElem?_duals, Array.getElem?_ofFn]
  split_ifs <;> rfl

theorem duals_eq (h : Faithful form tolerances s) (hpast : s.pastPhaseOne = true) (n : ℕ) :
    s.duals n = Array.ofFn fun i : Fin n ↦
      cutoff tolerances.pivot (form.sense * rowMultiplier form s.tableau.multiplier i) := by
  rw [duals_eq_ofFn]
  congr 1
  funext i
  rw [rowDual, if_pos hpast, h.form_eq, h.tolerances_eq, multipliers_eq h, rowTotal, List.map_ofFn,
    List.sum_ofFn]
  rfl

theorem Accurate.multiplier_bounds (h : Accurate form tolerances s) (hshaped : form.Shaped)
    (hs : s.phase = .done .optimal) {k : ℕ} {c : Constraint ℚ}
    (hk : form.constraints[k]? = some c) :
    (c.relation = .le → -tolerances.pivot ≤ s.tableau.multiplier k) ∧
      (c.relation = .ge → s.tableau.multiplier k ≤ tolerances.pivot) := by
  have hpast : s.pastPhaseOne = true := by rw [pastPhaseOne, hs]
  have hrepresents := h.faithful.represents_two hpast
  have hcost (hc : c.relation ≠ .eq) :
      s.tableau.multiplier k =
          -slackEntry c.relation * s.tableau.objective.coefficient (slackColumn form k) ∧
        s.tableau.objective.coefficient (slackColumn form k) ≤ tolerances.pivot := by
    have hslack : hasSlack (orient c).1 = true := by
      rw [← slackEntry_ne_zero]
      intro hzero
      have hentry := slackEntry_orient c
      rw [hzero, zero_mul] at hentry
      cases hr : c.relation <;> simp_all [slackEntry]
    refine ⟨hrepresents.multiplier_eq_slack hshaped hk hslack, h.optimal hs _ ?_⟩
    rw [hrepresents.artificialStart]
    exact Nat.add_lt_add_left (slackIndex_lt (getElem?_oriented hk) hslack) _
  constructor
  · intro hle
    obtain ⟨hy, hle'⟩ := hcost (by rw [hle]; decide)
    rw [hy, hle, slackEntry]
    linarith
  · intro hge
    obtain ⟨hy, hle⟩ := hcost (by rw [hge]; decide)
    rw [hy, hge, slackEntry]
    linarith

theorem assignment_basicPoint (h : Faithful form tolerances s) {j : ℕ} (hj : j < form.numVars) :
    assignment s.tableau.basicPoint j = s.tableau.basicAssignment j := by
  rw [basicPoint_eq h.represents.canonical]
  exact StandardForm.assignment_map_range (hj.trans_eq h.represents.numVars.symm) _

/-- In every state of phase two the multipliers price the structural columns. Where the run ends
with an optimal verdict they have the signs that the relations call for and vanish on constraints
that are not tight. The reported duals are their sums over the rows. -/
theorem duals_are_shadow_prices (p : Problem ℚ) (config : SolveConfig ℚ) {s : Simplex ℚ}
    (hs : Relation.ReflTransGen Step (start p config .standard).value s)
    (hpast : s.pastPhaseOne = true) :
    let form := StandardForm.ofProblem p config.presolve (Tolerances.standard : Tolerances ℚ).pivot
    let y := s.tableau.multiplier
    (∀ j < form.numVars, s.tableau.objective.coefficient j = form.objective.getD j 0 -
      ∑ k : Fin form.constraints.length, y k * form.constraints[k].coefficients.getD j 0) ∧
    (s.phase = .done .optimal → ∀ (k : ℕ) (c : Constraint ℚ), form.constraints[k]? = some c →
      (c.relation = .le → -(1 / 10 ^ 9) ≤ y k) ∧
      (c.relation = .ge → y k ≤ 1 / 10 ^ 9) ∧
      (dot c.coefficients (assignment s.tableau.basicPoint) ≠ c.rhs → |y k| ≤ 1 / 10 ^ 9)) ∧
    (s.solution p).values = (form.recover s.tableau.basicPoint).toArray ∧
    (s.solution p).duals = some (Array.ofFn fun i : Fin p.numRows ↦
      cutoff (1 / 10 ^ 9) (form.sense * ∑ k : Fin form.constraints.length,
        if form.constraints[k].origin = .row i then y k else 0)) ∧
    ∀ duals, (s.solution p).duals = some duals → ∀ i < p.numRows,
      (∀ c ∈ form.constraints, c.origin ≠ .row i) → duals[i]? = some 0 := by
  intro form y
  have hshaped : form.Shaped := StandardForm.shaped_ofProblem p config.presolve _
  have h : Accurate form .standard s := accurate_steps p config
    Tolerances.standard_pivot_pos.le Tolerances.standard_feasibility_pos.le hs
  have hrepresents := h.faithful.represents_two hpast
  have hduals : (s.solution p).duals = some (Array.ofFn fun i : Fin p.numRows ↦
      cutoff (1 / 10 ^ 9) (form.sense * rowMultiplier form y i)) := by
    rw [← standard_pivot_eq, ← duals_eq h.faithful hpast p.numRows]
    rfl
  refine ⟨fun j hj ↦ hrepresents.reducedCost_eq_sub hshaped hj, ?_, ?_, hduals, ?_⟩
  · intro hdone k c hk
    rw [← standard_pivot_eq]
    obtain ⟨hle, hge⟩ := h.multiplier_bounds hshaped hdone hk
    refine ⟨hle, hge, fun htight ↦ hrepresents.abs_multiplier_le hshaped hk (h.priced hpast) ?_⟩
    intro hdot
    apply htight
    rw [← hdot]
    refine dot_congr fun j hj ↦ assignment_basicPoint h.faithful ?_
    rwa [hshaped.constraints c (List.mem_of_getElem? hk)] at hj
  · rw [← h.faithful.form_eq]
    rfl
  · intro duals hsome i hi hnone
    rw [hduals, Option.some_inj] at hsome
    rw [← hsome, Array.getElem?_ofFn, dif_pos hi, rowMultiplier_eq_zero y hnone, mul_zero, cutoff,
      ite_self]

theorem duals_are_shadow_prices_twoPhases :
    let config : SolveConfig ℚ := { SolveConfig.default with presolve := false }
    let start := (start Problem.twoPhases config .standard).value
    let s := start.runs [(1, config.deadline .ticking), (5, config.deadline .ticking)]
    let form := StandardForm.ofProblem Problem.twoPhases false
      (Tolerances.standard : Tolerances ℚ).pivot
    let y := s.tableau.multiplier
    Relation.ReflTransGen Step start s ∧
      s.pastPhaseOne = true ∧ s.phase = .done .optimal ∧
      (∀ j < form.numVars, s.tableau.objective.coefficient j = form.objective.getD j 0 -
        ∑ k : Fin form.constraints.length, y k * form.constraints[k].coefficients.getD j 0) ∧
      -(1 / 10 ^ 9) ≤ y 0 ∧ y 1 ≤ 1 / 10 ^ 9 ∧ |y 1| ≤ 1 / 10 ^ 9 ∧
      (s.solution Problem.twoPhases).duals = some (Array.ofFn fun i : Fin 2 ↦
        cutoff (1 / 10 ^ 9) (form.sense * ∑ k : Fin form.constraints.length,
          if form.constraints[k].origin = .row i then y k else 0)) ∧
      (s.solution Problem.twoPhases).duals = some #[3, 0] := by
  intro config start s form y
  have hs : Relation.ReflTransGen Step start s := runs_steps _ _
  have hpast : s.pastPhaseOne = true := by decide +kernel
  have hdone : s.phase = .done .optimal := by decide +kernel
  obtain ⟨hcosts, hsigns, -, hduals, -⟩ :=
    duals_are_shadow_prices Problem.twoPhases config hs hpast
  obtain ⟨hle, -, -⟩ := hsigns hdone 0 ⟨.row 0, [1, 1], .le, 4⟩ (by decide +kernel)
  obtain ⟨-, hge, htight⟩ := hsigns hdone 1 ⟨.row 1, [1, -1], .ge, 1 / 2⟩ (by decide +kernel)
  exact ⟨hs, hpast, hdone, hcosts, hle rfl, hge rfl, htight (by decide +kernel), hduals,
    by decide +kernel⟩

end LinProg.Simplex
