import LinProg.Proofs.Simplex.Verdicts
import LinProg.Proofs.Tableau.Basis

namespace LinProg

def Status.hasFeasiblePoint : Status → Bool
  | feasible | optimal | unbounded => true
  | undefined | infeasible | noFeasible => false

namespace Simplex

open Tableau

variable {form : StandardForm ℚ} {s t : Simplex ℚ} {column : ℕ} {leaving : Leaving ℚ}

theorem hasFeasiblePoint_status (s : Simplex ℚ) :
    s.status.hasFeasiblePoint = s.pastPhaseOne := by
  unfold status pastPhaseOne
  rcases s.phase with _ | _ | (_ | _ | _) <;> rfl

theorem Sound.ratio_eq (h : Sound form s) {i : ℕ} {r : BasicRow ℚ}
    (hr : s.tableau.rows[i]? = some r) :
    ratio column r = r.equation.rhs / r.equation.coefficient column := by
  rw [ratio, Scalar.positivePart_rat, max_eq_right (h.rhs_nonneg i r hr)]

theorem Sound.cost_pos (h : Sound form s) (hc : s.enteringColumn = some column) :
    0 < s.tableau.objective.coefficient column := by
  obtain ⟨-, hcost⟩ := lt_reducedCost hc
  rwa [h.pivot_eq] at hcost

theorem Sound.ratio_nonneg (h : Sound form s)
    (hl : leavingRow s.tableau 0 column = some leaving) : 0 ≤ leaving.ratio := by
  obtain ⟨r, hr, hentry, -, hratio⟩ := admits_of_leavingRow hl
  rw [hratio, h.ratio_eq hr]
  exact div_nonneg (h.rhs_nonneg _ r hr) hentry.le

theorem Sound.objective_rhs_afterPivot (h : Sound form s)
    (hl : leavingRow s.tableau 0 column = some leaving) :
    (s.afterPivot column leaving).tableau.objective.rhs = s.tableau.objective.rhs -
      s.tableau.objective.coefficient column * leaving.ratio := by
  obtain ⟨r, hr, -, -, hratio⟩ := admits_of_leavingRow hl
  rw [hratio, h.ratio_eq hr]
  exact objective_rhs_pivot h.faithful.represents.canonical hr

theorem Sound.objective_rhs_afterPivot_le (h : Sound form s) (hc : s.enteringColumn = some column)
    (hl : leavingRow s.tableau 0 column = some leaving) :
    (s.afterPivot column leaving).tableau.objective.rhs ≤ s.tableau.objective.rhs := by
  rw [h.objective_rhs_afterPivot hl]
  exact sub_le_self _ (mul_nonneg (h.cost_pos hc).le (h.ratio_nonneg hl))

/-- No step leads back to phase one, and none after it lowers the objective, which is the negated
right-hand side of the objective row. -/
theorem Sound.progress_step (h : Sound form s) (hs : s.pastPhaseOne = true) (hstep : Step s t) :
    t.pastPhaseOne = true ∧ t.tableau.objective.rhs ≤ s.tableau.objective.rhs := by
  cases hstep with
  | pivot hd hc hl =>
    rw [h.pivot_eq] at hl
    exact ⟨hs, h.objective_rhs_afterPivot_le hc hl⟩
  | infeasible hphase | restore hphase | contradictory hphase => simp [pastPhaseOne, hphase] at hs
  | optimal | unbounded => exact ⟨rfl, le_rfl⟩

theorem Sound.progress_steps (h : Sound form s) (hshaped : form.Shaped)
    (hs : s.pastPhaseOne = true) (hsteps : Relation.ReflTransGen Step s t) :
    Sound form t ∧ t.pastPhaseOne = true ∧
      t.tableau.objective.rhs ≤ s.tableau.objective.rhs := by
  induction hsteps with
  | refl => exact ⟨h, hs, le_rfl⟩
  | tail _ hstep ih =>
    obtain ⟨hsound, hpast, hle⟩ := ih
    obtain ⟨hpast', hle'⟩ := hsound.progress_step hpast hstep
    exact ⟨hsound.step hshaped hstep, hpast', hle'.trans hle⟩

section

variable {p : Problem ℚ} {presolve : Bool}

theorem Sound.objective_eq (h : Sound (StandardForm.ofProblem p presolve 0) s) (hp : p.WellPosed)
    (hs : s.pastPhaseOne = true) :
    StandardForm.directionSign p * (s.solution p).objectiveValue =
      -s.tableau.objective.rhs + StandardForm.objectiveOffset p := by
  rw [(h.faithful.represents_two hs).objective_rhs h.priced]
  exact (h.feasible_values hp hs).2

theorem Sound.not_better_of_steps (h : Sound (StandardForm.ofProblem p presolve 0) s)
    (hp : p.WellPosed) (hs : s.pastPhaseOne = true) (hsteps : Relation.ReflTransGen Step s t) :
    ¬ p.direction.Better (s.solution p).objectiveValue (t.solution p).objectiveValue := by
  obtain ⟨hsound, hpast, hle⟩ :=
    h.progress_steps (StandardForm.shaped_ofProblem p presolve 0) hs hsteps
  rw [StandardForm.better_iff, h.objective_eq hp hs, hsound.objective_eq hp hpast]
  linarith

end

/-- Once the point of a run is feasible, so is every later one, and none has a worse objective:
runs may be stopped between any two steps at no cost. -/
theorem steps_progress (p : Problem ℚ) (hp : p.WellPosed) (config : SolveConfig ℚ) {s t : Simplex ℚ}
    (hs : Relation.ReflTransGen Step (start p config .exact).value s)
    (ht : Relation.ReflTransGen Step s t) :
    let x := s.solution p
    let y := t.solution p
    x.status.hasFeasiblePoint = true →
      p.Feasible x.values ∧ y.status.hasFeasiblePoint = true ∧ p.Feasible y.values ∧
        ¬ p.direction.Better x.objectiveValue y.objectiveValue := by
  intro x y hx
  have h : Sound (StandardForm.ofProblem p config.presolve 0) s := sound_steps p config hs
  have hpast : s.pastPhaseOne = true := (hasFeasiblePoint_status s).symm.trans hx
  obtain ⟨hsound, hpast', -⟩ :=
    h.progress_steps (StandardForm.shaped_ofProblem p config.presolve 0) hpast ht
  refine ⟨(h.feasible_values hp hpast).1, ?_, (hsound.feasible_values hp hpast').1,
    h.not_better_of_steps hp hpast ht⟩
  exact (hasFeasiblePoint_status _).trans hpast'

/-- The time of the first run is up when it has just passed to phase two. -/
theorem steps_progress_twoPhases :
    let config : SolveConfig ℚ :=
      { SolveConfig.default with presolve := false, timeLimit := some ⟨21⟩ }
    let start := (start Problem.twoPhases config .exact).value
    let s := (start.run 9 (config.deadline .ticking)).value.1
    let t := (s.run 1 (config.deadline .ticking)).value.1
    let x := s.solution Problem.twoPhases
    let y := t.solution Problem.twoPhases
    Problem.twoPhases.WellPosed ∧ Relation.ReflTransGen Step start s ∧
      Relation.ReflTransGen Step s t ∧ x.status = .feasible ∧ x.objectiveValue = 3 / 2 ∧
      y.status = .feasible ∧ y.objectiveValue = 41 / 4 ∧
      Problem.twoPhases.Feasible x.values ∧ Problem.twoPhases.Feasible y.values ∧
      ¬ Direction.maximize.Better x.objectiveValue y.objectiveValue := by
  intro config start s t x y
  have hs : Relation.ReflTransGen Step start s := run_steps _ _ _
  have ht : Relation.ReflTransGen Step s t := run_steps _ _ _
  have hx : x.status = .feasible := by decide +kernel
  obtain ⟨hfeasible, -, hlater, hbetter⟩ := steps_progress Problem.twoPhases
    Problem.wellPosed_twoPhases config hs ht (congrArg Status.hasFeasiblePoint hx)
  exact ⟨Problem.wellPosed_twoPhases, hs, ht, hx, by decide +kernel, by decide +kernel,
    by decide +kernel, hfeasible, hlater, hbetter⟩

end Simplex

end LinProg
