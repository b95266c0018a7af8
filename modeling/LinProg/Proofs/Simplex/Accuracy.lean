import LinProg.Proofs.Simplex.Verdicts
import LinProg.Proofs.StandardForm.Image

namespace LinProg

open Finset ColumnMap

/-- Values of the slack and surplus variables that solve the rows of the first tableau together
with standard variables, all artificial variables being zero. -/
structure StandardForm.Slack (form : StandardForm ℚ) (v slack : List ℚ) : Prop where
  length : slack.length = (Tableau.ofForm form).numSlack
  nonneg : ∀ a ∈ slack, 0 ≤ a
  holds : (Tableau.ofForm form).Holds (assignment (v ++ slack))

namespace Tableau

variable {form : StandardForm ℚ} {t : Tableau ℚ} {tolerance : ℚ}

theorem assignment_slackValues {v : List ℚ} (hv : v.length = form.numVars) :
    assignment (v ++ (List.range (ofForm form).numSlack).map (slackValue form (assignment v))) =
      lift form (assignment v) := by
  funext j
  unfold lift
  split_ifs with hown hslack
  · exact assignment_append_left (hv ▸ hown)
  · obtain ⟨k, rfl⟩ := Nat.exists_eq_add_of_le (Nat.le_of_not_lt hown)
    rw [Nat.add_sub_cancel_left, ← hv, ← assignment_drop, List.drop_left]
    exact StandardForm.assignment_map_range (by omega) _
  · refine assignment_of_le ?_
    rw [List.length_append, List.length_map, List.length_range, hv]
    exact Nat.le_of_not_lt hslack

theorem exists_slack (hshaped : form.Shaped) {x : Array ℚ} {v : List ℚ} (h : form.Image x v) :
    ∃ slack, form.Slack v slack := by
  refine ⟨(List.range (ofForm form).numSlack).map (slackValue form (assignment v)), by simp, ?_, ?_⟩
  · intro a ha
    obtain ⟨k, -, rfl⟩ := List.mem_map.mp ha
    exact slackValue_nonneg h.holds k
  · rw [assignment_slackValues h.length]
    exact lift_holds hshaped h.holds

section

variable {x : Array ℚ} {v slack : List ℚ} (hv : form.Image x v) (hslack : form.Slack v slack)

include hv hslack

theorem length_image_slack : (v ++ slack).length = (ofForm form).artificialStart := by
  rw [List.length_append, hv.length, hslack.length]
  rfl

theorem sum_image_slack :
    ∑ j ∈ range (ofForm form).width, assignment (v ++ slack) j = v.sum + slack.sum := by
  rw [← List.sum_append]
  exact sum_assignment ((length_image_slack hv hslack).trans_le (Nat.le_add_right _ _))

theorem image_slack_nonneg (j : ℕ) : 0 ≤ assignment (v ++ slack) j :=
  assignment_nonneg (fun a ha ↦ (List.mem_append.mp ha).elim (hv.nonneg a) (hslack.nonneg a)) j

/-- With reduced costs up to a tolerance no point has an objective that exceeds the basic one by
more than the tolerance for each unit of its variables and of the basic values. -/
theorem objective_le_basic_add (hshaped : form.Shaped)
    (h : (ofForm form).Represents (dot form.objective) t) (hp : t.PricedWithin tolerance)
    (hcosts : ∀ j < t.artificialStart, t.objective.coefficient j ≤ tolerance) :
    dot form.objective (assignment v) ≤ dot form.objective t.basicAssignment +
      tolerance * (v.sum + slack.sum + t.basicTotal) := by
  have hlength : (v ++ slack).length = t.artificialStart :=
    (length_image_slack hv hslack).trans h.artificialStart.symm
  have hle : t.objective.residual (assignment (v ++ slack)) ≤
      t.objective.residual t.basicAssignment + tolerance * (v.sum + slack.sum + t.basicTotal) := by
    rw [← sum_image_slack hv hslack, ← h.width]
    refine residual_objective_le_within h.canonical hp fun j _ ↦ ?_
    by_cases hj : j < t.artificialStart
    · exact mul_le_mul_of_nonneg_right (hcosts j hj) (image_slack_nonneg hv hslack j)
    · rw [assignment_of_le (by omega), mul_zero, mul_zero]
  rw [h.objective _ ((h.holds_iff _).mpr hslack.holds),
    h.objective _ (holds_basicAssignment h.canonical)] at hle
  refine (le_of_eq (dot_congr fun j hj ↦ ?_)).trans hle
  rw [hshaped.objective, ← hv.length] at hj
  exact (assignment_append_left hj).symm

end

end Tableau

namespace Simplex

open Tableau

/-- What every state of a run satisfies with any tolerances, as to the sizes of the reduced
costs. -/
structure Accurate (form : StandardForm ℚ) (tolerances : Tolerances ℚ) (s : Simplex ℚ) : Prop where
  faithful : Faithful form tolerances s
  priced : s.pastPhaseOne = true → s.tableau.PricedWithin tolerances.pivot
  optimal : s.phase = .done .optimal →
    ∀ j < s.tableau.artificialStart, s.tableau.objective.coefficient j ≤ tolerances.pivot

variable {form : StandardForm ℚ} {tolerances : Tolerances ℚ} {s t : Simplex ℚ}

theorem accurate_start (p : Problem ℚ) (config : SolveConfig ℚ) (ht : 0 ≤ tolerances.pivot) :
    Accurate (StandardForm.ofProblem p config.presolve tolerances.pivot) tolerances
      (start p config tolerances).value := by
  have hfaithful := faithful_start p config tolerances
  have hpriced := priced_ofForm (StandardForm.shaped_ofProblem p config.presolve tolerances.pivot)
  rcases start_cases p config tolerances rfl with ⟨-, hv⟩ | ⟨-, -, hv⟩ | ⟨-, -, hv⟩
  · exact ⟨hfaithful, by simp [hv, pastPhaseOne], by simp [hv]⟩
  · refine ⟨hfaithful, fun _ ↦ ?_, by simp [hv, unstarted]⟩
    rw [hv]
    exact hpriced.within ht
  · exact ⟨hfaithful, by simp [hv, pastPhaseOne], by simp [hv]⟩

theorem Accurate.step (hp : 0 ≤ tolerances.pivot) (hf : 0 ≤ tolerances.feasibility)
    (hshaped : form.Shaped) (h : Accurate form tolerances s) (hstep : Step s t) :
    Accurate form tolerances t := by
  have hfaithful := h.faithful.step hp hf hshaped hstep
  cases hstep with
  | @pivot column leaving hs hc hr =>
    obtain ⟨r, hrow, hne⟩ := exists_entry_ne_zero (h.faithful.tolerances_eq ▸ hp) hr
    refine ⟨hfaithful, fun hpast ↦ ?_, fun hdone ↦ ?_⟩
    · exact (h.priced hpast).pivot h.faithful.represents.canonical hrow hne
    · change s.phase = .done .optimal at hdone
      simp [isDone, hdone] at hs
  | infeasible | contradictory => exact ⟨hfaithful, by simp [pastPhaseOne], by simp⟩
  | @restore objective hs =>
    obtain ⟨hdriven, hsize, -⟩ := h.faithful.drivenOut hf hs hshaped
    refine ⟨hfaithful, fun _ ↦ ?_, by simp [Simplex.afterPhaseOne]⟩
    rw [Simplex.afterPhaseOne, h.faithful.tolerances_eq]
    exact pricedWithin_restoreObjective hp hdriven.canonical hsize
  | optimal hs hc =>
    have hcosts := reducedCost_le (h.faithful.tolerances_eq ▸ hp) hc
    rw [numCandidates, hs, h.faithful.tolerances_eq] at hcosts
    exact ⟨hfaithful, fun _ ↦ h.priced (by rw [pastPhaseOne, hs]), fun _ ↦ hcosts⟩
  | unbounded hs => exact ⟨hfaithful, fun _ ↦ h.priced (by rw [pastPhaseOne, hs]), by simp⟩

theorem accurate_steps (p : Problem ℚ) (config : SolveConfig ℚ) (hp : 0 ≤ tolerances.pivot)
    (hf : 0 ≤ tolerances.feasibility)
    (hs : Relation.ReflTransGen Step (start p config tolerances).value s) :
    Accurate (StandardForm.ofProblem p config.presolve tolerances.pivot) tolerances s :=
  steps_invariant
    (fun _ _ h hstep ↦ h.step hp hf (StandardForm.shaped_ofProblem p config.presolve _) hstep)
    (accurate_start p config hp) hs

theorem objective_le_reported (p : Problem ℚ) (config : SolveConfig ℚ) (hp : 0 ≤ tolerances.pivot)
    (hf : 0 ≤ tolerances.feasibility) (calls : List (ℕ × Deadline)) :
    let s := (start p config tolerances).value.runs calls
    let form := StandardForm.ofProblem p config.presolve tolerances.pivot
    s.phase = .done .optimal → ∀ x v slack, form.Image x v → form.Slack v slack →
      form.sense * p.objectiveValue x ≤ form.sense * (s.solution p).objectiveValue +
        tolerances.pivot * (v.sum + slack.sum + s.tableau.basicTotal) := by
  intro s form hs x v slack hv hslack
  have h : Accurate form tolerances s := accurate_steps p config hp hf (runs_steps _ calls)
  have hpast : s.pastPhaseOne = true := by rw [pastPhaseOne, hs]
  have hle := objective_le_basic_add hv hslack (StandardForm.shaped_ofProblem p config.presolve _)
    (h.faithful.represents_two hpast) (h.priced hpast) (h.optimal hs)
  have hpoint : dot form.objective (assignment v) + StandardForm.objectiveOffset p =
      form.sense * p.objectiveValue x := by
    rw [← hv.recover]
    exact StandardForm.objective_recover p config.presolve _ v
  have hreported : dot form.objective s.tableau.basicAssignment +
      StandardForm.objectiveOffset p = form.sense * (s.solution p).objectiveValue := by
    change _ = form.sense * p.objectiveValue (s.solution p).values
    rw [values_solution h.faithful p]
    exact StandardForm.objective_pointOf p config.presolve _ s.tableau.basicAssignment
  linarith

/-- No feasible point is better than an optimal verdict by more than the tolerance for each unit
of its variables, of its slack variables and of the basic variables of the last tableau; and every
feasible point has such variables. -/
theorem runs_optimal_within (p : Problem ℚ) (hp : p.WellPosed) (config : SolveConfig ℚ)
    (calls : List (ℕ × Deadline)) :
    let s := (start p config .standard).value.runs calls
    let form := StandardForm.ofProblem p config.presolve (Tolerances.standard : Tolerances ℚ).pivot
    s.phase = .done .optimal → ∀ x, p.Feasible x →
      (∃ v slack, form.Image x v ∧ form.Slack v slack) ∧
      ∀ v slack, form.Image x v → form.Slack v slack →
        form.sense * p.objectiveValue x ≤ form.sense * (s.solution p).objectiveValue +
          1 / 10 ^ 9 * (v.sum + slack.sum + s.tableau.basicTotal) := by
  intro s form hs x hx
  constructor
  · obtain ⟨v, hv⟩ := StandardForm.exists_image_of_feasible hp config.presolve _ hx
    obtain ⟨slack, hslack⟩ := exists_slack (StandardForm.shaped_ofProblem p config.presolve _) hv
    exact ⟨v, slack, hv, hslack⟩
  · intro v slack hv hslack
    have hle := objective_le_reported p config Tolerances.standard_pivot_pos.le
      Tolerances.standard_feasibility_pos.le calls hs x v slack hv hslack
    rwa [standard_pivot_eq] at hle

theorem runs_optimal_within_twoPhases :
    let config : SolveConfig ℚ := { SolveConfig.default with presolve := false }
    let calls := [(1, config.deadline .ticking), (5, config.deadline .ticking)]
    let s := (start Problem.twoPhases config .standard).value.runs calls
    let form := StandardForm.ofProblem Problem.twoPhases false
      (Tolerances.standard : Tolerances ℚ).pivot
    Problem.twoPhases.WellPosed ∧ s.phase = .done .optimal ∧ Problem.twoPhases.Feasible #[2, 1] ∧
      form.Image #[2, 1] [2, 1] ∧ form.Slack [2, 1] [1, 1 / 2, 2] ∧
      form.sense * Problem.twoPhases.objectiveValue #[2, 1] ≤
        form.sense * (s.solution Problem.twoPhases).objectiveValue +
          1 / 10 ^ 9 * (3 + 7 / 2 + s.tableau.basicTotal) := by
  intro config calls s form
  have hs : s.phase = .done .optimal := by decide +kernel
  have himage : form.Image #[2, 1] [2, 1] :=
    ⟨by decide +kernel, by decide +kernel, by decide +kernel, by decide +kernel⟩
  have hslack : form.Slack [2, 1] [1, 1 / 2, 2] :=
    ⟨by decide +kernel, by decide +kernel, by decide +kernel⟩
  have hx : Problem.twoPhases.Feasible #[2, 1] := by
    rw [← himage.recover]
    exact (StandardForm.feasible_recover_iff Problem.wellPosed_twoPhases false _
      himage.nonneg).mpr ⟨by simp, himage.holds⟩
  have hle := (runs_optimal_within Problem.twoPhases Problem.wellPosed_twoPhases config calls hs _
    hx).2 _ _ himage hslack
  have hown : ([2, 1] : List ℚ).sum = 3 := by norm_num
  have hothers : ([1, 1 / 2, 2] : List ℚ).sum = 7 / 2 := by norm_num
  rw [hown, hothers] at hle
  exact ⟨Problem.wellPosed_twoPhases, hs, hx, himage, hslack, hle⟩

end Simplex

end LinProg
