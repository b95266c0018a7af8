import LinProg.Proofs.Search.Verdicts
import LinProg.Proofs.Simplex.Accuracy
import LinProg.Proofs.Tableau.Basis

namespace LinProg

open Finset ColumnMap

namespace Tableau

def artificialShortfall (t : Tableau ℚ) : ℚ :=
  ∑ k ∈ range t.numArtificial, max 0 (-t.basicAssignment (t.artificialStart + k))

def numBasicArtificial (t : Tableau ℚ) : ℕ :=
  #{k ∈ range t.numArtificial | t.artificialStart + k ∈ t.basis}

variable {form : StandardForm ℚ} {t : Tableau ℚ} {tolerance feasibility : ℚ}

theorem neg_le_artificialShortfall {k : ℕ} (hk : k ∈ range t.numArtificial) :
    -t.basicAssignment (t.artificialStart + k) ≤ t.artificialShortfall := by
  have hle : max 0 (-t.basicAssignment (t.artificialStart + k)) ≤ t.artificialShortfall :=
    single_le_sum (f := fun k ↦ max 0 (-t.basicAssignment (t.artificialStart + k)))
      (fun k _ ↦ le_max_left 0 _) hk
  exact (le_max_right 0 _).trans hle

theorem sum_max_basicAssignment (t : Tableau ℚ) :
    ∑ k ∈ range t.numArtificial, max 0 (t.basicAssignment (t.artificialStart + k)) =
      t.artificialSum t.basicAssignment + t.artificialShortfall := by
  rw [artificialSum, artificialShortfall, ← sum_add_distrib]
  apply sum_congr rfl
  intro k _
  rcases le_total 0 (t.basicAssignment (t.artificialStart + k)) with ha | ha
  · rw [max_eq_right ha, max_eq_left (neg_nonpos.mpr ha), add_zero]
  · rw [max_eq_left ha, max_eq_right (neg_nonneg.mpr ha), add_neg_cancel]

theorem le_artificialSum_add {k : ℕ} (hk : k ∈ range t.numArtificial) :
    t.basicAssignment (t.artificialStart + k) ≤
      t.artificialSum t.basicAssignment + t.artificialShortfall := by
  rw [← sum_max_basicAssignment]
  have hle := single_le_sum (f := fun k ↦ max 0 (t.basicAssignment (t.artificialStart + k)))
    (fun k _ ↦ le_max_left 0 _) hk
  exact (le_max_right 0 _).trans hle

section

variable (h : (ofForm form).Represents (fun x ↦ -(ofForm form).artificialSum x) t)
  (hp : t.Priced)

include h in
theorem Represents.artificialSum_eq (x : ℕ → ℚ) :
    (ofForm form).artificialSum x = t.artificialSum x := by
  rw [artificialSum, artificialSum, h.numArtificial, h.artificialStart]

include h hp in
/-- The basic artificial variables pay for the reduced cost of a column. -/
theorem Represents.cost_le_of_entries {column : ℕ}
    (hcost : t.objective.coefficient column ≠ 0)
    (hentries : ∀ (i : ℕ) (r : BasicRow ℚ), t.rows[i]? = some r →
      r.equation.coefficient column ≤ tolerance) :
    t.objective.coefficient column ≤ tolerance * t.numBasicArtificial := by
  have hsum (amount : ℚ) : -t.artificialSum (t.ray column amount) =
      t.objective.coefficient column * amount - t.objective.rhs := by
    rw [← residual_objective_ray h.canonical hp, ← h.artificialSum_eq]
    exact (h.objective _ (holds_ray h.canonical column amount)).symm
  have hcost_eq : t.objective.coefficient column =
      ∑ k ∈ range t.numArtificial,
        (t.ray column 0 (t.artificialStart + k) - t.ray column 1 (t.artificialStart + k)) := by
    have hzero := hsum 0
    have hone := hsum 1
    rw [artificialSum] at hzero hone
    rw [sum_sub_distrib]
    linarith
  have hterm (k : ℕ) : t.ray column 0 (t.artificialStart + k) -
      t.ray column 1 (t.artificialStart + k) ≤
        if t.artificialStart + k ∈ t.basis then tolerance else 0 := by
    split_ifs with hb
    · obtain ⟨i, r, hr, hrk⟩ := mem_basis.mp hb
      rw [← hrk, ray_basic h.canonical hr (hp.basic_ne hcost hr),
        ray_basic h.canonical hr (hp.basic_ne hcost hr)]
      linarith [hentries i r hr]
    · have hnonbasic (i : ℕ) (r : BasicRow ℚ) (hr : t.rows[i]? = some r) :
          r.basic ≠ t.artificialStart + k := fun he ↦ hb (mem_basis.mpr ⟨i, r, hr, he⟩)
      rw [ray_of_nonbasic hnonbasic, ray_of_nonbasic hnonbasic]
      split_ifs <;> norm_num
  rw [hcost_eq]
  refine (sum_le_sum fun k _ ↦ hterm k).trans (le_of_eq ?_)
  rw [← sum_filter, sum_const, nsmul_eq_mul, mul_comm]
  rfl

include h hp in
theorem Represents.artificialSum_le (hcosts : ∀ j < t.width, t.objective.coefficient j ≤ tolerance)
    {x : Array ℚ} {v slack : List ℚ} (hv : form.Image x v) (hslack : form.Slack v slack) :
    t.artificialSum t.basicAssignment ≤ tolerance * (v.sum + slack.sum) := by
  have hx := (h.holds_iff _).mpr hslack.holds
  have hzero : (ofForm form).artificialSum (assignment (v ++ slack)) = 0 := by
    apply sum_eq_zero
    intro k _
    apply assignment_of_le
    rw [length_image_slack hv hslack]
    exact Nat.le_add_right _ k
  have hform : t.objective.form (assignment (v ++ slack)) ≤ tolerance * (v.sum + slack.sum) := by
    rw [← sum_image_slack hv hslack, ← h.width, Equation.form, h.canonical.size_objective, mul_sum]
    exact sum_le_sum fun j hj ↦ mul_le_mul_of_nonneg_right (hcosts j (mem_range.mp hj))
      (image_slack_nonneg hv hslack j)
  have hpoint := h.objective _ hx
  have hbasic := h.objective_rhs hp
  rw [hzero, Equation.residual] at hpoint
  rw [← h.artificialSum_eq]
  linarith

include h hp in
theorem Represents.lt_of_artificialRemains (ht : 0 ≤ tolerance)
    (hcosts : ∀ j < t.width, t.objective.coefficient j ≤ tolerance)
    (hremains : t.artificialRemains feasibility = true) {x : Array ℚ} {v slack : List ℚ}
    (hv : form.Image x v) (hslack : form.Slack v slack) :
    feasibility < tolerance * (v.sum + slack.sum) + t.artificialShortfall := by
  obtain ⟨i, r, hr, hb, hlt⟩ := exists_of_artificialRemains hremains
  have hsum := h.artificialSum_le hp hcosts hv hslack
  obtain ⟨k, hk⟩ := Nat.exists_eq_add_of_le hb
  have hrange : k ∈ range t.numArtificial := by
    have hwidth := h.canonical.basic_lt_width hr
    rw [hk] at hwidth
    exact mem_range.mpr (Nat.lt_of_add_lt_add_left hwidth)
  rw [← basicAssignment_basic h.canonical hr, hk] at hlt
  refine hlt.trans_le (abs_le'.mpr ⟨?_, ?_⟩)
  · have hle := le_artificialSum_add hrange
    linarith
  · have hle := neg_le_artificialShortfall hrange
    have hsize : 0 ≤ tolerance * (v.sum + slack.sum) := by
      rw [← sum_image_slack hv hslack]
      exact mul_nonneg ht (sum_nonneg fun j _ ↦ image_slack_nonneg hv hslack j)
    linarith

end

/-- Why phase one gives up: an entering variable has no entry to pivot on, or nothing is left to
enter while an artificial variable remains. -/
def GivesUp (tolerances : Tolerances ℚ) (t : Tableau ℚ) : Prop :=
  (∃ column < t.width, tolerances.pivot < t.objective.coefficient column ∧
    ∀ (i : ℕ) (r : BasicRow ℚ), t.rows[i]? = some r →
      r.equation.coefficient column ≤ tolerances.pivot) ∨
  (∀ j < t.width, t.objective.coefficient j ≤ tolerances.pivot) ∧
    t.artificialRemains tolerances.feasibility = true

end Tableau

namespace Simplex

open Tableau

/-- What every state of a run with any tolerances satisfies until phase two, and what a verdict
without a feasible point rests on. -/
structure Grounded (form : StandardForm ℚ) (tolerances : Tolerances ℚ) (s : Simplex ℚ) : Prop where
  faithful : Faithful form tolerances s
  priced : s.pastPhaseOne = false → s.tableau.Priced
  infeasible : s.phase = .done .infeasible → form.rowWithoutActivity = none →
    s.tableau.GivesUp tolerances

variable {form : StandardForm ℚ} {tolerances : Tolerances ℚ} {s t : Simplex ℚ}

theorem grounded_start (p : Problem ℚ) (config : SolveConfig ℚ) (tolerances : Tolerances ℚ) :
    Grounded (StandardForm.ofProblem p config.presolve tolerances.pivot) tolerances
      (start p config tolerances).value := by
  have hfaithful := faithful_start p config tolerances
  have hshaped := StandardForm.shaped_ofProblem p config.presolve tolerances.pivot
  rcases start_cases p config tolerances rfl with ⟨hrow, hv⟩ | ⟨-, -, hv⟩ | ⟨-, -, hv⟩
  · refine ⟨hfaithful, fun _ ↦ ?_, fun _ hnone ↦ ?_⟩
    · rw [hv]
      exact priced_ofForm hshaped
    · rw [hnone] at hrow
      cases hrow
  · exact ⟨hfaithful, by simp [hv, unstarted, pastPhaseOne], by simp [hv, unstarted]⟩
  · refine ⟨hfaithful, fun _ ↦ ?_, by simp [hv]⟩
    rw [hv]
    exact priced_phaseOneObjective (canonical_ofForm hshaped)

theorem Grounded.step (hp : 0 ≤ tolerances.pivot) (hf : 0 ≤ tolerances.feasibility)
    (hshaped : form.Shaped) (h : Grounded form tolerances s) (hstep : Step s t) :
    Grounded form tolerances t := by
  have hfaithful := h.faithful.step hp hf hshaped hstep
  cases hstep with
  | @pivot column leaving hs hc hr =>
    obtain ⟨r, hrow, hne⟩ := exists_entry_ne_zero (h.faithful.tolerances_eq ▸ hp) hr
    refine ⟨hfaithful, fun hpast ↦ ?_, fun hdone ↦ ?_⟩
    · exact (h.priced hpast).pivot h.faithful.represents.canonical hrow hne
    · change s.phase = .done .infeasible at hdone
      simp [isDone, hdone] at hs
  | @infeasible objective hs hc ha =>
    have hcosts := reducedCost_le (h.faithful.tolerances_eq ▸ hp) hc
    rw [numCandidates, hs, h.faithful.tolerances_eq] at hcosts
    rw [h.faithful.tolerances_eq] at ha
    exact ⟨hfaithful, fun _ ↦ h.priced (by rw [pastPhaseOne, hs]), fun _ _ ↦ .inr ⟨hcosts, ha⟩⟩
  | @contradictory objective column hs hc hr =>
    obtain ⟨hlt, hcost⟩ := lt_reducedCost hc
    rw [numCandidates, hs] at hlt
    rw [h.faithful.tolerances_eq] at hcost hr
    refine ⟨hfaithful, fun _ ↦ h.priced (by rw [pastPhaseOne, hs]), fun _ _ ↦ .inl ?_⟩
    exact ⟨column, hlt, hcost, fun i r hrow ↦ entry_le_of_leavingRow hr hrow⟩
  | restore hs => exact ⟨hfaithful, by simp [pastPhaseOne, Simplex.afterPhaseOne],
      by simp [Simplex.afterPhaseOne]⟩
  | optimal hs | unbounded hs => exact ⟨hfaithful, by simp [pastPhaseOne], by simp⟩

theorem Faithful.represents_infeasible (h : Faithful form tolerances s)
    (hs : s.phase = .done .infeasible) (hnone : form.rowWithoutActivity = none) :
    (ofForm form).Represents (fun x ↦ -(ofForm form).artificialSum x) s.tableau := by
  have hr := h.represents
  simpa only [objectiveInForce, hs, h.form_eq, hnone, Option.isSome_none, Bool.false_eq_true,
    if_false] using hr

theorem grounded_steps (p : Problem ℚ) (config : SolveConfig ℚ) (hp : 0 ≤ tolerances.pivot)
    (hf : 0 ≤ tolerances.feasibility)
    (hs : Relation.ReflTransGen Step (start p config tolerances).value s) :
    Grounded (StandardForm.ofProblem p config.presolve tolerances.pivot) tolerances s :=
  steps_invariant
    (fun _ _ h hstep ↦ h.step hp hf (StandardForm.shaped_ofProblem p config.presolve _) hstep)
    (grounded_start p config tolerances) hs

theorem standard_feasibility_eq :
    (Tolerances.standard : Tolerances ℚ).feasibility = 1 / 10 ^ 7 := by
  decide +kernel

end Simplex

namespace Solver

open Simplex Tableau

/-- Where a problem with a feasible point is reported to have none, the run has stopped at a column
that only several basic artificial variables make worth entering and that has no entry to pivot on,
or with reduced costs and artificial variables that the size of the point and the negative
artificial variables account for. -/
theorem solveLp_noFeasible (solver : Solver ℚ) (htolerances : solver.tolerances = .standard)
    (p : Problem ℚ) (hp : p.WellPosed) (config : SolveConfig ℚ) {lp : Solution ℚ}
    (hlp : (solver.solveLp p config).value = some lp) (hstatus : lp.status = .noFeasible)
    {x : Array ℚ} (hx : p.Feasible x) :
    let form := StandardForm.ofProblem p config.presolve (Tolerances.standard : Tolerances ℚ).pivot
    ∃ s, Relation.ReflTransGen Step (Simplex.start p config .standard).value s ∧
      s.phase = .done .infeasible ∧ lp = s.solution p ∧
      ((∃ column < s.tableau.width,
          1 / 10 ^ 9 < s.tableau.objective.coefficient column ∧
          s.tableau.objective.coefficient column ≤ 1 / 10 ^ 9 * s.tableau.numBasicArtificial ∧
          ∀ (i : ℕ) (r : BasicRow ℚ), s.tableau.rows[i]? = some r →
            r.equation.coefficient column ≤ 1 / 10 ^ 9) ∨
        (∀ j < s.tableau.width, s.tableau.objective.coefficient j ≤ 1 / 10 ^ 9) ∧
        (∃ v slack, form.Image x v ∧ form.Slack v slack) ∧
        ∀ v slack, form.Image x v → form.Slack v slack →
          1 / 10 ^ 7 < 1 / 10 ^ 9 * (v.sum + slack.sum) + s.tableau.artificialShortfall) := by
  intro form
  obtain ⟨s, hsteps, hlp⟩ := runLp_eq_some hlp
  rw [htolerances] at hsteps
  have hshaped : form.Shaped := StandardForm.shaped_ofProblem p config.presolve _
  have h : Grounded form .standard s := grounded_steps p config
    Tolerances.standard_pivot_pos.le Tolerances.standard_feasibility_pos.le hsteps
  rw [hlp] at hstatus
  have hdone : s.phase = .done .infeasible := status_eq_noFeasible.mp hstatus
  have hnone : form.rowWithoutActivity = none :=
    StandardForm.rowWithoutActivity_mono Tolerances.standard_pivot_pos.le
      (StandardForm.admits_of_feasible hp config.presolve hx).1
  have hpriced := h.priced (by rw [pastPhaseOne, hdone])
  have hrepresents := h.faithful.represents_infeasible hdone hnone
  refine ⟨s, hsteps, hdone, hlp, ?_⟩
  rw [← standard_pivot_eq, ← standard_feasibility_eq]
  rcases h.infeasible hdone hnone with ⟨column, hlt, hcost, hentries⟩ | ⟨hcosts, hremains⟩
  · have hne := (Tolerances.standard_pivot_pos.trans hcost).ne'
    exact .inl ⟨column, hlt, hcost, hrepresents.cost_le_of_entries hpriced hne hentries, hentries⟩
  · refine .inr ⟨hcosts, ?_, fun v slack hv hslack ↦ ?_⟩
    · obtain ⟨v, hv⟩ := StandardForm.exists_image_of_feasible hp config.presolve _ hx
      obtain ⟨slack, hslack⟩ := exists_slack hshaped hv
      exact ⟨v, slack, hv, hslack⟩
    · exact hrepresents.lt_of_artificialRemains hpriced Tolerances.standard_pivot_pos.le hcosts
        hremains hv hslack

/-- The only feasible point is `1`, and the second row leaves room for a little more. The ratio
test finds the two rows equally good and takes the one whose basic variable comes first. -/
def nearTie : Problem ℚ :=
  { name := "near tie", direction := .maximize
    columns := #[
      { name := "x", objective := 1, kind := .continuous, bounds := .unset, boundType := .lower }]
    rows := #[
      { name := "level", coefficients := ⟨#[some 0], #[⟨1, 512⟩]⟩,
        boundType := .fixed, lower := .fin 512, upper := .fin 512 },
      { name := "cap", coefficients := ⟨#[some 0], #[⟨1, 1⟩]⟩,
        boundType := .upper, lower := .negInf, upper := .fin (1 + 1 / 2 ^ 31) }] }

theorem wellPosed_nearTie : nearTie.WellPosed := by
  have hlevel : (⟨#[some 0], #[⟨1, 512⟩]⟩ : SparseVector ℚ).Valid :=
    SparseVector.valid_ofPairs (show SparseVector.ofPairs 1 [(1, (512 : ℚ))] = .ok _ from rfl)
  have hcap : (⟨#[some 0], #[⟨1, 1⟩]⟩ : SparseVector ℚ).Valid :=
    SparseVector.valid_ofPairs (show SparseVector.ofPairs 1 [(1, (1 : ℚ))] = .ok _ from rfl)
  refine ⟨?_, ?_, ?_⟩
  · simp only [nearTie, List.mem_toArray, List.forall_mem_cons]
    exact ⟨hlevel, hcap, by simp⟩
  · simp [nearTie, Row.Bounded, Row.sides]
  · simp [nearTie, Column.Matched, Column.lower, Column.upper, ColumnBounds.resolve]

theorem feasible_nearTie : nearTie.Feasible #[1] := by
  have himage : (StandardForm.ofProblem nearTie true 0).Image #[1] [1] :=
    ⟨by decide +kernel, by decide +kernel, by decide +kernel, by decide +kernel⟩
  rw [← himage.recover]
  refine (StandardForm.feasible_recover_iff wellPosed_nearTie true 0 himage.nonneg).mpr
    ⟨?_, himage.holds⟩
  decide +kernel

theorem solveLp_noFeasible_nearTie :
    let form := StandardForm.ofProblem nearTie true (Tolerances.standard : Tolerances ℚ).pivot
    nearTie.WellPosed ∧ nearTie.Feasible #[1] ∧
      ∃ lp, (Solver.standard.solveLp nearTie .default).value = some lp ∧ lp.status = .noFeasible ∧
        ∃ s, Relation.ReflTransGen Step (Simplex.start nearTie .default .standard).value s ∧
          s.phase = .done .infeasible ∧ lp = s.solution nearTie ∧
          ((∃ column < s.tableau.width,
              1 / 10 ^ 9 < s.tableau.objective.coefficient column ∧
              s.tableau.objective.coefficient column ≤
                1 / 10 ^ 9 * s.tableau.numBasicArtificial ∧
              ∀ (i : ℕ) (r : BasicRow ℚ), s.tableau.rows[i]? = some r →
                r.equation.coefficient column ≤ 1 / 10 ^ 9) ∨
            (∀ j < s.tableau.width, s.tableau.objective.coefficient j ≤ 1 / 10 ^ 9) ∧
            (∃ v slack, form.Image #[1] v ∧ form.Slack v slack) ∧
            ∀ v slack, form.Image #[1] v → form.Slack v slack →
              1 / 10 ^ 7 < 1 / 10 ^ 9 * (v.sum + slack.sum) + s.tableau.artificialShortfall) := by
  intro form
  have hsome : ((Solver.standard.solveLp nearTie .default).value.map fun lp ↦ lp.status) =
      some .noFeasible := by decide +kernel
  obtain ⟨lp, hlp, hstatus⟩ := Option.map_eq_some_iff.mp hsome
  exact ⟨wellPosed_nearTie, feasible_nearTie, lp, hlp, hstatus,
    solveLp_noFeasible Solver.standard rfl nearTie wellPosed_nearTie .default hlp hstatus
      feasible_nearTie⟩

/-- A feasible problem with coefficients of moderate size that is reported to have no feasible
point. -/
theorem noFeasible_nearTie :
    nearTie.WellPosed ∧
      (∀ r ∈ nearTie.rows, ∀ e ∈ r.coefficients.toList, 1 / 10 ^ 3 ≤ |e.2| ∧ |e.2| ≤ 10 ^ 3) ∧
      nearTie.Feasible #[1] ∧
      ((Solver.standard.solveLp nearTie .default).value.map fun lp ↦ lp.status) =
        some .noFeasible :=
  ⟨wellPosed_nearTie, by decide +kernel, feasible_nearTie, by decide +kernel⟩

end Solver

end LinProg
