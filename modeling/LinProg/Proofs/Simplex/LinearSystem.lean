import LinProg.Proofs.Problem.Feasible
import LinProg.Proofs.Simplex.PivotChoice
import LinProg.Proofs.Simplex.Steps
import LinProg.Proofs.StandardForm.Forms
import LinProg.Proofs.Tableau.BasicPoint

namespace LinProg.Simplex

open Tableau

/-- What the objective row stands for: minus the sum of the artificial variables between the
start of phase one and its successful end, and the objective of the standard form otherwise. -/
def objectiveInForce (s : Simplex ℚ) : (ℕ → ℚ) → ℚ :=
  match s.phase with
  | .one _ => fun x ↦ -(ofForm s.form).artificialSum x
  | .done .infeasible =>
    if s.form.rowWithoutActivity.isSome then dot s.form.objective
    else fun x ↦ -(ofForm s.form).artificialSum x
  | _ => dot s.form.objective

/-- The state of a run on a standard form whose tableau still stands for the form. -/
structure Faithful (form : StandardForm ℚ) (tolerances : Tolerances ℚ) (s : Simplex ℚ) : Prop where
  form_eq : s.form = form
  tolerances_eq : s.tolerances = tolerances
  represents : (ofForm form).Represents s.objectiveInForce s.tableau
  saved : ∀ objective, s.phase = .one objective → objective = (ofForm form).objective
  presolved : form.rowWithoutActivity.isSome = true → s.phase = .done .infeasible

variable {form : StandardForm ℚ} {tolerances : Tolerances ℚ} {s t : Simplex ℚ}

def unstarted {α : Type} [Scalar α] (form : StandardForm α) (tolerances : Tolerances α)
    (messageLevel : MessageLevel) : Simplex α :=
  { form, tolerances, messageLevel, tableau := ofForm form, phase := .two, iterations := 0
    degenerateStreak := 0 }

theorem start_cases {α : Type} [Scalar α] (p : Problem α) (config : SolveConfig α)
    (tolerances : Tolerances α) {form : StandardForm α}
    (hform : StandardForm.ofProblem p config.presolve tolerances.pivot = form) :
    (form.rowWithoutActivity.isSome = true ∧
      (start p config tolerances).value =
        { unstarted form tolerances config.messageLevel with phase := .done .infeasible }) ∨
    (form.rowWithoutActivity.isSome = false ∧ (ofForm form).numArtificial = 0 ∧
      (start p config tolerances).value = unstarted form tolerances config.messageLevel) ∨
    (form.rowWithoutActivity.isSome = false ∧ (ofForm form).numArtificial ≠ 0 ∧
      (start p config tolerances).value =
        { unstarted form tolerances config.messageLevel with
          phase := .one (ofForm form).objective
          tableau := { ofForm form with objective := (ofForm form).phaseOneObjective } }) := by
  simp only [start, hform]
  cases form.rowWithoutActivity with
  | some row => exact .inl ⟨rfl, rfl⟩
  | none =>
    by_cases hart : (ofForm form).numArtificial = 0
    · refine .inr (.inl ⟨rfl, hart, ?_⟩)
      simp only [if_pos hart]
      rfl
    · refine .inr (.inr ⟨rfl, hart, ?_⟩)
      simp only [if_neg hart]
      rfl

theorem faithful_start (p : Problem ℚ) (config : SolveConfig ℚ) (tolerances : Tolerances ℚ) :
    Faithful (StandardForm.ofProblem p config.presolve tolerances.pivot) tolerances
      (start p config tolerances).value := by
  have hfirst :=
    represents_ofForm (StandardForm.shaped_ofProblem p config.presolve tolerances.pivot)
  generalize hform : StandardForm.ofProblem p config.presolve tolerances.pivot = form at hfirst ⊢
  rcases start_cases p config tolerances hform with
    ⟨hrow, hv⟩ | ⟨hrow, hart, hv⟩ | ⟨hrow, hart, hv⟩
  · rw [hv]
    refine ⟨rfl, rfl, ?_, by simp, fun _ ↦ rfl⟩
    simpa only [objectiveInForce, unstarted, hrow, if_true] using hfirst
  · rw [hv]
    exact ⟨rfl, rfl, hfirst, by simp [unstarted], fun h ↦ by simp [hrow] at h⟩
  · rw [hv]
    exact ⟨rfl, rfl, hfirst.phaseOne, fun objective h ↦ (Phase.one.inj h).symm,
      fun h ↦ by simp [hrow] at h⟩

theorem Faithful.giveUp (h : Faithful form tolerances s) {objective : Equation ℚ}
    (hs : s.phase = .one objective) :
    Faithful form tolerances { s with phase := .done .infeasible } := by
  have hnone : form.rowWithoutActivity.isSome = false := by
    by_contra hsome
    have hdone := h.presolved (Bool.not_eq_false _ ▸ hsome)
    rw [hs] at hdone
    cases hdone
  refine ⟨h.form_eq, h.tolerances_eq, ?_, by simp, fun _ ↦ rfl⟩
  have hr := h.represents
  simp only [objectiveInForce, hs, h.form_eq] at hr
  simpa only [objectiveInForce, h.form_eq, hnone, Bool.false_eq_true, if_false] using hr

theorem Faithful.drivenOut (hf : 0 ≤ tolerances.feasibility) (h : Faithful form tolerances s)
    {objective : Equation ℚ} (hs : s.phase = .one objective) (hshaped : form.Shaped) :
    (ofForm form).Represents s.objectiveInForce
        (s.tableau.driveOutArtificials tolerances.feasibility) ∧
      (s.tableau.driveOutArtificials tolerances.feasibility).StandsFor (dot form.objective)
        objective := by
  have hdriven := h.represents.driveOutArtificials hf
  obtain rfl := h.saved objective hs
  refine ⟨hdriven, ?_, fun x _ ↦ residual_objective_ofForm form x⟩
  rw [(canonical_ofForm hshaped).size_objective, hdriven.width]

theorem Faithful.afterPhaseOne (hf : 0 ≤ tolerances.feasibility) (h : Faithful form tolerances s)
    {objective : Equation ℚ} (hs : s.phase = .one objective) (hshaped : form.Shaped) :
    Faithful form tolerances (s.afterPhaseOne objective) := by
  have hnone : form.rowWithoutActivity.isSome = true → False := fun hsome ↦ by
    have hdone := h.presolved hsome
    rw [hs] at hdone
    cases hdone
  refine ⟨h.form_eq, h.tolerances_eq, ?_, by simp [Simplex.afterPhaseOne],
    fun hsome ↦ (hnone hsome).elim⟩
  obtain ⟨hdriven, hstands⟩ := h.drivenOut hf hs hshaped
  have hrestored := hdriven.restoreObjective hstands tolerances.pivot
  simpa only [objectiveInForce, Simplex.afterPhaseOne, h.form_eq, h.tolerances_eq] using hrestored

theorem Faithful.finish (h : Faithful form tolerances s) (hs : s.phase = .two)
    {terminal : Terminal} (hterminal : terminal ≠ .infeasible) :
    Faithful form tolerances { s with phase := .done terminal } := by
  refine ⟨h.form_eq, h.tolerances_eq, ?_, by simp, fun hsome ↦ ?_⟩
  · have hr := h.represents
    simp only [objectiveInForce, hs] at hr
    cases terminal with
    | infeasible => exact absurd rfl hterminal
    | optimal | unbounded => exact hr
  · have hdone := h.presolved hsome
    rw [hs] at hdone
    cases hdone

theorem Faithful.step (hp : 0 ≤ tolerances.pivot) (hf : 0 ≤ tolerances.feasibility)
    (hshaped : form.Shaped) (h : Faithful form tolerances s) (hstep : Step s t) :
    Faithful form tolerances t := by
  cases hstep with
  | @pivot column leaving hs hc hr =>
    obtain ⟨r, hrow, hne⟩ := exists_entry_ne_zero (h.tolerances_eq ▸ hp) hr
    exact ⟨h.form_eq, h.tolerances_eq, h.represents.pivot hrow hne, h.saved, h.presolved⟩
  | infeasible hs hc ha => exact h.giveUp hs
  | restore hs hc ha => exact h.afterPhaseOne hf hs hshaped
  | contradictory hs hc hr => exact h.giveUp hs
  | optimal hs hc => exact h.finish hs (by simp)
  | unbounded hs hc hr => exact h.finish hs (by simp)

theorem faithful_steps (p : Problem ℚ) (config : SolveConfig ℚ) (hp : 0 ≤ tolerances.pivot)
    (hf : 0 ≤ tolerances.feasibility)
    (hs : Relation.ReflTransGen Step (start p config tolerances).value s) :
    Faithful (StandardForm.ofProblem p config.presolve tolerances.pivot) tolerances s :=
  steps_invariant
    (fun _ _ h hstep ↦ h.step hp hf (StandardForm.shaped_ofProblem p config.presolve _) hstep)
    (faithful_start p config tolerances) hs

theorem values_solution (h : Faithful form tolerances s) (p : Problem ℚ) :
    (s.solution p).values =
      (form.recover ((List.range form.numVars).map s.tableau.basicAssignment)).toArray := by
  have hvars : s.tableau.numVars = form.numVars := h.represents.numVars
  rw [← hvars, ← basicPoint_eq h.represents.canonical, ← h.form_eq]
  rfl

/-- After any steps the rows have the solutions that they had at first, each basic variable stands
in its own row only, the objective row is the objective in force, and the reported values belong to
a solution of the first rows. -/
theorem steps_keep_system (p : Problem ℚ) (config : SolveConfig ℚ) {s : Simplex ℚ}
    (hs : Relation.ReflTransGen Step (start p config .standard).value s) :
    let form := StandardForm.ofProblem p config.presolve (Tolerances.standard : Tolerances ℚ).pivot
    (∀ x, s.tableau.Holds x ↔ (ofForm form).Holds x) ∧
    (∀ (i k : ℕ) (r q : BasicRow ℚ), s.tableau.rows[i]? = some r → s.tableau.rows[k]? = some q →
      q.equation.coefficient r.basic = (if i = k then 1 else 0) ∧
        (r.basic = q.basic → i = k)) ∧
    (∀ x, s.tableau.Holds x → s.tableau.objective.residual x = s.objectiveInForce x) ∧
    (ofForm form).Holds s.tableau.basicAssignment ∧
    (s.solution p).values =
      (form.recover ((List.range form.numVars).map s.tableau.basicAssignment)).toArray := by
  intro form
  have h : Faithful form .standard s := faithful_steps p config
    Tolerances.standard_pivot_pos.le Tolerances.standard_feasibility_pos.le hs
  obtain ⟨hcanonical, -, -, -, -, hholds, hobjective⟩ := h.represents
  refine ⟨hholds, ?_, hobjective, ?_, values_solution h p⟩
  · intro i k r q hr hq
    exact ⟨hcanonical.basis i k r q hr hq, hcanonical.basic_injective hr hq⟩
  · exact (hholds _).mp (holds_basicAssignment hcanonical)

/-- The time of this run is up when it has just passed to phase two. -/
theorem steps_keep_system_twoPhases :
    let config : SolveConfig ℚ :=
      { SolveConfig.default with presolve := false, timeLimit := some ⟨21⟩ }
    let start := (start Problem.twoPhases config .standard).value
    let s := (start.run 9 (config.deadline .ticking)).value.1
    let form := StandardForm.ofProblem Problem.twoPhases false
      (Tolerances.standard : Tolerances ℚ).pivot
    Relation.ReflTransGen Step start s ∧ s.phase = .two ∧ s.iterations = 1 ∧
      (∀ x, s.tableau.Holds x ↔ (ofForm form).Holds x) ∧
      (∀ x, s.tableau.Holds x → s.tableau.objective.residual x = s.objectiveInForce x) ∧
      (ofForm form).Holds s.tableau.basicAssignment ∧
      (s.solution Problem.twoPhases).values =
        (form.recover ((List.range form.numVars).map s.tableau.basicAssignment)).toArray := by
  intro config start s form
  have hs : Relation.ReflTransGen Step start s := run_steps _ _ _
  obtain ⟨hholds, -, hobjective, hbasic, hvalues⟩ :=
    steps_keep_system Problem.twoPhases config hs
  exact ⟨hs, by decide +kernel, by decide +kernel, hholds, hobjective, hbasic, hvalues⟩

end LinProg.Simplex
