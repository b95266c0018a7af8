import LinProg.Proofs.Simplex.Certificates
import LinProg.Proofs.StandardForm.Equivalence

namespace LinProg

def Tolerances.exact : Tolerances ℚ := ⟨0, 0⟩

namespace Simplex

open Tableau

def pastPhaseOne (s : Simplex ℚ) : Bool :=
  match s.phase with
  | .one _ | .done .infeasible => false
  | .two | .done .optimal | .done .unbounded => true

variable {form : StandardForm ℚ} {tolerances : Tolerances ℚ} {s t : Simplex ℚ}

theorem Faithful.represents_two (h : Faithful form tolerances s) (hs : s.pastPhaseOne = true) :
    (ofForm form).Represents (dot form.objective) s.tableau := by
  have hr := h.represents
  simp only [pastPhaseOne] at hs
  split at hs
  · cases hs
  · cases hs
  all_goals
    next hphase => simpa only [objectiveInForce, hphase, h.form_eq] using hr

/-- What every state of a run with exact comparison satisfies, and what its end certifies. -/
structure Sound (form : StandardForm ℚ) (s : Simplex ℚ) : Prop where
  faithful : Faithful form .exact s
  rhs_nonneg : s.tableau.RhsNonneg
  priced : s.tableau.Priced
  idle : s.pastPhaseOne = true → s.tableau.ArtificialsIdle
  optimal : s.phase = .done .optimal →
    ∀ j < s.tableau.artificialStart, s.tableau.objective.coefficient j ≤ 0
  unbounded : s.phase = .done .unbounded → ∃ column < s.tableau.artificialStart,
    0 < s.tableau.objective.coefficient column ∧
      ∀ (i : ℕ) (r : BasicRow ℚ), s.tableau.rows[i]? = some r → r.equation.coefficient column ≤ 0
  infeasible : s.phase = .done .infeasible → form.rowWithoutActivity = none →
    ∀ v, ¬ form.Admits v

theorem sound_of_not_done (hfaithful : Faithful form .exact s) (hrhs : s.tableau.RhsNonneg)
    (hpriced : s.tableau.Priced) (hidle : s.pastPhaseOne = true → s.tableau.ArtificialsIdle)
    (hdone : ∀ terminal, s.phase ≠ .done terminal) : Sound form s :=
  ⟨hfaithful, hrhs, hpriced, hidle, fun h ↦ absurd h (hdone _), fun h ↦ absurd h (hdone _),
    fun h ↦ absurd h (hdone _)⟩

theorem sound_start (p : Problem ℚ) (config : SolveConfig ℚ) :
    Sound (StandardForm.ofProblem p config.presolve 0) (start p config .exact).value := by
  have hfaithful := faithful_start p config .exact
  have hshaped := StandardForm.shaped_ofProblem p config.presolve 0
  generalize hform : StandardForm.ofProblem p config.presolve 0 = form at hshaped ⊢
  rw [Tolerances.exact, hform] at hfaithful
  have hpriced := priced_ofForm hshaped
  have hrhs := rhsNonneg_ofForm form
  rcases start_cases p config .exact hform with
    ⟨hrow, hv⟩ | ⟨-, hart, hv⟩ | ⟨-, -, hv⟩
  · rw [← Tolerances.exact, hv] at hfaithful
    rw [hv]
    refine ⟨hfaithful, hrhs, hpriced, by simp [pastPhaseOne], by simp, by simp, fun _ h ↦ ?_⟩
    rw [h] at hrow
    cases hrow
  · rw [← Tolerances.exact, hv] at hfaithful
    rw [hv]
    exact sound_of_not_done hfaithful hrhs hpriced
      (fun _ ↦ artificialsIdle_of_numArtificial (canonical_ofForm hshaped) hart)
      (by simp [unstarted])
  · rw [← Tolerances.exact, hv] at hfaithful
    rw [hv]
    exact sound_of_not_done hfaithful hrhs (priced_phaseOneObjective (canonical_ofForm hshaped))
      (by simp [pastPhaseOne]) (by simp)

theorem Sound.represents_one (h : Sound form s) {objective : Equation ℚ}
    (hs : s.phase = .one objective) :
    (ofForm form).Represents (fun x ↦ -(ofForm form).artificialSum x) s.tableau := by
  have hr := h.faithful.represents
  simpa only [objectiveInForce, hs, h.faithful.form_eq] using hr

theorem Sound.pivot_eq (h : Sound form s) : s.tolerances.pivot = 0 := by
  rw [h.faithful.tolerances_eq]
  rfl

theorem Sound.feasibility_eq (h : Sound form s) : s.tolerances.feasibility = 0 := by
  rw [h.faithful.tolerances_eq]
  rfl

theorem Sound.afterPivot (h : Sound form s) (hshaped : form.Shaped) {column : ℕ}
    {leaving : Leaving ℚ} (hs : s.isDone = false) (hc : s.enteringColumn = some column)
    (hr : leavingRow s.tableau s.tolerances.pivot column = some leaving) :
    Sound form (s.afterPivot column leaving) := by
  have hfaithful := h.faithful.step le_rfl le_rfl hshaped (Step.pivot hs hc hr)
  have hcanonical := h.faithful.represents.canonical
  obtain ⟨hcandidate, -⟩ := lt_reducedCost hc
  rw [h.pivot_eq] at hr
  obtain ⟨r, hrow, hpos, -, hratio⟩ := admits_of_leavingRow hr
  have hvalue (i : ℕ) (q : BasicRow ℚ) (hq : s.tableau.rows[i]? = some q) :
      ratio column q = q.equation.rhs / q.equation.coefficient column := by
    rw [ratio, Scalar.positivePart_rat, max_eq_right (h.rhs_nonneg i q hq)]
  refine sound_of_not_done hfaithful ?_ (h.priced.pivot hcanonical hrow hpos.ne') ?_ ?_
  · refine h.rhs_nonneg.pivot hcanonical hrow hpos fun i q hq hqpos ↦ ?_
    have hle := ratio_le_of_leavingRow hr hq hqpos
    rwa [hratio, hvalue _ r hrow, hvalue i q hq] at hle
  · intro hpast
    have htwo : s.numCandidates = s.tableau.artificialStart := by
      unfold numCandidates
      cases hphase : s.phase with
      | one objective => simp [pastPhaseOne, Simplex.afterPivot, hphase] at hpast
      | two | done => rfl
    rw [htwo] at hcandidate
    exact (h.idle hpast).pivot hcanonical hrow hcandidate
  · intro terminal hdone
    change s.phase = .done terminal at hdone
    simp [isDone, hdone] at hs

theorem Sound.afterPhaseOne (h : Sound form s) (hshaped : form.Shaped) {objective : Equation ℚ}
    (hs : s.phase = .one objective)
    (ha : s.tableau.artificialRemains s.tolerances.feasibility = false) :
    Sound form (s.afterPhaseOne objective) := by
  have hfaithful := h.faithful.afterPhaseOne le_rfl hs hshaped
  have hzero := h.feasibility_eq
  obtain ⟨hdriven, hsize, -⟩ := h.faithful.drivenOut le_rfl hs hshaped
  rw [hzero] at ha
  have hout := driveOutArtificials_drivenOut h.faithful.represents.canonical h.rhs_nonneg ha
  have htableau : (s.afterPhaseOne objective).tableau =
      (s.tableau.driveOutArtificials 0).restoreObjective objective 0 := by
    rw [Simplex.afterPhaseOne, hzero, h.pivot_eq]
  refine sound_of_not_done hfaithful ?_ ?_ (fun _ ↦ ?_) (by simp [Simplex.afterPhaseOne])
  · rw [htableau]
    exact hout.rhs_nonneg
  · rw [htableau]
    exact priced_restoreObjective hdriven.canonical hsize
  · rw [htableau]
    exact hout.idle

/-- Phase one in exact arithmetic finds a limit to every entering variable. -/
theorem Sound.not_contradictory (h : Sound form s) {objective : Equation ℚ} {column : ℕ}
    (hs : s.phase = .one objective) (hc : s.enteringColumn = some column) :
    leavingRow s.tableau s.tolerances.pivot column ≠ none := by
  intro hr
  obtain ⟨-, hcost⟩ := lt_reducedCost hc
  rw [h.pivot_eq] at hr hcost
  obtain ⟨i, r, hrow, hpos⟩ := exists_entry_pos (h.represents_one hs) h.rhs_nonneg h.priced hcost
  exact absurd (entry_le_of_leavingRow hr hrow) (not_le_of_gt hpos)

theorem Sound.step (hshaped : form.Shaped) (h : Sound form s) (hstep : Step s t) :
    Sound form t := by
  have hfaithful := h.faithful.step le_rfl le_rfl hshaped hstep
  cases hstep with
  | pivot hs hc hr => exact h.afterPivot hshaped hs hc hr
  | @infeasible objective hs hc ha =>
    refine ⟨hfaithful, h.rhs_nonneg, h.priced, by simp [pastPhaseOne], by simp, by simp,
      fun _ _ v ↦ ?_⟩
    have hcosts := reducedCost_le (s := s) (by rw [h.pivot_eq]) hc
    have hall : s.numCandidates = s.tableau.width := by rw [numCandidates, hs]
    rw [h.pivot_eq, hall] at hcosts
    rw [h.feasibility_eq] at ha
    obtain ⟨i, r, hr, hb, hne⟩ := artificialRemains_eq_true ha
    exact not_admits_of_remaining (h.represents_one hs) h.rhs_nonneg h.priced hshaped hcosts hr hb
      hne v
  | restore hs hc ha => exact h.afterPhaseOne hshaped hs ha
  | contradictory hs hc hr => exact absurd hr (h.not_contradictory hs hc)
  | optimal hs hc =>
    have hidle := h.idle (by rw [pastPhaseOne, hs])
    refine ⟨hfaithful, h.rhs_nonneg, h.priced, fun _ ↦ hidle, fun _ ↦ ?_, by simp, by simp⟩
    have hcosts := reducedCost_le (s := s) (by rw [h.pivot_eq]) hc
    have hall : s.numCandidates = s.tableau.artificialStart := by rw [numCandidates, hs]
    rwa [h.pivot_eq, hall] at hcosts
  | @unbounded column hs hc hr =>
    have hidle := h.idle (by rw [pastPhaseOne, hs])
    refine ⟨hfaithful, h.rhs_nonneg, h.priced, fun _ ↦ hidle, by simp, fun _ ↦ ?_, by simp⟩
    obtain ⟨hcandidate, hcost⟩ := lt_reducedCost hc
    have hall : s.numCandidates = s.tableau.artificialStart := by rw [numCandidates, hs]
    rw [h.pivot_eq] at hr hcost
    rw [hall] at hcandidate
    exact ⟨column, hcandidate, hcost, fun i r hrow ↦ entry_le_of_leavingRow hr hrow⟩

theorem sound_steps (p : Problem ℚ) (config : SolveConfig ℚ)
    (hs : Relation.ReflTransGen Step (start p config .exact).value s) :
    Sound (StandardForm.ofProblem p config.presolve 0) s :=
  steps_invariant
    (fun _ _ h hstep ↦ h.step (StandardForm.shaped_ofProblem p config.presolve 0) hstep)
    (sound_start p config) hs

section

variable {p : Problem ℚ} {presolve : Bool} (hp : p.WellPosed)
  (h : Sound (StandardForm.ofProblem p presolve 0) s)

include h in
theorem Sound.rowWithoutActivity (hs : s.pastPhaseOne = true) :
    (StandardForm.ofProblem p presolve 0).rowWithoutActivity = none := by
  cases hrow : (StandardForm.ofProblem p presolve 0).rowWithoutActivity with
  | none => rfl
  | some row =>
    have hdone := h.faithful.presolved (by rw [hrow]; rfl)
    rw [pastPhaseOne, hdone] at hs
    cases hs

include h in
theorem Sound.values_eq :
    (s.solution p).values = StandardForm.pointOf p s.tableau.basicAssignment :=
  values_solution h.faithful p

include hp h in
theorem Sound.feasible_values (hs : s.pastPhaseOne = true) :
    p.Feasible (s.solution p).values ∧
      StandardForm.directionSign p * p.objectiveValue (s.solution p).values =
        dot (StandardForm.ofProblem p presolve 0).objective s.tableau.basicAssignment +
          StandardForm.objectiveOffset p := by
  have hshaped := StandardForm.shaped_ofProblem p presolve 0
  rw [h.values_eq]
  exact StandardForm.feasible_of_admits hp (h.rowWithoutActivity hs)
    ((h.faithful.represents_two hs).admits_basic hshaped h.rhs_nonneg (h.idle hs))

include hp h in
theorem Sound.not_better_of_optimal (hs : s.phase = .done .optimal) {y : Array ℚ}
    (hy : p.Feasible y) :
    ¬ p.direction.Better (p.objectiveValue y) (p.objectiveValue (s.solution p).values) := by
  have hpast : s.pastPhaseOne = true := by rw [pastPhaseOne, hs]
  obtain ⟨-, v, hv, hobjective⟩ := StandardForm.admits_of_feasible hp presolve hy
  have hle := objective_le_basic (StandardForm.shaped_ofProblem p presolve 0) h.priced
    (h.faithful.represents_two hpast) (h.optimal hs) hv
  rw [StandardForm.better_iff, (h.feasible_values hp hpast).2, hobjective]
  linarith

include hp h in
theorem Sound.not_feasible_of_infeasible (hs : s.phase = .done .infeasible) (y : Array ℚ) :
    ¬ p.Feasible y := by
  intro hy
  obtain ⟨hrow, v, hv, -⟩ := StandardForm.admits_of_feasible hp presolve hy
  exact h.infeasible hs hrow v hv

include hp h in
theorem Sound.exists_better_of_unbounded (hs : s.phase = .done .unbounded) (bound : ℚ) :
    ∃ y, p.Feasible y ∧ p.direction.Better (p.objectiveValue y) bound := by
  have hpast : s.pastPhaseOne = true := by rw [pastPhaseOne, hs]
  obtain ⟨column, hcolumn, hcost, hentries⟩ := h.unbounded hs
  obtain ⟨v, hv, hlt⟩ := exists_admits_gt (StandardForm.shaped_ofProblem p presolve 0)
    h.rhs_nonneg h.priced (h.faithful.represents_two hpast) (h.idle hpast) hcolumn hcost hentries
    (StandardForm.directionSign p * bound - StandardForm.objectiveOffset p)
  obtain ⟨hfeasible, hobjective⟩ :=
    StandardForm.feasible_of_admits hp (h.rowWithoutActivity hpast) hv
  refine ⟨StandardForm.pointOf p v, hfeasible, ?_⟩
  rw [StandardForm.better_iff, hobjective]
  linarith

end

/-- The verdict of a run with exact comparison, split into any budgets, is right: an optimal point
is feasible and none is better; without a feasible point there is none; and an unbounded problem
has feasible points that are better than any number, the reported one among the feasible. -/
theorem runs_verdict (p : Problem ℚ) (hp : p.WellPosed) (config : SolveConfig ℚ)
    (calls : List (ℕ × Deadline)) :
    let s := (start p config .exact).value.runs calls
    let x := (s.solution p).values
    (s.phase = .done .optimal → p.Feasible x ∧
      ∀ y, p.Feasible y → ¬ p.direction.Better (p.objectiveValue y) (p.objectiveValue x)) ∧
    (s.phase = .done .infeasible → ∀ y, ¬ p.Feasible y) ∧
    (s.phase = .done .unbounded → p.Feasible x ∧
      ∀ bound, ∃ y, p.Feasible y ∧ p.direction.Better (p.objectiveValue y) bound) := by
  intro s x
  have h : Sound (StandardForm.ofProblem p config.presolve 0) s :=
    sound_steps p config (runs_steps _ calls)
  refine ⟨fun hs ↦ ?_, fun hs ↦ h.not_feasible_of_infeasible hp hs, fun hs ↦ ?_⟩
  · exact ⟨(h.feasible_values hp (by rw [pastPhaseOne, hs])).1,
      fun y hy ↦ h.not_better_of_optimal hp hs hy⟩
  · exact ⟨(h.feasible_values hp (by rw [pastPhaseOne, hs])).1,
      h.exists_better_of_unbounded hp hs⟩

/-- The time is up during the first run, and not again. -/
theorem runs_verdict_twoPhases :
    let config : SolveConfig ℚ := { SolveConfig.default with presolve := false }
    let short : Deadline := { limit := some ⟨21⟩, clock := .ticking, looks := 0 }
    let s := (start Problem.twoPhases config .exact).value.runs
      [(9, short), (1, config.deadline .ticking), (5, config.deadline .ticking)]
    let x := (s.solution Problem.twoPhases).values
    Problem.twoPhases.WellPosed ∧ s.phase = .done .optimal ∧ s.iterations = 3 ∧
      Problem.twoPhases.Feasible x ∧ ∀ y, Problem.twoPhases.Feasible y →
        ¬ Direction.maximize.Better (Problem.twoPhases.objectiveValue y)
          (Problem.twoPhases.objectiveValue x) := by
  intro config short s x
  have hs : s.phase = .done .optimal := by decide +kernel
  have h := runs_verdict Problem.twoPhases Problem.wellPosed_twoPhases config
    [(9, short), (1, config.deadline .ticking), (5, config.deadline .ticking)]
  exact ⟨Problem.wellPosed_twoPhases, hs, by decide +kernel, h.1 hs⟩

end Simplex

end LinProg
