import Mathlib.Logic.Function.Iterate
import LinProg.Proofs.Simplex.LinearSystem
import LinProg.Backend

namespace LinProg

namespace Simplex

variable {α : Type} [Scalar α] (F : StandardForm α → StandardForm α)

def mapForm (s : Simplex α) : Simplex α := { s with form := F s.form }

def Attempt.mapForm : Attempt α → Attempt α
  | .pivoted next => .pivoted (next.mapForm F)
  | .optimal => .optimal
  | .unbounded => .unbounded

omit [Scalar α] in
@[simp] theorem isDone_mapForm (s : Simplex α) : (s.mapForm F).isDone = s.isDone := rfl

theorem attempt_mapForm (s : Simplex α) : (s.mapForm F).attempt = Attempt.mapForm F s.attempt := by
  have hcolumn : (s.mapForm F).enteringColumn = s.enteringColumn := rfl
  have hrow (column : ℕ) :
      leavingRow (s.mapForm F).tableau (s.mapForm F).tolerances.pivot column =
        leavingRow s.tableau s.tolerances.pivot column := rfl
  unfold attempt
  rw [hcolumn]
  cases s.enteringColumn with
  | none => rfl
  | some column =>
    simp only [hrow]
    cases leavingRow s.tableau s.tolerances.pivot column <;> rfl

theorem finishPhaseOne_mapForm (s : Simplex α) (objective : Equation α) :
    ((s.mapForm F).finishPhaseOne objective).value =
      (s.finishPhaseOne objective).value.mapForm F := by
  have hremains :
      (s.mapForm F).tableau.artificialRemains (s.mapForm F).tolerances.feasibility =
        s.tableau.artificialRemains s.tolerances.feasibility := rfl
  rw [value_finishPhaseOne, value_finishPhaseOne, hremains]
  split_ifs <;> rfl

theorem turn_mapForm (s : Simplex α) : (s.mapForm F).turn.value = s.turn.value.mapForm F := by
  have hphase : (s.mapForm F).phase = s.phase := rfl
  unfold turn
  rw [hphase, attempt_mapForm]
  cases s.attempt with
  | pivoted next => rfl
  | unbounded => cases s.phase <;> rfl
  | optimal =>
    cases s.phase with
    | one objective => exact finishPhaseOne_mapForm F s objective
    | two | done => rfl

/-- Both runs take the same turns, and look at the clock as often. -/
theorem run_mapForm (s : Simplex α) (budget : ℕ) (d : Deadline) :
    ((s.mapForm F).run budget d).value =
      ((s.run budget d).value.1.mapForm F, (s.run budget d).value.2) := by
  rw [value_run, value_run]
  refine Logged.iterateWhile_related
    (R := fun r r' : Simplex α × Deadline ↦ r = (r'.1.mapForm F, r'.2)) ?_ ?_ _ rfl
  · rintro r r' rfl
    rfl
  · rintro r r' - rfl
    exact Prod.ext (turn_mapForm F r'.1) rfl

variable {F}

theorem start_mapForm {p q : Problem α} {config : SolveConfig α} {tolerances : Tolerances α}
    (hform : StandardForm.ofProblem q config.presolve tolerances.pivot =
      F (StandardForm.ofProblem p config.presolve tolerances.pivot))
    (htableau : ∀ form, Tableau.ofForm (F form) = Tableau.ofForm form)
    (hrow : ∀ form, (F form).rowWithoutActivity.isSome = form.rowWithoutActivity.isSome) :
    (start q config tolerances).value = (start p config tolerances).value.mapForm F := by
  unfold start
  rw [hform]
  generalize StandardForm.ofProblem p config.presolve tolerances.pivot = form
  have hrow := hrow form
  simp only [htableau]
  cases hp : form.rowWithoutActivity with
  | some row =>
    obtain ⟨row', hq⟩ := Option.isSome_iff_exists.mp (hrow.trans (by rw [hp]; rfl))
    simp only [hq]
    rfl
  | none =>
    have hq : (F form).rowWithoutActivity = none := by
      rw [← Option.isNone_iff_eq_none, ← Option.not_isSome, hrow, hp]
      rfl
    by_cases hart : (Tableau.ofForm form).numArtificial = 0
    · simp only [hq, if_pos hart]
      rfl
    · simp only [hq, if_neg hart]
      rfl

theorem Step.tolerances_eq {s t : Simplex α} (h : Step s t) : t.tolerances = s.tolerances := by
  cases h <;> rfl

theorem tolerances_steps {p : Problem α} {config : SolveConfig α} {tolerances : Tolerances α}
    {s : Simplex α} (hs : Relation.ReflTransGen Step (start p config tolerances).value s) :
    s.tolerances = tolerances := by
  refine steps_invariant (P := fun t ↦ t.tolerances = tolerances)
    (fun _ _ ht hstep ↦ hstep.tolerances_eq.trans ht) ?_ hs
  rcases start_cases p config tolerances rfl with ⟨-, hv⟩ | ⟨-, -, hv⟩ | ⟨-, -, hv⟩ <;>
    rw [hv] <;> rfl

end Simplex

namespace Solver

variable {α : Type} [Scalar α] {F : StandardForm α → StandardForm α} {solver : Solver α}
  {p q : Problem α} {config : SolveConfig α}

/-- Runs that start from the same tableau end in the same state but for its form, or neither
ends. -/
theorem runLp_mapForm
    (hstart : (Simplex.start q config solver.tolerances).value =
      (Simplex.start p config solver.tolerances).value.mapForm F) (d : Deadline) :
    ∃ (last : Option (Simplex α)) (d' : Deadline),
      (∀ s, last = some s → s.tolerances = solver.tolerances) ∧
      (solver.runLp p config d).value = (last.map (·.solution p), d') ∧
      (solver.runLp q config d).value = (last.map fun s ↦ (s.mapForm F).solution q, d') := by
  let r := ((Simplex.start p config solver.tolerances).value.run
    (config.iterationLimit.getD solver.fuel) d).value
  have htolerances : r.1.tolerances = solver.tolerances :=
    Simplex.tolerances_steps (Simplex.run_steps _ _ _)
  unfold runLp
  simp only [Logged.value_bind, hstart, Simplex.run_mapForm, Simplex.isDone_mapForm]
  by_cases hends : (config.iterationLimit.isSome || r.1.isDone || r.2.expired) = true
  · exact ⟨some r.1, r.2, fun s hs ↦ Option.some_inj.mp hs ▸ htolerances,
      by rw [if_pos hends]; rfl, by rw [if_pos hends]; rfl⟩
  · exact ⟨none, r.2, nofun, by rw [if_neg hends]; rfl, by rw [if_neg hends]; rfl⟩

end Solver

end LinProg
