import LinProg.Proofs.Simplex.Steps
import LinProg.Proofs.Storage.Machine

namespace LinProg.Storage

variable {α : Type} [Scalar α]

def Grid.objectiveValue (g : Grid α) : Option α := do
  let cs ← g.data[← g.objectiveRow]?
  return -(← cs[← g.rhsColumn]?)

namespace Machine

def reportProgress (m : Machine α) : Option (Option α) :=
  if m.iterations % 100 = 0 then some <$> m.grid.objectiveValue else some none

def finishPhaseOne (m : Machine α) (saved : Array α) : Option (Machine α) := do
  if ← m.grid.artificialRemains m.tolerances.feasibility then
    return { m with stage := .done .infeasible }
  else
    let grid ← m.grid.driveOutArtificials m.tolerances.feasibility
    let grid ← grid.restoreObjective saved m.tolerances.pivot
    return { m with grid, stage := .two }

def turn (m : Machine α) : Option (Machine α) := do
  match ← m.attempt, m.stage with
  | .pivoted next, _ => do
    let _ ← next.reportProgress
    return next
  | .optimal, .one saved => m.finishPhaseOne saved
  | .optimal, _ => return { m with stage := .done .optimal }
  | .unbounded, .one _ => return { m with stage := .done .infeasible }
  | .unbounded, _ => return { m with stage := .done .unbounded }

def goesOn (pivots : ℕ) (r : Machine α × Deadline) : Bool :=
  !r.1.isDone && decide (r.1.iterations < pivots) && !r.2.expired

/-- Performs at most a number of pivots, and none when the time is up. The run as it is afterwards
comes with the number of pivots performed; before every turn these are counted. -/
def run (m : Machine α) (budget : ℕ) (deadline : Deadline) :
    Option ((Machine α × Deadline) × ℕ) := do
  let last ← iterateWhile (goesOn (m.iterations + budget)) (fun r ↦ do
    let _ ← minus r.1.iterations m.iterations
    return (← r.1.turn, r.2.next)) (budget + 2) (m, deadline)
  return (last, ← minus last.1.iterations m.iterations)

def start (p : Problem α) (presolve : Bool) (tolerances : Tolerances α) : Option (Machine α) := do
  let form ← standardForm p presolve tolerances.pivot
  let grid ← Grid.build form
  let begin : Machine α :=
    { form, tolerances, grid, stage := .two, iterations := 0, degenerateStreak := 0 }
  match form.rowWithoutActivity with
  | some _ => return { begin with stage := .done .infeasible }
  | none =>
    if grid.numArtificial = 0 then return begin
    else
      let (saved, grid) ← grid.startPhaseOne
      return { begin with grid, stage := .one saved }

end Machine

section Turn

variable {p : Problem α} {s t : Simplex α}

theorem rectangular_afterPivot (h : Rectangular s.tableau) {column : ℕ}
    {leaving : Simplex.Leaving α} (hc : s.enteringColumn = some column)
    (hr : Simplex.leavingRow s.tableau s.tolerances.pivot column = some leaving) :
    Rectangular (s.afterPivot column leaving).tableau := by
  have hlt := enteringColumn_lt h hc
  obtain ⟨r, hrow, -⟩ := (leavingRow_eq h s.tolerances.pivot hlt).2 leaving hr
  exact h.pivot hrow hlt

theorem Stored.afterPhaseOne (h : Stored p s) {objective : Equation α}
    (hs : s.phase = .one objective) : Stored p (s.afterPhaseOne objective) := by
  obtain ⟨-, hdriven, hsame⟩ := h.rectangular.driveOutArtificials_eq s.tolerances.feasibility
  obtain ⟨-, hrestored⟩ := hdriven.restoreObjective_eq
    ((h.saved objective hs).trans hsame.width.symm) s.tolerances.pivot
  exact ⟨h.fits, hrestored, (h.layout.trans hsame).withObjective _, fun _ he ↦ by cases he⟩

theorem Stored.step (h : Stored p s) (hs : Simplex.Step s t) : Stored p t := by
  cases hs with
  | @pivot column leaving hs hc hr =>
    refine ⟨h.fits, rectangular_afterPivot h.rectangular hc hr,
      h.layout.trans (sameLayout_pivot _ leaving.row column), fun e he ↦ ?_⟩
    exact (h.saved e he).trans (Tableau.width_pivot _ leaving.row column).symm
  | restore hs hc ha => exact h.afterPhaseOne hs
  | infeasible | contradictory | optimal | unbounded =>
    exact ⟨h.fits, h.rectangular, h.layout, fun _ he ↦ by cases he⟩

theorem rectangular_of_attempt (h : Rectangular s.tableau) {next : Simplex α}
    (ha : s.attempt = .pivoted next) : Rectangular next.tableau := by
  rcases Simplex.attempt_cases s with ⟨-, he⟩ | ⟨column, -, -, he⟩ | ⟨column, leaving, hc, hr, he⟩
  · rw [he] at ha
    cases ha
  · rw [he] at ha
    cases ha
  · rw [he] at ha
    cases ha
    exact rectangular_afterPivot h hc hr

theorem reportProgress_eq (h : Rectangular s.tableau) :
    ∃ reported, (ofSimplex s).reportProgress = some reported := by
  have hvalue : (ofTableau s.tableau).objectiveValue = some s.tableau.objectiveValue := by
    rw [Grid.objectiveValue, objectiveRow_eq, h.rhsColumn_eq]
    simp only [Option.bind_eq_bind, Option.bind_some, data_objective, cells_rhs h.objective]
    rfl
  unfold Machine.reportProgress
  split
  · exact ⟨_, congrArg (some <$> ·) hvalue⟩
  · exact ⟨none, rfl⟩

theorem finishPhaseOne_eq (h : Stored p s) {objective : Equation α}
    (hs : s.phase = .one objective) :
    (ofSimplex s).finishPhaseOne (cells objective) =
      some (ofSimplex (s.finishPhaseOne objective).value) := by
  obtain ⟨hout, hdriven, hsame⟩ := h.rectangular.driveOutArtificials_eq s.tolerances.feasibility
  obtain ⟨hrestored, -⟩ := hdriven.restoreObjective_eq
    ((h.saved objective hs).trans hsame.width.symm) s.tolerances.pivot
  have hremains := h.rectangular.artificialRemains_eq s.tolerances.feasibility
  rw [Machine.finishPhaseOne, Simplex.finishPhaseOne]
  refine (bind_of_eq_some hremains _).trans ?_
  split
  · rfl
  · refine (bind_of_eq_some hout _).trans ?_
    exact (bind_of_eq_some hrestored _).trans rfl

theorem turn_eq (h : Stored p s) : (ofSimplex s).turn = some (ofSimplex s.turn.value) := by
  have hstage : (ofSimplex s).stage = ofPhase s.phase := rfl
  unfold Machine.turn Simplex.turn
  rw [attempt_eq h.rectangular, Option.bind_eq_bind, Option.bind_some, hstage]
  cases ha : s.attempt with
  | pivoted next =>
    obtain ⟨reported, hreported⟩ := reportProgress_eq (rectangular_of_attempt h.rectangular ha)
    exact (bind_of_eq_some hreported _).trans rfl
  | optimal =>
    cases hs : s.phase with
    | one objective => exact finishPhaseOne_eq h hs
    | two | done => rfl
  | unbounded => cases s.phase <;> rfl

end Turn

section Run

variable {p : Problem α} {s : Simplex α}

omit [Scalar α] in
theorem goesOn_ofSimplex (pivots : ℕ) (s : Simplex α) (d : Deadline) :
    Machine.goesOn pivots (ofSimplex s, d) = Simplex.goesOn pivots (s, d) := by
  unfold Machine.goesOn Simplex.goesOn
  rw [isDone_ofSimplex]
  rfl

/-- A run on the grid needs no element that the grid does not have, and its counter of pivots never
falls below where the run started. -/
theorem run_eq (h : Stored p s) (budget : ℕ) (d : Deadline) :
    let r := (s.run budget d).value
    (ofSimplex s).run budget d = some ((ofSimplex r.1, r.2), r.1.iterations - s.iterations) ∧
      Stored p r.1 := by
  intro r
  let follows (m : Machine α × Deadline) (r : Simplex α × Deadline) : Prop :=
    m = (ofSimplex r.1, r.2) ∧ Stored p r.1 ∧ s.iterations ≤ r.1.iterations
  let turned (m : Machine α × Deadline) : Option (Machine α × Deadline) := do
    let _ ← minus m.1.iterations s.iterations
    return (← m.1.turn, m.2.next)
  have htest : ∀ m r, follows m r → Machine.goesOn (s.iterations + budget) m =
      Simplex.goesOn (s.iterations + budget) r := by
    rintro _ r ⟨rfl, -, -⟩
    exact goesOn_ofSimplex _ r.1 r.2
  have hturn : ∀ m r, follows m r → Simplex.goesOn (s.iterations + budget) r = true →
      ∃ m', turned m = some m' ∧ follows m' (Simplex.timedTurn r).value := by
    rintro _ r ⟨rfl, hr, hle⟩ hgoes
    have hstep := Simplex.turn_step (Simplex.goesOn_eq_true.mp hgoes).1
    refine ⟨(ofSimplex r.1.turn.value, r.2.next), ?_, rfl, hr.step hstep,
      hle.trans hstep.iterations_le⟩
    refine (bind_of_eq_some (minus_eq hle) _).trans ?_
    exact (bind_of_eq_some (turn_eq hr) _).trans rfl
  obtain ⟨last, hlast, rfl, hstored, hle⟩ :=
    iterateWhile_follows htest hturn (budget + 2) (t := (s, d)) ⟨rfl, h, Nat.le_refl _⟩
  rw [← Simplex.value_run] at hlast hstored hle
  refine ⟨?_, hstored⟩
  rw [Machine.run]
  refine (bind_of_eq_some hlast _).trans ?_
  exact (bind_of_eq_some (minus_eq hle) _).trans rfl

end Run

section Start

variable {p : Problem α}

theorem start_eq [Scalar.Unital α] (hp : ∀ r ∈ p.rows, RowIndexed p.numColumns r)
    (config : SolveConfig α) (tolerances : Tolerances α) :
    Machine.start p config.presolve tolerances =
      some (ofSimplex (Simplex.start p config tolerances).value) ∧
      Stored p (Simplex.start p config tolerances).value := by
  have hform := standardForm_eq hp config.presolve tolerances.pivot
  have hfits := fits_ofProblem p config.presolve tolerances.pivot
  rw [Machine.start, hform, Option.bind_eq_bind, Option.bind_some, Simplex.start]
  dsimp only
  generalize StandardForm.ofProblem p config.presolve tolerances.pivot = form at hfits
  have hrect := rectangular_ofForm hfits
  have hbegin (phase : Phase α) (hphase : ∀ e, phase ≠ .one e) :
      Stored p { form, tolerances, messageLevel := config.messageLevel, tableau := .ofForm form
                 phase, iterations := 0, degenerateStreak := 0 } :=
    ⟨hfits, hrect, .refl _, fun e he ↦ absurd he (hphase e)⟩
  rw [build_ofForm hfits, Option.bind_eq_bind, Option.bind_some,
    show (ofForm form).rowWithoutActivity = form.rowWithoutActivity from rfl]
  cases form.rowWithoutActivity with
  | some row => exact ⟨rfl, hbegin (.done .infeasible) fun _ h ↦ by cases h⟩
  | none =>
    dsimp only
    by_cases hzero : (Tableau.ofForm form).numArtificial = 0
    · rw [if_pos hzero, if_pos (show (ofTableau (.ofForm form)).numArtificial = 0 from hzero)]
      exact ⟨rfl, hbegin .two fun _ h ↦ by cases h⟩
    · obtain ⟨hone, hsize⟩ := hrect.startPhaseOne_eq
      rw [if_neg hzero, if_neg (show ¬(ofTableau (.ofForm form)).numArtificial = 0 from hzero)]
      refine ⟨(bind_of_eq_some hone _).trans rfl, hfits, hrect.withObjective hsize,
        (SameLayout.refl _).withObjective _, ?_⟩
      rintro e ⟨⟩
      exact hrect.objective

end Start

end LinProg.Storage
