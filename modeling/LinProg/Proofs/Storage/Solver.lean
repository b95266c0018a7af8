import LinProg.Backend
import LinProg.Proofs.Storage.Search
import LinProg.Proofs.Storage.Solutions

namespace LinProg

variable {α : Type} [Scalar α]

/-- A solution has a value for every column and a dual for every row. -/
structure Solution.Complete (solution : Solution α) (p : Problem α) : Prop where
  values : solution.values.size = p.numColumns
  duals : ∃ ds, solution.duals = some ds ∧ ds.size = p.numRows

/-- The solutions that a session answers with, call by call. A call has a budget of pivots, and its
deadline may stand anywhere. -/
def Solver.answers (session : SimplexSession α) (p : Problem α) :
    List (ℕ × Deadline) → List (Solution α)
  | [] => []
  | (budget, deadline) :: calls =>
    let (solution, session) := (Solver.resume { session with deadline } p budget).value
    solution :: answers session p calls

theorem Problem.Made.restrict {p : Problem α} (h : p.Made) (node : Node α) :
    (node.restrict p).Made :=
  node.restrict_invariant h fun _ j _ hq ↦ hq.modifyColumn (j + 1) _

namespace Storage

def Machine.answers (m : Machine α) (p : Problem α) :
    List (ℕ × Deadline) → Option (List (Solution α))
  | [] => some []
  | (budget, deadline) :: calls => do
    let ((m, _), _) ← m.run budget deadline
    let solution ← m.solution p
    return solution :: (← m.answers p calls)

def runLp (solver : Solver α) (p : Problem α) (config : SolveConfig α) (deadline : Deadline) :
    Option (Option (Solution α) × Deadline) := do
  let m ← Machine.start p config.presolve solver.tolerances
  let ((m, deadline), _) ← m.run (config.iterationLimit.getD solver.fuel) deadline
  if config.iterationLimit.isSome || m.isDone || deadline.expired then
    return (some (← m.solution p), deadline)
  else return (none, deadline)

def solveLp (solver : Solver α) (p : Problem α) (config : SolveConfig α) :
    Option (Option (Solution α)) := do
  return (← runLp solver p config (config.deadline solver.clock)).1

def solveMip (solver : Solver α) (p : Problem α) (config : SolveConfig α)
    (settings : Problem α → SolveConfig α) : Option (Option (Solution α)) :=
  solve (fun q _ d ↦ runLp solver q (settings q) d) p config solver.integerTolerance solver.clock
    solver.fuel

def session (solver : Solver α) (p : Problem α) (config : SolveConfig α)
    (calls : List (ℕ × Deadline)) : Option (List (Solution α)) := do
  let m ← Machine.start p config.presolve solver.tolerances
  m.answers p calls

variable {p : Problem α} {s : Simplex α}

theorem run_solution_eq (h : Stored p s) (budget : ℕ) (d : Deadline) :
    let r := (s.run budget d).value
    ∃ n, (ofSimplex s).run budget d = some ((ofSimplex r.1, r.2), n) ∧
      (ofSimplex r.1).solution p = some (r.1.solution p) ∧ (r.1.solution p).Complete p ∧
      Stored p r.1 := by
  obtain ⟨hrun, hstored⟩ := run_eq h budget d
  obtain ⟨hsolution, hvalues, hduals⟩ := solution_eq hstored
  exact ⟨_, hrun, hsolution, ⟨hvalues, hduals⟩, hstored⟩

theorem answers_eq (session : SimplexSession α) (h : Stored p session.simplex)
    (calls : List (ℕ × Deadline)) :
    (ofSimplex session.simplex).answers p calls = some (Solver.answers session p calls) ∧
      ∀ solution ∈ Solver.answers session p calls, solution.Complete p := by
  induction calls generalizing session with
  | nil => exact ⟨rfl, fun _ h ↦ absurd h List.not_mem_nil⟩
  | cons call calls ih =>
    obtain ⟨budget, deadline⟩ := call
    obtain ⟨n, hrun, hsolution, hcomplete, hstored⟩ := run_solution_eq h budget deadline
    generalize hr : (session.simplex.run budget deadline).value = r
      at hrun hsolution hcomplete hstored
    have hanswers : Solver.answers session p ((budget, deadline) :: calls) =
        r.1.solution p :: Solver.answers { simplex := r.1, deadline := r.2 } p calls := by
      simp only [Solver.answers, Solver.resume, Logged.value_bind, hr, Logged.pure_eq]
    obtain ⟨hrest, hall⟩ := ih { simplex := r.1, deadline := r.2 } hstored
    rw [hanswers]
    constructor
    · rw [Machine.answers, hrun]
      simp only [Option.bind_eq_bind, Option.bind_some, hsolution]
      exact (bind_of_eq_some hrest _).trans rfl
    · exact List.forall_mem_cons.mpr ⟨hcomplete, hall⟩

variable [Scalar.Unital α]

theorem runLp_eq (hp : p.Made) (solver : Solver α) (config : SolveConfig α) (d : Deadline) :
    runLp solver p config d = some (solver.runLp p config d).value ∧
      ∀ solution, (solver.runLp p config d).value.1 = some solution → solution.Complete p := by
  obtain ⟨hstart, hstored⟩ := start_eq hp.rowIndexed config solver.tolerances
  obtain ⟨n, hrun, hsolution, hcomplete, -⟩ :=
    run_solution_eq hstored (config.iterationLimit.getD solver.fuel) d
  simp only [runLp, hstart, hrun, hsolution, isDone_ofSimplex, Option.bind_eq_bind,
    Option.bind_some, Solver.runLp, Logged.value_bind]
  split
  · refine ⟨rfl, ?_⟩
    rintro solution ⟨⟩
    exact hcomplete
  · exact ⟨rfl, fun _ h ↦ by cases h⟩

theorem answers_runLp (hp : p.Made) (solver : Solver α) {config : SolveConfig α}
    {settings : Problem α → SolveConfig α} {oracle : Oracle α}
    (horacle : ∀ q d, oracle q config.forRelaxations d = solver.runLp q (settings q) d) :
    Answers (fun q _ d ↦ runLp solver q (settings q) d) oracle p config := by
  intro node d
  rw [horacle]
  obtain ⟨hrun, hcomplete⟩ := runLp_eq (hp.restrict node) solver (settings (node.restrict p)) d
  exact ⟨hrun, fun lp hlp ↦ (hcomplete lp hlp).values.trans (node.numColumns_restrict p)⟩

/-- The solver stays within the bounds of its vectors: solving a linear program at one go, searching
for integers, and answering the calls of a session. A search does so under any settings of its
relaxations, and thus wherever the time runs out on one of them. -/
theorem solver_in_bounds (hp : p.Made) (solver : Solver α) (config : SolveConfig α) :
    (solveLp solver p config = some (solver.solveLp p config).value ∧
      ∀ solution, (solver.solveLp p config).value = some solution → solution.Complete p) ∧
    (solveMip solver p config (fun _ ↦ config.forRelaxations) =
        some (solver.solveMip p config).value ∧
      ∀ settings, ∃ result, solveMip solver p config settings = some result ∧
        ∀ solution, result = some solution → solution.values.size = p.numColumns) ∧
    ∀ calls, session solver p config calls =
        some (Solver.answers (solver.start p config).value p calls) ∧
      ∀ solution ∈ Solver.answers (solver.start p config).value p calls,
        solution.Complete p := by
  refine ⟨?_, ⟨?_, fun settings ↦ ?_⟩, fun calls ↦ ?_⟩
  · obtain ⟨hrun, hcomplete⟩ := runLp_eq hp solver config (config.deadline solver.clock)
    exact ⟨bind_of_eq_some hrun _, hcomplete⟩
  · exact (solve_eq (answers_runLp hp solver fun _ _ ↦ rfl) _ _ _).1
  · have hanswers : Answers (fun q _ d ↦ runLp solver q (settings q) d)
        (fun q _ d ↦ solver.runLp q (settings q) d) p config :=
      answers_runLp hp solver fun _ _ ↦ rfl
    exact ⟨_, solve_eq hanswers _ _ _⟩
  · obtain ⟨hstart, hstored⟩ := start_eq hp.rowIndexed config solver.tolerances
    rw [session, hstart]
    exact answers_eq (solver.start p config).value hstored calls

def erraticColumn : Problem Float :=
  ((Problem.empty "erratic" .maximize).addColumn "x").modifyColumn 1 fun c ↦
    { c with objective := 0 / 0, kind := .integer }

/-- A problem with infinite numbers and others that are none, and with a column that is younger
than the row. -/
def erratic : Problem Float :=
  let row : Row Float :=
    { name := "r", coefficients := ⟨#[some 0], #[⟨1, 1 / 0⟩]⟩, boundType := .double
      lower := .fin (0 / 0), upper := .posInf }
  ({ erraticColumn with rows := #[row] }.addColumn "y").setColumnBounds 2
    (.explicit .posInf (.fin (-1 / 0)))

theorem made_erratic : erratic.Made := by
  have hcolumn : erraticColumn.Made :=
    ((Problem.Made.empty "erratic" .maximize).addColumn "x").modifyColumn 1 _
  have hrow := hcolumn.addRow (show erraticColumn.addRow "r" [(1, 1 / 0)] .double
    (.fin (0 / 0)) .posInf = .ok _ from rfl)
  exact (hrow.addColumn "y").modifyColumn 2 _

theorem solver_in_bounds_erratic :
    let config : SolveConfig Float := { SolveConfig.default with iterationLimit := some 7 }
    let solver : Solver Float := .standard
    let unlimited := config.deadline solver.clock
    let calls := [(1, unlimited), (0, unlimited), (4, { unlimited with limit := some ⟨20⟩ })]
    erratic.Made ∧
      solveLp solver erratic config = some (solver.solveLp erratic config).value ∧
      solveMip solver erratic config (fun _ ↦ config.forRelaxations) =
        some (solver.solveMip erratic config).value ∧
      ∀ solution ∈ Solver.answers (solver.start erratic config).value erratic calls,
        solution.Complete erratic := by
  intro config solver unlimited calls
  obtain ⟨⟨hlp, -⟩, ⟨hmip, -⟩, hsession⟩ := solver_in_bounds made_erratic solver config
  exact ⟨made_erratic, hlp, hmip, (hsession calls).2⟩

end Storage

end LinProg
