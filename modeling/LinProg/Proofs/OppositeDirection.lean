import LinProg.Proofs.Search.Mirrors
import LinProg.Proofs.Simplex.SameTableau
import LinProg.Proofs.Simplex.ShadowPrices
import LinProg.Backend

namespace LinProg

def Direction.opposite : Direction → Direction
  | .minimize => .maximize
  | .maximize => .minimize

def Column.negated (c : Column ℚ) : Column ℚ := { c with objective := -c.objective }

def Problem.opposite (p : Problem ℚ) : Problem ℚ :=
  { p with direction := p.direction.opposite, columns := p.columns.map .negated }

def Solution.opposite (s : Solution ℚ) : Solution ℚ :=
  { s with objectiveValue := -s.objectiveValue, duals := s.duals.map fun ys ↦ ys.map (-·) }

def SimplexSession.answers {α : Type} [Scalar α] (session : SimplexSession α) (p : Problem α) :
    List ℕ → List (Solution α)
  | [] => []
  | budget :: budgets =>
    let (solution, session) := (Solver.resume session p budget).value
    solution :: session.answers p budgets

namespace Problem

variable (p : Problem ℚ)

theorem getElem?_columns_opposite (j : ℕ) :
    p.opposite.columns[j]? = p.columns[j]?.map .negated := by
  simp [opposite]

theorem toList_columns_opposite :
    p.opposite.columns.toList = p.columns.toList.map .negated := by
  simp [opposite]

theorem numColumns_opposite : p.opposite.numColumns = p.numColumns := by
  simp [opposite, numColumns]

theorem objectiveValue_opposite (values : Array ℚ) :
    p.opposite.objectiveValue values = -p.objectiveValue values := by
  rw [objectiveValue, objectiveValue, Scalar.sum_rat, Scalar.sum_rat, toList_columns_opposite,
    List.zipWith_map_left, List.sum_neg, List.map_zipWith]
  simp only [Column.negated, neg_mul]

theorem setColumnBounds_opposite (index : ℕ) (bounds : ColumnBounds ℚ) :
    p.opposite.setColumnBounds index bounds = (p.setColumnBounds index bounds).opposite := by
  unfold setColumnBounds modifyColumn
  split_ifs
  · rfl
  · simp only [opposite, mk.injEq, and_true, true_and]
    apply Array.ext_getElem?
    intro j
    simp only [Array.getElem?_modify, Array.getElem?_map]
    split_ifs <;> simp [Function.comp_def, Column.negated, Column.setBounds]

end Problem

namespace StandardForm

def turned (form : StandardForm ℚ) : StandardForm ℚ := { form with sense := -form.sense }

/-- Direction and objective enter the form as a product, and both change their sign. -/
theorem ofProblem_opposite (p : Problem ℚ) (presolve : Bool) (tolerance : ℚ) :
    ofProblem p.opposite presolve tolerance = (ofProblem p presolve tolerance).turned := by
  have hsense : directionSign p.opposite = -directionSign p := by
    unfold directionSign
    cases hp : p.direction <;> simp [Problem.opposite, hp, Direction.opposite]
  have hmaps : columnMaps p.opposite = columnMaps p := by
    simp only [columnMaps, Problem.toList_columns_opposite, List.map_map]
    rfl
  have hobjective : (ofProblem p.opposite presolve tolerance).objective =
      (ofProblem p presolve tolerance).objective := by
    rw [objective_ofProblem, objective_ofProblem, hmaps, hsense, Problem.toList_columns_opposite,
      List.map_map]
    congr 2
    funext c
    simp [Column.negated]
  have hranges : p.opposite.columns.toList.zipIdx.filterMap
        (fun c ↦ rangeConstraint? (columnMaps p.opposite) c.1 c.2) =
      p.columns.toList.zipIdx.filterMap fun c ↦ rangeConstraint? (columnMaps p) c.1 c.2 := by
    rw [Problem.toList_columns_opposite, List.zipIdx_map, List.filterMap_map, hmaps]
    rfl
  change StandardForm.mk .. = StandardForm.mk ..
  simp only [StandardForm.mk.injEq]
  refine ⟨hmaps, hobjective, ?_, hsense, ?_⟩
  · change p.rows.toList.zipIdx.flatMap (fun r ↦
        if presolve && r.1.isEmpty then [] else rowConstraints (columnMaps p.opposite) r.1 r.2) ++
      p.opposite.columns.toList.zipIdx.filterMap
        (fun c ↦ rangeConstraint? (columnMaps p.opposite) c.1 c.2) = _
    rw [hranges, hmaps]
    rfl
  · change p.rows.toList.zipIdx.findSome? (fun r ↦ if (presolve && r.1.isEmpty) &&
        (shiftedSides (columnMaps p.opposite) r.1).any (fun side ↦
          side.1.excludesZero tolerance side.2) then some r.2 else none) = _
    rw [hmaps]
    rfl

end StandardForm

namespace Simplex

def turned (s : Simplex ℚ) : Simplex ℚ := { s with form := s.form.turned }

theorem start_opposite (p : Problem ℚ) (config : SolveConfig ℚ) (tolerances : Tolerances ℚ) :
    (start p.opposite config tolerances).value = (start p config tolerances).value.turned :=
  start_mapForm (StandardForm.ofProblem_opposite p config.presolve tolerances.pivot) (fun _ ↦ rfl)
    fun _ ↦ rfl

theorem run_turned (s : Simplex ℚ) (budget : ℕ) (d : Deadline) :
    (s.turned.run budget d).value = ((s.run budget d).value.1.turned, (s.run budget d).value.2) :=
  run_mapForm StandardForm.turned s budget d

theorem cutoff_neg (tolerance d : ℚ) : cutoff tolerance (-d) = -cutoff tolerance d := by
  unfold cutoff
  rw [abs_neg]
  split_ifs
  · exact neg_zero.symm
  · rfl

theorem rowDual_turned (s : Simplex ℚ) (i : ℕ) : s.turned.rowDual i = -s.rowDual i := by
  have hturned : s.turned.rowDual i = if s.pastPhaseOne then
      cutoff s.tolerances.pivot (-s.form.sense * rowTotal s.multipliers i) else 0 := rfl
  rw [hturned, rowDual, neg_mul, cutoff_neg]
  split_ifs
  · rfl
  · exact neg_zero.symm

theorem duals_turned (s : Simplex ℚ) (n : ℕ) : s.turned.duals n = (s.duals n).map (-·) := by
  simp only [duals_eq_ofFn, Array.map_ofFn, Function.comp_def, rowDual_turned]

theorem solution_turned (s : Simplex ℚ) (p : Problem ℚ) :
    s.turned.solution p.opposite = (s.solution p).opposite := by
  simp only [solution, Solution.opposite, Problem.objectiveValue_opposite, Option.map_some,
    ← duals_turned]
  rfl

end Simplex

namespace SimplexSession

def turned (session : SimplexSession ℚ) : SimplexSession ℚ :=
  { session with simplex := session.simplex.turned }

end SimplexSession

namespace Node

variable (node : Node ℚ) (p : Problem ℚ)

theorem restrict_opposite : node.restrict p.opposite = (node.restrict p).opposite := by
  unfold restrict
  generalize node.changes = changes
  induction changes generalizing p with
  | nil => rfl
  | cons change changes ih => rw [List.foldl_cons, Problem.setColumnBounds_opposite, ih]; rfl

theorem boundsOf_opposite (j : ℕ) : node.boundsOf p.opposite j = node.boundsOf p j := by
  unfold boundsOf
  rw [Problem.getElem?_columns_opposite]
  cases p.columns[j]? <;> rfl

theorem children_opposite (j : ℕ) (value score : ℚ) :
    node.children p.opposite j value score = node.children p j value score := by
  unfold children
  rw [boundsOf_opposite]

end Node

namespace Search

variable {oracle : Oracle ℚ} (p : Problem ℚ)

theorem integerColumns_opposite : integerColumns p.opposite = integerColumns p := by
  unfold integerColumns
  rw [Problem.toList_columns_opposite, List.zipIdx_map, List.filterMap_map]
  rfl

theorem sense_mul_opposite (x : ℚ) : sense p.opposite * -x = sense p * x := by
  unfold sense
  cases hp : p.direction <;> simp [Problem.opposite, hp, Direction.opposite]

theorem reading_opposite (lp : Solution ℚ) : reading p.opposite lp.opposite = reading p lp := by
  simp only [reading, Solution.opposite, sense_mul_opposite]

/-- An oracle that answers opposite problems with opposite solutions leads both searches alike. -/
theorem mirrors_opposite (config : SolveConfig ℚ)
    (horacle : ∀ q d, (oracle q.opposite config.forRelaxations d).value =
      (oracle q config.forRelaxations d).value.map (Option.map .opposite) id) :
    Mirrors oracle p.opposite oracle p config where
  integerColumns := integerColumns_opposite p
  numColumns := Problem.numColumns_opposite p
  children node := node.children_opposite p
  readings node d := by
    rw [Node.restrict_opposite, horacle, Prod.map_fst, Option.map_map]
    congr 1
    exact funext (reading_opposite p)
  deadlines node d := by
    rw [Node.restrict_opposite, horacle]
    rfl

theorem value_solve_opposite (config : SolveConfig ℚ) (tolerance : ℚ)
    (horacle : ∀ q d, (oracle q.opposite config.forRelaxations d).value =
      (oracle q config.forRelaxations d).value.map (Option.map .opposite) id)
    (clock : Clock) (fuel : ℕ) :
    (solve oracle p.opposite config tolerance clock fuel).value =
      (solve oracle p config tolerance clock fuel).value.map .opposite := by
  rw [(mirrors_opposite p config horacle).value_solve, value_solve_eq, Option.map_map,
    Option.map_map]
  congr 1
  funext result
  simp only [Function.comp_apply, Solution.opposite, Problem.objectiveValue_opposite,
    Option.map_none]

end Search

namespace Solver

variable (solver : Solver ℚ) (p : Problem ℚ) (config : SolveConfig ℚ)

theorem runLp_opposite (d : Deadline) : (solver.runLp p.opposite config d).value =
    (solver.runLp p config d).value.map (Option.map .opposite) id := by
  obtain ⟨last, d', -, hp, hopposite⟩ :=
    runLp_mapForm (Simplex.start_opposite p config solver.tolerances) d
  rw [hp, hopposite, Prod.map, Option.map_map]
  congr 2
  exact funext fun s ↦ s.solution_turned p

theorem answers_turned (session : SimplexSession ℚ) (budgets : List ℕ) :
    session.turned.answers p.opposite budgets = (session.answers p budgets).map .opposite := by
  induction budgets generalizing session with
  | nil => rfl
  | cons budget budgets ih =>
    have hresume : (resume session.turned p.opposite budget).value =
        ((resume session p budget).value.1.opposite, (resume session p budget).value.2.turned) := by
      have hrun := Simplex.run_turned session.simplex budget session.deadline
      simp only [resume, Logged.value_bind, SimplexSession.turned, hrun, Simplex.solution_turned]
      rfl
    simp only [SimplexSession.answers, hresume, List.map_cons, ih]

/-- The opposite problem is solved alike, in one go, in rounds of any budgets and by
branch-and-bound: with the same status, values and number of pivots, and with the opposite
objective value and duals. A solve that does not end does not end for the opposite problem. -/
theorem solves_opposite_alike :
    (solver.solveLp p.opposite config).value = (solver.solveLp p config).value.map .opposite ∧
    (∀ budgets, (solver.start p.opposite config).value.answers p.opposite budgets =
      ((solver.start p config).value.answers p budgets).map .opposite) ∧
    (solver.solveMip p.opposite config).value =
      (solver.solveMip p config).value.map .opposite := by
  refine ⟨congrArg Prod.fst (runLp_opposite solver p config _), fun budgets ↦ ?_, ?_⟩
  · have hstart :
        (solver.start p.opposite config).value = (solver.start p config).value.turned := by
      simp only [start, Logged.value_bind, Simplex.start_opposite]
      rfl
    rw [hstart, answers_turned]
  · exact Search.value_solve_opposite p config solver.integerTolerance
      (fun q d ↦ runLp_opposite solver q config.forRelaxations d) solver.clock solver.fuel

end Solver

end LinProg
