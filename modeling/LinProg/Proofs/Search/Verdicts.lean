import LinProg.Proofs.Search.Coverage
import LinProg.Proofs.Simplex.Verdicts
import LinProg.Backend

namespace LinProg

theorem Column.Matched.lower_ne {c : Column ℚ} (h : c.Matched) : c.lower ≠ .posInf := by
  unfold Matched at h
  intro hl
  cases ht : c.boundType <;> simp [ht, hl] at h

theorem Column.Matched.upper_ne {c : Column ℚ} (h : c.Matched) : c.upper ≠ .negInf := by
  unfold Matched at h
  intro hu
  cases ht : c.boundType <;> simp [ht, hu] at h

namespace Search

variable {oracle : Oracle ℚ} {p : Problem ℚ} {config : SolveConfig ℚ} {tolerance : ℚ}
  {clock : Clock} {fuel : ℕ}

theorem wellPosed_children {node : Node ℚ} (h : (node.restrict p).WellPosed) {j : ℕ}
    (hj : j ∈ integerColumns p) (value score : ℚ) :
    ((node.children p j value score).1.restrict p).WellPosed ∧
      ((node.children p j value score).2.restrict p).WellPosed := by
  obtain ⟨d, hd, -⟩ := mem_integerColumns.mp hj
  obtain ⟨c, hc⟩ := node.exists_column hd
  have hmatched := h.columns_matched _ (Array.mem_of_getElem? hc)
  simp only [Node.children, node.boundsOf_eq p hc, Node.restrict_child]
  exact ⟨h.setColumnBounds _ hmatched.lower_ne (by simp [ColumnBounds.resolve, Scalar.extend]),
    h.setColumnBounds _ (by simp [ColumnBounds.resolve, Scalar.extend]) hmatched.upper_ne⟩

theorem Turn.wellPosed {s t : Search ℚ} (hturn : Turn oracle p config tolerance s t)
    (h : ∀ node ∈ s.stack, (node.restrict p).WellPosed) :
    ∀ node ∈ t.stack, (node.restrict p).WellPosed := by
  rcases hturn.stack_cases with ⟨-, ht⟩ | ⟨node, rest, hs, hstack⟩
  · simp [ht]
  · rw [hs] at h
    obtain ⟨hnode, hrest⟩ := List.forall_mem_cons.mp h
    rcases hstack with ht | ⟨j, x, score, values, hf, ht⟩
    · rwa [ht]
    · obtain ⟨hdown, hup⟩ := wellPosed_children hnode (mem_of_mostFractional hf).1 x score
      rw [ht]
      intro node' hnode'
      rcases List.mem_append.mp hnode' with hchild | hmem
      · rcases mem_ordered.mp hchild with rfl | rfl
        · exact hdown
        · exact hup
      · exact hrest node' hmem

theorem wellPosed_of_solves (hp : p.WellPosed) {node : Node ℚ} {d : Deadline}
    (h : Solves oracle p config tolerance clock fuel node d) : (node.restrict p).WellPosed := by
  obtain ⟨n, -, rest, -, ho, -⟩ := h
  have hall : ∀ node ∈ (reached oracle p config tolerance clock n).stack,
      (node.restrict p).WellPosed := by
    refine reached_invariant (fun node hnode ↦ ?_) fun s t _ hs hturn _ ↦ hturn.wellPosed hs
    obtain rfl := List.mem_singleton.mp hnode
    exact hp
  exact hall node (Search.mem_of_stack_eq ho.stack)

end Search

namespace Solver

def exact (fuel : ℕ) : Solver ℚ :=
  { tolerances := .exact, integerTolerance := 0, clock := .ticking, fuel }

variable {solver : Solver ℚ} {p : Problem ℚ} {config : SolveConfig ℚ} {lp : Solution ℚ}
  {d : Deadline}

theorem runLp_eq_some (h : (solver.runLp p config d).value.1 = some lp) :
    ∃ s, Relation.ReflTransGen Simplex.Step (Simplex.start p config solver.tolerances).value s ∧
      lp = s.solution p := by
  refine ⟨_, Simplex.run_steps _ (config.iterationLimit.getD solver.fuel) d, ?_⟩
  simp only [runLp, Logged.value_bind] at h
  split at h
  · exact (Option.some_inj.mp h).symm
  · cases h

theorem objectiveValue_runLp (h : (solver.runLp p config d).value.1 = some lp) :
    lp.objectiveValue = p.objectiveValue lp.values := by
  obtain ⟨s, -, rfl⟩ := runLp_eq_some h
  rfl

theorem sound_runLp (hexact : solver.tolerances = .exact)
    (h : (solver.runLp p config d).value.1 = some lp) :
    ∃ s, Simplex.Sound (StandardForm.ofProblem p config.presolve 0) s ∧ lp = s.solution p := by
  obtain ⟨s, hs, rfl⟩ := runLp_eq_some h
  rw [hexact] at hs
  exact ⟨s, Simplex.sound_steps p config hs, rfl⟩

theorem answeredRightly_runLp (hp : p.WellPosed) (hexact : solver.tolerances = .exact) :
    p.AnsweredRightly (solver.runLp p config d).value.1 := by
  intro lp hlp
  obtain ⟨s, h, rfl⟩ := sound_runLp hexact hlp
  constructor
  · intro hstatus
    have hs := Simplex.status_eq_optimal.mp hstatus
    exact ⟨(h.feasible_values hp (by rw [Simplex.pastPhaseOne, hs])).1,
      fun y hy ↦ h.not_better_of_optimal hp hs hy⟩
  · intro hstatus
    exact h.not_feasible_of_infeasible hp (Simplex.status_eq_noFeasible.mp hstatus)

/-- The relaxations that a solve solves, with the deadlines by then. -/
def Relaxes (solver : Solver ℚ) (p : Problem ℚ) (config : SolveConfig ℚ) (q : Problem ℚ)
    (d : Deadline) : Prop :=
  ∃ node, Search.Solves solver.runLp p config solver.integerTolerance solver.clock solver.fuel
    node d ∧ q = node.restrict p

/-- With exact integrality and relaxations answered rightly, a solve that ends with an optimal
point reports an integer point that no other one beats by more than the slack of its score, and one
that ends without a feasible point has none to find. -/
theorem solveMip_right (solver : Solver ℚ) (p : Problem ℚ) (config : SolveConfig ℚ)
    (hexact : solver.integerTolerance = 0)
    (hright : ∀ q d, solver.Relaxes p config q d →
      q.AnsweredRightly (solver.runLp q config.forRelaxations d).value.1)
    {solution : Solution ℚ} (hsolution : (solver.solveMip p config).value = some solution) :
    let s := p.score solution.values
    (solution.status = .optimal → p.Feasible solution.values ∧ p.Integral solution.values ∧
      ∀ y, p.Feasible y → p.Integral y → s - 1 / 10 ^ 9 * (1 + |s|) ≤ p.score y) ∧
    (solution.status = .noFeasible → ∀ y, p.Feasible y → ¬ p.Integral y) := by
  unfold Relaxes at hright
  unfold solveMip at hsolution
  rw [hexact] at hsolution hright
  exact Search.solve_right (fun node d hnode ↦ hright _ d ⟨node, hnode, rfl⟩)
    (fun q d lp hlp ↦ objectiveValue_runLp hlp) hsolution

theorem answeredRightly_relaxes (hp : p.WellPosed) {fuel : ℕ} {q : Problem ℚ}
    (hq : (exact fuel).Relaxes p config q d) :
    q.AnsweredRightly ((exact fuel).runLp q config.forRelaxations d).value.1 := by
  obtain ⟨node, hnode, rfl⟩ := hq
  exact answeredRightly_runLp (Search.wellPosed_of_solves hp hnode) rfl

/-- The optimal point of the relaxation is at `(3, 3 / 2)`, the best integer point at `(4, 0)`. -/
def knapsack : Problem ℚ :=
  { name := "knapsack", direction := .maximize
    columns := #[
      { name := "x", objective := 5, kind := .integer, bounds := .unset, boundType := .lower },
      { name := "y", objective := 4, kind := .integer, bounds := .unset, boundType := .lower }]
    rows := #[
      { name := "a", coefficients := ⟨#[some 0, some 1], #[⟨1, 6⟩, ⟨2, 4⟩]⟩,
        boundType := .upper, lower := .fin 0, upper := .fin 24 },
      { name := "b", coefficients := ⟨#[some 0, some 1], #[⟨1, 1⟩, ⟨2, 2⟩]⟩,
        boundType := .upper, lower := .fin 0, upper := .fin 6 }] }

theorem wellPosed_knapsack : knapsack.WellPosed := by
  have ha : (⟨#[some 0, some 1], #[⟨1, 6⟩, ⟨2, 4⟩]⟩ : SparseVector ℚ).Valid :=
    SparseVector.valid_ofPairs (show SparseVector.ofPairs 2 [(1, (6 : ℚ)), (2, 4)] = .ok _ from rfl)
  have hb : (⟨#[some 0, some 1], #[⟨1, 1⟩, ⟨2, 2⟩]⟩ : SparseVector ℚ).Valid :=
    SparseVector.valid_ofPairs (show SparseVector.ofPairs 2 [(1, (1 : ℚ)), (2, 2)] = .ok _ from rfl)
  refine ⟨?_, ?_, ?_⟩
  · simp only [knapsack, List.mem_toArray, List.forall_mem_cons]
    exact ⟨ha, hb, by simp⟩
  · simp [knapsack, Row.Bounded, Row.sides]
  · simp [knapsack, Column.Matched, Column.lower, Column.upper, ColumnBounds.resolve]

theorem solveMip_right_knapsack :
    ∃ solution, ((exact 20).solveMip knapsack .default).value = some solution ∧
      solution.status = .optimal ∧ solution.values = #[4, 0] ∧
      knapsack.Feasible solution.values ∧ knapsack.Integral solution.values ∧
      ∀ y, knapsack.Feasible y → knapsack.Integral y →
        knapsack.score solution.values - 1 / 10 ^ 9 * (1 + |knapsack.score solution.values|) ≤
          knapsack.score y := by
  have hsome : (((exact 20).solveMip knapsack .default).value.map fun s ↦ (s.status, s.values)) =
      some (.optimal, #[4, 0]) := by decide +kernel
  obtain ⟨solution, hsolution, hvalue⟩ := Option.map_eq_some_iff.mp hsome
  obtain ⟨hstatus, hvalues⟩ := Prod.mk.inj hvalue
  have h := solveMip_right (exact 20) knapsack .default rfl
    (fun q d hq ↦ answeredRightly_relaxes wellPosed_knapsack hq) hsolution
  exact ⟨solution, hsolution, hstatus, hvalues, h.1 hstatus⟩

end Solver

end LinProg
