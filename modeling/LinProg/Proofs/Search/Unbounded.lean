import LinProg.Proofs.Search.Rays
import LinProg.Proofs.Search.Verdicts

namespace LinProg

def Problem.UnboundedRightly (q : Problem ℚ) (answer : Option (Solution ℚ)) : Prop :=
  ∀ lp, answer = some lp → lp.status = .unbounded → q.Feasible lp.values ∧ q.Unbounded

namespace Search

variable {oracle : Oracle ℚ} {p : Problem ℚ} {config : SolveConfig ℚ} {clock : Clock}
  {s : Search ℚ} {node : Node ℚ}

theorem Covers.unbounded (h : Covers p s) (hnode : node ∈ s.stack)
    (hunbounded : (node.restrict p).Unbounded) : p.Unbounded := by
  intro bound
  obtain ⟨y, hy, hbetter⟩ := hunbounded bound
  rw [node.direction_restrict, node.objectiveValue_restrict] at hbetter
  exact ⟨y, (h.nodes node hnode y hy).1, hbetter⟩

/-- A search knows of an integer point by its incumbent alone; without one, all of them are in the
open nodes. -/
theorem Covers.exists_integral_iff (h : Covers p s) :
    (∃ y, p.Feasible y ∧ p.Integral y) ↔
      s.incumbent ≠ none ∨
        ∃ node ∈ s.stack, ∃ y, (node.restrict p).Feasible y ∧ p.Integral y := by
  constructor
  · rintro ⟨y, hy, hint⟩
    rcases h.points y hy hint with ⟨node, hnode, hin⟩ | ⟨inc, hinc, -⟩
    · exact .inr ⟨node, hnode, y, hin, hint⟩
    · exact .inl (by simp [hinc])
  · rintro (hinc | ⟨node, hnode, y, hin, hint⟩)
    · obtain ⟨inc, hinc⟩ := Option.ne_none_iff_exists'.mp hinc
      obtain ⟨hfeasible, hint, -⟩ := h.incumbent inc hinc
      exact ⟨inc.values, hfeasible, hint⟩
    · exact ⟨y, (h.nodes node hnode y hin).1, hint⟩

/-- A running search is about to stop at a point of its next node, whose relaxation is unbounded.
Whether the problem has an integer point is left to the incumbent and the open nodes. -/
structure UnboundedAt (p : Problem ℚ) (s : Search ℚ) (x : Array ℚ) : Prop where
  running : s.ended = none
  opens : ∃ node rest, s.Opens node rest ∧ (node.restrict p).Feasible x ∧
    (node.restrict p).Unbounded
  integral : (∃ y, p.Feasible y ∧ p.Integral y) ↔
    s.incumbent ≠ none ∨ ∃ node ∈ s.stack, ∃ y, (node.restrict p).Feasible y ∧ p.Integral y

theorem outcome_eq_unbounded {ended : SearchEnd ℚ} {incumbent : Option (Incumbent ℚ)}
    {x : Array ℚ} (h : outcome p ended incumbent = some (.unbounded, x)) :
    ended = .unbounded x := by
  cases ended <;> cases incumbent <;> simp_all [outcome]

theorem solve_unbounded {fuel : ℕ}
    (hright : ∀ node d, Solves oracle p config 0 clock fuel node d →
      (node.restrict p).AnsweredRightly (oracle (node.restrict p) config.forRelaxations d).value.1)
    (hunbounded : ∀ node d, Solves oracle p config 0 clock fuel node d →
      (node.restrict p).UnboundedRightly (oracle (node.restrict p) config.forRelaxations d).value.1)
    (hobjective : ∀ q d lp, (oracle q config.forRelaxations d).value.1 = some lp →
      lp.objectiveValue = q.objectiveValue lp.values) {solution : Solution ℚ}
    (hsolution : (solve oracle p config 0 clock fuel).value = some solution)
    (hstatus : solution.status = .unbounded) :
    p.Feasible solution.values ∧ p.Unbounded ∧
      ∃ n < fuel, UnboundedAt p (reached oracle p config 0 clock n) solution.values := by
  obtain ⟨ended, he, houtcome⟩ := value_solve oracle p config 0 clock fuel hsolution
  rw [hstatus] at houtcome
  generalize solution.values = x at houtcome ⊢
  obtain rfl := outcome_eq_unbounded houtcome
  obtain ⟨n, hn, hrunning, hlast⟩ := exists_last_turn (by rw [he]; simp)
  cases (reached_turn hrunning).stop hrunning (hlast ▸ he) with
  | @unbounded node rest lp d ho hlp hunboundedly =>
    have hcovers := (kept_reached hright hobjective hn.le).1 (.inl hrunning)
    have hmem : node ∈ (reached oracle p config 0 clock n).stack := mem_of_stack_eq ho.stack
    obtain ⟨hfeasible, hnode⟩ := hunbounded node _ ⟨n, hn, rest, hrunning, ho, rfl⟩ lp
      (congrArg Prod.fst hlp) hunboundedly
    exact ⟨(hcovers.nodes node hmem _ hfeasible).1, hcovers.unbounded hmem hnode, n, hn, hrunning,
      ⟨node, rest, ho, hfeasible, hnode⟩, hcovers.exists_integral_iff⟩

end Search

namespace Solver

variable {solver : Solver ℚ} {p : Problem ℚ} {config : SolveConfig ℚ} {d : Deadline}

theorem unboundedRightly_runLp (hp : p.WellPosed) (hexact : solver.tolerances = .exact) :
    p.UnboundedRightly (solver.runLp p config d).value.1 := by
  intro lp hlp hstatus
  obtain ⟨s, h, rfl⟩ := sound_runLp hexact hlp
  have hs := Simplex.status_eq_unbounded.mp hstatus
  exact ⟨(h.feasible_values hp (by rw [Simplex.pastPhaseOne, hs])).1,
    h.exists_better_of_unbounded hp hs⟩

theorem unboundedRightly_relaxes (hp : p.WellPosed) {fuel : ℕ} {q : Problem ℚ}
    (hq : (exact fuel).Relaxes p config q d) :
    q.UnboundedRightly ((exact fuel).runLp q config.forRelaxations d).value.1 := by
  obtain ⟨node, hnode, rfl⟩ := hq
  exact unboundedRightly_runLp (Search.wellPosed_of_solves hp hnode) rfl

/-- With exact integrality and relaxations answered rightly, a solve that ends with an unbounded
objective has found a node whose relaxation is unbounded. Then so are the integer points, if there
are any. There are some exactly if the search had an incumbent, or if that node or another open one
has an integer point. -/
theorem solveMip_unbounded (solver : Solver ℚ) (p : Problem ℚ) (hp : p.WellPosed)
    (config : SolveConfig ℚ) (hexact : solver.integerTolerance = 0)
    (hright : ∀ q d, solver.Relaxes p config q d →
      q.AnsweredRightly (solver.runLp q config.forRelaxations d).value.1)
    (hunbounded : ∀ q d, solver.Relaxes p config q d →
      q.UnboundedRightly (solver.runLp q config.forRelaxations d).value.1)
    {solution : Solution ℚ} (hsolution : (solver.solveMip p config).value = some solution)
    (hstatus : solution.status = .unbounded) :
    p.Feasible solution.values ∧ p.Unbounded ∧
      ((∃ y, p.Feasible y ∧ p.Integral y) → ∀ bound, ∃ y, p.Feasible y ∧ p.Integral y ∧
        p.direction.Better (p.objectiveValue y) bound) ∧
      ∃ n < solver.fuel, Search.UnboundedAt p
        (Search.reached solver.runLp p config solver.integerTolerance solver.clock n)
          solution.values := by
  unfold Relaxes at hright hunbounded
  unfold solveMip at hsolution
  rw [hexact] at hsolution hright hunbounded ⊢
  obtain ⟨hfeasible, hall, hlast⟩ := Search.solve_unbounded
    (fun node d hnode ↦ hright _ d ⟨node, hnode, rfl⟩)
    (fun node d hnode ↦ hunbounded _ d ⟨node, hnode, rfl⟩)
    (fun q d lp hlp ↦ objectiveValue_runLp hlp) hsolution hstatus
  refine ⟨hfeasible, hall, ?_, hlast⟩
  rintro ⟨y, hy, hint⟩ bound
  exact hall.integral hp hy hint bound

def halfRow (boundType : BoundType) : Problem ℚ :=
  { name := "half", direction := .maximize
    columns := #[
      { name := "x", objective := 0, kind := .integer, bounds := .unset, boundType := .lower },
      { name := "y", objective := 1, kind := .continuous, bounds := .unset, boundType := .lower }]
    rows := #[
      { name := "half", coefficients := ⟨#[some 0], #[⟨1, 2⟩]⟩,
        boundType, lower := .fin 1, upper := .fin 1 }] }

theorem wellPosed_halfRow (boundType : BoundType) : (halfRow boundType).WellPosed := by
  have hcoefficients : (⟨#[some 0], #[⟨1, 2⟩]⟩ : SparseVector ℚ).Valid :=
    SparseVector.valid_ofPairs (show SparseVector.ofPairs 1 [(1, (2 : ℚ))] = .ok _ from rfl)
  refine ⟨?_, ?_, ?_⟩
  · simp only [halfRow, List.mem_toArray, List.forall_mem_cons]
    exact ⟨hcoefficients, by simp⟩
  · simp only [halfRow, List.mem_toArray, List.forall_mem_singleton]
    intro side hside
    cases boundType <;> simp [Row.sides] at hside <;> grind
  · simp [halfRow, Column.Matched, Column.lower, Column.upper, ColumnBounds.resolve]

theorem two_mul_of_feasible_halfRow {y : Array ℚ} (hy : (halfRow .fixed).Feasible y) :
    2 * (y[0]?).getD (0 : ℚ) = 1 := by
  have hrow := hy.rows ((halfRow .fixed).rows[0]) (Array.getElem_mem _)
  have hbounds : ((halfRow .fixed).rows[0]).effectiveBounds = (.fin 1, .fin 1) := rfl
  have hactivity : ((halfRow .fixed).rows[0]).activity y =
      2 * (y[0]?).getD (0 : ℚ) := by
    simp [halfRow, Row.activity, SparseVector.toList, Scalar.sum_rat]
  rw [hbounds, hactivity, within_fin] at hrow
  exact le_antisymm hrow.2 hrow.1

theorem solveMip_unbounded_halfRow :
    ∃ solution, ((exact 20).solveMip (halfRow .lower) .default).value = some solution ∧
      solution.status = .unbounded ∧ solution.values = #[1 / 2, 0] ∧
      (halfRow .lower).Feasible solution.values ∧ (halfRow .lower).Unbounded ∧
      ((∃ y, (halfRow .lower).Feasible y ∧ (halfRow .lower).Integral y) →
        ∀ bound, ∃ y, (halfRow .lower).Feasible y ∧ (halfRow .lower).Integral y ∧
          (halfRow .lower).direction.Better ((halfRow .lower).objectiveValue y) bound) ∧
      ∃ n < 20, Search.UnboundedAt (halfRow .lower)
        (Search.reached (exact 20).runLp (halfRow .lower) .default 0 .ticking n)
          solution.values := by
  have hp := wellPosed_halfRow .lower
  have hsome : (((exact 20).solveMip (halfRow .lower) .default).value.map fun s ↦
      (s.status, s.values)) = some (.unbounded, #[1 / 2, 0]) := by decide +kernel
  obtain ⟨solution, hsolution, hvalue⟩ := Option.map_eq_some_iff.mp hsome
  obtain ⟨hstatus, hvalues⟩ := Prod.mk.inj hvalue
  exact ⟨solution, hsolution, hstatus, hvalues,
    solveMip_unbounded (exact 20) (halfRow .lower) hp .default rfl
      (fun q d hq ↦ answeredRightly_relaxes hp hq) (fun q d hq ↦ unboundedRightly_relaxes hp hq)
      hsolution hstatus⟩

/-- A problem without an integer point can be called unbounded, with every relaxation answered
rightly. -/
theorem unbounded_without_integer_point :
    (halfRow .fixed).WellPosed ∧
      (∀ q d, (exact 20).Relaxes (halfRow .fixed) .default q d →
        q.AnsweredRightly ((exact 20).runLp q (SolveConfig.default.forRelaxations) d).value.1 ∧
          q.UnboundedRightly ((exact 20).runLp q (SolveConfig.default.forRelaxations) d).value.1) ∧
      ∃ solution, ((exact 20).solveMip (halfRow .fixed) .default).value = some solution ∧
        solution.status = .unbounded ∧
        ∀ y, (halfRow .fixed).Feasible y → ¬ (halfRow .fixed).Integral y := by
  have hp := wellPosed_halfRow .fixed
  have hsome : (((exact 20).solveMip (halfRow .fixed) .default).value.map fun s ↦ s.status) =
      some .unbounded := by decide +kernel
  obtain ⟨solution, hsolution, hstatus⟩ := Option.map_eq_some_iff.mp hsome
  refine ⟨hp, fun q d hq ↦ ⟨answeredRightly_relaxes hp hq, unboundedRightly_relaxes hp hq⟩,
    solution, hsolution, hstatus, fun y hy hint ↦ ?_⟩
  obtain ⟨z, hz⟩ := hint 0 _ rfl rfl
  have htwice := two_mul_of_feasible_halfRow hy
  rw [hz] at htwice
  have : 2 * z = 1 := by exact_mod_cast htwice
  omega

end Solver

end LinProg
