import Mathlib.Algebra.Order.BigOperators.Group.List
import LinProg.Proofs.Search.Verdicts

namespace LinProg

def WithinBy (slack : ℚ) (bounds : Extended ℚ × Extended ℚ) (x : ℚ) : Prop :=
  ∃ y, Within bounds y ∧ |x - y| ≤ slack

/-- The sum of the absolute values of a row's coefficients at the integer columns. -/
def Problem.integerWeight (p : Problem ℚ) (r : Row ℚ) : ℚ :=
  (r.coefficients.toList.map fun e ↦
    if e.1 - 1 ∈ Search.integerColumns p then |e.2| else 0).sum

namespace Search

variable {p : Problem ℚ} {s t : Search ℚ} {tolerance : ℚ} {x y : Array ℚ}

/-- A point that is integral and next to a feasible one. -/
structure RoundedFrom (p : Problem ℚ) (tolerance : ℚ) (y x : Array ℚ) : Prop where
  feasible : p.Feasible y
  integral : p.Integral x
  near : ∀ j ∈ integerColumns p, |(x[j]?).getD 0 - (y[j]?).getD 0| ≤ tolerance
  same : ∀ j, j ∉ integerColumns p → (x[j]?).getD 0 = (y[j]?).getD 0

theorem roundedFrom_roundAt (hy : p.Feasible y)
    (h : mostFractional tolerance (integerColumns p) y = none) :
    RoundedFrom p tolerance y (roundAt (integerColumns p) y) := by
  refine ⟨hy, fun j c hj hc ↦ ?_, fun j hj ↦ ?_, fun j hj ↦ ?_⟩
  · rw [getD_roundAt, if_pos (mem_integerColumns.mpr ⟨c, hj, hc⟩)]
    exact Scalar.round_rat _
  · rw [getD_roundAt, if_pos hj, abs_sub_comm]
    exact abs_sub_round_le h hj
  · rw [getD_roundAt, if_neg hj]

theorem RoundedFrom.abs_activity_sub_le (h : RoundedFrom p tolerance y x) (r : Row ℚ) :
    |r.activity x - r.activity y| ≤ tolerance * p.integerWeight r := by
  simp only [Row.activity, Scalar.sum_rat, Problem.integerWeight]
  induction r.coefficients.toList with
  | nil => simp
  | cons e l ih =>
    simp only [List.map_cons, List.sum_cons]
    have hterm : |e.2 * (x[e.1 - 1]?).getD 0 - e.2 * (y[e.1 - 1]?).getD 0| ≤
        tolerance * if e.1 - 1 ∈ integerColumns p then |e.2| else 0 := by
      rw [← mul_sub, abs_mul]
      split_ifs with hj
      · rw [mul_comm]
        exact mul_le_mul_of_nonneg_right (h.near _ hj) (abs_nonneg _)
      · rw [h.same _ hj, sub_self, abs_zero, mul_zero, mul_zero]
    rw [add_sub_add_comm, mul_add]
    exact (abs_add_le _ _).trans (add_le_add hterm ih)

theorem RoundedFrom.abs_sub_le (h : RoundedFrom p tolerance y x) (ht : 0 ≤ tolerance) (j : ℕ) :
    |(x[j]?).getD 0 - (y[j]?).getD 0| ≤ tolerance := by
  by_cases hj : j ∈ integerColumns p
  · exact h.near j hj
  · rw [h.same j hj, sub_self, abs_zero]
    exact ht

structure Rounds (p : Problem ℚ) (tolerance : ℚ) (s : Search ℚ) : Prop where
  nodes : ∀ node ∈ s.stack, ∀ x, (node.restrict p).Feasible x → p.Feasible x
  incumbent : ∀ inc, s.incumbent = some inc → ∃ y, RoundedFrom p tolerance y inc.values

theorem rounds_start (p : Problem ℚ) (tolerance : ℚ) (d : Deadline) :
    Rounds p tolerance (start d) := by
  refine ⟨fun node hnode x hx ↦ ?_, by simp [start]⟩
  obtain rfl := List.mem_singleton.mp hnode
  exact hx

theorem Rounds.of_stack (h : Rounds p tolerance s) (hs : ∀ node ∈ t.stack, node ∈ s.stack)
    (hi : t.incumbent = s.incumbent) : Rounds p tolerance t :=
  ⟨fun node hnode ↦ h.nodes node (hs node hnode), fun inc hinc ↦ h.incumbent inc (hi ▸ hinc)⟩

theorem Rounds.closed (h : Rounds p tolerance s) (mipGap : ℚ) :
    Rounds p tolerance (s.closed mipGap) := by
  unfold Search.closed
  split_ifs
  · exact ⟨h.nodes, h.incumbent⟩
  · exact h

theorem Rounds.turn {oracle : Oracle ℚ} {config : SolveConfig ℚ} (h : Rounds p tolerance s)
    (hturn : Turn oracle p config tolerance s t)
    (hfeasible : ∀ node rest, s.Opens node rest → ∀ lp,
      (s.relaxation oracle p config node).1 = some lp → lp.status = .optimal →
        (node.restrict p).Feasible lp.values) : Rounds p tolerance t := by
  have hrest {node : Node ℚ} {rest : List (Node ℚ)} (hs : s.stack = node :: rest) :
      ∀ node' ∈ rest, node' ∈ s.stack :=
    fun node' hnode' ↦ by rw [hs]; exact List.mem_cons_of_mem node hnode'
  cases hturn with
  | exhausted hs => exact ⟨h.nodes, h.incumbent⟩
  | expired hs | pruned hs => exact h.of_stack (hrest hs) rfl
  | unfinished ho | unbounded ho | unsettled ho | infeasible ho | dominated ho =>
    exact h.of_stack (hrest ho.stack) rfl
  | @improved node rest lp d ho hlp hstatus hp hf =>
    have hmem := mem_of_stack_eq ho.stack
    have hlp' := h.nodes node hmem _ (hfeasible node rest ho lp (congrArg Prod.fst hlp) hstatus)
    refine Rounds.closed ⟨fun node' hnode' ↦ h.nodes node' (hrest ho.stack node' hnode'),
      fun inc hinc ↦ ?_⟩ _
    obtain rfl := Option.some_inj.mp hinc
    exact ⟨lp.values, roundedFrom_roundAt hlp' hf⟩
  | @branched node rest lp d j value ho hlp hstatus hp hf =>
    have hmem := mem_of_stack_eq ho.stack
    obtain ⟨hj, rfl⟩ := mem_of_mostFractional hf
    obtain ⟨c, hj, -⟩ := mem_integerColumns.mp hj
    obtain ⟨c', hj'⟩ := node.exists_column hj
    have hv := (hfeasible node rest ho lp (congrArg Prod.fst hlp) hstatus).columns j c' hj'
    refine Rounds.closed (s := { s.counted rest lp d with stack := _ })
      ⟨fun node' hnode' x hx ↦ ?_, h.incumbent⟩ _
    rcases List.mem_append.mp hnode' with hchild | hmem'
    · rcases mem_ordered.mp hchild with rfl | rfl
      · exact h.nodes node hmem x ((Node.feasible_down hj' hv x).mp hx).1
      · exact h.nodes node hmem x ((Node.feasible_up hj' hv x).mp hx).1
    · exact h.nodes node' (hrest ho.stack node' hmem') x hx

theorem outcome_eq_incumbent {ended : SearchEnd ℚ} {incumbent : Option (Incumbent ℚ)}
    {status : Status} (h : outcome p ended incumbent = some (status, x))
    (hstatus : status = .optimal ∨ status = .feasible) :
    ∃ inc, incumbent = some inc ∧ inc.values = x := by
  rcases hstatus with rfl | rfl
  all_goals cases ended <;> cases incumbent <;> simp_all [outcome]

/-- With relaxations whose optimal points are feasible, every point that a search reports as
optimal or feasible comes from a feasible point by rounding. -/
theorem exists_roundedFrom {oracle : Oracle ℚ} {config : SolveConfig ℚ} {clock : Clock} {fuel : ℕ}
    (hfeasible : ∀ node d, Solves oracle p config tolerance clock fuel node d → ∀ lp,
      (oracle (node.restrict p) config.forRelaxations d).value.1 = some lp →
        lp.status = .optimal → (node.restrict p).Feasible lp.values) {solution : Solution ℚ}
    (hsolution : (solve oracle p config tolerance clock fuel).value = some solution)
    (hstatus : solution.status = .optimal ∨ solution.status = .feasible) :
    ∃ y, RoundedFrom p tolerance y solution.values := by
  have hrounds : Rounds p tolerance (reached oracle p config tolerance clock fuel) := by
    refine reached_invariant (rounds_start p tolerance _) fun s t _ hs hturn hsolves ↦ ?_
    exact hs.turn hturn fun node rest ho ↦ hfeasible node _ (hsolves node rest ho)
  obtain ⟨ended, -, houtcome⟩ := value_solve oracle p config tolerance clock fuel hsolution
  obtain ⟨inc, hinc, hvalues⟩ := outcome_eq_incumbent houtcome hstatus
  rw [← hvalues]
  exact hrounds.incumbent inc hinc

end Search

namespace Solver

/-- With relaxations whose optimal points are feasible, a point that is reported as optimal or
feasible is integral, wherever a deadline cuts the search. It keeps the bounds of the columns up to
the tolerance, and those of a row up to the tolerance for every unit of the row's coefficients at
integer columns. -/
theorem solveMip_within (solver : Solver ℚ) (p : Problem ℚ) (config : SolveConfig ℚ)
    (htolerance : solver.integerTolerance = Search.standardIntegerTolerance)
    (hfeasible : ∀ q d, solver.Relaxes p config q d → ∀ lp,
      (solver.runLp q config.forRelaxations d).value.1 = some lp → lp.status = .optimal →
        q.Feasible lp.values)
    {solution : Solution ℚ} (hsolution : (solver.solveMip p config).value = some solution)
    (hstatus : solution.status = .optimal ∨ solution.status = .feasible) :
    p.Integral solution.values ∧
      (∀ r ∈ p.rows, WithinBy (1 / 10 ^ 6 * p.integerWeight r) r.effectiveBounds
        (r.activity solution.values)) ∧
      ∀ (j : ℕ) (c : Column ℚ), p.columns[j]? = some c →
        WithinBy (1 / 10 ^ 6) (c.lower, c.upper) ((solution.values[j]?).getD 0) := by
  have hstandard : (Search.standardIntegerTolerance : ℚ) = 1 / 10 ^ 6 := by decide +kernel
  unfold Relaxes at hfeasible
  unfold solveMip at hsolution
  rw [htolerance, hstandard] at hfeasible hsolution
  obtain ⟨y, hy⟩ := Search.exists_roundedFrom
    (fun node d hnode lp ↦ hfeasible _ d ⟨node, hnode, rfl⟩ lp) hsolution hstatus
  refine ⟨hy.integral, fun r hr ↦ ?_, fun j c hj ↦ ?_⟩
  · exact ⟨r.activity y, hy.feasible.rows r hr, hy.abs_activity_sub_le r⟩
  · exact ⟨(y[j]?).getD 0, hy.feasible.columns j c hj, hy.abs_sub_le (by norm_num) j⟩

theorem feasible_relaxes {solver : Solver ℚ} {p : Problem ℚ} {config : SolveConfig ℚ}
    (hexact : solver.tolerances = .exact) (hp : p.WellPosed) {q : Problem ℚ} {d : Deadline}
    (hq : solver.Relaxes p config q d) {lp : Solution ℚ}
    (hlp : (solver.runLp q config.forRelaxations d).value.1 = some lp)
    (hstatus : lp.status = .optimal) : q.Feasible lp.values := by
  obtain ⟨node, hnode, rfl⟩ := hq
  exact ((answeredRightly_runLp (Search.wellPosed_of_solves hp hnode) hexact lp hlp).1 hstatus).1

/-- The deadline cuts the relaxation of the third node short, after a first incumbent at
`(2, 2)`. -/
theorem solveMip_within_cutShort :
    let solver : Solver ℚ :=
      { exact 20 with integerTolerance := Search.standardIntegerTolerance }
    let config : SolveConfig ℚ := { (.default : SolveConfig ℚ) with timeLimit := some ⟨100⟩ }
    (∀ q d, solver.Relaxes knapsack config q d → ∀ lp,
      (solver.runLp q config.forRelaxations d).value.1 = some lp → lp.status = .optimal →
        q.Feasible lp.values) ∧
      ∃ solution, (solver.solveMip knapsack config).value = some solution ∧
        solution.status = .feasible ∧ solution.values = #[2, 2] ∧
        knapsack.Integral solution.values ∧
        (∀ r ∈ knapsack.rows, WithinBy (1 / 10 ^ 6 * knapsack.integerWeight r) r.effectiveBounds
          (r.activity solution.values)) ∧
        ∀ (j : ℕ) (c : Column ℚ), knapsack.columns[j]? = some c →
          WithinBy (1 / 10 ^ 6) (c.lower, c.upper) ((solution.values[j]?).getD 0) := by
  intro solver config
  have hfeasible : ∀ q d, solver.Relaxes knapsack config q d → ∀ lp,
      (solver.runLp q config.forRelaxations d).value.1 = some lp → lp.status = .optimal →
        q.Feasible lp.values :=
    fun q d hq lp hlp hstatus ↦ feasible_relaxes rfl wellPosed_knapsack hq hlp hstatus
  have hsome : ((solver.solveMip knapsack config).value.map fun s ↦ (s.status, s.values)) =
      some (.feasible, #[2, 2]) := by decide +kernel
  obtain ⟨solution, hsolution, hvalue⟩ := Option.map_eq_some_iff.mp hsome
  obtain ⟨hstatus, hvalues⟩ := Prod.mk.inj hvalue
  exact ⟨hfeasible, solution, hsolution, hstatus, hvalues,
    solveMip_within solver knapsack config rfl hfeasible hsolution (.inr hstatus)⟩

/-- The relaxation has its optimum at `3 - 1 / 2 ^ 21`, which counts as the integer three, while
three itself misses the row by `1 / 2 ^ 12`. -/
def steepRow : Problem ℚ :=
  { name := "steep row", direction := .maximize
    columns := #[
      { name := "x", objective := 1, kind := .integer, bounds := .unset, boundType := .lower }]
    rows := #[
      { name := "limit", coefficients := ⟨#[some 0], #[⟨1, 512⟩]⟩,
        boundType := .upper, lower := .negInf, upper := .fin (1536 - 1 / 2 ^ 12) }] }

theorem relaxes_steepRow {q : Problem ℚ} {d : Deadline}
    (hq : Solver.standard.Relaxes steepRow .default q d) :
    q = steepRow ∧ d = (.default : SolveConfig ℚ).deadline .ticking := by
  obtain ⟨node, hnode, rfl⟩ := hq
  obtain ⟨n, hn, rest, -, ⟨hs, -, -⟩, rfl⟩ := hnode.lt_of_ended (k := 2) (by decide +kernel)
  match n, hn with
  | 0, _ =>
    obtain ⟨rfl, -⟩ := List.cons.inj hs
    exact ⟨rfl, rfl⟩
  | 1, _ =>
    have hempty : (Search.reached (Solver.standard : Solver ℚ).runLp steepRow .default
        Solver.standard.integerTolerance .ticking 1).stack = [] := by decide +kernel
    cases hempty.symm.trans hs

theorem feasible_relaxation_steepRow {q : Problem ℚ} {d : Deadline}
    (hq : Solver.standard.Relaxes steepRow .default q d) {lp : Solution ℚ}
    (hlp : (Solver.standard.runLp q (SolveConfig.default.forRelaxations) d).value.1 = some lp) :
    q.Feasible lp.values := by
  obtain ⟨rfl, rfl⟩ := relaxes_steepRow hq
  have hvalues : ((Solver.standard.runLp steepRow (SolveConfig.default.forRelaxations)
      ((.default : SolveConfig ℚ).deadline .ticking)).value.1.map (·.values)) =
        some #[3 - 1 / 2 ^ 21] := by decide +kernel
  rw [hlp, Option.map_some, Option.some_inj] at hvalues
  rw [hvalues]
  refine ⟨rfl, by decide +kernel, fun j c hj ↦ ?_⟩
  match j with
  | 0 =>
    obtain rfl := Option.some_inj.mp hj
    decide +kernel
  | j + 1 => cases hj

/-- Rounding can take an optimal point out of a row by more than the integer tolerance. -/
theorem not_within_steepRow :
    (∀ q d, Solver.standard.Relaxes steepRow .default q d → ∀ lp,
      (Solver.standard.runLp q (SolveConfig.default.forRelaxations) d).value.1 = some lp →
        lp.status = .optimal → q.Feasible lp.values) ∧
      ∃ solution, (Solver.standard.solveMip steepRow .default).value = some solution ∧
        solution.status = .optimal ∧
        ∃ r ∈ steepRow.rows,
          ¬ WithinBy (1 / 10 ^ 6) r.effectiveBounds (r.activity solution.values) := by
  refine ⟨fun q d hq lp hlp _ ↦ feasible_relaxation_steepRow hq hlp, ?_⟩
  have hsome : ((Solver.standard.solveMip steepRow .default).value.map fun s ↦
      (s.status, s.values)) = some (.optimal, #[3]) := by decide +kernel
  obtain ⟨solution, hsolution, hvalue⟩ := Option.map_eq_some_iff.mp hsome
  obtain ⟨hstatus, hvalues⟩ := Prod.mk.inj hvalue
  refine ⟨solution, hsolution, hstatus, _, Array.mem_of_getElem (i := 0) (h := by decide) rfl, ?_⟩
  rintro ⟨a, ha, hle⟩
  have hactivity : (steepRow.rows[0]).activity #[3] = 1536 := by decide +kernel
  have hbounds : (steepRow.rows[0]).effectiveBounds = (.negInf, .fin (1536 - 1 / 2 ^ 12)) := by
    decide +kernel
  rw [hbounds, within_upper] at ha
  rw [hvalues, hactivity] at hle
  have hlt := (abs_le.mp hle).2
  norm_num at ha hlt
  linarith

end Solver

end LinProg
