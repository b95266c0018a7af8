import LinProg.Proofs.Search.Verdicts

namespace LinProg

namespace Search

variable {oracle : Oracle ℚ} {p : Problem ℚ} {config : SolveConfig ℚ} {clock : Clock}
  {s t : Search ℚ} {nodes : List (Node ℚ)}

def Bounded (nodes : List (Node ℚ)) : Prop := ∀ node ∈ nodes, ∃ b, node.bound = .fin b

def lowerBound (best : Extended ℚ) (node : Node ℚ) : Extended ℚ :=
  if node.bound.below best then node.bound else best

theorem foldl_lowerBound (h : Bounded nodes) :
    nodes = [] ∨ ∃ b, nodes.foldl lowerBound .posInf = .fin b ∧
      ∀ node ∈ nodes, node.bound.below (.fin b) = false := by
  induction nodes using List.reverseRecOn with
  | nil => exact .inl rfl
  | append_singleton nodes last ih =>
    obtain ⟨l, hl⟩ := h last (by simp)
    rw [List.foldl_append, List.foldl_cons, List.foldl_nil, lowerBound, hl]
    right
    rcases ih fun node hnode ↦ h node (List.mem_append_left _ hnode) with rfl | ⟨b, hb, hleast⟩
    · exact ⟨l, by simp, by simp [hl]⟩
    · rw [hb]
      split_ifs with hlt
      · refine ⟨l, rfl, fun node hnode ↦ ?_⟩
        rcases List.mem_append.mp hnode with hnode | hnode
        · exact Extended.below_of_le (hleast node hnode) (of_decide_eq_true hlt).le
        · rw [List.mem_singleton.mp hnode, hl]
          exact Extended.below_fin.mpr le_rfl
      · refine ⟨b, rfl, fun node hnode ↦ ?_⟩
        rcases List.mem_append.mp hnode with hnode | hnode
        · exact hleast node hnode
        · rw [List.mem_singleton.mp hnode, hl]
          exact Bool.eq_false_of_not_eq_true hlt

theorem bestBound_eq_fin (hbounded : Bounded s.stack) (hne : s.stack ≠ []) :
    ∃ b, s.bestBound = .fin b ∧ ∀ node ∈ s.stack, node.bound.below (.fin b) = false :=
  (foldl_lowerBound hbounded).resolve_left hne

theorem epsilon_eq : (epsilon : ℚ) = 1 / 2 ^ 52 := by decide +kernel

theorem closesGap_eq_true {mipGap : ℚ} (h : s.closesGap mipGap = true) :
    s.stack ≠ [] ∧ ∃ inc, s.incumbent = some inc ∧
      |inc.score - s.bestBound.toScalar| / (1 / 2 ^ 52 + |inc.score|) ≤ mipGap := by
  unfold closesGap at h
  cases hi : s.incumbent with
  | none => simp [hi] at h
  | some inc =>
    simp only [hi, Bool.and_eq_true, decide_eq_true_eq, Bool.not_eq_true',
      List.isEmpty_eq_false_iff] at h
    obtain ⟨⟨-, hne⟩, hgap⟩ := h
    rw [Scalar.abs_rat, Scalar.abs_rat, epsilon_eq] at hgap
    exact ⟨hne, inc, rfl, hgap⟩

/-- The score that no point of a search stopped by its gap is below: an open point is not below
the best bound, and any other not below the cutoff of the incumbent. -/
def gapCutoff (mipGap incumbent : ℚ) : ℚ :=
  incumbent - max (mipGap * (1 / 2 ^ 52 + |incumbent|)) (1 / 10 ^ 9 * (1 + |incumbent|))

theorem gapCutoff_le_cutoff (mipGap incumbent : ℚ) :
    gapCutoff mipGap incumbent ≤ cutoff incumbent :=
  sub_le_sub_left (le_max_right _ _) incumbent

theorem gapCutoff_le_of_ratio {mipGap incumbent b : ℚ}
    (h : |incumbent - b| / (1 / 2 ^ 52 + |incumbent|) ≤ mipGap) :
    gapCutoff mipGap incumbent ≤ b := by
  have hpos : 0 < 1 / 2 ^ 52 + |incumbent| := by positivity
  have hdistance : |incumbent - b| ≤ mipGap * (1 / 2 ^ 52 + |incumbent|) := (div_le_iff₀ hpos).mp h
  have hself := le_abs_self (incumbent - b)
  have hmax := le_max_left (mipGap * (1 / 2 ^ 52 + |incumbent|)) (1 / 10 ^ 9 * (1 + |incumbent|))
  unfold gapCutoff
  linarith

theorem Covers.gapCutoff_le {mipGap : ℚ} (h : Covers p s) (hbounded : Bounded s.stack)
    (hclose : s.closesGap mipGap = true) {inc : Incumbent ℚ} (hi : s.incumbent = some inc)
    {y : Array ℚ} (hy : p.Feasible y) (hyint : p.Integral y) :
    gapCutoff mipGap inc.score ≤ p.score y := by
  obtain ⟨hne, inc', hi', hgap⟩ := closesGap_eq_true hclose
  obtain rfl := Option.some_inj.mp (hi.symm.trans hi')
  obtain ⟨b, hb, hleast⟩ := bestBound_eq_fin hbounded hne
  rw [hb] at hgap
  rcases h.points y hy hyint with ⟨node, hnode, hin⟩ | ⟨inc', hi', hcut⟩
  · have hbound : b ≤ p.score y := by
      have hscore := (h.nodes node hnode y hin).2
      have hb' := hleast node hnode
      obtain ⟨c, hc⟩ := hbounded node hnode
      rw [hc, Extended.below_fin] at hscore hb'
      exact hb'.trans hscore
    exact (gapCutoff_le_of_ratio hgap).trans hbound
  · obtain rfl := Option.some_inj.mp (hi.symm.trans hi')
    exact (gapCutoff_le_cutoff mipGap _).trans hcut

theorem Turn.bounded {tolerance : ℚ} (hturn : Turn oracle p config tolerance s t)
    (h : Bounded s.stack.tail) : Bounded t.stack := by
  rcases hturn.stack_cases with ⟨-, ht⟩ | ⟨node, rest, hs, hstack⟩
  · simp [ht, Bounded]
  · rw [hs, List.tail_cons] at h
    rcases hstack with ht | ⟨j, x, score, values, -, ht⟩
    · rwa [ht]
    · rw [ht]
      intro node' hnode'
      rcases List.mem_append.mp hnode' with hchild | hmem
      · rcases mem_ordered.mp hchild with rfl | rfl
        · exact ⟨score, rfl⟩
        · exact ⟨score, rfl⟩
      · exact h node' hmem

theorem bounded_tail_reached (oracle : Oracle ℚ) (p : Problem ℚ) (config : SolveConfig ℚ)
    (tolerance : ℚ) (clock : Clock) (n : ℕ) :
    Bounded (reached oracle p config tolerance clock n).stack.tail := by
  refine reached_invariant (P := fun s ↦ Bounded s.stack.tail) (fun node hnode ↦ ?_)
    fun s t _ hs hturn _ node hnode ↦ ?_
  · cases hnode
  · exact hturn.bounded hs node (List.mem_of_mem_tail hnode)

theorem outcome_eq_feasible {ended : SearchEnd ℚ} {incumbent : Option (Incumbent ℚ)} {x : Array ℚ}
    (h : outcome p ended incumbent = some (.feasible, x)) :
    (ended = .limit ∨ ended = .gap) ∧ ∃ inc, incumbent = some inc ∧ inc.values = x := by
  cases ended <;> cases incumbent <;> simp_all [outcome]

theorem solve_gap {fuel : ℕ} (htime : config.timeLimit = none)
    (hright : ∀ node d, Solves oracle p config 0 clock fuel node d →
      (node.restrict p).AnsweredRightly (oracle (node.restrict p) config.forRelaxations d).value.1)
    (hdeadline : ∀ q d, d.limit = none → (oracle q config.forRelaxations d).value.2 = d)
    (hsettles : ∀ q d lp, d.limit = none → (oracle q config.forRelaxations d).value.1 = some lp →
      lp.status.settles = true)
    (hobjective : ∀ q d lp, (oracle q config.forRelaxations d).value.1 = some lp →
      lp.objectiveValue = q.objectiveValue lp.values) {solution : Solution ℚ}
    (hsolution : (solve oracle p config 0 clock fuel).value = some solution)
    (hstatus : solution.status = .feasible) :
    p.Feasible solution.values ∧ p.Integral solution.values ∧
      ∀ y, p.Feasible y → p.Integral y →
        gapCutoff config.mipGap (p.score solution.values) ≤ p.score y := by
  obtain ⟨ended, he, houtcome⟩ := value_solve oracle p config 0 clock fuel hsolution
  rw [hstatus] at houtcome
  obtain ⟨hended, inc, hi, hvalues⟩ := outcome_eq_feasible houtcome
  have hkept := kept_reached hright hobjective (le_refl fuel)
  obtain ⟨k, -, hrunning, hlast⟩ := exists_last_turn (by rw [he]; simp)
  -- the gap is tested after the turn, when even a root that has been opened is off the stack
  have hturn := reached_turn hrunning
  have hbounded := hturn.bounded (bounded_tail_reached oracle p config 0 clock k)
  rw [← hlast] at hturn hbounded
  obtain ⟨rfl, hclose⟩ : ended = .gap ∧
      (reached oracle p config 0 clock fuel).closesGap config.mipGap = true := by
    have hlimit : (reached oracle p config 0 clock k).deadline.limit = none := by
      rw [deadline_reached htime hdeadline]
      exact htime
    cases hturn.stop hrunning he with
    | gap hclose => exact ⟨rfl, hclose⟩
    | expired hnow => simp [Deadline.expired_of_limit hlimit] at hnow
    | unsettled ho hlp hunsettled =>
      have hnext := Deadline.next_of_limit hlimit
      rw [relaxation, hnext] at hlp
      simp [hsettles _ _ _ hlimit (congrArg Prod.fst hlp)] at hunsettled
    | exhausted | unfinished | unbounded => simp at hended
  have hcovers := hkept.1 (.inr he)
  obtain ⟨hfeasible, hint, hscore⟩ := hcovers.incumbent inc hi
  rw [hvalues] at hfeasible hint hscore
  refine ⟨hfeasible, hint, fun y hy hyint ↦ ?_⟩
  rw [← hscore]
  exact hcovers.gapCutoff_le hbounded hclose hi hy hyint

end Search

theorem Simplex.settles_status {α : Type} (s : Simplex α) : s.status.settles = s.isDone := by
  unfold status isDone
  split <;> simp_all [Status.settles]

namespace Solver

variable {solver : Solver ℚ} {p : Problem ℚ} {config : SolveConfig ℚ} {lp : Solution ℚ}
  {d : Deadline}

theorem deadline_runLp (hd : d.limit = none) : (solver.runLp p config d).value.2 = d := by
  simp only [runLp, Logged.value_bind]
  split <;> exact Simplex.deadline_run hd _ _

theorem settles_runLp (hlimit : config.iterationLimit = none) (hd : d.limit = none)
    (h : (solver.runLp p config d).value.1 = some lp) : lp.status.settles = true := by
  simp only [runLp, hlimit, Logged.value_bind, Simplex.deadline_run hd,
    Deadline.expired_of_limit hd, Option.isSome_none, Bool.false_or, Bool.or_false] at h
  split_ifs at h with hdone
  obtain rfl := Option.some_inj.mp h
  exact (Simplex.settles_status _).trans hdone

/-- With exact integrality, relaxations answered rightly and no limits, a solve that ends with a
feasible point has stopped at its gap: no integer point is below the score reported by more than
the gap allows, or by more than the slack of the incumbent's test. -/
theorem solveMip_gap (solver : Solver ℚ) (p : Problem ℚ) (config : SolveConfig ℚ)
    (hexact : solver.integerTolerance = 0) (hlimit : config.iterationLimit = none)
    (htime : config.timeLimit = none)
    (hright : ∀ q d, solver.Relaxes p config q d →
      q.AnsweredRightly (solver.runLp q config.forRelaxations d).value.1)
    {solution : Solution ℚ} (hsolution : (solver.solveMip p config).value = some solution)
    (hstatus : solution.status = .feasible) :
    let s := p.score solution.values
    p.Feasible solution.values ∧ p.Integral solution.values ∧
      ∀ y, p.Feasible y → p.Integral y →
        s - max (config.mipGap * (1 / 2 ^ 52 + |s|)) (1 / 10 ^ 9 * (1 + |s|)) ≤ p.score y := by
  unfold Relaxes at hright
  unfold solveMip at hsolution
  rw [hexact] at hsolution hright
  exact Search.solve_gap htime (fun node d hnode ↦ hright _ d ⟨node, hnode, rfl⟩)
    (fun q d hd ↦ deadline_runLp hd)
    (fun q d lp hd hlp ↦ settles_runLp (config.iterationLimit_forRelaxations.trans hlimit) hd hlp)
    (fun q d lp hlp ↦ objectiveValue_runLp hlp) hsolution hstatus

theorem solveMip_gap_knapsack :
    let config : SolveConfig ℚ := { (.default : SolveConfig ℚ) with mipGap := 1 / 8 }
    ∃ solution, ((exact 20).solveMip knapsack config).value = some solution ∧
      solution.status = .feasible ∧ solution.values = #[3, 1] ∧
      knapsack.score solution.values = -19 ∧
      ∀ y, knapsack.Feasible y → knapsack.Integral y →
        -19 - 1 / 8 * (1 / 2 ^ 52 + 19) ≤ knapsack.score y := by
  intro config
  have hsome : (((exact 20).solveMip knapsack config).value.map fun s ↦ (s.status, s.values)) =
      some (.feasible, #[3, 1]) := by decide +kernel
  obtain ⟨solution, hsolution, hvalue⟩ := Option.map_eq_some_iff.mp hsome
  obtain ⟨hstatus, hvalues⟩ := Prod.mk.inj hvalue
  have hscore : knapsack.score solution.values = -19 := by
    rw [hvalues]
    decide +kernel
  have hgap := (solveMip_gap (exact 20) knapsack config rfl rfl rfl
    (fun q d hq ↦ answeredRightly_relaxes wellPosed_knapsack hq) hsolution hstatus).2.2
  refine ⟨solution, hsolution, hstatus, hvalues, hscore, fun y hy hyint ↦ ?_⟩
  have hle := hgap y hy hyint
  rw [hscore] at hle
  norm_num [config] at hle ⊢
  exact hle

end Solver

end LinProg
