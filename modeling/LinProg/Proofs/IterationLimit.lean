import LinProg.Proofs.Rounds.Budgets
import LinProg.Proofs.Rounds.Direct
import LinProg.Proofs.Search.Pivots
import LinProg.Proofs.Search.Verdicts

namespace LinProg

variable {α : Type} [Scalar α] (solver : Solver α) (p : Problem α) {config : SolveConfig α}
  {limit : ℕ}

theorem Solver.exists_runLp (hl : config.iterationLimit = some limit) (d : Deadline) :
    ∃ solution, (solver.runLp p config d).value.1 = some solution ∧
      solution.iterations ≤ limit := by
  have hrun :=
    Simplex.iterations_run_le (Simplex.start p config solver.tolerances).value limit d
  rw [Rounds.iterations_start, Nat.zero_add] at hrun
  simp only [Solver.runLp, hl, Logged.value_bind]
  exact ⟨_, rfl, hrun⟩

namespace Rounds

variable {ε : Type} {solver} {p}

/-- The rounds so far have kept to a limit, and a solve that goes on has some of it left. -/
structure Spends (solver : Solver α) (limit : ℕ) (s : Rounds α ε solver.backend.Session) :
    Prop where
  rounds : ∀ r ∈ s.rounds, r.solution.iterations ≤ limit
  running : s.ended = none → s.done = SimplexSession.iterations s.session ∧ s.done ≤ limit ∧
    s.rounds.length ≤ s.done ∧ (s.rounds = [] ∨ s.done < limit)
  finished : ∀ solution, s.ended = some (.finished solution) → ∃ r ∈ s.rounds, r.solution = solution

theorem iterations_resume (solver : Solver α) (session : SimplexSession α) (p : Problem α)
    (budget : ℕ) :
    let answer := (solver.backend.resume session p budget).value
    answer.1.iterations = SimplexSession.iterations answer.2 ∧
      answer.1.iterations ≤ session.iterations + budget :=
  ⟨rfl, Simplex.iterations_run_le session.simplex budget session.deadline⟩

theorem Spends.round {increment : ℕ} (onRound : ℕ → Solution α → Except ε Unit)
    {s : Rounds α ε solver.backend.Session} (hs : s.ended = none) (h : Spends solver limit s) :
    Spends solver limit (step solver.backend p increment (some limit) onRound s).value := by
  obtain ⟨hdone, hle, hlength, -⟩ := h.running hs
  obtain ⟨hsession, hrounds, hended⟩ :=
    step_cases solver.backend p increment (some limit) onRound s
  obtain ⟨hsame, hspent⟩ :=
    iterations_resume solver s.session p (budget increment (some limit) s.done)
  generalize (solver.backend.resume s.session p _).value = answer at *
  generalize (step solver.backend p increment (some limit) onRound s).value = next at *
  have hwithin : answer.1.iterations ≤ limit := by
    dsimp only [budget] at hspent
    omega
  refine ⟨fun r hr ↦ ?_, fun hnone ↦ ?_, fun solution hsome ↦ ?_⟩
  · rw [hrounds] at hr
    rcases List.mem_cons.mp hr with rfl | hr
    · exact hwithin
    · exact h.rounds r hr
  · rcases hended with ⟨e, -, he⟩ | ⟨-, hd, he⟩
    · simp [he] at hnone
    · have hstop : stops (some limit) s.done answer.1 = false := by
        by_contra hc
        simp [he, hc] at hnone
      obtain ⟨hprogress, hleft⟩ := lt_of_not_stops hstop
      rw [hd, hsession, hrounds, List.length_cons]
      exact ⟨hsame, hwithin, by omega, .inr (hleft limit rfl)⟩
  · rcases hended with ⟨e, -, he⟩ | ⟨-, -, he⟩
    · simp [he] at hsome
    · rw [he] at hsome
      split at hsome
      · cases hsome
        exact ⟨_, hrounds ▸ List.mem_cons_self, rfl⟩
      · cases hsome

theorem ended_within_limit (solver : Solver α) (p : Problem α)
    (hl : config.iterationLimit = some limit) (increment : ℕ)
    (onRound : ℕ → Solution α → Except ε Unit) (fuel : ℕ) :
    let s := (run solver.backend p config increment onRound fuel).value
    (∃ solution, s.ended = some (.finished solution) ∧ solution.iterations ≤ limit) ∨
      ∃ e, s.ended = some (.failed e) := by
  intro s
  have h : Spends solver limit s := by
    refine run_invariant ?_ (fun s hs h ↦ ?_) fuel
    · refine ⟨by simp, fun _ ↦ ⟨?_, Nat.zero_le limit, Nat.le_refl 0, .inl rfl⟩, by simp⟩
      exact (iterations_start p _ solver.tolerances).symm
    · rw [hl]
      exact h.round onRound hs
  cases he : s.ended with
  | some ended =>
    cases ended with
    | failed e => exact .inr ⟨e, rfl⟩
    | finished solution =>
      obtain ⟨r, hr, rfl⟩ := h.finished solution he
      exact .inl ⟨_, rfl, h.rounds r hr⟩
  | none =>
    obtain ⟨-, -, hlength, hleft⟩ := h.running he
    have hs : s = (loop solver.backend p config increment onRound (max 1 limit)).value := by
      simp only [s, run_eq_loop, hl]
    have hturns := length_loop_of_running solver.backend p increment (hs ▸ he)
    rw [← hs] at hturns
    rcases hleft with hnil | hlt
    · simp [hnil] at hturns
      omega
    · omega

end Rounds

namespace Solver

/-- The pivots of the relaxations that a solve solves, in order. -/
def relaxationPivots (solver : Solver α) (p : Problem α) (config : SolveConfig α) : List ℕ :=
  (Search.opened solver.runLp p config solver.integerTolerance solver.clock solver.fuel).map
    (Search.pivots solver.runLp p config)

theorem le_of_mem_relaxationPivots (hl : config.iterationLimit = some limit) :
    ∀ k ∈ solver.relaxationPivots p config, k ≤ limit := by
  intro k hk
  obtain ⟨⟨node, d⟩, -, rfl⟩ := List.mem_map.mp hk
  obtain ⟨solution, hsolution, hle⟩ := solver.exists_runLp (node.restrict p)
    (config.iterationLimit_forRelaxations.trans hl) d
  simpa [Search.pivots, hsolution] using hle

/-- Under an iteration limit a linear program is solved within the limit, and so is one that is
solved in rounds. A problem with integer columns is solved within the limit exactly if its
relaxations, each of which keeps to it, do so together. -/
theorem iterations_within_limit (hl : config.iterationLimit = some limit) :
    (∃ solution, (solver.solveLp p config).value = some solution ∧ solution.iterations ≤ limit) ∧
      (∀ (ε : Type) (increment : ℕ) (onRound : ℕ → Solution α → Except ε Unit) (fuel : ℕ),
        let s := (Rounds.run solver.backend p config increment onRound fuel).value
        (∃ solution, s.ended = some (.finished solution) ∧ solution.iterations ≤ limit) ∨
          ∃ e, s.ended = some (.failed e)) ∧
      (∀ k ∈ solver.relaxationPivots p config, k ≤ limit) ∧
      ∀ solution, (solver.solveMip p config).value = some solution →
        solution.iterations = (solver.relaxationPivots p config).sum := by
  refine ⟨?_, fun ε increment onRound fuel ↦ ?_, ?_, fun solution h ↦ ?_⟩
  · exact solver.exists_runLp p hl _
  · exact Rounds.ended_within_limit solver p hl increment onRound fuel
  · exact solver.le_of_mem_relaxationPivots p hl
  · exact Search.iterations_solve h

/-- The relaxations of the knapsack take nine pivots together, and none of them more than two. -/
theorem iterations_within_limit_knapsack :
    let config : SolveConfig ℚ := { (.default : SolveConfig ℚ) with iterationLimit := some 3 }
    config.iterationLimit = some 3 ∧
      (∃ solution, ((exact 20).solveLp knapsack config).value = some solution ∧
        solution.iterations ≤ 3) ∧
      (exact 20).relaxationPivots knapsack config = [2, 1, 2, 2, 2] ∧
      ∃ solution, ((exact 20).solveMip knapsack config).value = some solution ∧
        solution.iterations = ((exact 20).relaxationPivots knapsack config).sum := by
  intro config
  have hl : config.iterationLimit = some 3 := rfl
  have h := iterations_within_limit (exact 20) knapsack hl
  have hsome : (((exact 20).solveMip knapsack config).value.map fun s ↦ s.status) =
      some .optimal := by decide +kernel
  obtain ⟨solution, hsolution, -⟩ := Option.map_eq_some_iff.mp hsome
  exact ⟨hl, h.1, by decide +kernel, solution, hsolution, h.2.2.2 solution hsolution⟩

/-- A search can use up an iteration limit several times. -/
theorem not_within_limit_knapsack :
    let config : SolveConfig ℚ := { (.default : SolveConfig ℚ) with iterationLimit := some 3 }
    ∃ solution, ((standard : Solver ℚ).solveMip knapsack config).value = some solution ∧
      solution.iterations = 9 ∧ ¬ solution.iterations ≤ 3 := by
  intro config
  have hsome : (((standard : Solver ℚ).solveMip knapsack config).value.map fun s ↦ s.iterations) =
      some 9 := by decide +kernel
  obtain ⟨solution, hsolution, hiterations⟩ := Option.map_eq_some_iff.mp hsome
  exact ⟨solution, hsolution, hiterations, by omega⟩

end Solver

end LinProg
