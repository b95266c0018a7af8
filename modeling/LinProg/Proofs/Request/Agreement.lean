import LinProg.Proofs.Request.Callback
import LinProg.Proofs.Result.Agreement
import LinProg.Proofs.Search.Verdicts

namespace LinProg

/-- The objective that a solution tells is that of its point. -/
def Solution.PricedBy (s : Solution ℚ) (p : Problem ℚ) : Prop :=
  s.objectiveValue = p.objectiveValue s.values

theorem Search.priced_of_solve {oracle : Oracle ℚ} {p : Problem ℚ} {config : SolveConfig ℚ}
    {tolerance : ℚ} {clock : Clock} {fuel : ℕ} {s : Solution ℚ}
    (h : (solve oracle p config tolerance clock fuel).value = some s) : s.PricedBy p := by
  rw [value_solve_eq, Option.map_eq_some_iff] at h
  obtain ⟨result, -, rfl⟩ := h
  rfl

section

variable {α : Type}

theorem Backend.value_solve_lp (backend : Backend α) (p : Problem α) (config : SolveConfig α) :
    (backend.solve p config .lp).value = (backend.solveLp p config).value := by
  unfold Backend.solve
  simp only [Logged.value_bind]
  cases (backend.solveLp p config).value <;> rfl

theorem Backend.value_solve_mip (backend : Backend α) (p : Problem α) (config : SolveConfig α) :
    (backend.solve p config .mip).value = (backend.solveMip p config).value := by
  unfold Backend.solve
  simp only [Logged.value_bind]
  cases (backend.solveMip p config).value <;> rfl

end

namespace Solver

variable {ε : Type} {solver : Solver ℚ} {p : Problem ℚ} {config : SolveConfig ℚ} {s : Solution ℚ}

theorem priced_of_solve {kind : SolveKind}
    (h : (solver.backend.solve p config kind).value = some s) : s.PricedBy p := by
  cases kind with
  | lp =>
    rw [Backend.value_solve_lp] at h
    exact objectiveValue_runLp h
  | mip =>
    rw [Backend.value_solve_mip] at h
    exact Search.priced_of_solve h

theorem priced_resume (session : SimplexSession ℚ) (p : Problem ℚ) (iterations : ℕ) :
    (resume session p iterations).value.1.PricedBy p := rfl

theorem priced_rounds (solver : Solver ℚ) (p : Problem ℚ) (config : SolveConfig ℚ) (increment : ℕ)
    (onRound : ℕ → Solution ℚ → Except ε Unit) (fuel : ℕ) :
    let r := (Rounds.run solver.backend p config increment onRound fuel).value
    (∀ round ∈ r.rounds, round.solution.PricedBy p) ∧
      ∀ s, r.ended = some (.finished s) → s.PricedBy p := by
  refine Rounds.run_invariant (P := fun r ↦ (∀ round ∈ r.rounds, round.solution.PricedBy p) ∧
    ∀ s, r.ended = some (.finished s) → s.PricedBy p) ?_ (fun r _ hr ↦ ?_) fuel
  · exact ⟨fun _ hmem ↦ (List.not_mem_nil hmem).elim, fun _ h ↦ by cases h⟩
  · obtain ⟨-, hrounds, hended⟩ := Rounds.step_cases solver.backend p (max 1 increment)
      config.iterationLimit onRound r
    have hanswer := priced_resume r.session p
      (Rounds.budget (max 1 increment) config.iterationLimit r.done)
    constructor
    · rw [hrounds]
      exact List.forall_mem_cons.mpr ⟨hanswer, hr.1⟩
    · intro s hs
      rcases hended with ⟨e, -, he⟩ | ⟨-, -, he⟩
      · rw [he] at hs
        cases hs
      · rw [he] at hs
        split_ifs at hs
        obtain rfl : _ = s := by simpa using hs
        exact hanswer

end Solver

namespace Request

variable {ε : Type}

/-- Every result object of a request on the built-in solver, the last one and those of the rounds,
agrees with the description, and no description is one that no problem can be built for. -/
theorem run_agrees (request : Request ℚ) (solver : Solver ℚ) (spec : ProblemSpec ℚ)
    (onRound : ℕ → Output ℚ → Except ε Unit) (fuel : ℕ) :
    let report := (request.run solver.backend spec onRound fuel).value
    let withRows := (spec.options.merged request.options).reportsRows
    (∀ o, report.result = .ok o → o.AgreesWith spec withRows) ∧
      (∀ o ∈ report.rounds, o.AgreesWith spec withRows) ∧
      ∀ e, report.result ≠ .error (.model e) := by
  intro report withRows
  obtain ⟨p, hp, -, -, hcolumns, hrows⟩ := Problem.exists_build spec
  have hstands : p.StandsFor spec := ⟨hcolumns, hrows⟩
  by_cases h : request.kind.getD (SolveKind.ofProblem p) = .mip ∨ request.increment = none
  · obtain ⟨r, hvalue, hr⟩ := run_at_once (ε := ε) solver.backend hp h fuel
    have hreport : report = _ := (congrArg Logged.value (hr onRound)).trans hvalue
    rw [hreport]
    simp only [runAtOnce, Logged.value_bind, Logged.pure_eq]
    cases hsolve : (solver.backend.solve p (request.config spec)
      (request.kind.getD (SolveKind.ofProblem p))).value with
    | none => simp
    | some s =>
      have hs := Solver.priced_of_solve hsolve
      refine ⟨fun o ho ↦ ?_, by simp, by simp⟩
      rw [← Except.ok.inj ho]
      exact hstands.ofSolution_agrees hs _ _
  · obtain ⟨hlp, increment, hincrement⟩ := exists_increment h
    have hreport : report = _ := congrArg Logged.value
      (run_in_rounds solver.backend hp hlp hincrement onRound fuel)
    obtain ⟨hrounds, hended⟩ := Solver.priced_rounds solver p (request.config spec) increment
      (fun k s ↦ onRound k (Output.ofSolution p s solver.backend.version withRows)) fuel
    rw [Rounds.run_eq_loop] at hrounds hended
    rw [hreport]
    refine ⟨fun o ho ↦ ?_, fun o ho ↦ ?_, fun e he ↦ ?_⟩
    · simp only [reportOf] at ho
      split at ho <;> cases ho
      next s hs => exact hstands.ofSolution_agrees (hended s hs) _ _
    · obtain ⟨s, hs, rfl⟩ := List.mem_map.mp ho
      obtain ⟨round, hround, rfl⟩ := List.mem_map.mp hs
      exact hstands.ofSolution_agrees (hrounds round (List.mem_reverse.mp hround)) _ _
    · simp only [reportOf] at he
      split at he <;> cases he

theorem run_agrees_overlapping :
    let request : Request ℚ :=
      { options := { Options.none with iterationLimit := some 3, rows := some true }
        kind := some .lp, increment := some 2 }
    let report := (request.run (Solver.exact 0).backend Problem.overlapping
      (fun _ _ ↦ (.ok () : Except String Unit)) 0).value
    ∃ o rows, report.result = .ok o ∧ o ∈ report.rounds ∧ o.vars.names = ["x", "y", "z", "w"] ∧
      o.z = 3 * o.vars.valueOf "x" + 2 * o.vars.valueOf "y" ∧ o.rows = some rows ∧
      rows.names = ["limit"] ∧ rows.get? "limit" =
        some (o.vars.valueOf "z" + 2 * o.vars.valueOf "x" + 4 * o.vars.valueOf "z") := by
  intro request report
  obtain ⟨p, hp, -⟩ := Problem.exists_build Problem.overlapping
  have hreport : report = _ := congrArg Logged.value (run_in_rounds (ε := String)
    (Solver.exact 0).backend hp (show request.kind.getD _ = .lp from rfl)
    (show request.increment = some 2 from rfl) (fun _ _ ↦ .ok ()) 0)
  obtain ⟨-, hlast, hends⟩ := reportOf_silent (ε := String) (Solver.exact 0).backend p
    (request.config Problem.overlapping) true 2 (turns (request.config Problem.overlapping) 0)
  obtain ⟨o, ho⟩ := hends (ended_of_turns p 2 (.inl (by simp [config, Options.solveConfig,
    Options.merged, request])))
  have hresult : report.result = .ok o := hreport ▸ ho
  have hmem : o ∈ report.rounds := hreport ▸ List.mem_of_getLast? (hlast o ho)
  have h := (run_agrees request (Solver.exact 0) Problem.overlapping
    (fun _ _ ↦ (.ok () : Except String Unit)) 0).1 o hresult
  obtain ⟨rows, hrows⟩ := Option.isSome_iff_exists.mp h.rows
  refine ⟨o, rows, hresult, hmem, h.names.trans (by decide +kernel), ?_, hrows,
    (h.row_names rows hrows).trans (by decide +kernel), ?_⟩
  · have hobjective :
        (Problem.overlapping.objective.terms.map (·.name)).eraseDups = ["x", "y"] := by
      decide +kernel
    have hx : Problem.overlapping.objectiveOf "x" = 3 := by decide +kernel
    have hy : Problem.overlapping.objectiveOf "y" = 2 := by decide +kernel
    rw [h.z, hobjective]
    simp [hx, hy]
  · rw [h.activity rows hrows "limit" _ rfl, ConstraintSpec.activity]
    simp [add_assoc]

end Request

end LinProg
