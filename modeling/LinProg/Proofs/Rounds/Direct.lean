import Mathlib.Data.Rat.Defs
import Mathlib.Tactic.Set
import LinProg.Proofs.Problem.Feasible
import LinProg.Proofs.Rounds.Steps
import LinProg.Proofs.Simplex.Steps

namespace LinProg.Rounds

variable {α ε : Type} [Scalar α]

/-- The pivots that the first `k` rounds may use together. -/
def allowance (increment : ℕ) (limit : Option ℕ) (k : ℕ) : ℕ :=
  match limit with
  | some limit => min (k * max 1 increment) limit
  | none => k * max 1 increment

def directConfig (config : SolveConfig α) (pivots : ℕ) : SolveConfig α :=
  { config with presolve := false, iterationLimit := some pivots }

def reached (solver : Solver α) (p : Problem α) (config : SolveConfig α) (pivots : ℕ) :
    Simplex α :=
  ((Simplex.start p (sessionConfig config) solver.tolerances).value.run pivots
    (config.deadline solver.clock)).value.1

theorem iterations_start (p : Problem α) (config : SolveConfig α) (tolerances : Tolerances α) :
    (Simplex.start p config tolerances).value.iterations = 0 := by
  simp only [Simplex.start]
  split
  · rfl
  · split <;> rfl

theorem isTerminal_solution (s : Simplex α) (p : Problem α) :
    (s.solution p).status.isTerminal = s.isDone := by
  unfold Simplex.solution Simplex.status Simplex.isDone
  rcases s.phase with _ | _ | (_ | _ | _) <;> rfl

section Unlimited

variable {solver : Solver α} {p : Problem α} {config : SolveConfig α}
  (ht : config.timeLimit = none)

include ht

theorem run_reached (m n : ℕ) :
    ((reached solver p config m).run n (config.deadline solver.clock)).value =
      (reached solver p config (m + n), config.deadline solver.clock) := by
  have hd : (config.deadline solver.clock).limit = none := ht
  rw [reached, reached, Simplex.run_add hd]
  exact Prod.ext rfl (Simplex.deadline_run hd _ _)

theorem iterations_reached {pivots : ℕ} (hd : (reached solver p config pivots).isDone = false) :
    (reached solver p config pivots).iterations = pivots := by
  have hends := Simplex.isDone_or_iterations_run (d := config.deadline solver.clock) ht
    (Simplex.start p (sessionConfig config) solver.tolerances).value pivots
  rw [iterations_start, Nat.zero_add] at hends
  exact hends.resolve_left (by simpa [reached] using hd)

omit ht in
theorem value_solveLp (pivots : ℕ) : (solver.solveLp p (directConfig config pivots)).value =
    some ((reached solver p config pivots).solution p) := rfl

end Unlimited

theorem allowance_succ {increment done k : ℕ} {limit : Option ℕ}
    (hd : done = k * max 1 increment) (hl : ∀ l ∈ limit, done ≤ l) :
    allowance increment limit k + budget (max 1 increment) limit done =
      allowance increment limit (k + 1) := by
  cases limit with
  | none => simp [allowance, budget, Nat.succ_mul]
  | some l =>
    have h := hl l rfl
    simp only [allowance, budget, Nat.succ_mul]
    omega

/-- The session stands where a direct run stands after the pivots that its rounds may use; while
the loop goes on, every round has used up its budget. -/
structure Tracks (solver : Solver α) (p : Problem α) (config : SolveConfig α) (increment : ℕ)
    (limit : Option ℕ) (s : Rounds α ε solver.backend.Session) : Prop where
  session : s.session = ({
    simplex := reached solver p config (allowance increment limit s.rounds.length)
    deadline := config.deadline solver.clock } : SimplexSession α)
  solutions : ∀ k r, s.rounds.reverse[k]? = some r →
    r.solution = (reached solver p config (allowance increment limit (k + 1))).solution p
  running : s.ended = none →
    s.done = s.rounds.length * max 1 increment ∧ ∀ l ∈ limit, s.done ≤ l
  finished : limit = none → ∀ solution, s.ended = some (.finished solution) →
    solution.status.isTerminal = true

section Unlimited

variable {solver : Solver α} {p : Problem α} {config : SolveConfig α}
  (ht : config.timeLimit = none) {increment done k : ℕ} {limit : Option ℕ}

include ht

theorem iterations_of_not_stops
    (hs : stops limit done
      ((reached solver p config (allowance increment limit (k + 1))).solution p) = false) :
    (reached solver p config (allowance increment limit (k + 1))).iterations =
        (k + 1) * max 1 increment ∧
      ∀ l ∈ limit,
        (reached solver p config (allowance increment limit (k + 1))).iterations ≤ l := by
  simp only [stops, Bool.or_eq_false_iff, decide_eq_false_iff_not, isTerminal_solution] at hs
  obtain ⟨⟨hr, -⟩, hl⟩ := hs
  have hiter := iterations_reached ht hr
  cases limit with
  | none => exact ⟨hiter, by simp⟩
  | some l =>
    have hl' :
        ¬l ≤ (reached solver p config (allowance increment (some l) (k + 1))).iterations :=
      of_decide_eq_false hl
    simp only [allowance] at hiter hl' ⊢
    exact ⟨by omega, fun m hm ↦ by cases hm; omega⟩

theorem isTerminal_of_stops (hd : done = k * max 1 increment)
    (hs : stops none done
      ((reached solver p config (allowance increment none (k + 1))).solution p) = true) :
    ((reached solver p config (allowance increment none (k + 1))).solution p).status.isTerminal =
      true := by
  rw [isTerminal_solution]
  cases hr : (reached solver p config (allowance increment none (k + 1))).isDone with
  | true => rfl
  | false =>
    have hiter :
        ((reached solver p config (allowance increment none (k + 1))).solution p).iterations =
          (k + 1) * max 1 increment := iterations_reached ht hr
    have hlt : ¬(k + 1) * max 1 increment ≤ done := by
      rw [hd, Nat.succ_mul]
      omega
    simp [stops, isTerminal_solution, hr, hiter, hlt] at hs

theorem value_resume_reached (p : Problem α) (first second : ℕ) :
    (Solver.resume { simplex := reached solver p config first
                     deadline := config.deadline solver.clock } p second).value =
      ((reached solver p config (first + second)).solution p,
        { simplex := reached solver p config (first + second)
          deadline := config.deadline solver.clock }) := by
  simp only [Solver.resume, Logged.value_bind, run_reached ht, Logged.pure_eq]

theorem Tracks.round (onRound : ℕ → Solution α → Except ε Unit)
    {s : Rounds α ε solver.backend.Session} (hs : s.ended = none)
    (h : Tracks solver p config increment limit s) :
    Tracks solver p config increment limit
      (step solver.backend p (max 1 increment) limit onRound s).value := by
  obtain ⟨hdone, hlimit⟩ := h.running hs
  have hadd := allowance_succ hdone hlimit
  obtain ⟨hsession, hrounds, hended⟩ :=
    step_cases solver.backend p (max 1 increment) limit onRound s
  set next := (step solver.backend p (max 1 increment) limit onRound s).value
  set pivots := budget (max 1 increment) limit s.done
  set simplex :=
    reached solver p config (allowance increment limit (s.rounds.length + 1)) with hsimplex
  have hv : (solver.backend.resume s.session p pivots).value = (simplex.solution p,
      ({ simplex, deadline := config.deadline solver.clock } : SimplexSession α)) := by
    rw [h.session, hsimplex, ← hadd]
    exact value_resume_reached ht p _ _
  rw [hv] at hsession hrounds hended
  have hlength : next.rounds.length = s.rounds.length + 1 := by rw [hrounds]; rfl
  refine ⟨?_, ?_, ?_, ?_⟩
  · rw [hsession, hlength]
  · intro k r hk
    rw [hrounds, List.reverse_cons, List.getElem?_append] at hk
    split at hk
    · exact h.solutions k r hk
    · next hlt =>
      obtain ⟨hzero, hr⟩ := List.getElem?_eq_some_iff.mp hk
      simp only [List.length_reverse, List.length_singleton] at hlt hzero
      have hk : k = s.rounds.length := by omega
      subst hk
      simp [← hr, hsimplex]
  · intro hnone
    rcases hended with ⟨e, -, he⟩ | ⟨-, hd, he⟩
    · simp [he] at hnone
    · have hstop : stops limit s.done (simplex.solution p) = false := by
        by_contra hc
        simp [he, hc] at hnone
      rw [hd, hlength]
      exact iterations_of_not_stops ht hstop
  · rintro rfl solution hsome
    rcases hended with ⟨e, -, he⟩ | ⟨-, -, he⟩
    · simp [he] at hsome
    · have hstop : stops none s.done (simplex.solution p) = true := by
        by_contra hc
        simp [he, hc] at hsome
      rw [he, if_pos hstop] at hsome
      cases hsome
      exact isTerminal_of_stops ht hdone hstop

omit ht in
theorem reached_zero : reached solver p config 0 =
    (Simplex.start p (sessionConfig config) solver.tolerances).value := by
  rw [reached, Simplex.value_run, iterations_start]
  simp [Logged.iterateWhile_succ, Simplex.goesOn]

theorem Tracks.run (increment : ℕ) (onRound : ℕ → Solution α → Except ε Unit) (fuel : ℕ) :
    Tracks solver p config increment config.iterationLimit
      (run solver.backend p config increment onRound fuel).value := by
  refine run_invariant ?_ (fun s hs h ↦ h.round ht onRound hs) fuel
  refine ⟨?_, by simp, fun _ ↦ by simp, by simp⟩
  have hzero : allowance increment config.iterationLimit 0 = 0 := by
    cases config.iterationLimit <;> simp [allowance]
  rw [List.length_nil, hzero, reached_zero]
  rfl

end Unlimited

/-- The solution of every round is that of one direct solve with as many pivots as the rounds up to
it may use, and without a limit only a terminal status ends the rounds. -/
theorem solution_eq_solveLp (solver : Solver α) (p : Problem α) (config : SolveConfig α)
    (ht : config.timeLimit = none) (increment : ℕ) (onRound : ℕ → Solution α → Except ε Unit)
    (fuel : ℕ) :
    let report := (run solver.backend p config increment onRound fuel).value
    (∀ k round, report.rounds.reverse[k]? = some round →
      (solver.solveLp p
        (directConfig config (allowance increment config.iterationLimit (k + 1)))).value =
          some round.solution) ∧
      (config.iterationLimit = none → ∀ solution, report.ended = some (.finished solution) →
        solution.status.isTerminal = true) := by
  intro report
  have h : Tracks solver p config increment config.iterationLimit _ :=
    Tracks.run ht increment onRound fuel
  refine ⟨fun k round hk ↦ ?_, h.finished⟩
  rw [value_solveLp, h.solutions k round hk]

theorem solution_eq_solveLp_twoPhases :
    (SolveConfig.default : SolveConfig ℚ).timeLimit = none ∧
      let report := (run Solver.standard.backend Problem.twoPhases .default 1
        (fun _ _ ↦ (.ok () : Except Unit Unit)) 9).value
      report.rounds.length = 4 ∧
      (∀ k round, report.rounds.reverse[k]? = some round →
        (Solver.standard.solveLp Problem.twoPhases
          (directConfig .default (allowance 1 none (k + 1)))).value = some round.solution) ∧
      ∀ solution, report.ended = some (.finished solution) →
        solution.status.isTerminal = true := by
  refine ⟨rfl, by decide +kernel, ?_⟩
  have h := solution_eq_solveLp Solver.standard Problem.twoPhases .default rfl 1
    (fun _ _ ↦ (.ok () : Except Unit Unit)) 9
  exact ⟨h.1, h.2 rfl⟩

end LinProg.Rounds
