import LinProg.Proofs.Iteration
import LinProg.Rounds

namespace LinProg.Rounds

variable {α ε : Type}

/-- Whether the loop stops after a round that the callback accepted. -/
def stops (limit : Option ℕ) (done : ℕ) (solution : Solution α) : Bool :=
  solution.status.isTerminal || decide (solution.iterations ≤ done) ||
    match limit with
    | some limit => decide (limit ≤ solution.iterations)
    | none => false

section Step

variable {backend : Backend α} {p : Problem α} {increment : ℕ} {limit : Option ℕ}
  {onRound : ℕ → Solution α → Except ε Unit} {s : Rounds α ε backend.Session}
  {solution : Solution α} {session : backend.Session} {events : List (Event α)}

def accepted {S : Type} (s : Rounds α ε S) (limit : Option ℕ) (budget : ℕ) (solution : Solution α)
    (session : S) : Rounds α ε S :=
  { session, done := solution.iterations, rounds := ⟨budget, solution⟩ :: s.rounds
    ended := if stops limit s.done solution then some (.finished solution) else none }

def acceptedEvents {S : Type} (s : Rounds α ε S) (limit : Option ℕ) (solution : Solution α) :
    List (Event α) :=
  .roundFinished (s.rounds.length + 1) solution.iterations solution.status ::
    if stops limit s.done solution then
      [.roundsFinished (s.rounds.length + 1) solution.status solution.objectiveValue] else []

theorem step_of_ok
    (hr : backend.resume s.session p (budget increment limit s.done) =
      ⟨(solution, session), events⟩)
    (h : onRound (s.rounds.length + 1) solution = .ok ()) :
    step backend p increment limit onRound s =
      ⟨accepted s limit (budget increment limit s.done) solution session,
        events ++ acceptedEvents s limit solution⟩ := by
  let rounds : List (Round α) := ⟨budget increment limit s.done, solution⟩ :: s.rounds
  have hstep : step backend p increment limit onRound s =
      ⟨(solution, session), events⟩ >>= fun _ ↦
        (⟨(), [.roundFinished rounds.length solution.iterations solution.status]⟩ >>= fun _ ↦
          if stops limit s.done solution then
            ⟨⟨session, solution.iterations, rounds, some (.finished solution)⟩,
              [.roundsFinished rounds.length solution.status solution.objectiveValue]⟩
          else ⟨⟨session, solution.iterations, rounds, none⟩, []⟩) := by
    unfold step
    simp only [hr, Logged.mk_bind, List.length_cons, h]
    rfl
  unfold accepted acceptedEvents
  rw [hstep]
  by_cases hs : stops limit s.done solution = true
  · simp only [hs, if_true]
    rfl
  · rw [if_neg hs, if_neg hs, if_neg hs]
    rfl

theorem step_of_error {e : ε}
    (hr : backend.resume s.session p (budget increment limit s.done) =
      ⟨(solution, session), events⟩)
    (h : onRound (s.rounds.length + 1) solution = .error e) :
    step backend p increment limit onRound s =
      ⟨{ s with session, rounds := ⟨budget increment limit s.done, solution⟩ :: s.rounds
                ended := some (.failed e) }, events⟩ := by
  unfold step
  simp only [hr, Logged.mk_bind, List.length_cons, h, Logged.pure_eq, List.append_nil]

end Step

theorem step_cases (backend : Backend α) (p : Problem α) (increment : ℕ) (limit : Option ℕ)
    (onRound : ℕ → Solution α → Except ε Unit) (s : Rounds α ε backend.Session) :
    let answer := (backend.resume s.session p (budget increment limit s.done)).value
    let next := (step backend p increment limit onRound s).value
    next.session = answer.2 ∧
      next.rounds = ⟨budget increment limit s.done, answer.1⟩ :: s.rounds ∧
      ((∃ e, onRound next.rounds.length answer.1 = .error e ∧ next.ended = some (.failed e)) ∨
        onRound next.rounds.length answer.1 = .ok () ∧ next.done = answer.1.iterations ∧
          next.ended =
            if stops limit s.done answer.1 then some (.finished answer.1) else none) := by
  intro answer next
  have hr : backend.resume s.session p (budget increment limit s.done) =
    ⟨(answer.1, answer.2), (backend.resume s.session p (budget increment limit s.done)).events⟩ :=
      rfl
  cases h : onRound (s.rounds.length + 1) answer.1 with
  | error e =>
    have hn : next = _ := congrArg Logged.value (step_of_error hr h)
    rw [hn]
    exact ⟨rfl, rfl, .inl ⟨e, h, rfl⟩⟩
  | ok u =>
    have hn : next = _ := congrArg Logged.value (step_of_ok hr h)
    rw [hn]
    exact ⟨rfl, rfl, .inr ⟨h, rfl, rfl⟩⟩

theorem run_invariant {backend : Backend α} {p : Problem α} {config : SolveConfig α}
    {increment : ℕ} {onRound : ℕ → Solution α → Except ε Unit}
    {P : Rounds α ε backend.Session → Prop}
    (hstart : P ⟨(backend.start p (sessionConfig config)).value, 0, [], none⟩)
    (hstep : ∀ s, s.ended = none → P s →
      P (step backend p (max 1 increment) config.iterationLimit onRound s).value)
    (fuel : ℕ) : P (run backend p config increment onRound fuel).value := by
  simp only [run, Logged.value_bind, Logged.value_iterateWhile]
  refine Function.Iterate.rec P hstart (fun s hs ↦ ?_) _
  cases he : s.ended with
  | none => rw [Logged.turnWhile_of _ (by simp [he])]; exact hstep s he hs
  | some e => rwa [Logged.turnWhile_of_not _ (by simp [he])]

end LinProg.Rounds
