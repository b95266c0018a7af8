import LinProg.Proofs.Model.Meaning
import LinProg.Proofs.Rounds.Callback
import LinProg.Request

namespace LinProg.Request

open Rounds (Accepts FailsFirst Heard)

variable {α ε : Type}

def turns (config : SolveConfig α) (fuel : ℕ) : ℕ :=
  match config.iterationLimit with
  | some limit => max 1 limit
  | none => fuel

/-- A solve in rounds comes to an end in its turns: under a limit always, and else if the session
reports fewer iterations than there are turns. -/
theorem ended_of_turns {backend : Backend α} (p : Problem α) {config : SolveConfig α}
    (increment : ℕ) {fuel : ℕ}
    (h : config.iterationLimit ≠ none ∨
      ∀ session budget, (backend.resume session p budget).value.1.iterations < fuel) :
    (Rounds.loop backend p config increment (fun _ _ ↦ (.ok () : Except ε Unit))
      (turns config fuel)).value.ended ≠ none := by
  cases hl : config.iterationLimit with
  | some limit =>
    exact Rounds.ended_of_limit backend p increment hl (by simp [turns, hl])
  | none =>
    have hreports := h.resolve_left (by simp [hl])
    have hturns : turns config fuel = fuel := by simp [turns, hl]
    rw [hturns]
    exact Rounds.ended_of_reports backend p increment hreports

theorem turns_pos {config : SolveConfig α} {fuel : ℕ}
    (h : config.iterationLimit ≠ none ∨ 0 < fuel) : 0 < turns config fuel := by
  cases hl : config.iterationLimit with
  | some limit =>
    simp only [turns, hl]
    omega
  | none => simpa [turns, hl] using h

/-- The callback failed in its `k`-th call, which the request came to an end with. Up to there it
went the way that it goes under a callback that never fails. -/
structure CutAt (k : ℕ) (e : ε) (heard silent : Logged (Event α) (Report α ε)) : Prop where
  result : heard.value.result = .error (.callback e)
  calls : heard.value.calls = silent.value.calls
  length_rounds : heard.value.rounds.length = k
  rounds : heard.value.rounds = silent.value.rounds.take k
  length_budgets : heard.value.budgets.length = k
  budgets : heard.value.budgets = silent.value.budgets.take k
  events : heard.events <+: silent.events

/-- How a request with a callback stands to the request with one that never fails. -/
inductive Reported (onRound : ℕ → Output α → Except ε Unit)
    (heard silent : Logged (Event α) (Report α ε)) : Prop
  | accepted (same : heard = silent) (accepts : Accepts onRound heard.value.rounds)
  | failed (k : ℕ) (e : ε) (fails : FailsFirst onRound heard.value.rounds k e)
      (cut : CutAt k e heard silent)

theorem CutAt.isPrefix {k : ℕ} {e : ε} {heard silent : Logged (Event α) (Report α ε)}
    (h : CutAt k e heard silent) : heard.value.rounds <+: silent.value.rounds :=
  h.rounds ▸ List.take_prefix k _

theorem Reported.cut {onRound : ℕ → Output α → Except ε Unit}
    {heard silent : Logged (Event α) (Report α ε)} (h : Reported onRound heard silent) {k : ℕ}
    {e : ε}
    (hf : FailsFirst onRound heard.value.rounds k e ∨ FailsFirst onRound silent.value.rounds k e) :
    CutAt k e heard silent := by
  cases h with
  | accepted same accepts =>
    subst same
    exact absurd accepts (hf.elim (·.not_accepts) (·.not_accepts))
  | failed k' e' fails cut =>
    have hsilent := hf.elim (·.extend cut.isPrefix) id
    obtain ⟨rfl, rfl⟩ := (fails.extend cut.isPrefix).unique hsilent
    exact cut

theorem Reported.same {onRound : ℕ → Output α → Except ε Unit}
    {heard silent : Logged (Event α) (Report α ε)} (h : Reported onRound heard silent)
    (ha : Accepts onRound silent.value.rounds) : heard = silent := by
  cases h with
  | accepted same _ => exact same
  | failed k e fails cut => exact absurd ha (fails.extend cut.isPrefix).not_accepts

variable [Scalar α]

def reportOf (backend : Backend α) (p : Problem α) (config : SolveConfig α) (withRows : Bool)
    (s : Rounds α ε backend.Session) : Report α ε :=
  { calls := [.start (Rounds.sessionConfig config)], budgets := s.rounds.reverse.map (·.budget)
    rounds := s.shown.map (Output.ofSolution p · backend.version withRows)
    result := match s.ended with
      | some (.finished s) => .ok (Output.ofSolution p s backend.version withRows)
      | some (.failed e) => .error (.callback e)
      | none => .error .unfinished }

def config (request : Request α) (spec : ProblemSpec α) : SolveConfig α :=
  (spec.options.merged request.options).solveConfig

variable {request : Request α} {backend : Backend α} {spec : ProblemSpec α} {p : Problem α}

theorem run_in_rounds (backend : Backend α) {increment : ℕ}
    (hp : (Problem.build spec).value = .ok p)
    (hkind : request.kind.getD (SolveKind.ofProblem p) = .lp)
    (hincrement : request.increment = some increment) (onRound : ℕ → Output α → Except ε Unit)
    (fuel : ℕ) :
    let config := request.config spec
    let withRows := (spec.options.merged request.options).reportsRows
    let solve := Rounds.loop backend p config increment
      (fun k s ↦ onRound k (Output.ofSolution p s backend.version withRows)) (turns config fuel)
    request.run backend spec onRound fuel =
      ⟨reportOf backend p config withRows solve.value,
        (Problem.build spec).events ++ solve.events⟩ := by
  intro config withRows solve
  have hrun : request.run backend spec onRound fuel =
      ⟨(runInRounds backend p config increment withRows onRound fuel).value,
        (Problem.build spec).events ++
          (runInRounds backend p config increment withRows onRound fuel).events⟩ := by
    unfold run
    refine Logged.ext ?_ ?_ <;> simp only [Logged.value_bind, Logged.events_bind, hp, hkind,
      hincrement] <;> rfl
  have hrounds : (fun round : Round α ↦ Output.ofSolution p round.solution backend.version withRows)
    = (Output.ofSolution p · backend.version withRows) ∘ (·.solution) := rfl
  rw [hrun]
  refine Logged.ext ?_ ?_
  · simp only [runInRounds, Rounds.run_eq_loop, Logged.value_bind, reportOf, Rounds.shown, hrounds,
      ← List.map_map]
    rfl
  · simp only [runInRounds, Rounds.run_eq_loop, Logged.events_bind, Logged.pure_eq, List.append_nil]
    rfl

omit [Scalar α] in
theorem exists_increment (h : ¬(request.kind.getD (SolveKind.ofProblem p) = .mip ∨
    request.increment = none)) :
    request.kind.getD (SolveKind.ofProblem p) = .lp ∧
      ∃ increment, request.increment = some increment := by
  obtain ⟨hmip, hincrement⟩ := not_or.mp h
  refine ⟨?_, Option.ne_none_iff_exists'.mp hincrement⟩
  cases hkind : request.kind.getD (SolveKind.ofProblem p) with
  | lp => rfl
  | mip => exact absurd hkind hmip

/-- A request that is not for a linear program in rounds is solved at one go, and what the callback
does is of no matter. -/
theorem run_at_once (backend : Backend α) (hp : (Problem.build spec).value = .ok p)
    (h : request.kind.getD (SolveKind.ofProblem p) = .mip ∨ request.increment = none) (fuel : ℕ) :
    ∃ r : Logged (Event α) (Report α ε),
      r.value = (runAtOnce backend p (request.config spec)
        (request.kind.getD (SolveKind.ofProblem p))
        (spec.options.merged request.options).reportsRows).value ∧
      ∀ onRound, request.run backend spec onRound fuel = r := by
  let solve : Logged (Event α) (Report α ε) :=
    runAtOnce backend p (request.config spec) (request.kind.getD (SolveKind.ofProblem p))
      (spec.options.merged request.options).reportsRows
  cases hincrement : request.increment with
  | none =>
    refine ⟨Problem.build spec >>= fun _ ↦ solve, rfl, fun onRound ↦ ?_⟩
    unfold run
    cases hkind : request.kind.getD (SolveKind.ofProblem p) <;>
      refine Logged.ext ?_ ?_ <;>
      simp only [Logged.value_bind, Logged.events_bind, hp, hkind, hincrement, solve] <;> rfl
  | some increment =>
    have hkind : request.kind.getD (SolveKind.ofProblem p) = .mip :=
      h.resolve_right (by simp [hincrement])
    refine ⟨Problem.build spec >>= fun _ ↦ Logged.raise .incrementIgnored >>= fun _ ↦ solve,
      rfl, fun onRound ↦ ?_⟩
    unfold run
    refine Logged.ext ?_ ?_ <;>
      simp only [Logged.value_bind, Logged.events_bind, hp, hkind, hincrement, solve] <;> rfl

theorem reported_of_heard {config : SolveConfig α} {withRows : Bool} {log : List (Event α)}
    {onRound : ℕ → Output α → Except ε Unit}
    {heard silent : Logged (Event α) (Rounds α ε backend.Session)}
    (h : Heard (fun k s ↦ onRound k (Output.ofSolution p s backend.version withRows)) heard
      silent) :
    Reported onRound ⟨reportOf backend p config withRows heard.value, log ++ heard.events⟩
      ⟨reportOf backend p config withRows silent.value, log ++ silent.events⟩ := by
  cases h with
  | accepted same accepts => exact .accepted (by rw [same]) accepts.of_map
  | failed e ended fails rounds events =>
    have hrounds := List.reverse_prefix.mpr rounds
    have htake {β : Type} (f : Round α → β) : heard.value.rounds.reverse.map f =
        (silent.value.rounds.reverse.map f).take heard.value.rounds.length := by
      have := List.prefix_iff_eq_take.mp (hrounds.map f)
      rwa [List.length_map, List.length_reverse] at this
    refine .failed heard.value.rounds.length e fails.of_map
      { result := by simp only [reportOf, ended]
        calls := rfl
        length_rounds := by simp [reportOf, Rounds.shown]
        rounds := ?_
        length_budgets := by simp [reportOf]
        budgets := htake _
        events := List.prefix_append_right_inj log |>.mpr events }
    simp only [reportOf, Rounds.shown, List.map_map]
    exact htake _

theorem reported_run (request : Request α) (backend : Backend α) (spec : ProblemSpec α)
    (onRound : ℕ → Output α → Except ε Unit) (fuel : ℕ) :
    Reported onRound (request.run backend spec onRound fuel)
      (request.run backend spec (fun _ _ ↦ .ok ()) fuel) := by
  obtain ⟨p, hp, -⟩ := Problem.exists_build spec
  by_cases h : request.kind.getD (SolveKind.ofProblem p) = .mip ∨ request.increment = none
  · obtain ⟨r, hvalue, hr⟩ := run_at_once (ε := ε) backend hp h fuel
    have hrounds : r.value.rounds = [] := congrArg Report.rounds hvalue
    rw [hr, hr]
    exact .accepted rfl (hrounds ▸ Rounds.accepts_nil)
  · obtain ⟨hlp, increment, hincrement⟩ := exists_increment h
    rw [run_in_rounds backend hp hlp hincrement, run_in_rounds backend hp hlp hincrement]
    exact reported_of_heard (Rounds.heard_loop ..)

theorem reportOf_silent (backend : Backend α) (p : Problem α) (config : SolveConfig α)
    (withRows : Bool) (increment turns : ℕ) :
    let s := (Rounds.loop backend p config increment
      (fun _ _ ↦ (.ok () : Except ε Unit)) turns).value
    let r := reportOf backend p config withRows s
    (0 < turns → r.rounds ≠ []) ∧
      (∀ output, r.result = .ok output → r.rounds.getLast? = some output) ∧
      (s.ended ≠ none → ∃ output, r.result = .ok output) := by
  intro s r
  refine ⟨fun hpos ↦ ?_, fun output houtput ↦ ?_, fun hends ↦ ?_⟩
  · have := Rounds.shown_ne_nil (ε := ε) backend p config increment hpos
    simpa [r, reportOf] using this
  · simp only [r, reportOf] at houtput ⊢
    split at houtput <;> cases houtput
    next solution hended =>
    obtain ⟨last, hlast, hshown⟩ := Rounds.getLast?_shown backend p config increment hended
    cases hlast
    rw [List.getLast?_map, hshown]
    rfl
  · obtain ⟨e, he⟩ := Option.ne_none_iff_exists'.mp hends
    obtain ⟨last, rfl, -⟩ := Rounds.getLast?_shown backend p config increment he
    exact ⟨Output.ofSolution p last backend.version withRows, by simp only [r, reportOf, he]⟩

/-- A callback that fails for the first time in its `k`-th call ends the request with its error
after `k` rounds, and those rounds are the first ones under a callback that never fails; one that
accepts every round changes nothing. A linear program in rounds is then solved with at least one
round reported, and its result is the one last reported. Where there are no rounds, the callback is
not called, and what it would do is of no matter. -/
theorem run_callback (request : Request α) (backend : Backend α) (spec : ProblemSpec α)
    (onRound : ℕ → Output α → Except ε Unit) (fuel : ℕ) :
    let heard := request.run backend spec onRound fuel
    let silent := request.run backend spec (fun _ _ ↦ (.ok () : Except ε Unit)) fuel
    (∀ k e, FailsFirst onRound heard.value.rounds k e ∨ FailsFirst onRound silent.value.rounds k e →
      CutAt k e heard silent) ∧
    (Accepts onRound silent.value.rounds → heard = silent) ∧
    ∃ p, (Problem.build spec).value = .ok p ∧
      let kind := request.kind.getD (SolveKind.ofProblem p)
      let limit := (request.config spec).iterationLimit
      (kind = .lp → request.increment ≠ none → Accepts onRound silent.value.rounds →
        (limit ≠ none ∨ 0 < fuel → heard.value.rounds ≠ []) ∧
        (∀ output, heard.value.result = .ok output →
          heard.value.rounds.getLast? = some output) ∧
        (limit ≠ none ∨
          (∀ session budget, (backend.resume session p budget).value.1.iterations < fuel) →
          ∃ output, heard.value.result = .ok output)) ∧
      (kind = .mip ∨ request.increment = none →
        heard.value.rounds = [] ∧ heard.value.budgets = [] ∧
          ∀ other, request.run backend spec other fuel = heard) := by
  intro heard silent
  have hreported : Reported onRound heard silent := reported_run request backend spec onRound fuel
  obtain ⟨p, hp, -⟩ := Problem.exists_build spec
  refine ⟨fun k e hf ↦ hreported.cut hf, hreported.same, p, hp, fun hlp hrounds haccepts ↦ ?_,
    fun honce ↦ ?_⟩
  · obtain ⟨increment, hincrement⟩ := Option.ne_none_iff_exists'.mp hrounds
    have hsilent := congrArg Logged.value
      (run_in_rounds (ε := ε) backend hp hlp hincrement (fun _ _ ↦ .ok ()) fuel)
    obtain ⟨hne, hlast, hresult⟩ := reportOf_silent (ε := ε) backend p (request.config spec)
      (spec.options.merged request.options).reportsRows increment (turns (request.config spec) fuel)
    rw [hreported.same haccepts, show silent.value = _ from hsilent]
    exact ⟨fun hpos ↦ hne (turns_pos hpos), hlast,
      fun hends ↦ hresult (ended_of_turns p increment hends)⟩
  · obtain ⟨r, hvalue, hr⟩ := run_at_once (ε := ε) backend hp honce fuel
    have hheard : heard = r := hr onRound
    rw [← hheard] at hvalue hr
    exact ⟨congrArg Report.rounds hvalue, congrArg Report.budgets hvalue, hr⟩

theorem run_callback_second :
    let request : Request ℚ :=
      { options := { Options.none with iterationLimit := some 3 }, kind := some .lp
        increment := some 5 }
    let onRound : ℕ → Output ℚ → Except String Unit := fun k _ ↦
      if k = 2 then .error "enough" else .ok ()
    let heard := request.run Rounds.creeping Problem.overlapping onRound 0
    let silent := request.run Rounds.creeping Problem.overlapping
      (fun _ _ ↦ (.ok () : Except String Unit)) 0
    silent.value.rounds.length = 3 ∧ FailsFirst onRound silent.value.rounds 2 "enough" ∧
      CutAt 2 "enough" heard silent := by
  intro request onRound heard silent
  have hlength : silent.value.rounds.length = 3 := by
    obtain ⟨p, hp, -⟩ := Problem.exists_build Problem.overlapping
    have hrun := run_in_rounds (ε := String) Rounds.creeping hp
      (show request.kind.getD _ = .lp from rfl) (show request.increment = some 5 from rfl)
      (fun _ _ ↦ .ok ()) 0
    exact congrArg (·.value.rounds.length) hrun
  have hsecond := List.getElem?_eq_getElem (l := silent.value.rounds) (i := 1) (by omega)
  have hfails : FailsFirst onRound silent.value.rounds 2 "enough" :=
    ⟨1, _, rfl, hsecond, rfl, fun j y hj _ ↦ by rw [Nat.lt_one_iff.mp hj]; rfl⟩
  exact ⟨hlength, hfails,
    (run_callback request Rounds.creeping Problem.overlapping onRound 0).1 2 "enough" (.inr hfails)⟩

end LinProg.Request
