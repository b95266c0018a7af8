import Mathlib.Data.Rat.Defs
import LinProg.Proofs.Problem.Feasible
import LinProg.Proofs.Rounds.Steps

namespace LinProg.Rounds

variable {α ε : Type}

def reported : List (Round α) → ℕ
  | [] => 0
  | r :: _ => r.solution.iterations

/-- A session, the rounds that it was resumed for, the last one first, and the events so far: those
of starting it, and for every round those of resuming it and the report of the round. -/
inductive Resumed (backend : Backend α) (p : Problem α)
    (started : Logged (Event α) backend.Session) :
    backend.Session → List (Round α) → List (Event α) → Prop
  | start : Resumed backend p started started.value [] started.events
  | round {session next : backend.Session} {rounds : List (Round α)} {log events : List (Event α)}
      {budget : ℕ} {solution : Solution α} :
      Resumed backend p started session rounds log →
      backend.resume session p budget = ⟨(solution, next), events⟩ →
      Resumed backend p started next (⟨budget, solution⟩ :: rounds) (log ++ (events ++
        [.roundFinished (rounds.length + 1) solution.iterations solution.status]))

theorem Resumed.reported_eq {backend : Backend α} {p : Problem α}
    {started : Logged (Event α) backend.Session} {session : backend.Session}
    {rounds : List (Round α)} {log : List (Event α)}
    (h : Resumed backend p started session rounds log) : rounds = [] ∨ ∃ session budget,
      reported rounds = (backend.resume session p budget).value.1.iterations := by
  cases h with
  | start => exact .inl rfl
  | @round session _ _ _ _ budget _ _ hr => exact .inr ⟨session, budget, by rw [hr]; rfl⟩

/-- What a round may use, after the rounds before it. -/
structure Rationed (increment : ℕ) (limit : Option ℕ) (r : Round α) (earlier : List (Round α)) :
    Prop where
  le_increment : r.budget ≤ max increment 1
  le_limit : ∀ l ∈ limit, reported earlier + r.budget ≤ l
  pos : limit ≠ some 0 → 1 ≤ r.budget

/-- The state of a solve whose callback never fails, with the events so far. -/
structure Bounded (backend : Backend α) (p : Problem α)
    (started : Logged (Event α) backend.Session) (increment : ℕ) (limit : Option ℕ)
    (s : Rounds α ε backend.Session) (log : List (Event α)) : Prop where
  rationed : ∀ r earlier, r :: earlier <:+ s.rounds → Rationed increment limit r earlier
  running : s.ended = none → Resumed backend p started s.session s.rounds log ∧
    s.done = reported s.rounds ∧ s.rounds.length ≤ s.done ∧
    ∀ l ∈ limit, s.rounds = [] ∨ s.done < l
  ended : ∀ e, s.ended = some e → ∃ r earlier talk, s.rounds = r :: earlier ∧
    e = .finished r.solution ∧ Resumed backend p started s.session s.rounds talk ∧
    log = talk ++ [.roundsFinished s.rounds.length r.solution.status r.solution.objectiveValue] ∧
    ∀ l ∈ limit, s.rounds.length ≤ max 1 l

variable {backend : Backend α} {p : Problem α} {started : Logged (Event α) backend.Session}
  {increment : ℕ} {limit : Option ℕ}

theorem rationed_budget {done : ℕ} {rounds : List (Round α)} (solution : Solution α)
    (hd : done = reported rounds) (hl : ∀ l ∈ limit, rounds = [] ∨ done < l) :
    Rationed increment limit ⟨budget (max 1 increment) limit done, solution⟩ rounds := by
  cases limit with
  | none =>
    refine ⟨?_, nofun, fun _ ↦ ?_⟩ <;> dsimp only [budget] <;> omega
  | some l =>
    have hle : done ≤ l ∧ (l ≠ 0 → done < l) := by
      rcases hl l rfl with rfl | hlt
      · rw [hd]
        exact ⟨Nat.zero_le l, Nat.pos_of_ne_zero⟩
      · exact ⟨Nat.le_of_lt hlt, fun _ ↦ hlt⟩
    refine ⟨?_, fun l' hl' ↦ ?_, fun hne ↦ ?_⟩
    · dsimp only [budget]
      omega
    · cases hl'
      dsimp only [budget]
      omega
    · have hlt := hle.2 fun h0 ↦ hne (congrArg some h0)
      dsimp only [budget]
      omega

/-- A round that does not end the solve has raised the iterations and left some of the limit. -/
theorem lt_of_not_stops {done : ℕ} {solution : Solution α} (h : stops limit done solution = false) :
    done < solution.iterations ∧ ∀ l ∈ limit, solution.iterations < l := by
  simp only [stops, Bool.or_eq_false_iff, decide_eq_false_iff_not] at h
  obtain ⟨⟨-, hprogress⟩, hlimit⟩ := h
  refine ⟨Nat.lt_of_not_le hprogress, fun l hl ↦ ?_⟩
  cases hl
  exact Nat.lt_of_not_le (of_decide_eq_false hlimit)

theorem Bounded.start : Bounded backend p started increment limit
    (⟨started.value, 0, [], none⟩ : Rounds α ε backend.Session) started.events :=
  ⟨fun r earlier h ↦ absurd (List.suffix_nil.mp h) (List.cons_ne_nil r earlier),
    fun _ ↦ ⟨.start, rfl, Nat.le_refl 0, fun _ _ ↦ .inl rfl⟩, nofun⟩

theorem Bounded.round {s : Rounds α ε backend.Session} {log : List (Event α)}
    (hs : s.ended = none) (h : Bounded backend p started increment limit s log) :
    Bounded backend p started increment limit
      (step backend p (max 1 increment) limit (fun _ _ ↦ .ok ()) s).value
      (log ++ (step backend p (max 1 increment) limit (fun _ _ ↦ .ok ()) s).events) := by
  obtain ⟨htalk, hdone, hlength, hlimit⟩ := h.running hs
  obtain ⟨⟨⟨solution, session⟩, events⟩, hr⟩ :
    ∃ answer, backend.resume s.session p (budget (max 1 increment) limit s.done) = answer :=
      ⟨_, rfl⟩
  rw [step_of_ok hr rfl]
  have htalk' := htalk.round hr
  have hrationed : ∀ r earlier, r :: earlier <:+
      (accepted s limit (budget (max 1 increment) limit s.done) solution session).rounds →
      Rationed increment limit r earlier := by
    intro r earlier hsuffix
    rcases List.suffix_cons_iff.mp hsuffix with heq | hsuffix
    · cases heq
      exact rationed_budget solution hdone hlimit
    · exact h.rationed r earlier hsuffix
  cases hstop : stops limit s.done solution with
  | true =>
    refine ⟨hrationed, fun hnone ↦ ?_, fun e he ↦ ?_⟩
    · simp [accepted, hstop] at hnone
    · refine ⟨_, _, _, rfl, ?_, htalk', ?_, fun l hl ↦ ?_⟩
      · simpa [accepted, hstop] using he.symm
      · simp [acceptedEvents, accepted, hstop]
      · rcases hlimit l hl with hnil | hlt
        · simp only [accepted, List.length_cons, hnil, List.length_nil]
          exact Nat.le_max_left 1 l
        · simp only [accepted, List.length_cons]
          omega
  | false =>
    obtain ⟨hprogress, hleft⟩ := lt_of_not_stops hstop
    refine ⟨hrationed, fun _ ↦ ⟨?_, rfl, ?_, fun l hl ↦ .inr (hleft l hl)⟩, fun e he ↦ ?_⟩
    · simpa [acceptedEvents, accepted, hstop] using htalk'
    · simp only [accepted, List.length_cons]
      omega
    · simp [accepted, hstop] at he

def loop (backend : Backend α) (p : Problem α) (config : SolveConfig α) (increment : ℕ)
    (onRound : ℕ → Solution α → Except ε Unit) (turns : ℕ) :
    Logged (Event α) (Rounds α ε backend.Session) := do
  let session ← backend.start p (sessionConfig config)
  Logged.iterateWhile (fun s ↦ s.ended.isNone)
    (step backend p (max 1 increment) config.iterationLimit onRound) turns
    { session, done := 0, rounds := [], ended := none }

theorem run_eq_loop (backend : Backend α) (p : Problem α) (config : SolveConfig α) (increment : ℕ)
    (onRound : ℕ → Solution α → Except ε Unit) (fuel : ℕ) :
    run backend p config increment onRound fuel =
      loop backend p config increment onRound
        (match config.iterationLimit with | some limit => max 1 limit | none => fuel) := rfl

theorem bounded_loop (backend : Backend α) (p : Problem α) (config : SolveConfig α)
    (increment turns : ℕ) :
    let s := loop backend p config increment (fun _ _ ↦ (.ok () : Except ε Unit)) turns
    Bounded backend p (backend.start p (sessionConfig config)) increment config.iterationLimit
      s.value s.events :=
  Logged.iterateWhile_invariant (fun _ _ hp h ↦ h.round (Option.isNone_iff_eq_none.mp hp)) turns _
    Bounded.start

/-- A solve that is still running has had a round in every turn. -/
theorem length_of_running {onRound : ℕ → Solution α → Except ε Unit} (turns : ℕ)
    {s : Rounds α ε backend.Session}
    (h : (Logged.iterateWhile (fun s ↦ s.ended.isNone) (step backend p increment limit onRound)
      turns s).value.ended = none) :
    (Logged.iterateWhile (fun s ↦ s.ended.isNone) (step backend p increment limit onRound)
      turns s).value.rounds.length = s.rounds.length + turns := by
  induction turns generalizing s with
  | zero => rfl
  | succ turns ih =>
    rw [Logged.iterateWhile_succ] at h ⊢
    split at h
    · next hs =>
      rw [if_pos hs, Logged.value_bind, ih h,
        (step_cases backend p increment limit onRound s).2.1, List.length_cons]
      omega
    · next hs => exact absurd (by simp [show s.ended = none from h]) hs

section Loop

variable (backend : Backend α) (p : Problem α) {config : SolveConfig α} (increment : ℕ)
  {onRound : ℕ → Solution α → Except ε Unit} {turns : ℕ}

theorem length_loop_of_running
    (h : (loop backend p config increment onRound turns).value.ended = none) :
    (loop backend p config increment onRound turns).value.rounds.length = turns :=
  (length_of_running turns h).trans (Nat.zero_add turns)

theorem loop_of_le {more : ℕ} (hle : turns ≤ more)
    (h : (loop backend p config increment onRound turns).value.ended ≠ none) :
    loop backend p config increment onRound more =
      loop backend p config increment onRound turns := by
  have hstopped : (loop backend p config increment onRound turns).value.ended.isNone = false :=
    Option.isNone_eq_false_iff.mpr (Option.isSome_iff_ne_none.mpr h)
  have hrest := Logged.iterateWhile_of_le (p := fun s : Rounds α ε backend.Session ↦ s.ended.isNone)
    hle hstopped
  exact Logged.ext (congrArg (·.value) hrest) (congrArg (fun r ↦ _ ++ r.events) hrest)

theorem ended_of_limit {limit : ℕ} (hl : config.iterationLimit = some limit)
    (hturns : max 1 limit ≤ turns) :
    (loop backend p config increment (fun _ _ ↦ (.ok () : Except ε Unit)) turns).value.ended ≠
      none := by
  intro hnone
  obtain ⟨-, -, hlength, hleft⟩ := (bounded_loop backend p config increment turns).running hnone
  rw [length_loop_of_running backend p increment hnone] at hlength
  rcases hleft limit hl with hnil | hlt
  · have hzero := length_loop_of_running backend p increment hnone
    rw [hnil, List.length_nil] at hzero
    omega
  · omega

theorem ended_of_reports
    (hreports : ∀ session budget, (backend.resume session p budget).value.1.iterations < turns) :
    (loop backend p config increment (fun _ _ ↦ (.ok () : Except ε Unit)) turns).value.ended ≠
      none := by
  intro hnone
  obtain ⟨htalk, hdone, hlength, -⟩ := (bounded_loop backend p config increment turns).running hnone
  have hrounds := length_loop_of_running backend p increment hnone
  rw [hrounds, hdone] at hlength
  have hpos := hreports (backend.start p (sessionConfig config)).value 0
  rcases htalk.reported_eq with hnil | ⟨session, budget, hanswer⟩
  · rw [hnil, List.length_nil] at hrounds
    omega
  · have hlt := hreports session budget
    omega

end Loop

/-- A solve in rounds under an iteration limit ends after at most as many rounds as there are
iterations, or one, all of them rounds of the one session that was started without presolving. No
round is allowed more than the increment or than the limit has left, and none is allowed nothing
unless the limit is zero. If the session keeps to what it is allowed, the solve keeps to the
limit. -/
theorem rounds_within_limit (backend : Backend α) (p : Problem α) {config : SolveConfig α}
    {limit : ℕ} (hl : config.iterationLimit = some limit) (increment fuel : ℕ) :
    let s := run backend p config increment (fun _ _ ↦ (.ok () : Except ε Unit)) fuel
    ∃ last earlier log, s.value.rounds = last :: earlier ∧
      s.value.ended = some (.finished last.solution) ∧ s.value.rounds.length ≤ max 1 limit ∧
      (∀ turns ≥ max 1 limit, loop backend p config increment (fun _ _ ↦ .ok ()) turns = s) ∧
      Resumed backend p (backend.start p { config with presolve := false }) s.value.session
        s.value.rounds log ∧
      s.events = log ++ [.roundsFinished s.value.rounds.length last.solution.status
        last.solution.objectiveValue] ∧
      (∀ r before, r :: before <:+ s.value.rounds → r.budget ≤ max increment 1 ∧
        reported before + r.budget ≤ limit ∧ (limit ≠ 0 → 1 ≤ r.budget)) ∧
      ((∀ r before, r :: before <:+ s.value.rounds →
        r.solution.iterations ≤ reported before + r.budget) →
        last.solution.iterations ≤ limit) := by
  intro s
  have hs : s = loop backend p config increment (fun _ _ ↦ .ok ()) (max 1 limit) := by
    simp only [s, run_eq_loop, hl]
  have h := bounded_loop (ε := ε) backend p config increment (max 1 limit)
  have hended := ended_of_limit (ε := ε) backend p increment hl (Nat.le_refl _)
  obtain ⟨e, he⟩ := Option.ne_none_iff_exists'.mp hended
  rw [← hs] at h he
  obtain ⟨last, earlier, log, hrounds, rfl, htalk, hlog, hlength⟩ := h.ended e he
  refine ⟨last, earlier, log, hrounds, he, hlength limit hl, fun turns hturns ↦ ?_, htalk, hlog,
    fun r before hsuffix ↦ ?_, fun hkeeps ↦ ?_⟩
  · rw [hs]
    exact loop_of_le backend p increment hturns hended
  · have hr := h.rationed r before hsuffix
    exact ⟨hr.le_increment, hr.le_limit limit hl, fun hne ↦ hr.pos (by simpa [hl] using hne)⟩
  · have hlast : last :: earlier <:+ s.value.rounds := hrounds ▸ List.suffix_rfl
    have hr := h.rationed last earlier hlast
    exact Nat.le_trans (hkeeps last earlier hlast) (hr.le_limit limit hl)

/-- A backend that reports one more iteration in every round, whatever it is allowed. -/
def creeping : Backend ℚ where
  Session := ℕ
  version := "creeping"
  solveLp _ _ := pure none
  solveMip _ _ := pure none
  start _ _ := pure 0
  resume session p _ :=
    pure ({ Solution.undefined p.numColumns with status := .feasible, iterations := session + 1 },
      session + 1)

def creep (budget n : ℕ) : Round ℚ :=
  ⟨budget, { Solution.undefined 0 with status := .feasible, iterations := n }⟩

theorem rounds_within_limit_creeping :
    let config : SolveConfig ℚ := { SolveConfig.default with iterationLimit := some 3 }
    let s := run creeping (.empty "" .minimize) config 5 (fun _ _ ↦ (.ok () : Except Unit Unit)) 0
    config.iterationLimit = some 3 ∧ s.value.rounds = [creep 1 3, creep 2 2, creep 3 1] ∧
      ∃ last earlier, s.value.rounds = last :: earlier ∧
        s.value.ended = some (.finished last.solution) ∧ last.solution.iterations ≤ 3 := by
  intro config s
  have hl : config.iterationLimit = some 3 := rfl
  have hcreep : s.value.rounds = [creep 1 3, creep 2 2, creep 3 1] := rfl
  obtain ⟨last, earlier, -, hrounds, hended, -, -, -, -, -, hkeeps⟩ :=
    rounds_within_limit (ε := Unit) creeping (.empty "" .minimize) hl 5 0
  refine ⟨hl, hcreep, last, earlier, hrounds, hended, hkeeps fun r before hsuffix ↦ ?_⟩
  have hround : r :: before <:+ [creep 1 3, creep 2 2, creep 3 1] := hcreep ▸ hsuffix
  simp only [List.suffix_cons_iff, List.suffix_nil, List.cons.injEq, reduceCtorEq, or_false]
    at hround
  obtain ⟨rfl, rfl⟩ | ⟨rfl, rfl⟩ | ⟨rfl, rfl⟩ := hround <;> decide

end LinProg.Rounds
