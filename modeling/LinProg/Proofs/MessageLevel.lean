import LinProg.Proofs.Search.Verdicts

namespace LinProg

namespace MessageLevel

variable {low high wanted : MessageLevel}

theorem shows_trans (h : high.shows low = true) (hw : low.shows wanted = true) :
    high.shows wanted = true := by
  unfold shows at *
  rw [decide_eq_true_eq] at *
  exact Nat.le_trans hw h

/-- The level that the relaxations of a search are solved at. -/
def ofRelaxations (level : MessageLevel) : MessageLevel :=
  if level.shows .debug then level else .off

theorem ofRelaxations_shows (h : high.shows low = true) :
    high.ofRelaxations.shows low.ofRelaxations = true := by
  revert h
  cases low <;> cases high <;> decide

theorem error_shows_ofRelaxations (h : error.shows low = true) :
    error.shows low.ofRelaxations = true := by
  revert h
  cases low <;> decide

end MessageLevel

namespace Logged

variable {E β γ δ ε σ τ : Type}

/-- The same value, with some of the events in the same order. -/
structure Observes (x y : Logged E β) : Prop where
  value_eq : x.value = y.value
  events_sublist : x.events.Sublist y.events

/-- A computation at a level beside one that tells more: their results are related, and it raises
some of the other's events in the same order, or none below the level of normal output. -/
structure Quieter (low : MessageLevel) (R : β → γ → Prop) (x : Logged E β) (y : Logged E γ) :
    Prop where
  value : R x.value y.value
  events_sublist : x.events.Sublist y.events
  events_eq_nil : MessageLevel.error.shows low = true → x.events = []

namespace Quieter

variable {low low' : MessageLevel} {R : β → γ → Prop} {S : δ → ε → Prop} {x : Logged E β}
  {y : Logged E γ}

theorem pure {b : β} {c : γ} (h : R b c) :
    Quieter low R (pure b : Logged E β) (pure c : Logged E γ) :=
  ⟨h, .slnil, fun _ ↦ rfl⟩

theorem bind {f : β → Logged E δ} {g : γ → Logged E ε} (h : Quieter low R x y)
    (hfg : ∀ b c, R b c → Quieter low S (f b) (g c)) :
    Quieter low S (x >>= f) (y >>= g) := by
  have hrest := hfg _ _ h.value
  refine ⟨hrest.value, h.events_sublist.append hrest.events_sublist, fun hs ↦ ?_⟩
  rw [events_bind, h.events_eq_nil hs, hrest.events_eq_nil hs, List.append_nil]

theorem of_level (h : Quieter low R x y)
    (hlow : MessageLevel.error.shows low' = true → MessageLevel.error.shows low = true) :
    Quieter low' R x y :=
  ⟨h.value, h.events_sublist, fun h' ↦ h.events_eq_nil (hlow h')⟩

theorem iterateWhile {R : σ → τ → Prop} {p : σ → Bool} {q : τ → Bool} {f : σ → Logged E σ}
    {g : τ → Logged E τ} (htest : ∀ s t, R s t → p s = q t)
    (hturn : ∀ s t, R s t → Quieter low R (f s) (g t)) (n : ℕ) {s : σ} {t : τ} (h : R s t) :
    Quieter low R (iterateWhile p f n s) (iterateWhile q g n t) := by
  induction n generalizing s t with
  | zero => exact .pure h
  | succ n ih =>
    rw [iterateWhile_succ, iterateWhile_succ, ← htest s t h]
    split
    · exact (hturn s t h).bind fun _ _ hnext ↦ ih hnext
    · exact .pure h

theorem observes {x y : Logged E β} (h : Quieter low Eq x y) : x.Observes y :=
  ⟨h.value, h.events_sublist⟩

end Quieter

end Logged

open Logged

def SolveConfig.withLevel {α : Type} (config : SolveConfig α) (level : MessageLevel) :
    SolveConfig α :=
  { config with messageLevel := level }

theorem SolveConfig.forRelaxations_withLevel {α : Type} (config : SolveConfig α)
    (level : MessageLevel) :
    (config.withLevel level).forRelaxations = config.withLevel level.ofRelaxations := by
  unfold SolveConfig.forRelaxations MessageLevel.ofRelaxations
  change (if level.shows .debug then _ else _) = _
  split <;> rfl

variable {α : Type} {low high : MessageLevel}

theorem MessageLevel.quieter_report (h : high.shows low = true) {wanted : MessageLevel}
    (hwanted : wanted.shows .on = true) (e : Event α) :
    Quieter low Eq (low.report wanted e) (high.report wanted e) := by
  unfold MessageLevel.report
  by_cases hlow : low.shows wanted = true
  · rw [if_pos hlow, if_pos (shows_trans h hlow)]
    refine ⟨rfl, .refl _, fun hsilent ↦ ?_⟩
    have hquiet := shows_trans hsilent (shows_trans hlow hwanted)
    cases hquiet
  · rw [if_neg hlow]
    exact ⟨rfl, List.nil_sublist _, fun _ ↦ rfl⟩

variable [Scalar α]

namespace Simplex

def withLevel (s : Simplex α) (level : MessageLevel) : Simplex α :=
  { s with messageLevel := level }

def Attempt.withLevel (level : MessageLevel) : Attempt α → Attempt α
  | .pivoted next => .pivoted (next.withLevel level)
  | .optimal => .optimal
  | .unbounded => .unbounded

def AtLevels (low high : MessageLevel) (s t : Simplex α) : Prop :=
  ∃ u : Simplex α, s = u.withLevel low ∧ t = u.withLevel high

theorem attempt_withLevel (s : Simplex α) (level : MessageLevel) :
    (s.withLevel level).attempt = Attempt.withLevel level s.attempt := by
  have hcolumn : (s.withLevel level).enteringColumn = s.enteringColumn := rfl
  have hrow (column : ℕ) :
      leavingRow (s.withLevel level).tableau (s.withLevel level).tolerances.pivot column =
        leavingRow s.tableau s.tolerances.pivot column := rfl
  unfold attempt
  rw [hcolumn]
  cases s.enteringColumn with
  | none => rfl
  | some column =>
    simp only [hrow]
    cases leavingRow s.tableau s.tolerances.pivot column <;> rfl

variable (h : high.shows low = true)

include h

theorem quieter_start (p : Problem α) (config : SolveConfig α) (tolerances : Tolerances α) :
    Quieter low (AtLevels low high) (start p (config.withLevel low) tolerances)
      (start p (config.withLevel high) tolerances) := by
  have hready (u : Simplex α) (constraints width : ℕ) :
      Quieter low (AtLevels low high)
        (pure (u.withLevel low) >>= fun s ↦
          s.report .on (.tableauReady constraints width) >>= fun _ ↦ pure s)
        (pure (u.withLevel high) >>= fun s ↦
          s.report .on (.tableauReady constraints width) >>= fun _ ↦ pure s) :=
    (MessageLevel.quieter_report h rfl _).bind fun _ _ _ ↦ .pure ⟨u, rfl, rfl⟩
  have hpresolve (level : MessageLevel) : (config.withLevel level).presolve = config.presolve := rfl
  unfold start
  simp only [hpresolve]
  generalize StandardForm.ofProblem p config.presolve tolerances.pivot = form
  let begin := unstarted form tolerances config.messageLevel
  cases form.rowWithoutActivity with
  | some row =>
    exact (MessageLevel.quieter_report h rfl _).bind fun _ _ _ ↦
      hready { begin with phase := .done .infeasible } _ _
  | none =>
    dsimp only
    split
    · exact hready begin _ _
    · exact (MessageLevel.quieter_report h rfl _).bind fun _ _ _ ↦ hready { begin with
          phase := .one begin.tableau.objective
          tableau := { begin.tableau with objective := begin.tableau.phaseOneObjective } } _ _

theorem quieter_finishPhaseOne (u : Simplex α) (objective : Equation α) :
    Quieter low (AtLevels low high) ((u.withLevel low).finishPhaseOne objective)
      ((u.withLevel high).finishPhaseOne objective) := by
  have hremains (level : MessageLevel) : (u.withLevel level).tableau.artificialRemains
      (u.withLevel level).tolerances.feasibility =
        u.tableau.artificialRemains u.tolerances.feasibility := rfl
  unfold finishPhaseOne
  rw [hremains, hremains]
  split
  · exact (MessageLevel.quieter_report h rfl _).bind fun _ _ _ ↦
      .pure ⟨{ u with phase := .done .infeasible }, rfl, rfl⟩
  · exact (MessageLevel.quieter_report h rfl _).bind fun _ _ _ ↦
      .pure ⟨u.afterPhaseOne objective, rfl, rfl⟩

theorem quieter_reportProgress (u : Simplex α) :
    Quieter low Eq (u.withLevel low).reportProgress (u.withLevel high).reportProgress := by
  have hcount (level : MessageLevel) : (u.withLevel level).iterations = u.iterations := rfl
  unfold reportProgress
  rw [hcount, hcount]
  split
  · exact MessageLevel.quieter_report h rfl _
  · exact .pure rfl

theorem quieter_turn {s t : Simplex α} (hst : AtLevels low high s t) :
    Quieter low (AtLevels low high) s.turn t.turn := by
  obtain ⟨u, rfl, rfl⟩ := hst
  have hphase (level : MessageLevel) : (u.withLevel level).phase = u.phase := rfl
  unfold turn
  rw [attempt_withLevel, attempt_withLevel, hphase, hphase]
  cases u.attempt with
  | pivoted next =>
    exact (quieter_reportProgress h next).bind fun _ _ _ ↦ .pure ⟨next, rfl, rfl⟩
  | optimal =>
    cases u.phase with
    | one objective => exact quieter_finishPhaseOne h u objective
    | two | done => exact .pure ⟨{ u with phase := .done .optimal }, rfl, rfl⟩
  | unbounded =>
    cases u.phase with
    | one => exact .pure ⟨{ u with phase := .done .infeasible }, rfl, rfl⟩
    | two | done => exact .pure ⟨{ u with phase := .done .unbounded }, rfl, rfl⟩

theorem quieter_run {s t : Simplex α} (hst : AtLevels low high s t) (budget : ℕ) (d : Deadline) :
    Quieter low (fun r r' ↦ AtLevels low high r.1 r'.1 ∧ r.2 = r'.2) (s.run budget d)
      (t.run budget d) := by
  obtain ⟨u, rfl, rfl⟩ := hst
  refine (Quieter.iterateWhile (R := fun r r' ↦ AtLevels low high r.1 r'.1 ∧ r.2 = r'.2)
    ?_ ?_ _ ⟨⟨u, rfl, rfl⟩, rfl⟩).bind ?_
  · rintro ⟨s, d⟩ ⟨t, -⟩ ⟨⟨u, rfl, rfl⟩, rfl⟩
    rfl
  · rintro ⟨s, d⟩ ⟨t, -⟩ ⟨hst, rfl⟩
    exact (quieter_turn h hst).bind fun _ _ hnext ↦ .pure ⟨hnext, rfl⟩
  · rintro ⟨s, d⟩ ⟨t, -⟩ ⟨⟨u, rfl, rfl⟩, rfl⟩
    have hphase (level : MessageLevel) : (u.withLevel level).phase = u.phase := rfl
    dsimp only
    rw [hphase, hphase]
    cases u.phase with
    | done terminal =>
      exact (MessageLevel.quieter_report h rfl _).bind fun _ _ _ ↦ .pure ⟨⟨u, rfl, rfl⟩, rfl⟩
    | one | two => exact .pure ⟨⟨u, rfl, rfl⟩, rfl⟩

end Simplex

namespace Search

variable {oracle : Oracle α} {config : SolveConfig α} (h : high.shows low = true)
  (horacle : ∀ q d, Quieter low Eq (oracle q (config.withLevel low).forRelaxations d)
    (oracle q (config.withLevel high).forRelaxations d))
  (p : Problem α) (tolerance : α)

include h

theorem quieter_takeIn (s : Search α) (node : Node α) (score : α) (lp : Solution α) :
    Quieter low Eq (s.takeIn p (config.withLevel low) tolerance node score lp)
      (s.takeIn p (config.withLevel high) tolerance node score lp) := by
  unfold takeIn
  dsimp only
  cases mostFractional tolerance (integerColumns p) lp.values <;>
    exact (MessageLevel.quieter_report h rfl _).bind fun _ _ _ ↦ .pure rfl

include horacle

theorem quieter_explore (s : Search α) (node : Node α) :
    Quieter low Eq (explore oracle p (config.withLevel low) tolerance s node)
      (explore oracle p (config.withLevel high) tolerance s node) := by
  refine (horacle _ _).bind ?_
  rintro ⟨answer, d⟩ _ rfl
  cases answer with
  | none => exact .pure rfl
  | some lp =>
    dsimp only
    cases lp.status with
    | noFeasible => exact (MessageLevel.quieter_report h rfl _).bind fun _ _ _ ↦ .pure rfl
    | optimal =>
      dsimp only
      split
      · exact .pure rfl
      · refine (quieter_takeIn h p tolerance _ node _ _).bind ?_
        rintro next _ rfl
        exact .pure rfl
    | unbounded | undefined | feasible | infeasible => exact .pure rfl

theorem quieter_step (s : Search α) :
    Quieter low Eq (step oracle p (config.withLevel low) tolerance s)
      (step oracle p (config.withLevel high) tolerance s) := by
  unfold step
  cases s.stack with
  | nil => exact .pure rfl
  | cons node rest =>
    dsimp only
    split
    · exact .pure rfl
    · split
      · exact .pure rfl
      · exact quieter_explore h horacle p tolerance _ node

theorem quieter_solve (clock : Clock) (fuel : ℕ) :
    Quieter low Eq (solve oracle p (config.withLevel low) tolerance clock fuel)
      (solve oracle p (config.withLevel high) tolerance clock fuel) := by
  refine (MessageLevel.quieter_report h rfl _).bind fun _ _ _ ↦ ?_
  refine (Quieter.iterateWhile (R := Eq) ?_ ?_ fuel rfl).bind ?_
  · rintro s _ rfl
    rfl
  · rintro s _ rfl
    exact quieter_step h horacle p tolerance s
  · rintro s _ rfl
    split
    · exact .pure rfl
    · exact (MessageLevel.quieter_report h rfl _).bind fun _ _ _ ↦ .pure rfl

end Search

namespace SimplexSession

def AtLevels (low high : MessageLevel) (s t : SimplexSession α) : Prop :=
  s.simplex.AtLevels low high t.simplex ∧ s.deadline = t.deadline

def replies (session : SimplexSession α) :
    List (Problem α × ℕ) → Logged (Event α) (List (Solution α))
  | [] => pure []
  | (p, budget) :: calls => do
    let (solution, session) ← Solver.resume session p budget
    return solution :: (← session.replies calls)

variable (h : high.shows low = true)

include h

theorem quieter_resume {s t : SimplexSession α} (hst : AtLevels low high s t) (p : Problem α)
    (budget : ℕ) :
    Quieter low (fun r r' ↦ r.1 = r'.1 ∧ AtLevels low high r.2 r'.2) (Solver.resume s p budget)
      (Solver.resume t p budget) := by
  obtain ⟨hsimplex, hd⟩ := hst
  unfold Solver.resume
  rw [← hd]
  refine (Simplex.quieter_run h hsimplex budget s.deadline).bind ?_
  rintro ⟨r, d⟩ ⟨r', -⟩ ⟨⟨u, rfl, rfl⟩, rfl⟩
  exact .pure ⟨rfl, ⟨u, rfl, rfl⟩, rfl⟩

theorem quieter_replies {s t : SimplexSession α} (hst : AtLevels low high s t)
    (calls : List (Problem α × ℕ)) :
    Quieter low Eq (s.replies calls) (t.replies calls) := by
  induction calls generalizing s t with
  | nil => exact .pure rfl
  | cons call calls ih =>
    refine (quieter_resume h hst call.1 call.2).bind ?_
    rintro ⟨solution, s⟩ ⟨-, t⟩ ⟨rfl, hnext⟩
    refine (ih hnext).bind ?_
    rintro solutions _ rfl
    exact .pure rfl

end SimplexSession

namespace Solver

variable (solver : Solver α) (p : Problem α) (config : SolveConfig α)

def inCalls (calls : List (Problem α × ℕ)) : Logged (Event α) (List (Solution α)) := do
  (← solver.start p config).replies calls

section

variable (h : high.shows low = true)

include h

theorem quieter_runLp (d : Deadline) :
    Quieter low Eq (solver.runLp p (config.withLevel low) d)
      (solver.runLp p (config.withLevel high) d) := by
  refine (Simplex.quieter_start h p config solver.tolerances).bind fun s t hst ↦ ?_
  refine (Simplex.quieter_run h hst _ d).bind ?_
  rintro ⟨r, d⟩ ⟨r', -⟩ ⟨⟨u, rfl, rfl⟩, rfl⟩
  have hends (level : MessageLevel) :
      ((config.withLevel level).iterationLimit.isSome || (u.withLevel level).isDone || d.expired) =
        (config.iterationLimit.isSome || u.isDone || d.expired) := rfl
  dsimp only
  rw [hends, hends]
  split <;> exact .pure rfl

theorem quieter_solveLp :
    Quieter low Eq (solver.solveLp p (config.withLevel low))
      (solver.solveLp p (config.withLevel high)) := by
  refine (quieter_runLp solver p config h _).bind ?_
  rintro r _ rfl
  exact .pure rfl

/-- The relaxations of a search are solved at levels of their own, which are as far apart. -/
theorem quieter_solveMip :
    Quieter low Eq (solver.solveMip p (config.withLevel low))
      (solver.solveMip p (config.withLevel high)) := by
  refine Search.quieter_solve h (fun q d ↦ ?_) p solver.integerTolerance solver.clock solver.fuel
  rw [SolveConfig.forRelaxations_withLevel, SolveConfig.forRelaxations_withLevel]
  exact (quieter_runLp solver q config (MessageLevel.ofRelaxations_shows h) d).of_level
    MessageLevel.error_shows_ofRelaxations

theorem quieter_inCalls (calls : List (Problem α × ℕ)) :
    Quieter low Eq (solver.inCalls p (config.withLevel low) calls)
      (solver.inCalls p (config.withLevel high) calls) := by
  refine ((Simplex.quieter_start h p config solver.tolerances).bind fun s t hst ↦ ?_).bind
    fun s t hst ↦ SimplexSession.quieter_replies h hst calls
  exact .pure ⟨hst, rfl⟩

end

/-- Two solves with settings that differ in the message level only give the same solutions, in one
go, by branch-and-bound and in rounds with any resume calls; the lower level tells some of what the
higher one does, in the same order, and below the level of normal output nothing is told. -/
theorem messageLevel_observes :
    (∀ low high : MessageLevel, high.shows low = true →
      (solver.solveLp p (config.withLevel low)).Observes
          (solver.solveLp p (config.withLevel high)) ∧
        (solver.solveMip p (config.withLevel low)).Observes
          (solver.solveMip p (config.withLevel high)) ∧
        ∀ calls, (solver.inCalls p (config.withLevel low) calls).Observes
          (solver.inCalls p (config.withLevel high) calls)) ∧
    ∀ level : MessageLevel, MessageLevel.error.shows level = true →
      (solver.solveLp p (config.withLevel level)).events = [] ∧
        (solver.solveMip p (config.withLevel level)).events = [] ∧
        ∀ calls, (solver.inCalls p (config.withLevel level) calls).events = [] := by
  constructor
  · intro low high h
    exact ⟨(quieter_solveLp solver p config h).observes,
      (quieter_solveMip solver p config h).observes,
      fun calls ↦ (quieter_inCalls solver p config h calls).observes⟩
  · intro level hsilent
    have h : level.shows level = true := decide_eq_true (Nat.le_refl _)
    exact ⟨(quieter_solveLp solver p config h).events_eq_nil hsilent,
      (quieter_solveMip solver p config h).events_eq_nil hsilent,
      fun calls ↦ (quieter_inCalls solver p config h calls).events_eq_nil hsilent⟩

/-- The deadline cuts the third relaxation short. -/
theorem messageLevel_observes_knapsack :
    let config : SolveConfig ℚ := { (.default : SolveConfig ℚ) with timeLimit := some ⟨100⟩ }
    let told := fun level ↦ (exact 20).solveMip knapsack (config.withLevel level)
    (MessageLevel.debug.shows .on = true ∧ (told .on).Observes (told .debug) ∧
      (told .on).events.map Event.message =
        ["mip: branch-and-bound started", "mip: new incumbent", "mip: search finished"] ∧
      (told .debug).events.map Event.message =
        ["mip: branch-and-bound started", "simplex: tableau ready", "simplex: finished",
          "mip: branching", "simplex: tableau ready", "simplex: finished", "mip: new incumbent",
          "simplex: tableau ready", "mip: search finished"]) ∧
    MessageLevel.error.shows .error = true ∧ (told .error).events = [] := by
  intro config told
  obtain ⟨hobserves, hquiet⟩ := messageLevel_observes (exact 20) knapsack config
  refine ⟨⟨rfl, (hobserves .on .debug rfl).2.1, ?_, ?_⟩, rfl, (hquiet .error rfl).2.1⟩
  · decide +kernel
  · decide +kernel

end Solver

end LinProg
