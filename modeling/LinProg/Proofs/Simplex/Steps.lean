import Mathlib.Logic.Relation
import LinProg.Proofs.Iteration
import LinProg.Simplex

namespace LinProg.Simplex

variable {α : Type} [Scalar α]

def afterPivot (s : Simplex α) (column : ℕ) (leaving : Leaving α) : Simplex α :=
  { s with
    tableau := s.tableau.pivot leaving.row column
    iterations := s.iterations + 1
    degenerateStreak :=
      if leaving.ratio ≤ s.tolerances.pivot then s.degenerateStreak + 1 else 0 }

/-- The state that starts phase two: artificial variables are driven out of the basis, and the
objective kept since the start of phase one is put back. -/
def afterPhaseOne (s : Simplex α) (objective : Equation α) : Simplex α :=
  { s with
    tableau := (s.tableau.driveOutArtificials s.tolerances.feasibility).restoreObjective
      objective s.tolerances.pivot
    phase := .two }

inductive Step : Simplex α → Simplex α → Prop
  | pivot {s : Simplex α} {column : ℕ} {leaving : Leaving α} (hs : s.isDone = false)
      (hc : s.enteringColumn = some column)
      (hr : leavingRow s.tableau s.tolerances.pivot column = some leaving) :
      Step s (s.afterPivot column leaving)
  | infeasible {s : Simplex α} {objective : Equation α} (hs : s.phase = .one objective)
      (hc : s.enteringColumn = none)
      (ha : s.tableau.artificialRemains s.tolerances.feasibility = true) :
      Step s { s with phase := .done .infeasible }
  | restore {s : Simplex α} {objective : Equation α} (hs : s.phase = .one objective)
      (hc : s.enteringColumn = none)
      (ha : s.tableau.artificialRemains s.tolerances.feasibility = false) :
      Step s (s.afterPhaseOne objective)
  | contradictory {s : Simplex α} {objective : Equation α} {column : ℕ}
      (hs : s.phase = .one objective) (hc : s.enteringColumn = some column)
      (hr : leavingRow s.tableau s.tolerances.pivot column = none) :
      Step s { s with phase := .done .infeasible }
  | optimal {s : Simplex α} (hs : s.phase = .two) (hc : s.enteringColumn = none) :
      Step s { s with phase := .done .optimal }
  | unbounded {s : Simplex α} {column : ℕ} (hs : s.phase = .two)
      (hc : s.enteringColumn = some column)
      (hr : leavingRow s.tableau s.tolerances.pivot column = none) :
      Step s { s with phase := .done .unbounded }

omit [Scalar α] in
theorem status_eq_optimal {s : Simplex α} : s.status = .optimal ↔ s.phase = .done .optimal := by
  unfold status
  split <;> simp_all

omit [Scalar α] in
theorem status_eq_noFeasible {s : Simplex α} :
    s.status = .noFeasible ↔ s.phase = .done .infeasible := by
  unfold status
  split <;> simp_all

omit [Scalar α] in
theorem status_eq_unbounded {s : Simplex α} :
    s.status = .unbounded ↔ s.phase = .done .unbounded := by
  unfold status
  split <;> simp_all

theorem attempt_cases (s : Simplex α) :
    (s.enteringColumn = none ∧ s.attempt = .optimal) ∨
    (∃ column, s.enteringColumn = some column ∧
      leavingRow s.tableau s.tolerances.pivot column = none ∧ s.attempt = .unbounded) ∨
    ∃ column leaving, s.enteringColumn = some column ∧
      leavingRow s.tableau s.tolerances.pivot column = some leaving ∧
      s.attempt = .pivoted (s.afterPivot column leaving) := by
  unfold attempt
  cases hc : s.enteringColumn with
  | none => exact .inl ⟨rfl, rfl⟩
  | some column =>
    cases hr : leavingRow s.tableau s.tolerances.pivot column with
    | none => exact .inr (.inl ⟨column, rfl, hr, by simp [hr]⟩)
    | some leaving => exact .inr (.inr ⟨column, leaving, rfl, hr, by simp [hr, afterPivot]⟩)

theorem value_finishPhaseOne (s : Simplex α) (objective : Equation α) :
    (s.finishPhaseOne objective).value =
      if s.tableau.artificialRemains s.tolerances.feasibility then
        { s with phase := .done .infeasible }
      else s.afterPhaseOne objective := by
  unfold finishPhaseOne
  split <;> rfl

theorem turn_step {s : Simplex α} (hd : s.isDone = false) : Step s s.turn.value := by
  unfold turn
  rcases attempt_cases s with ⟨hc, ha⟩ | ⟨column, hc, hr, ha⟩ | ⟨column, leaving, hc, hr, ha⟩ <;>
    rw [ha]
  · cases hs : s.phase with
    | done terminal => simp [isDone, hs] at hd
    | two => exact .optimal hs hc
    | one objective =>
      simp only [value_finishPhaseOne]
      split
      · next hremains => exact .infeasible hs hc hremains
      · next hremains => exact .restore hs hc (Bool.not_eq_true _ ▸ hremains)
  · cases hs : s.phase with
    | done terminal => simp [isDone, hs] at hd
    | two => exact .unbounded hs hc hr
    | one objective => exact .contradictory hs hc hr
  · exact .pivot hd hc hr

/-- The turns without a pivot that a run may still take. -/
def passages (s : Simplex α) : ℕ :=
  match s.phase with
  | .one _ => 2
  | .two => 1
  | .done _ => 0

omit [Scalar α] in
theorem passages_le (s : Simplex α) : s.passages ≤ 2 := by
  unfold passages
  split <;> decide

theorem Step.isDone_eq {s t : Simplex α} (h : Step s t) : s.isDone = false := by
  cases h with
  | pivot hs => exact hs
  | infeasible hs | restore hs | contradictory hs | optimal hs | unbounded hs => simp [isDone, hs]

theorem Step.pivots_or_passes {s t : Simplex α} (h : Step s t) :
    t.iterations = s.iterations + 1 ∧ t.passages = s.passages ∨
      t.iterations = s.iterations ∧ t.passages < s.passages := by
  cases h with
  | pivot => exact .inl ⟨rfl, rfl⟩
  | infeasible hs | restore hs | contradictory hs | optimal hs | unbounded hs =>
    exact .inr ⟨rfl, by simp [passages, hs, afterPhaseOne]⟩

theorem Step.iterations_le {s t : Simplex α} (h : Step s t) : s.iterations ≤ t.iterations := by
  rcases h.pivots_or_passes with ⟨hiter, -⟩ | ⟨hiter, -⟩ <;> omega

section Run

variable {pivots budget : ℕ} {s : Simplex α} {d : Deadline} {r : Simplex α × Deadline}

omit [Scalar α] in
theorem goesOn_eq_true : goesOn pivots r = true ↔
    r.1.isDone = false ∧ r.1.iterations < pivots ∧ r.2.expired = false := by
  simp [goesOn, and_assoc]

theorem goesOn_iterateWhile {turns : ℕ} (hturns : budget + 2 ≤ turns) :
    goesOn (s.iterations + budget)
      (Logged.iterateWhile (goesOn (s.iterations + budget)) timedTurn turns (s, d)).value =
        false := by
  refine Logged.iterateWhile_stops
    (fun r ↦ s.iterations + budget - r.1.iterations + r.1.passages) (fun r hr ↦ ?_) ?_
  · obtain ⟨hd, hlt, -⟩ := goesOn_eq_true.mp hr
    rcases (turn_step hd).pivots_or_passes with ⟨hiter, hpass⟩ | ⟨hiter, hpass⟩ <;>
      simp only [timedTurn, Logged.value_bind, Logged.pure_eq, hiter] <;> omega
  · have hle := s.passages_le
    dsimp only
    omega

theorem value_run (s : Simplex α) (budget : ℕ) (d : Deadline) : (s.run budget d).value =
    (Logged.iterateWhile (goesOn (s.iterations + budget)) timedTurn (budget + 2) (s, d)).value := by
  unfold run
  simp only [Logged.value_bind]
  split <;> rfl

theorem value_run_eq_of_le {turns : ℕ} (hturns : budget + 2 ≤ turns) : (s.run budget d).value =
    (Logged.iterateWhile (goesOn (s.iterations + budget)) timedTurn turns (s, d)).value := by
  rw [value_run, Logged.iterateWhile_of_le hturns (goesOn_iterateWhile (Nat.le_refl _))]

theorem goesOn_run (s : Simplex α) (budget : ℕ) (d : Deadline) :
    goesOn (s.iterations + budget) (s.run budget d).value = false := by
  rw [value_run]
  exact goesOn_iterateWhile (Nat.le_refl _)

theorem run_invariant {P : Simplex α × Deadline → Prop}
    (hturn : ∀ r, goesOn (s.iterations + budget) r = true → P r → P (r.1.turn.value, r.2.next))
    (h : P (s, d)) : P (s.run budget d).value := by
  rw [value_run]
  exact Logged.iterateWhile_invariant (P := fun r _ ↦ P r)
    (fun r _ hr hP ↦ hturn r hr hP) (budget + 2) [] h

theorem iterateWhile_of_done (hd : s.isDone = true) (pivots turns : ℕ) (d : Deadline) :
    (Logged.iterateWhile (goesOn pivots) timedTurn turns (s, d)).value = (s, d) := by
  cases turns with
  | zero => rfl
  | succ turns => simp [Logged.iterateWhile_succ, goesOn, hd]

theorem run_steps (s : Simplex α) (budget : ℕ) (d : Deadline) :
    Relation.ReflTransGen Step s (s.run budget d).value.1 :=
  run_invariant (P := fun r ↦ Relation.ReflTransGen Step s r.1)
    (fun _ hr hs ↦ hs.tail (turn_step (goesOn_eq_true.mp hr).1)) .refl

theorem iterations_run_le (s : Simplex α) (budget : ℕ) (d : Deadline) :
    (s.run budget d).value.1.iterations ≤ s.iterations + budget := by
  refine run_invariant (P := fun r ↦ r.1.iterations ≤ s.iterations + budget) (fun r hr _ ↦ ?_)
    (Nat.le_add_right _ _)
  obtain ⟨hd, hlt, -⟩ := goesOn_eq_true.mp hr
  rcases (turn_step hd).pivots_or_passes with ⟨hiter, -⟩ | ⟨hiter, -⟩ <;> dsimp only <;> omega

end Run

/-- Runs with deadlines of their own, one after the other. A run without a budget that ends is one
with a budget that it does not use up. -/
def runs (s : Simplex α) (calls : List (ℕ × Deadline)) : Simplex α :=
  calls.foldl (fun s call ↦ (s.run call.1 call.2).value.1) s

theorem runs_steps (s : Simplex α) (calls : List (ℕ × Deadline)) :
    Relation.ReflTransGen Step s (s.runs calls) := by
  induction calls generalizing s with
  | nil => exact .refl
  | cons call calls ih => exact (run_steps s call.1 call.2).trans (ih _)

theorem steps_invariant {P : Simplex α → Prop} (hstep : ∀ s t, P s → Step s t → P t)
    {s t : Simplex α} (hs : P s) (h : Relation.ReflTransGen Step s t) : P t := by
  induction h with
  | refl => exact hs
  | tail _ h ih => exact hstep _ _ ih h

section Unlimited

variable {s : Simplex α} {d : Deadline} (h : d.limit = none)

include h

theorem deadline_run (s : Simplex α) (budget : ℕ) : (s.run budget d).value.2 = d :=
  run_invariant (P := fun r ↦ r.2 = d)
    (fun _ _ hr ↦ by dsimp only; rw [hr, Deadline.next_of_limit h]) rfl

theorem isDone_or_iterations_run (s : Simplex α) (budget : ℕ) :
    (s.run budget d).value.1.isDone = true ∨
      (s.run budget d).value.1.iterations = s.iterations + budget := by
  have hstops := goesOn_run s budget d
  have hle := iterations_run_le s budget d
  simp only [goesOn, deadline_run h, Deadline.expired_of_limit h, Bool.not_false, Bool.and_true,
    Bool.and_eq_false_iff, Bool.not_eq_false', decide_eq_false_iff_not] at hstops
  exact hstops.imp_right fun hge ↦ by omega

theorem run_add (s : Simplex α) (first second : ℕ) :
    ((s.run first d).value.1.run second d).value = (s.run (first + second) d).value := by
  obtain ⟨k, hk⟩ := Logged.exists_iterateWhile_add
    (p := goesOn (s.iterations + first)) (q := goesOn (s.iterations + (first + second)))
    (fun r hr ↦ by
      obtain ⟨hd, hlt, he⟩ := goesOn_eq_true.mp hr
      exact goesOn_eq_true.mpr ⟨hd, by omega, he⟩) timedTurn (first + 2) (s, d)
  have hwhole := hk (first + second + 2)
  have hends := isDone_or_iterations_run h s first
  obtain ⟨mid, hmid⟩ : ∃ mid, (s.run first d).value = (mid, d) :=
    ⟨_, Prod.ext rfl (deadline_run h s first)⟩
  rw [← value_run, hmid, ← value_run_eq_of_le (by omega)] at hwhole
  rw [hmid] at hends ⊢
  rw [hwhole]
  rcases hends with hdone | hiter
  · -- what is done stays as it is, whatever the number of pivots that the loops go for
    rw [value_run, iterateWhile_of_done hdone, iterateWhile_of_done hdone]
  · rw [value_run_eq_of_le (by omega : second + 2 ≤ first + second + 2), hiter, Nat.add_assoc]

end Unlimited

end LinProg.Simplex
