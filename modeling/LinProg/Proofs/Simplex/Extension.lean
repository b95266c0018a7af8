import LinProg.Proofs.Simplex.ShadowPrices
import LinProg.Proofs.Tableau.Extension

namespace LinProg.Simplex

open Tableau

variable {e f : ℕ → ℕ}

def Leaving.along (e f : ℕ → ℕ) (leaving : Leaving ℚ) : Leaving ℚ :=
  ⟨f leaving.row, e leaving.basic, leaving.ratio⟩

theorem argmaxAbove_thinned {threshold : ℚ} {xs ys : List ℚ}
    (h : Thinned e (· = ·) (· ≤ threshold) xs ys) :
    argmaxAbove threshold xs = (argmaxAbove threshold ys).map e := by
  have hfolds := h.foldl_zipIdx (G := better threshold) (g := better threshold)
    (R := fun best best' ↦ best = best'.map (Prod.map id e) ∧ ∀ c ∈ best', threshold < c.1)
    (s := none) (t := none) ?_ ?_ (by simp)
  · rw [argmaxAbove_eq, argmaxAbove_eq, hfolds.1, Option.map_map, Option.map_map]
    rfl
  · rintro i x y best best' rfl ⟨rfl, habove⟩
    cases best' with
    | none =>
      simp only [better, Option.map_none]
      split_ifs with hlt
      · exact ⟨rfl, by simpa using hlt⟩
      · simp
    | some c =>
      have hc := habove c rfl
      simp only [better, Option.map_some, Prod.map_fst, id_eq]
      split_ifs with hlt
      · exact ⟨rfl, by simpa using hc.trans hlt⟩
      · exact ⟨rfl, by simpa using hc⟩
  · rintro k x best best' hx ⟨rfl, habove⟩
    cases best' with
    | none => simpa [better] using hx
    | some c =>
      have hc := habove c rfl
      simp only [better, Option.map_some, Prod.map_fst, id_eq,
        if_neg (not_lt_of_ge (hx.trans hc.le))]
      exact ⟨trivial, by simpa using hc⟩

theorem improvesOn_along (he : StrictMono e) (tolerance q : ℚ) (basic : ℕ)
    (best : Option (Leaving ℚ)) :
    improvesOn tolerance q (e basic) (best.map (Leaving.along e f)) =
      improvesOn tolerance q basic best := by
  cases best with
  | none => rfl
  | some best => simp only [improvesOn, Option.map_some, Leaving.along, he.lt_iff_lt]

theorem leavingRow_extends {T t : Tableau ℚ} (h : T.Extends e f t) {tolerance : ℚ}
    (ht : 0 ≤ tolerance) (column : ℕ) :
    leavingRow T tolerance (e column) =
      (leavingRow t tolerance column).map (Leaving.along e f) := by
  refine h.rows.foldl_zipIdx
    (R := fun best (best' : Option (Leaving ℚ)) ↦ best = best'.map (Leaving.along e f)) ?_ ?_ rfl
  · rintro i R r best best' hkept rfl
    simp only [considerRow, hkept.spreads.coefficient, hkept.spreads.rhs, hkept.basic_eq,
      improvesOn_along h.embeds.strictMono]
    split_ifs <;> rfl
  · rintro k R best best' hidle rfl
    simp only [considerRow, hidle.coefficient_eq_zero, if_neg (not_lt_of_ge ht)]

/-- Phases of two runs, of which the first saves an extension of the other's objective, over `N`
and `n` columns. -/
inductive PhaseExtends (e : ℕ → ℕ) (N n : ℕ) : Phase ℚ → Phase ℚ → Prop
  | one {O o : Equation ℚ} (hspreads : O.Spreads e o) (hO : O.coefficients.size = N)
      (ho : o.coefficients.size = n) : PhaseExtends e N n (.one O) (.one o)
  | two : PhaseExtends e N n .two .two
  | done (terminal : Terminal) : PhaseExtends e N n (.done terminal) (.done terminal)

theorem addMultiplier_zero (sense : ℚ) (ds : Array ℚ) (origin : Origin) :
    addMultiplier sense ds (origin, 0) = ds := by
  apply Array.ext_getElem?
  intro i
  rw [getElem?_addMultiplier]
  simp

def pricedDual (t : Tableau ℚ) (D : Constraint ℚ × DualColumn ℚ) : Origin × ℚ :=
  (D.1.origin, -t.objective.coefficient D.2.variableIndex * D.2.sign)

theorem multipliers_eq_map (s : Simplex ℚ) :
    s.multipliers = (s.form.constraints.zip s.tableau.duals).map (pricedDual s.tableau) :=
  (List.map_zip_eq_zipWith (f := pricedDual s.tableau)).symm

def KeptDual (e : ℕ → ℕ) (D d : Constraint ℚ × DualColumn ℚ) : Prop :=
  D.1.origin = d.1.origin ∧ D.2.variableIndex = e d.2.variableIndex ∧ D.2.sign = d.2.sign

/-- The first run is in the state of the second one, on an extended tableau. -/
structure Extends (e f : ℕ → ℕ) (tolerances : Tolerances ℚ) (S s : Simplex ℚ) : Prop where
  tableau : S.tableau.Extends e f s.tableau
  duals : Thinned f (KeptDual e) (fun D ↦ D.2.variableIndex ∉ Set.range e)
    (S.form.constraints.zip S.tableau.duals) (s.form.constraints.zip s.tableau.duals)
  columns_eq : S.form.columns = s.form.columns
  sense_eq : S.form.sense = s.form.sense
  tolerances_left : S.tolerances = tolerances
  tolerances_eq : s.tolerances = tolerances
  iterations_eq : S.iterations = s.iterations
  degenerateStreak_eq : S.degenerateStreak = s.degenerateStreak
  phase : PhaseExtends e S.tableau.width s.tableau.width S.phase s.phase
  cost_nonpos : ∀ k ∉ Set.range e, S.tableau.objective.coefficient k ≤ 0
  cost_eq_zero : S.pastPhaseOne = true → ∀ k ∉ Set.range e, S.tableau.objective.coefficient k = 0

namespace Extends

variable {tolerances : Tolerances ℚ} {S s : Simplex ℚ}

theorem phase_cases (h : Extends e f tolerances S s) :
    (∃ O o, S.phase = .one O ∧ s.phase = .one o ∧ O.Spreads e o ∧
      O.coefficients.size = S.tableau.width ∧ o.coefficients.size = s.tableau.width) ∨
    (S.phase = .two ∧ s.phase = .two) ∨
    ∃ terminal, S.phase = .done terminal ∧ s.phase = .done terminal := by
  have hphase := h.phase
  cases hS : S.phase <;> cases hs : s.phase <;> rw [hS, hs] at hphase <;> cases hphase
  case one.one hO ho hspreads => exact .inl ⟨_, _, rfl, rfl, hspreads, hO, ho⟩
  case two.two => exact .inr (.inl ⟨rfl, rfl⟩)
  case done.done => exact .inr (.inr ⟨_, rfl, rfl⟩)

theorem enteringColumn_eq (ht : 0 ≤ tolerances.pivot) (h : Extends e f tolerances S s) :
    S.enteringColumn = s.enteringColumn.map e := by
  have hcandidates : (∀ j, e j < S.numCandidates ↔ j < s.numCandidates) ∧
      S.numCandidates ≤ S.tableau.width ∧ s.numCandidates ≤ s.tableau.width := by
    unfold numCandidates
    rcases h.phase_cases with ⟨O, o, hS, hs, -⟩ | ⟨hS, hs⟩ | ⟨terminal, hS, hs⟩ <;> rw [hS, hs]
    · exact ⟨h.tableau.embeds.lt_width_iff, le_rfl, le_rfl⟩
    · exact ⟨h.tableau.embeds.lt_artificialStart_iff, Nat.le_add_right _ _, Nat.le_add_right _ _⟩
    · exact ⟨h.tableau.embeds.lt_artificialStart_iff, Nat.le_add_right _ _, Nat.le_add_right _ _⟩
  obtain ⟨hlt, hle, hle'⟩ := hcandidates
  have hthin : Thinned e (· = ·) (· ≤ tolerances.pivot)
      ((List.range S.numCandidates).map S.tableau.objective.coefficient)
      ((List.range s.numCandidates).map s.tableau.objective.coefficient) :=
    thinned_map_range h.tableau.embeds.strictMono hlt
      (fun j _ ↦ h.tableau.objective.coefficient j) fun k hk ↦ (h.cost_nonpos k hk).trans ht
  unfold enteringColumn
  rw [Equation.toList_extract (by rwa [h.tableau.canonical_left.size_objective]),
    Equation.toList_extract (by rwa [h.tableau.canonical.size_objective]), h.degenerateStreak_eq,
    h.tolerances_left, h.tolerances_eq]
  dsimp only
  split_ifs
  · exact hthin.findIdx? (fun x y hxy ↦ by rw [hxy]) fun x hx ↦ by simpa using hx
  · exact argmaxAbove_thinned hthin

theorem afterPivot (ht : 0 ≤ tolerances.pivot) (h : Extends e f tolerances S s) {column : ℕ}
    {leaving : Leaving ℚ}
    (hr : leavingRow s.tableau s.tolerances.pivot column = some leaving) :
    Extends e f tolerances (S.afterPivot (e column) (leaving.along e f))
      (s.afterPivot column leaving) := by
  obtain ⟨r, hrow, hne⟩ := exists_entry_ne_zero (h.tolerances_eq ▸ ht) hr
  refine ⟨h.tableau.pivot hrow hne, ?_, h.columns_eq, h.sense_eq,
    h.tolerances_left, h.tolerances_eq, congrArg (· + 1) h.iterations_eq, ?_, ?_, ?_, ?_⟩
  · simpa [Simplex.afterPivot] using h.duals
  · simp only [Simplex.afterPivot, Leaving.along, h.tolerances_left, h.tolerances_eq,
      h.degenerateStreak_eq]
  · simpa [Simplex.afterPivot] using h.phase
  · intro k hk
    exact (h.tableau.cost_pivot hrow hk).trans_le (h.cost_nonpos k hk)
  · intro hpast k hk
    exact (h.tableau.cost_pivot hrow hk).trans (h.cost_eq_zero hpast k hk)

theorem attempt_cases (ht : 0 ≤ tolerances.pivot) (h : Extends e f tolerances S s) :
    (S.attempt = .optimal ∧ s.attempt = .optimal) ∨
    (S.attempt = .unbounded ∧ s.attempt = .unbounded) ∨
    ∃ N n, S.attempt = .pivoted N ∧ s.attempt = .pivoted n ∧ Extends e f tolerances N n := by
  have hcolumn := h.enteringColumn_eq ht
  rcases s.attempt_cases with ⟨hc, ha⟩ | ⟨column, hc, hr, ha⟩ | ⟨column, leaving, hc, hr, ha⟩
  · refine .inl ⟨?_, ha⟩
    simp [attempt, hcolumn, hc]
  · have hrow := leavingRow_extends h.tableau ht column
    rw [← h.tolerances_eq, hr] at hrow
    refine .inr (.inl ⟨?_, ha⟩)
    simp [attempt, hcolumn, hc, h.tolerances_left, ← h.tolerances_eq, hrow]
  · have hrow := leavingRow_extends h.tableau ht column
    rw [← h.tolerances_eq, hr] at hrow
    refine .inr (.inr ⟨_, _, ?_, ha, h.afterPivot ht hr⟩)
    simp [attempt, hcolumn, hc, h.tolerances_left, ← h.tolerances_eq, hrow, Simplex.afterPivot]

theorem finish (h : Extends e f tolerances S s) {terminal : Terminal}
    (hcost : terminal ≠ .infeasible → ∀ k ∉ Set.range e, S.tableau.objective.coefficient k = 0) :
    Extends e f tolerances { S with phase := .done terminal }
      { s with phase := .done terminal } := by
  refine ⟨h.tableau, h.duals, h.columns_eq, h.sense_eq, h.tolerances_left, h.tolerances_eq,
    h.iterations_eq, h.degenerateStreak_eq, .done terminal, h.cost_nonpos, fun hpast ↦ hcost ?_⟩
  rintro rfl
  simp [pastPhaseOne] at hpast

theorem afterPhaseOne (hf : 0 ≤ tolerances.feasibility) (ht : 0 ≤ tolerances.pivot)
    (h : Extends e f tolerances S s) {O o : Equation ℚ} (hspreads : O.Spreads e o)
    (hO : O.coefficients.size = S.tableau.width) (ho : o.coefficients.size = s.tableau.width) :
    Extends e f tolerances (S.afterPhaseOne O) (s.afterPhaseOne o) := by
  have hdriven := h.tableau.driveOutArtificials hf
  have hwidth := width_driveOutArtificials hf S.tableau
  have hwidth' := width_driveOutArtificials hf s.tableau
  obtain ⟨hrestored, hcost⟩ := hdriven.restoreObjective ht hspreads (hO.trans hwidth.symm)
    (ho.trans hwidth'.symm)
  rw [Simplex.afterPhaseOne, Simplex.afterPhaseOne, h.tolerances_left, h.tolerances_eq]
  refine ⟨hrestored, ?_, h.columns_eq, h.sense_eq, rfl, rfl, h.iterations_eq,
    h.degenerateStreak_eq, .two, fun k hk ↦ (hcost k hk).le, fun _ ↦ hcost⟩
  have hduals := duals_driveOutArtificials hf
  simp only [Tableau.restoreObjective, hduals]
  exact h.duals

theorem finishPhaseOne (hf : 0 ≤ tolerances.feasibility) (ht : 0 ≤ tolerances.pivot)
    (h : Extends e f tolerances S s) {O o : Equation ℚ} (hspreads : O.Spreads e o)
    (hO : O.coefficients.size = S.tableau.width) (ho : o.coefficients.size = s.tableau.width) :
    Extends e f tolerances (S.finishPhaseOne O).value (s.finishPhaseOne o).value := by
  have hremains : S.tableau.artificialRemains S.tolerances.feasibility =
      s.tableau.artificialRemains s.tolerances.feasibility := by
    rw [h.tolerances_left, h.tolerances_eq, h.tableau.artificialRemains_eq hf]
  rw [value_finishPhaseOne, value_finishPhaseOne, hremains]
  split_ifs
  · exact h.finish fun hne ↦ absurd rfl hne
  · exact h.afterPhaseOne hf ht hspreads hO ho

theorem isDone_eq (h : Extends e f tolerances S s) : S.isDone = s.isDone := by
  rcases h.phase_cases with ⟨O, o, hS, hs, -⟩ | ⟨hS, hs⟩ | ⟨terminal, hS, hs⟩ <;>
    simp [isDone, hS, hs]

theorem turn (hf : 0 ≤ tolerances.feasibility) (ht : 0 ≤ tolerances.pivot)
    (h : Extends e f tolerances S s) (hd : S.isDone = false) :
    Extends e f tolerances S.turn.value s.turn.value := by
  unfold Simplex.turn
  rcases h.attempt_cases ht with ⟨hA, ha⟩ | ⟨hA, ha⟩ | ⟨N, n, hA, ha, hnext⟩
  · rcases h.phase_cases with ⟨O, o, hS, hs, hspreads, hO, ho⟩ | ⟨hS, hs⟩ | ⟨terminal, hS, hs⟩
    · simpa only [hA, ha, hS, hs] using h.finishPhaseOne hf ht hspreads hO ho
    · have hpast : S.pastPhaseOne = true := by rw [pastPhaseOne, hS]
      simpa [hA, ha, hS, hs] using h.finish fun _ ↦ h.cost_eq_zero hpast
    · simp [isDone, hS] at hd
  · rcases h.phase_cases with ⟨O, o, hS, hs, -⟩ | ⟨hS, hs⟩ | ⟨terminal, hS, hs⟩
    · simpa [hA, ha, hS, hs] using h.finish fun hne ↦ absurd rfl hne
    · have hpast : S.pastPhaseOne = true := by rw [pastPhaseOne, hS]
      simpa [hA, ha, hS, hs] using h.finish fun _ ↦ h.cost_eq_zero hpast
    · simp [isDone, hS] at hd
  · simpa [hA, ha] using hnext

theorem run (hf : 0 ≤ tolerances.feasibility) (ht : 0 ≤ tolerances.pivot)
    (h : Extends e f tolerances S s) (budget : ℕ) (d : Deadline) :
    Extends e f tolerances (S.run budget d).value.1 (s.run budget d).value.1 ∧
      (S.run budget d).value.2 = (s.run budget d).value.2 := by
  rw [value_run, value_run, h.iterations_eq]
  refine Logged.iterateWhile_related
    (R := fun R r : Simplex ℚ × Deadline ↦ Extends e f tolerances R.1 r.1 ∧ R.2 = r.2) ?_ ?_ _
    ⟨h, rfl⟩
  · rintro R r ⟨hr, hd⟩
    simp only [goesOn, hr.isDone_eq, hr.iterations_eq, hd]
  · rintro R r hgoes ⟨hr, hd⟩
    exact ⟨hr.turn hf ht (goesOn_eq_true.mp hgoes).1, congrArg Deadline.next hd⟩

theorem status_eq (h : Extends e f tolerances S s) : S.status = s.status := by
  rcases h.phase_cases with ⟨O, o, hS, hs, -⟩ | ⟨hS, hs⟩ | ⟨terminal, hS, hs⟩ <;>
    simp [status, hS, hs]

theorem pastPhaseOne_eq (h : Extends e f tolerances S s) : S.pastPhaseOne = s.pastPhaseOne := by
  rcases h.phase_cases with ⟨O, o, hS, hs, -⟩ | ⟨hS, hs⟩ | ⟨terminal, hS, hs⟩ <;>
    simp [pastPhaseOne, hS, hs]

theorem duals_eq (h : Extends e f tolerances S s) (numRows : ℕ) :
    S.duals numRows = s.duals numRows := by
  cases hpast : S.pastPhaseOne
  · rw [duals_of_phaseOne hpast, duals_of_phaseOne (h.pastPhaseOne_eq ▸ hpast)]
  · rw [duals_of_pastPhaseOne hpast, duals_of_pastPhaseOne (h.pastPhaseOne_eq ▸ hpast),
      h.tolerances_left, h.tolerances_eq, h.sense_eq, multipliers_eq_map, multipliers_eq_map,
      List.foldl_map, List.foldl_map]
    congr 1
    refine h.duals.foldl (R := (· = ·)) ?_ ?_ rfl
    · rintro D d ds ds' ⟨horigin, hvariable, hsign⟩ rfl
      rw [pricedDual, horigin, hvariable, hsign, h.tableau.objective.coefficient]
      rfl
    · rintro D ds ds' hD rfl
      rw [pricedDual, h.cost_eq_zero hpast _ hD, neg_zero, zero_mul]
      exact addMultiplier_zero _ _ _

theorem solution_eq (h : Extends e f tolerances S s) (p : Problem ℚ) :
    S.solution p = s.solution p := by
  have hvalues : S.form.recover S.tableau.basicPoint = s.form.recover s.tableau.basicPoint := by
    rw [StandardForm.recover, StandardForm.recover, h.columns_eq, h.tableau.basicPoint_eq]
  simp only [solution, h.status_eq, hvalues, h.duals_eq, h.iterations_eq]

end Extends

end LinProg.Simplex
