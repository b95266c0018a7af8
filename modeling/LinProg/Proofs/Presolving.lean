import LinProg.Proofs.Simplex.IdleConstraints
import LinProg.Proofs.StandardForm.Image
import LinProg.Backend

namespace LinProg

open StandardForm

namespace StandardForm

variable {r : Row ℚ}

theorem eq_zero_of_mem_spreadRow {columns : List (ColumnMap ℚ)} (hv : r.coefficients.Valid)
    (he : r.isEmpty = true) : ∀ a ∈ spreadRow columns r, a = 0 := by
  intro a ha
  obtain ⟨⟨m, j⟩, -, ha⟩ := List.mem_flatMap.mp ha
  change a ∈ m.spread (r.coefficients.coefficient (j + 1)) at ha
  rw [coefficient_eq_zero_of_isEmpty hv he, ColumnMap.spread_zero] at ha
  exact List.eq_of_mem_replicate ha

theorem isIdle_rowConstraints (columns : List (ColumnMap ℚ)) (hv : r.coefficients.Valid)
    (hb : r.Bounded) (he : r.isEmpty = true) (hzero : Within r.effectiveBounds 0) (i : ℕ) :
    ∀ c ∈ rowConstraints columns r i, c.isIdle = true := by
  intro c hc
  obtain ⟨side, hside, rfl⟩ := List.mem_map.mp hc
  have hnone := (any_excludesZero_iff columns hv hb he).mpr hzero
  rw [List.any_eq_false] at hnone
  refine Bool.and_eq_true_iff.mpr ⟨List.all_eq_true.mpr fun a ha ↦ ?_, ?_⟩
  · exact beq_iff_eq.mpr (eq_zero_of_mem_spreadRow hv he a ha)
  · simpa using hnone side hside

variable {p : Problem ℚ} {tolerance : ℚ}

theorem rowWithoutActivity_unpresolved (p : Problem ℚ) (tolerance : ℚ) :
    (ofProblem p false tolerance).rowWithoutActivity = none := by
  simp [ofProblem]

section

variable (hvalid : ∀ r ∈ p.rows, r.coefficients.Valid) (hbounded : ∀ r ∈ p.rows, r.Bounded)
  (hzero : ∀ r ∈ p.rows, r.isEmpty = true → Within r.effectiveBounds 0)

include hvalid hbounded hzero

theorem rowWithoutActivity_presolved (ht : 0 ≤ tolerance) :
    (ofProblem p true tolerance).rowWithoutActivity = none :=
  rowWithoutActivity_mono ht ((rowWithoutActivity_eq_none_iff hvalid hbounded).mpr
    fun r hr he ↦ hzero r hr (by simpa using he))

/-- The two standard forms of a problem differ in idle constraints only. -/
theorem filter_constraints_presolved :
    (ofProblem p true tolerance).constraints.filter (fun c ↦ !c.isIdle) =
      (ofProblem p false tolerance).constraints.filter fun c ↦ !c.isIdle := by
  simp only [ofProblem, List.filter_append, List.filter_flatMap, Bool.true_and, Bool.false_and,
    Bool.false_eq_true, if_false]
  congr 1
  apply List.flatMap_congr
  rintro ⟨r, i⟩ hi
  have hr : r ∈ p.rows := Array.mem_toList_iff.mp (List.fst_mem_of_mem_zipIdx hi)
  cases he : r.isEmpty
  · rfl
  · have hidle := isIdle_rowConstraints (columnMaps p) (hvalid r hr) (hbounded r hr) he
      (hzero r hr he) i
    refine (List.filter_eq_nil_iff.mpr fun c hc ↦ ?_).symm
    simp [hidle c hc]

end

end StandardForm

namespace Simplex

variable {tolerances : Tolerances ℚ} {form : StandardForm ℚ}

theorem answer_start (ht : 0 ≤ tolerances.pivot) (p : Problem ℚ) (config : SolveConfig ℚ)
    (hform : ofProblem p config.presolve tolerances.pivot = form)
    (hrow : form.rowWithoutActivity = none) {d : Deadline} (hd : d.limit = none) (budget : ℕ) :
    (let s := ((start p config tolerances).value.run budget d).value.1
      if s.isDone then some (s.solution p) else none) =
        answer form tolerances config.messageLevel p budget d := by
  have hshaped : form.Shaped := hform ▸ shaped_ofProblem p config.presolve tolerances.pivot
  rcases start_cases p config tolerances hform with ⟨hsome, -⟩ | ⟨-, hart, hv⟩ | ⟨-, -, hv⟩
  · simp [hrow] at hsome
  · rw [hv, answer]
    rcases run_opened hshaped hart ht hd budget with heq | ⟨hopened, hunstarted⟩
    · rw [heq]
    · simp [hopened, hunstarted]
  · rw [hv]
    rfl

theorem answer_presolved (hf : 0 ≤ tolerances.feasibility) (ht : 0 ≤ tolerances.pivot)
    {p : Problem ℚ} (hvalid : ∀ r ∈ p.rows, r.coefficients.Valid)
    (hbounded : ∀ r ∈ p.rows, r.Bounded)
    (hzero : ∀ r ∈ p.rows, r.isEmpty = true → Within r.effectiveBounds 0)
    (messageLevel : MessageLevel) (budget : ℕ) (d : Deadline) :
    answer (ofProblem p true tolerances.pivot) tolerances messageLevel p budget d =
      answer (ofProblem p false tolerances.pivot) tolerances messageLevel p budget d := by
  have hrow := rowWithoutActivity_presolved hvalid hbounded hzero ht
  have hsame (cs : List (Constraint ℚ)) : (ofProblem p true tolerances.pivot).withConstraints cs =
      (ofProblem p false tolerances.pivot).withConstraints cs := by
    rw [withConstraints, withConstraints, hrow, rowWithoutActivity_unpresolved]
    rfl
  rw [answer_without_idle hf ht (shaped_ofProblem p true _),
    answer_without_idle hf ht (shaped_ofProblem p false _),
    filter_constraints_presolved hvalid hbounded hzero, hsame]

end Simplex

namespace Solver

theorem value_solveLp_unlimited (solver : Solver ℚ) (ht : 0 ≤ solver.tolerances.pivot)
    (p : Problem ℚ) (config : SolveConfig ℚ) (hiterations : config.iterationLimit = none)
    (htime : config.timeLimit = none)
    (hrow : (ofProblem p config.presolve solver.tolerances.pivot).rowWithoutActivity = none) :
    (solver.solveLp p config).value = Simplex.answer
      (ofProblem p config.presolve solver.tolerances.pivot) solver.tolerances config.messageLevel p
      solver.fuel (config.deadline solver.clock) := by
  rw [← Simplex.answer_start ht p config rfl hrow htime]
  simp only [solveLp, runLp, Logged.value_bind, hiterations, Option.getD_none, Option.isSome_none,
    Bool.false_or, Simplex.deadline_run (d := config.deadline solver.clock) htime,
    Deadline.expired_of_limit (d := config.deadline solver.clock) htime, Bool.or_false]
  split_ifs <;> rfl

/-- Presolving changes no answer of a solve without limits: neither whether it ends, nor the
status, the number of pivots, the values, the objective value and the duals. -/
theorem solveLp_presolve (solver : Solver ℚ) (hf : 0 ≤ solver.tolerances.feasibility)
    (ht : 0 ≤ solver.tolerances.pivot) (p : Problem ℚ)
    (hvalid : ∀ r ∈ p.rows, r.coefficients.Valid) (hbounded : ∀ r ∈ p.rows, r.Bounded)
    (hempty : ∀ r ∈ p.rows, r.boundType ≠ .free →
      (∀ slot, r.coefficients.coefficient slot = 0) → Within r.effectiveBounds 0)
    (config : SolveConfig ℚ) (hiterations : config.iterationLimit = none)
    (htime : config.timeLimit = none) :
    (solver.solveLp p { config with presolve := true }).value =
      (solver.solveLp p { config with presolve := false }).value := by
  have hzero : ∀ r ∈ p.rows, r.isEmpty = true → Within r.effectiveBounds 0 := by
    intro r hr he
    by_cases hfree : r.boundType = .free
    · rw [Row.effectiveBounds, hfree]
      exact within_free 0
    · exact hempty r hr hfree (coefficient_eq_zero_of_isEmpty (hvalid r hr) he)
  have hon := rowWithoutActivity_presolved hvalid hbounded hzero ht
  have hoff := rowWithoutActivity_unpresolved p solver.tolerances.pivot
  rw [value_solveLp_unlimited solver ht p { config with presolve := true } hiterations htime hon,
    value_solveLp_unlimited solver ht p { config with presolve := false } hiterations htime hoff]
  exact Simplex.answer_presolved hf ht hvalid hbounded hzero config.messageLevel solver.fuel _

end Solver

/-- The two-phase problem with rows without coefficients around its own, one of each relation. -/
def Problem.emptyRows : Problem ℚ :=
  { Problem.twoPhases with
    rows := #[{ name := "nothing or more", coefficients := .zero 2, boundType := .lower,
                lower := .fin 0, upper := .posInf }] ++ Problem.twoPhases.rows ++
      #[{ name := "up to five", coefficients := .zero 2, boundType := .upper, lower := .negInf,
          upper := .fin 5 },
        { name := "nothing", coefficients := .zero 2, boundType := .fixed, lower := .fin 0,
          upper := .fin 0 }] }

theorem Problem.wellPosed_emptyRows : Problem.emptyRows.WellPosed := by
  have hrows : ∀ r ∈ Problem.emptyRows.rows, r.coefficients.Valid ∧ r.Bounded := by
    intro r hr
    simp only [Problem.emptyRows, Array.mem_append, List.mem_toArray, List.mem_cons,
      List.not_mem_nil, or_false] at hr
    rcases hr with (rfl | hr) | rfl | rfl
    · exact ⟨SparseVector.valid_zero 2, by simp [Row.Bounded, Row.sides]⟩
    · exact ⟨wellPosed_twoPhases.rows_valid r hr, wellPosed_twoPhases.rows_bounded r hr⟩
    · exact ⟨SparseVector.valid_zero 2, by simp [Row.Bounded, Row.sides]⟩
    · exact ⟨SparseVector.valid_zero 2, by simp [Row.Bounded, Row.sides]⟩
  exact ⟨fun r hr ↦ (hrows r hr).1, fun r hr ↦ (hrows r hr).2, wellPosed_twoPhases.columns_matched⟩

theorem Solver.solveLp_presolve_emptyRows :
    let solver : Solver ℚ := { Solver.standard with fuel := 20 }
    let config : SolveConfig ℚ := SolveConfig.default
    let p := Problem.emptyRows
    (solver.solveLp p { config with presolve := true }).value =
        (solver.solveLp p { config with presolve := false }).value ∧
      (StandardForm.ofProblem p true solver.tolerances.pivot).numConstraints = 3 ∧
      (StandardForm.ofProblem p false solver.tolerances.pivot).numConstraints = 6 ∧
      (solver.solveLp p { config with presolve := false }).value.map (·.status) =
        some .optimal := by
  intro solver config p
  have hempty : ∀ r ∈ p.rows, r.boundType ≠ .free →
      (∀ slot, r.coefficients.coefficient slot = 0) → Within r.effectiveBounds 0 := by
    have hwithin : ∀ r ∈ p.rows, r.coefficients.coefficient 1 = 0 → Within r.effectiveBounds 0 := by
      decide +kernel
    exact fun r hr _ hzero ↦ hwithin r hr (hzero 1)
  refine ⟨?_, by decide +kernel, by decide +kernel, by decide +kernel⟩
  exact solveLp_presolve solver Tolerances.standard_feasibility_pos.le
    Tolerances.standard_pivot_pos.le p Problem.wellPosed_emptyRows.rows_valid
    Problem.wellPosed_emptyRows.rows_bounded hempty config rfl rfl

end LinProg
