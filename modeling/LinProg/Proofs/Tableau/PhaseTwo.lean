import LinProg.Proofs.Tableau.Feasible
import LinProg.Proofs.Tableau.Initial

namespace LinProg.Tableau

/-- The rows of basic artificial variables say nothing about the other variables. -/
def ArtificialsIdle (t : Tableau ℚ) : Prop :=
  ∀ (i : ℕ) (r : BasicRow ℚ), t.rows[i]? = some r → t.artificialStart ≤ r.basic →
    r.equation.rhs = 0 ∧ ∀ j < t.artificialStart, r.equation.coefficient j = 0

variable {t : Tableau ℚ} {row column : ℕ} {r : BasicRow ℚ}

@[simp] theorem artificialStart_pivot (t : Tableau ℚ) (row column : ℕ) :
    (t.pivot row column).artificialStart = t.artificialStart := by
  unfold pivot
  split <;> rfl

theorem artificial_rows_pivot (h : Canonical t) (hr : t.rows[row]? = some r)
    (hcolumn : column < t.artificialStart) {i : ℕ} {q' : BasicRow ℚ}
    (hq' : (t.pivot row column).rows[i]? = some q') (hb : t.artificialStart ≤ q'.basic) :
    ∃ q, t.rows[i]? = some q ∧ t.artificialStart ≤ q.basic ∧ i ≠ row ∧
      q'.equation.rhs =
        q.equation.rhs - q.equation.coefficient column * (pivotEquation r column).rhs ∧
      ∀ j, q'.equation.coefficient j = q.equation.coefficient j -
        q.equation.coefficient column * (pivotEquation r column).coefficient j := by
  rcases rows_pivot_cases h hr hq' with ⟨-, rfl⟩ | ⟨q, hq, hi, he, hrhs, hcoeff⟩
  · exact absurd hb (by simpa using hcolumn)
  · exact ⟨q, hq, he ▸ hb, hi, hrhs, hcoeff⟩

theorem ArtificialsIdle.pivot (h : Canonical t) (hidle : t.ArtificialsIdle)
    (hr : t.rows[row]? = some r) (hcolumn : column < t.artificialStart) :
    (t.pivot row column).ArtificialsIdle := by
  intro i q' hq' hb
  rw [artificialStart_pivot] at hb ⊢
  obtain ⟨q, hq, hbq, -, hrhs, hcoeff⟩ := artificial_rows_pivot h hr hcolumn hq' hb
  obtain ⟨hzero, hown⟩ := hidle i q hq hbq
  rw [hrhs, hown column hcolumn, hzero]
  refine ⟨by ring, fun j hj ↦ ?_⟩
  rw [hcoeff, hown column hcolumn, hown j hj]
  ring

/-- Driving out, when it has come to the row with an index. -/
structure DrivenOut (size n : ℕ) (t : Tableau ℚ) : Prop where
  canonical : Canonical t
  size_rows : t.rows.size = size
  rhs_nonneg : t.RhsNonneg
  rhs_eq_zero : ∀ (i : ℕ) (r : BasicRow ℚ), t.rows[i]? = some r → t.artificialStart ≤ r.basic →
    r.equation.rhs = 0
  coefficient_eq_zero : ∀ i < n, ∀ r : BasicRow ℚ, t.rows[i]? = some r →
    t.artificialStart ≤ r.basic → ∀ j < t.artificialStart, r.equation.coefficient j = 0

theorem DrivenOut.driveOut {size n : ℕ} (h : DrivenOut size n t) :
    DrivenOut size (n + 1) (t.driveOut 0 n) := by
  rcases driveOut_cases le_rfl t n with ⟨he, hown⟩ | ⟨r, column, hr, hb, hcolumn, hc, he⟩
  · rw [he]
    refine ⟨h.canonical, h.size_rows, h.rhs_nonneg, h.rhs_eq_zero, fun i hi r hr hb j hj ↦ ?_⟩
    rcases Nat.lt_succ_iff_lt_or_eq.mp hi with hlt | rfl
    · exact h.coefficient_eq_zero i hlt r hr hb j hj
    · exact abs_nonpos_iff.mp (hown r hr hb j hj)
  · have hzero := h.rhs_eq_zero n r hr hb
    have hp : (pivotEquation r column).rhs = 0 := by
      rw [pivotEquation, Equation.divide]
      simp [hzero]
    rw [he]
    refine ⟨h.canonical.pivot hr hc, by rw [size_rows_pivot, h.size_rows],
      h.rhs_nonneg.pivot_of_rhs_eq_zero h.canonical hr hzero, fun i q' hq' hb' ↦ ?_,
      fun i hi q' hq' hb' j hj ↦ ?_⟩
    · rw [artificialStart_pivot] at hb'
      obtain ⟨q, hq, hbq, -, hrhs, -⟩ := artificial_rows_pivot h.canonical hr hcolumn hq' hb'
      rw [hrhs, hp, h.rhs_eq_zero i q hq hbq, mul_zero, sub_zero]
    · rw [artificialStart_pivot] at hb' hj
      obtain ⟨q, hq, hbq, hne, -, hcoeff⟩ :=
        artificial_rows_pivot h.canonical hr hcolumn hq' hb'
      have hown := h.coefficient_eq_zero i (by omega) q hq hbq
      rw [hcoeff, hown column hcolumn, hown j hj]
      ring

theorem artificialRemains_eq_false (h : t.artificialRemains 0 = false) {i : ℕ}
    (hr : t.rows[i]? = some r) (hb : t.artificialStart ≤ r.basic) : r.equation.rhs = 0 := by
  obtain ⟨hi, rfl⟩ := Array.getElem?_eq_some_iff.mp hr
  have hany := Array.any_eq_false.mp h i hi
  rw [Scalar.abs_rat] at hany
  simpa [hb] using hany

theorem exists_of_artificialRemains {tolerance : ℚ} (h : t.artificialRemains tolerance = true) :
    ∃ (i : ℕ) (r : BasicRow ℚ), t.rows[i]? = some r ∧ t.artificialStart ≤ r.basic ∧
      tolerance < |r.equation.rhs| := by
  obtain ⟨i, hi, hr⟩ := Array.any_eq_true.mp h
  simp only [Scalar.abs_rat, Bool.and_eq_true, decide_eq_true_eq] at hr
  exact ⟨i, _, Array.getElem?_eq_getElem hi, hr⟩

theorem artificialRemains_eq_true (h : t.artificialRemains 0 = true) :
    ∃ (i : ℕ) (r : BasicRow ℚ), t.rows[i]? = some r ∧ t.artificialStart ≤ r.basic ∧
      r.equation.rhs ≠ 0 := by
  obtain ⟨i, r, hr, hb, hpos⟩ := exists_of_artificialRemains h
  exact ⟨i, r, hr, hb, abs_pos.mp hpos⟩

theorem driveOutArtificials_drivenOut (h : Canonical t) (hrhs : t.RhsNonneg)
    (hzero : t.artificialRemains 0 = false) :
    DrivenOut t.rows.size t.rows.size (t.driveOutArtificials 0) := by
  have hn (n : ℕ) : DrivenOut t.rows.size n ((List.range n).foldl (driveOut 0) t) := by
    induction n with
    | zero =>
      exact ⟨h, rfl, hrhs, fun _ _ hr hb ↦ artificialRemains_eq_false hzero hr hb,
        fun i hi ↦ absurd hi (Nat.not_lt_zero i)⟩
    | succ n ih =>
      rw [List.range_succ, List.foldl_append]
      exact ih.driveOut
  exact hn t.rows.size

theorem DrivenOut.idle {size : ℕ} (h : DrivenOut size size t) : t.ArtificialsIdle := by
  intro i r hr hb
  have hi : i < size := h.size_rows ▸ (Array.getElem?_eq_some_iff.mp hr).1
  exact ⟨h.rhs_eq_zero i r hr hb, h.coefficient_eq_zero i hi r hr hb⟩

namespace Canonical

theorem coefficient_basic (h : Canonical t) {q : BasicRow ℚ} (hr : r ∈ t.rows.toList)
    (hq : q ∈ t.rows.toList) :
    q.equation.coefficient r.basic = if r.basic = q.basic then 1 else 0 := by
  obtain ⟨i, hi, -⟩ := h.mem_rows hr
  obtain ⟨k, hk, -⟩ := h.mem_rows hq
  rw [h.basis i k r q hi hk]
  by_cases hik : i = k
  · subst hik
    rw [if_pos rfl, if_pos (by rw [Option.some_inj.mp (hi.symm.trans hk)])]
  · rw [if_neg hik, if_neg fun hb ↦ hik (h.basic_injective hi hk hb)]

end Canonical

theorem restoredObjective_within {tolerance : ℚ} (ht : 0 ≤ tolerance) (h : Canonical t)
    {objective : Equation ℚ} (ho : objective.coefficients.size = t.width)
    {rows : List (BasicRow ℚ)} (hrows : ∀ r ∈ rows, r ∈ t.rows.toList) :
    (restoredObjective tolerance objective rows).coefficients.size = t.width ∧
      ∀ r ∈ rows,
        |(restoredObjective tolerance objective rows).coefficient r.basic| ≤ tolerance := by
  -- eliminating the last basic variable leaves the coefficients of those before it
  induction rows using List.reverseRecOn with
  | nil => exact ⟨ho, by simp⟩
  | append_singleton rows q ih =>
    obtain ⟨hsize, hwithin⟩ := ih fun r hr ↦ hrows r (List.mem_append_left _ hr)
    have hq := hrows q (by simp)
    set e := restoredObjective tolerance objective rows with he
    have hstep : restoredObjective tolerance objective (rows ++ [q]) =
        if tolerance < Scalar.abs (e.coefficient q.basic) then
          e.subScaled (e.coefficient q.basic) q.equation else e := by
      rw [he, restoredObjective, restoredObjective, List.foldl_append]
      rfl
    have hqe : q.equation.coefficients.size = e.coefficients.size := h.size_eq_of_mem hq hsize
    rw [hstep]
    split_ifs with hk
    · refine ⟨by rw [Equation.size_subScaled hqe, hsize], fun r hr ↦ ?_⟩
      rw [Equation.coefficient_subScaled hqe, h.coefficient_basic (hrows r hr) hq]
      split_ifs with hb
      · rw [hb, mul_one, sub_self, abs_zero]
        exact ht
      · have hmem : r ∈ rows := by
          rcases List.mem_append.mp hr with hr | hr
          · exact hr
          · exact absurd (by rw [List.mem_singleton.mp hr]) hb
        rw [mul_zero, sub_zero]
        exact hwithin r hmem
    · refine ⟨hsize, fun r hr ↦ ?_⟩
      rcases List.mem_append.mp hr with hr | hr
      · exact hwithin r hr
      · rw [Scalar.abs_rat, not_lt] at hk
        rwa [List.mem_singleton.mp hr]

theorem pricedWithin_restoreObjective {tolerance : ℚ} (ht : 0 ≤ tolerance) (h : Canonical t)
    {objective : Equation ℚ} (ho : objective.coefficients.size = t.width) :
    (t.restoreObjective objective tolerance).PricedWithin tolerance := by
  intro i r hr
  rw [objective_restoreObjective]
  exact (restoredObjective_within ht h ho fun _ hr ↦ hr).2 r
    (Array.mem_toList_iff.mpr (Array.mem_of_getElem? hr))

theorem priced_restoreObjective (h : Canonical t) {objective : Equation ℚ}
    (ho : objective.coefficients.size = t.width) : (t.restoreObjective objective 0).Priced :=
  pricedWithin_zero.mp (pricedWithin_restoreObjective le_rfl h ho)

theorem coefficient_pricedSum (start : ℕ) {b : ℕ} {e : Equation ℚ} {rows : List (BasicRow ℚ)}
    (hsize : ∀ q ∈ rows, q.equation.coefficients.size = e.coefficients.size)
    (hzero : ∀ q ∈ rows, q.equation.coefficient b = 0) :
    (pricedSum start e rows).coefficients.size = e.coefficients.size ∧
      (pricedSum start e rows).coefficient b = e.coefficient b := by
  refine pricedSum_invariant (P := fun d ↦ d.coefficients.size = e.coefficients.size ∧
    d.coefficient b = e.coefficient b) ?_ ⟨rfl, rfl⟩
  rintro d ⟨hd, hb⟩ q hq
  have hqd : q.equation.coefficients.size = d.coefficients.size := by rw [hsize q hq, hd]
  rw [Equation.size_add hqd, Equation.coefficient_add hqd, hzero q hq, add_zero]
  exact ⟨hd, hb⟩

theorem coefficient_pricedSum_split (start : ℕ) {b : ℕ} {e : Equation ℚ}
    {rows rows' : List (BasicRow ℚ)}
    (hsize : ∀ q ∈ rows ++ r :: rows', q.equation.coefficients.size = e.coefficients.size)
    (hzero : ∀ q ∈ rows ++ rows', q.equation.coefficient b = 0) :
    (pricedSum start e (rows ++ r :: rows')).coefficient b =
      e.coefficient b + if start ≤ r.basic then r.equation.coefficient b else 0 := by
  obtain ⟨hbefore, hcoeff⟩ := coefficient_pricedSum start
    (fun q hq ↦ hsize q (List.mem_append_left _ hq))
    (fun q hq ↦ hzero q (List.mem_append_left _ hq))
  have hr : r.equation.coefficients.size = (pricedSum start e rows).coefficients.size := by
    rw [hsize r (by simp), hbefore]
  have hafter (d : Equation ℚ) (hd : d.coefficients.size = e.coefficients.size) :
      (pricedSum start d rows').coefficient b = d.coefficient b :=
    (coefficient_pricedSum start (fun q hq ↦ by rw [hsize q (by simp [hq]), hd])
      (fun q hq ↦ hzero q (List.mem_append_right _ hq))).2
  have hsplit : pricedSum start e (rows ++ r :: rows') =
      pricedSum start (if start ≤ r.basic then (pricedSum start e rows).add r.equation
        else pricedSum start e rows) rows' := by
    rw [pricedSum, List.foldl_append]
    rfl
  rw [hsplit]
  split_ifs
  · rw [hafter _ (by rw [Equation.size_add hr, hbefore]), Equation.coefficient_add hr, hcoeff]
  · rw [hafter _ hbefore, hcoeff, add_zero]

theorem priced_phaseOneObjective (h : Canonical t) :
    ({ t with objective := t.phaseOneObjective } : Tableau ℚ).Priced := by
  intro i r hr
  change t.rows[i]? = some r at hr
  change t.phaseOneObjective.coefficient r.basic = 0
  have hi : t.rows.toList[i]? = some r := by rwa [Array.getElem?_toList]
  have hother (k : ℕ) (q : BasicRow ℚ) (hk : t.rows.toList[k]? = some q) (hne : i ≠ k) :
      q.equation.coefficient r.basic = 0 := by
    rw [Array.getElem?_toList] at hk
    rw [h.basis i k r q hr hk, if_neg hne]
  rw [phaseOneObjective_eq, split_of_getElem? hi, coefficient_pricedSum_split,
    coefficient_minusSum, h.basis i i r r hr hr, if_pos rfl]
  · have hlt := h.basic_lt_width hr
    split_ifs with ha hb hb
    · norm_num
    · exact absurd ha.1 hb
    · exact absurd ⟨hb, hlt⟩ ha
    · exact add_zero 0
  · intro q hq
    rw [← split_of_getElem? hi] at hq
    exact h.size_eq_of_mem hq (size_minusSum t)
  · intro q hq
    obtain ⟨k, hne, hk⟩ := exists_ne_of_mem_take_drop hq
    exact hother k q hk hne.symm

section

variable {form : StandardForm ℚ}

theorem numVars_le_basic_initialRow (form : StandardForm ℚ) (i : ℕ) (c : Constraint ℚ) :
    form.numVars ≤ (initialRow form i c).basic := by
  unfold initialRow layoutRow
  dsimp only
  split_ifs <;> omega

theorem priced_ofForm (h : form.Shaped) : (ofForm form).Priced := by
  intro i r hr
  rw [getElem?_rows_ofForm, Option.map_eq_some_iff] at hr
  obtain ⟨c, -, rfl⟩ := hr
  have hle := numVars_le_basic_initialRow form i c
  simp only [ofForm, Equation.coefficient, List.getElem?_toArray]
  rw [List.getElem?_append_right (by rw [h.objective]; exact hle), List.getElem?_replicate]
  split_ifs <;> rfl

theorem rhsNonneg_ofForm (form : StandardForm ℚ) : (ofForm form).RhsNonneg := by
  intro i r hr
  rw [getElem?_rows_ofForm, Option.map_eq_some_iff] at hr
  obtain ⟨c, hc, rfl⟩ := hr
  obtain ⟨c₀, -, rfl⟩ := List.mem_map.mp (List.mem_of_getElem? hc)
  exact rhs_orient_nonneg c₀

theorem artificialsIdle_of_numArtificial (h : Canonical t) (hzero : t.numArtificial = 0) :
    t.ArtificialsIdle := by
  intro i r hr hb
  have hlt := h.basic_lt_width hr
  have hw : t.width = t.artificialStart + t.numArtificial := rfl
  omega

end

end LinProg.Tableau
