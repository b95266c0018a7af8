import LinProg.Proofs.Simplex.LinearSystem
import LinProg.Proofs.Tableau.PhaseTwo

namespace LinProg

namespace Tableau

open Finset

variable {form : StandardForm ℚ} {t : Tableau ℚ} {value : (ℕ → ℚ) → ℚ}

theorem lift_nonneg {v : ℕ → ℚ} (hv : form.Admits v) (j : ℕ) : 0 ≤ lift form v j := by
  unfold lift
  split_ifs
  · exact hv.1 j
  · exact slackValue_nonneg hv.2 _
  · exact le_rfl

theorem artificialSum_lift (v : ℕ → ℚ) : (ofForm form).artificialSum (lift form v) = 0 :=
  sum_eq_zero fun _ _ ↦ lift_artificial

theorem artificialSum_nonneg {x : ℕ → ℚ} (hx : ∀ j, 0 ≤ x j) : 0 ≤ t.artificialSum x :=
  sum_nonneg fun _ _ ↦ hx _

theorem Represents.holds_lift (h : (ofForm form).Represents value t) (hshaped : form.Shaped)
    {v : ℕ → ℚ} (hv : form.Admits v) : t.Holds (lift form v) :=
  (h.holds_iff _).mpr (Tableau.lift_holds hshaped hv.2)

theorem Represents.admits (h : (ofForm form).Represents value t) (hshaped : form.Shaped)
    {x : ℕ → ℚ} (hx : t.Holds x) (hpos : ∀ j, 0 ≤ x j)
    (hart : ∀ j, t.artificialStart ≤ j → x j = 0) : form.Admits x := by
  refine ⟨hpos, constraints_of_holds hshaped ((h.holds_iff x).mp hx) (fun k _ ↦ hpos _) ?_⟩
  intro k _
  refine hart _ ?_
  rw [h.artificialStart]
  exact Nat.le_add_right _ k

theorem basicAssignment_artificial (h : Canonical t) (hidle : t.ArtificialsIdle) {j : ℕ}
    (hj : t.artificialStart ≤ j) : t.basicAssignment j = 0 := by
  by_cases hb : ∃ (i : ℕ) (r : BasicRow ℚ), t.rows[i]? = some r ∧ r.basic = j
  · obtain ⟨i, r, hr, rfl⟩ := hb
    rw [basicAssignment_basic h hr]
    exact (hidle i r hr hj).1
  · exact basicAssignment_of_nonbasic fun i r hr hrj ↦ hb ⟨i, r, hr, hrj⟩

theorem ray_artificial (h : Canonical t) (hidle : t.ArtificialsIdle) {column : ℕ}
    (hcolumn : column < t.artificialStart) (amount : ℚ) {j : ℕ} (hj : t.artificialStart ≤ j) :
    t.ray column amount j = 0 := by
  by_cases hb : ∃ (i : ℕ) (r : BasicRow ℚ), t.rows[i]? = some r ∧ r.basic = j
  · obtain ⟨i, r, hr, rfl⟩ := hb
    obtain ⟨hrhs, hown⟩ := hidle i r hr hj
    rw [ray_basic h hr (by omega), hrhs, hown column hcolumn]
    ring
  · rw [ray_of_nonbasic fun i r hr hrj ↦ hb ⟨i, r, hr, hrj⟩]
    exact if_neg (by omega)

section

variable (h : (ofForm form).Represents value t) (hshaped : form.Shaped) (hrhs : t.RhsNonneg)
  (hpriced : t.Priced)

include h hshaped hrhs in
theorem Represents.admits_basic (hidle : t.ArtificialsIdle) : form.Admits t.basicAssignment :=
  h.admits hshaped (holds_basicAssignment h.canonical) (basicAssignment_nonneg h.canonical hrhs)
    fun _ hj ↦ basicAssignment_artificial h.canonical hidle hj

include hshaped hpriced in
theorem objective_le_basic (h : (ofForm form).Represents (dot form.objective) t)
    (hcosts : ∀ j < t.artificialStart, t.objective.coefficient j ≤ 0) {v : ℕ → ℚ}
    (hv : form.Admits v) : dot form.objective v ≤ dot form.objective t.basicAssignment := by
  have hx := h.holds_lift hshaped hv
  have hle : t.objective.residual (lift form v) ≤ t.objective.residual t.basicAssignment := by
    refine residual_objective_le h.canonical hpriced fun j _ ↦ ?_
    by_cases hj : j < t.artificialStart
    · exact mul_nonpos_of_nonpos_of_nonneg (hcosts j hj) (lift_nonneg hv j)
    · have hzero : lift form v j = 0 := by
        rw [h.artificialStart] at hj
        obtain ⟨k, rfl⟩ := Nat.exists_eq_add_of_le (Nat.le_of_not_lt hj)
        exact lift_artificial
      rw [hzero, mul_zero]
  rw [h.objective _ hx, h.objective _ (holds_basicAssignment h.canonical)] at hle
  refine le_trans (le_of_eq (dot_congr fun j hj ↦ ?_)) hle
  rw [hshaped.objective] at hj
  exact (lift_own hj).symm

include h hshaped hrhs hpriced in
theorem Represents.admits_ray (hidle : t.ArtificialsIdle) {column : ℕ}
    (hcolumn : column < t.artificialStart) (hcost : t.objective.coefficient column ≠ 0)
    (hentries : ∀ (i : ℕ) (r : BasicRow ℚ), t.rows[i]? = some r →
      r.equation.coefficient column ≤ 0) {amount : ℚ} (hamount : 0 ≤ amount) :
    form.Admits (t.ray column amount) :=
  h.admits hshaped (holds_ray h.canonical column amount)
    (ray_nonneg h.canonical hrhs hpriced hcost hentries hamount)
    fun _ hj ↦ ray_artificial h.canonical hidle hcolumn amount hj

include hpriced in
theorem objective_ray (h : (ofForm form).Represents (dot form.objective) t) (column : ℕ)
    (amount : ℚ) : dot form.objective (t.ray column amount) =
      t.objective.coefficient column * amount - t.objective.rhs := by
  rw [← h.objective _ (holds_ray h.canonical column amount),
    residual_objective_ray h.canonical hpriced]

include hshaped hrhs hpriced in
/-- A column with a positive reduced cost and no positive entry leads to points with an objective
as large as one likes. -/
theorem exists_admits_gt (h : (ofForm form).Represents (dot form.objective) t)
    (hidle : t.ArtificialsIdle) {column : ℕ} (hcolumn : column < t.artificialStart)
    (hcost : 0 < t.objective.coefficient column)
    (hentries : ∀ (i : ℕ) (r : BasicRow ℚ), t.rows[i]? = some r →
      r.equation.coefficient column ≤ 0) (bound : ℚ) :
    ∃ v, form.Admits v ∧ bound < dot form.objective v := by
  obtain ⟨amount, hamount, hlt⟩ := exists_ray_gt h.canonical hpriced hcost bound
  rw [h.objective _ (holds_ray h.canonical column amount)] at hlt
  exact ⟨t.ray column amount,
    h.admits_ray hshaped hrhs hpriced hidle hcolumn hcost.ne' hentries hamount, hlt⟩

end

section

variable (h : (ofForm form).Represents (fun x ↦ -(ofForm form).artificialSum x) t)
  (hrhs : t.RhsNonneg) (hpriced : t.Priced)

include h hrhs hpriced in
/-- An artificial variable that stays positive in an optimal basis of phase one excludes every
point. -/
theorem not_admits_of_remaining (hshaped : form.Shaped)
    (hcosts : ∀ j < t.width, t.objective.coefficient j ≤ 0) {i : ℕ} {r : BasicRow ℚ}
    (hr : t.rows[i]? = some r) (hb : t.artificialStart ≤ r.basic) (hne : r.equation.rhs ≠ 0)
    (v : ℕ → ℚ) : ¬ form.Admits v := by
  intro hv
  have hle : t.objective.residual (lift form v) ≤ t.objective.residual t.basicAssignment :=
    residual_objective_le h.canonical hpriced fun j hj ↦
      mul_nonpos_of_nonpos_of_nonneg (hcosts j hj) (lift_nonneg hv j)
  rw [h.objective _ (h.holds_lift hshaped hv), h.objective _ (holds_basicAssignment h.canonical),
    artificialSum_lift] at hle
  have hnonneg := basicAssignment_nonneg h.canonical hrhs
  have hpos : 0 < t.basicAssignment r.basic := by
    rw [basicAssignment_basic h.canonical hr]
    exact lt_of_le_of_ne (hrhs i r hr) hne.symm
  have hterm : t.basicAssignment r.basic ≤ (ofForm form).artificialSum t.basicAssignment := by
    have hlt := h.canonical.basic_lt_width hr
    rw [h.width] at hlt
    rw [h.artificialStart] at hb
    obtain ⟨k, hk⟩ := Nat.exists_eq_add_of_le hb
    have hw : (ofForm form).width = (ofForm form).artificialStart + (ofForm form).numArtificial :=
      rfl
    rw [hk]
    exact single_le_sum (f := fun k ↦ t.basicAssignment ((ofForm form).artificialStart + k))
      (fun k _ ↦ hnonneg _) (mem_range.mpr (by omega))
  linarith

include h hrhs hpriced in
/-- The objective of phase one never exceeds zero, so some row limits every entering variable. -/
theorem exists_entry_pos {column : ℕ} (hcost : 0 < t.objective.coefficient column) :
    ∃ (i : ℕ) (r : BasicRow ℚ), t.rows[i]? = some r ∧ 0 < r.equation.coefficient column := by
  by_contra hnone
  have hentries (i : ℕ) (r : BasicRow ℚ) (hr : t.rows[i]? = some r) :
      r.equation.coefficient column ≤ 0 := by
    by_contra hlt
    exact hnone ⟨i, r, hr, lt_of_not_ge hlt⟩
  obtain ⟨amount, hamount, hlt⟩ := exists_ray_gt h.canonical hpriced hcost 0
  rw [h.objective _ (holds_ray h.canonical _ _)] at hlt
  have hpos := artificialSum_nonneg (t := ofForm form)
    (ray_nonneg h.canonical hrhs hpriced hcost.ne' hentries hamount)
  linarith

end

end Tableau

end LinProg
