import LinProg.Proofs.Tableau.Basis
import LinProg.Proofs.Tableau.PhaseTwo
import LinProg.Proofs.Tableau.ReducedCosts

namespace LinProg.Tableau

open Finset

/-- The multiplier of a constraint with an index: minus the reduced cost of its dual column, with
the sign with which the constraint entered the tableau. -/
def multiplier (t : Tableau ℚ) (k : ℕ) : ℚ :=
  (t.duals[k]?.map fun d ↦ -t.objective.coefficient d.variableIndex * d.sign).getD 0

def slackColumn (form : StandardForm ℚ) (k : ℕ) : ℕ := form.numVars + slackIndex form k

variable {form : StandardForm ℚ} {t : Tableau ℚ} {k : ℕ} {c : Constraint ℚ}

theorem getElem?_oriented (hk : form.constraints[k]? = some c) :
    (oriented form)[k]? = some (orient c).1 := by
  rw [oriented, List.getElem?_map, hk]
  rfl

theorem initialRow_mem (hk : form.constraints[k]? = some c) :
    (ofForm form).rows[k]? = some (initialRow form k (orient c).1) := by
  rw [getElem?_rows_ofForm, getElem?_oriented hk]
  rfl

theorem size_rows_ofForm (form : StandardForm ℚ) :
    (ofForm form).rows.size = form.constraints.length := by
  have hnone (k : ℕ) : (ofForm form).rows.size ≤ k ↔ form.constraints.length ≤ k := by
    rw [← Array.getElem?_eq_none_iff, getElem?_rows_ofForm, Option.map_eq_none_iff, oriented,
      List.getElem?_map, Option.map_eq_none_iff, List.getElem?_eq_none_iff]
  apply le_antisymm
  · exact (hnone _).mpr le_rfl
  · exact (hnone _).mp le_rfl

theorem duals_ofForm (hk : form.constraints[k]? = some c) :
    (ofForm form).duals[k]? =
      some ⟨(initialRow form k (orient c).1).basic, (orient c).2⟩ := by
  have hrow := initialRow_mem hk
  rw [rows_ofForm, List.getElem?_toArray] at hrow
  simp only [ofForm, oriented, List.map_map, Function.comp_def] at hrow ⊢
  rw [List.getElem?_zipWith, hrow, List.getElem?_map, hk]
  rfl

theorem coefficient_initialRow (hshaped : form.Shaped) (hk : form.constraints[k]? = some c) {j : ℕ}
    (hj : j < form.numVars) :
    (initialRow form k (orient c).1).equation.coefficient j =
      (orient c).2 * c.coefficients.getD j 0 := by
  have hlength := hshaped.constraints c (List.mem_of_getElem? hk)
  have hown : (initialRow form k (orient c).1).equation.coefficient j =
      (orient c).1.coefficients.getD j 0 := by
    simp only [initialRow, layoutRow, Equation.coefficient, List.getElem?_toArray,
      List.append_assoc]
    rw [List.getElem?_append_left (by rw [length_orient]; omega), List.getD_eq_getElem?_getD]
  rw [hown]
  unfold orient
  split_ifs <;> simp [List.getD_eq_getElem?_getD, List.getElem?_eq_getElem (hlength ▸ hj)]

theorem coefficient_initialRow_slack (hshaped : form.Shaped) {i : ℕ} {d : Constraint ℚ}
    (hi : form.constraints[i]? = some d) (hk : form.constraints[k]? = some c)
    (hc : hasSlack (orient c).1 = true) :
    (initialRow form i (orient d).1).equation.coefficient (slackColumn form k) =
      if i = k then slackEntry (orient c).1.relation else 0 := by
  have hi' := getElem?_oriented hi
  have hk' := getElem?_oriented hk
  rw [slackColumn, initialRow, coefficient_layoutRow_slack (length_oriented hshaped hi')
    (slackIndex_lt hk' hc)]
  by_cases hik : i = k
  · subst hik
    rw [if_pos rfl, if_pos rfl, Option.some_inj.mp (hi.symm.trans hk)]
  · rw [if_neg hik]
    split_ifs with hs
    · by_contra hne
      apply hik
      exact countP_take_injective hi' hk' (slackEntry_ne_zero.mp hne) hc hs.symm
    · rfl

theorem coefficient_objective_ofForm (form : StandardForm ℚ) (j : ℕ) :
    (ofForm form).objective.coefficient j = form.objective.getD j 0 := by
  simp only [ofForm, Equation.coefficient, List.getElem?_toArray, List.getD_eq_getElem?_getD]
  by_cases hj : j < form.objective.length
  · rw [List.getElem?_append_left hj]
  · rw [List.getElem?_append_right (by omega), List.getElem?_replicate,
      List.getElem?_eq_none (by omega)]
    split_ifs <;> rfl

theorem sumRows_ofForm (form : StandardForm ℚ) (f : BasicRow ℚ → ℚ) :
    (ofForm form).sumRows f =
      ∑ k : Fin form.constraints.length, f (initialRow form k (orient form.constraints[k]).1) := by
  refine Fintype.sum_equiv (finCongr (size_rows_ofForm form)) _ _ fun i ↦ ?_
  have hlt : (i : ℕ) < form.constraints.length := i.isLt.trans_eq (size_rows_ofForm form)
  have hk := List.getElem?_eq_getElem hlt
  have hrow := (Array.getElem?_eq_getElem i.isLt).symm.trans (initialRow_mem hk)
  exact congrArg f (Option.some_inj.mp hrow)

theorem slackEntry_orient (c : Constraint ℚ) :
    slackEntry (orient c).1.relation * (orient c).2 = slackEntry c.relation := by
  unfold orient
  split_ifs
  · cases hr : c.relation <;> simp [Relation.reverse, slackEntry]
  · simp

theorem abs_sign_orient (c : Constraint ℚ) : |(orient c).2| = 1 := by
  unfold orient
  split_ifs <;> simp

theorem dot_orient (c : Constraint ℚ) (x : ℕ → ℚ) :
    dot (orient c).1.coefficients x - (orient c).1.rhs =
      (orient c).2 * (dot c.coefficients x - c.rhs) := by
  unfold orient
  split_ifs <;> simp only [dot_map_mul] <;> ring

theorem slackEntry_mul_self {relation : Relation} (h : relation ≠ .eq) :
    slackEntry relation * slackEntry relation = 1 := by
  cases relation with
  | le | ge => norm_num [slackEntry]
  | eq => exact absurd rfl h

theorem PricedWithin.abs_reducedCost_le {tolerance : ℚ} (hp : t.PricedWithin tolerance) {j : ℕ}
    (hj : t.basicAssignment j ≠ 0) : |t.objective.coefficient j| ≤ tolerance := by
  have hmem : j ∈ t.basis := by
    by_contra hnot
    exact hj (basicAssignment_of_not_mem hnot)
  obtain ⟨i, r, hr, rfl⟩ := mem_basis.mp hmem
  exact hp i r hr

section

variable (h : (ofForm form).Represents (dot form.objective) t) (hshaped : form.Shaped)
  (hk : form.constraints[k]? = some c)

include h hk in
theorem Represents.multiplier_eq :
    t.multiplier k =
      -t.objective.coefficient (initialRow form k (orient c).1).basic * (orient c).2 := by
  rw [multiplier, h.duals, duals_ofForm hk]
  rfl

include h hshaped in
/-- A reduced cost is the objective's coefficient less what the multipliers make of the column. -/
theorem Represents.reducedCost_eq_sub {j : ℕ} (hj : j < form.numVars) :
    t.objective.coefficient j = form.objective.getD j 0 -
      ∑ k : Fin form.constraints.length,
        t.multiplier k * form.constraints[k].coefficients.getD j 0 := by
  rw [(represents_ofForm hshaped).reducedCost_eq (priced_ofForm hshaped) h j,
    coefficient_objective_ofForm,
    sumRows_ofForm, sub_eq_add_neg,
    ← sum_neg_distrib]
  congr 1
  apply sum_congr rfl
  intro k _
  have hk : form.constraints[(k : ℕ)]? = some form.constraints[k] := List.getElem?_eq_getElem k.isLt
  rw [coefficient_initialRow hshaped hk hj, h.multiplier_eq hk]
  ring

include h hshaped hk in
theorem Represents.reducedCost_slackColumn (hc : hasSlack (orient c).1 = true) :
    t.objective.coefficient (slackColumn form k) =
      t.objective.coefficient (initialRow form k (orient c).1).basic *
        slackEntry (orient c).1.relation := by
  obtain ⟨hlt, rfl⟩ := List.getElem?_eq_some_iff.mp hk
  have hzero : form.objective.getD (slackColumn form k) 0 = 0 := by
    rw [List.getD_eq_getElem?_getD, List.getElem?_eq_none, Option.getD_none]
    rw [hshaped.objective]
    exact Nat.le_add_right _ _
  rw [(represents_ofForm hshaped).reducedCost_eq (priced_ofForm hshaped) h,
    coefficient_objective_ofForm, hzero, zero_add, sumRows_ofForm, sum_eq_single ⟨k, hlt⟩]
  · rw [Fin.getElem_fin, coefficient_initialRow_slack hshaped hk hk hc, if_pos rfl]
  · intro i _ hi
    have hi' : form.constraints[(i : ℕ)]? = some form.constraints[i] :=
      List.getElem?_eq_getElem i.isLt
    rw [coefficient_initialRow_slack hshaped hi' hk hc, if_neg fun he ↦ hi (Fin.ext he), mul_zero]
  · intro hk
    exact absurd (mem_univ _) hk

include h hshaped hk in
theorem Represents.multiplier_eq_slack (hc : hasSlack (orient c).1 = true) :
    t.multiplier k = -slackEntry c.relation * t.objective.coefficient (slackColumn form k) := by
  have hentry : (orient c).1.relation ≠ .eq := by simpa [hasSlack] using hc
  have hsquare := slackEntry_mul_self hentry
  rw [h.multiplier_eq hk, h.reducedCost_slackColumn hshaped hk hc, ← slackEntry_orient c]
  set entry := slackEntry (orient c).1.relation
  set cost := t.objective.coefficient (initialRow form k (orient c).1).basic
  calc -cost * (orient c).2 = -cost * (orient c).2 * (entry * entry) := by rw [hsquare, mul_one]
    _ = -(entry * (orient c).2) * (cost * entry) := by ring

include h hshaped hk in
/-- A constraint that the basic point leaves with room has a slack or an artificial variable in
the basis, and so no multiplier to speak of. -/
theorem Represents.abs_multiplier_le {tolerance : ℚ} (hp : t.PricedWithin tolerance)
    (htight : dot c.coefficients t.basicAssignment ≠ c.rhs) : |t.multiplier k| ≤ tolerance := by
  have hk' := getElem?_oriented hk
  have hrow := (h.holds_iff _).mp (holds_basicAssignment h.canonical) k _ (initialRow_mem hk)
  rw [residual_initialRow hshaped hk'] at hrow
  have hgap : dot (orient c).1.coefficients t.basicAssignment - (orient c).1.rhs ≠ 0 := by
    rw [dot_orient]
    have hsign : (orient c).2 ≠ 0 := abs_pos.mp (by rw [abs_sign_orient]; norm_num)
    exact mul_ne_zero hsign (sub_ne_zero.mpr htight)
  by_cases hs : slackEntry (orient c).1.relation * t.basicAssignment (slackColumn form k) = 0
  · have ha : artificialEntry (orient c).1.relation *
        t.basicAssignment (form.numVars + (ofForm form).numSlack + artificialIndex form k) ≠ 0 := by
      intro hzero
      rw [slackColumn] at hs
      apply hgap
      linarith
    have hbasic : (initialRow form k (orient c).1).basic =
        form.numVars + (ofForm form).numSlack + artificialIndex form k := by
      refine if_neg fun hle ↦ left_ne_zero_of_mul ha ?_
      rw [hle]
      rfl
    rw [h.multiplier_eq hk, abs_mul, abs_neg, abs_sign_orient, mul_one, hbasic]
    exact hp.abs_reducedCost_le (right_ne_zero_of_mul ha)
  · have hentry := left_ne_zero_of_mul hs
    have hslack := slackEntry_ne_zero.mp hentry
    have hone : |slackEntry c.relation| = 1 := by
      rw [← slackEntry_orient, abs_mul, abs_sign_orient, mul_one]
      cases hr : (orient c).1.relation with
      | le | ge => norm_num [slackEntry]
      | eq => exact absurd (by rw [hr]; rfl) hentry
    rw [h.multiplier_eq_slack hshaped hk hslack, abs_mul, abs_neg, hone, one_mul]
    exact hp.abs_reducedCost_le (right_ne_zero_of_mul hs)

end

end LinProg.Tableau
