import LinProg.Proofs.Tableau.Layout
import LinProg.Proofs.Tableau.System

namespace LinProg

def Relation.Holds (x y : ℚ) : Relation → Prop
  | .le => x ≤ y
  | .ge => y ≤ x
  | .eq => x = y

def Constraint.Holds (c : Constraint ℚ) (v : ℕ → ℚ) : Prop :=
  c.relation.Holds (dot c.coefficients v) c.rhs

/-- A point of the non-negative standard variables that satisfies the constraints. -/
def StandardForm.Admits (form : StandardForm ℚ) (v : ℕ → ℚ) : Prop :=
  (∀ j, 0 ≤ v j) ∧ ∀ c ∈ form.constraints, c.Holds v

structure StandardForm.Shaped (form : StandardForm ℚ) : Prop where
  objective : form.objective.length = form.numVars
  constraints : ∀ c ∈ form.constraints, c.coefficients.length = form.numVars

namespace Tableau

def oriented (form : StandardForm ℚ) : List (Constraint ℚ) :=
  form.constraints.map fun c ↦ (orient c).1

theorem length_orient (c : Constraint ℚ) :
    (orient c).1.coefficients.length = c.coefficients.length := by
  unfold orient
  split_ifs <;> simp

theorem rhs_orient_nonneg (c : Constraint ℚ) : 0 ≤ (orient c).1.rhs := by
  unfold orient
  split_ifs with h
  · simp only
    linarith
  · exact le_of_not_gt h

theorem orient_holds (c : Constraint ℚ) (v : ℕ → ℚ) : (orient c).1.Holds v ↔ c.Holds v := by
  unfold orient
  split_ifs with h
  · cases hc : c.relation <;>
      simp only [Constraint.Holds, Relation.Holds, hc, Relation.reverse, dot_map_mul] <;>
      constructor <;> intro hv <;> linarith
  · cases hc : c.relation <;>
      simp only [Constraint.Holds, Relation.Holds, hc, dot_map_mul] <;> simp only [one_mul]

section

variable {form : StandardForm ℚ}

theorem rows_ofForm (form : StandardForm ℚ) :
    (ofForm form).rows = (layout form.numVars (ofForm form).numSlack (ofForm form).numArtificial
      (oriented form) 0 0).toArray := by
  simp only [ofForm, oriented, List.map_map, Function.comp_def]

theorem numSlack_ofForm (form : StandardForm ℚ) :
    (ofForm form).numSlack = (oriented form).countP hasSlack := by
  simp only [ofForm, oriented, List.map_map, Function.comp_def]
  rfl

theorem numArtificial_ofForm (form : StandardForm ℚ) :
    (ofForm form).numArtificial = (oriented form).countP hasArtificial := by
  simp only [ofForm, oriented, List.map_map, Function.comp_def]
  rfl

def slackIndex (form : StandardForm ℚ) (i : ℕ) : ℕ := ((oriented form).take i).countP hasSlack

def artificialIndex (form : StandardForm ℚ) (i : ℕ) : ℕ :=
  ((oriented form).take i).countP hasArtificial

def initialRow (form : StandardForm ℚ) (i : ℕ) (c : Constraint ℚ) : BasicRow ℚ :=
  layoutRow form.numVars (ofForm form).numSlack (ofForm form).numArtificial c (slackIndex form i)
    (artificialIndex form i)

theorem getElem?_rows_ofForm (form : StandardForm ℚ) (i : ℕ) :
    (ofForm form).rows[i]? = (oriented form)[i]?.map (initialRow form i) := by
  rw [rows_ofForm, List.getElem?_toArray, getElem?_layout]
  simp only [Nat.zero_add]
  rfl

theorem slackIndex_lt {i : ℕ} {c : Constraint ℚ} (hi : (oriented form)[i]? = some c)
    (hc : hasSlack c = true) : slackIndex form i < (ofForm form).numSlack := by
  rw [numSlack_ofForm]
  exact countP_take_lt hi hc

theorem artificialIndex_lt {i : ℕ} {c : Constraint ℚ} (hi : (oriented form)[i]? = some c)
    (hc : hasArtificial c = true) : artificialIndex form i < (ofForm form).numArtificial := by
  rw [numArtificial_ofForm]
  exact countP_take_lt hi hc

theorem length_oriented (h : form.Shaped) {i : ℕ} {c : Constraint ℚ}
    (hi : (oriented form)[i]? = some c) : c.coefficients.length = form.numVars := by
  rw [oriented, List.getElem?_map, Option.map_eq_some_iff] at hi
  obtain ⟨d, hd, rfl⟩ := hi
  rw [length_orient, h.constraints d (List.mem_of_getElem? hd)]

theorem basis_initialRow (h : form.Shaped) {i k : ℕ} {c d : Constraint ℚ}
    (hi : (oriented form)[i]? = some c) (hk : (oriented form)[k]? = some d) :
    (initialRow form k d).equation.coefficient (initialRow form i c).basic =
      if i = k then 1 else 0 := by
  have hd := length_oriented h hk
  by_cases hle : c.relation = .le
  · have hc : hasSlack c = true := by simp [hasSlack, hle]
    have hb : (initialRow form i c).basic = form.numVars + slackIndex form i := if_pos hle
    rw [hb, initialRow, coefficient_layoutRow_slack hd (slackIndex_lt hi hc)]
    by_cases hik : i = k
    · subst hik
      obtain rfl := Option.some_inj.mp (hi.symm.trans hk)
      rw [if_pos rfl, if_pos rfl, hle, slackEntry]
    · rw [if_neg hik]
      split_ifs with hs
      · by_contra hne
        exact hik (countP_take_injective hi hk hc (slackEntry_ne_zero.mp hne) hs)
      · rfl
  · have hc : hasArtificial c = true := by simp [hasArtificial, hle]
    have hb : (initialRow form i c).basic =
      form.numVars + (ofForm form).numSlack + artificialIndex form i := if_neg hle
    rw [hb, initialRow, coefficient_layoutRow_artificial hd (artificialIndex_lt hi hc)]
    by_cases hik : i = k
    · subst hik
      obtain rfl := Option.some_inj.mp (hi.symm.trans hk)
      rw [if_pos rfl, if_pos rfl]
      cases hr : c.relation
      · exact absurd hr hle
      · rfl
      · rfl
    · rw [if_neg hik]
      split_ifs with ha
      · by_contra hne
        exact hik (countP_take_injective hi hk hc (artificialEntry_ne_zero.mp hne) ha)
      · rfl

theorem canonical_ofForm (h : form.Shaped) : Canonical (ofForm form) := by
  refine ⟨?_, ?_, ?_⟩
  · intro i r hr
    rw [getElem?_rows_ofForm, Option.map_eq_some_iff] at hr
    obtain ⟨c, hc, rfl⟩ := hr
    exact size_layoutRow (length_oriented h hc)
  · simp only [ofForm, width, List.size_toArray, List.length_append, List.length_replicate,
      h.objective, Nat.add_assoc]
  · intro i k r q hr hq
    rw [getElem?_rows_ofForm, Option.map_eq_some_iff] at hr hq
    obtain ⟨c, hc, rfl⟩ := hr
    obtain ⟨d, hd, rfl⟩ := hq
    exact basis_initialRow h hc hd

theorem residual_objective_ofForm (form : StandardForm ℚ) (x : ℕ → ℚ) :
    (ofForm form).objective.residual x = dot form.objective x := by
  have hform : (ofForm form).objective.form x = dot form.objective x := by
    simp only [ofForm]
    rw [Equation.form_mk, dot_append, dot_replicate_zero, add_zero]
  rw [Equation.residual, hform]
  exact sub_zero _

theorem represents_ofForm (h : form.Shaped) :
    Represents (ofForm form) (dot form.objective) (ofForm form) :=
  ⟨canonical_ofForm h, rfl, rfl, rfl, rfl, fun _ ↦ Iff.rfl,
    fun x _ ↦ residual_objective_ofForm form x⟩

theorem residual_initialRow (h : form.Shaped) {i : ℕ} {c : Constraint ℚ}
    (hi : (oriented form)[i]? = some c) (x : ℕ → ℚ) :
    (initialRow form i c).equation.residual x =
      dot c.coefficients x + slackEntry c.relation * x (form.numVars + slackIndex form i) +
        artificialEntry c.relation *
          x (form.numVars + (ofForm form).numSlack + artificialIndex form i) - c.rhs :=
  residual_layoutRow (length_oriented h hi) (slackIndex_lt hi) (artificialIndex_lt hi) x

theorem constraints_of_holds (h : form.Shaped) {x : ℕ → ℚ} (hx : (ofForm form).Holds x)
    (hs : ∀ k < (ofForm form).numSlack, 0 ≤ x (form.numVars + k))
    (ha : ∀ k < (ofForm form).numArtificial,
      x (form.numVars + (ofForm form).numSlack + k) = 0) :
    ∀ c ∈ form.constraints, c.Holds x := by
  intro c₀ hc₀
  obtain ⟨i, hi₀⟩ := List.mem_iff_getElem?.mp hc₀
  rw [← orient_holds]
  set c := (orient c₀).1
  have hi : (oriented form)[i]? = some c := by rw [oriented, List.getElem?_map, hi₀]; rfl
  have hrow := hx i (initialRow form i c) (by rw [getElem?_rows_ofForm, hi]; rfl)
  rw [residual_initialRow h hi] at hrow
  have hslack := hs (slackIndex form i)
  have hart := ha (artificialIndex form i)
  have hlt := slackIndex_lt hi
  have hlt' := artificialIndex_lt hi
  cases hc : c.relation with
  | le =>
    have hs' := hslack (hlt (by simp [hasSlack, hc]))
    simp only [hc, slackEntry, artificialEntry] at hrow
    simp only [Constraint.Holds, Relation.Holds, hc]
    linarith
  | ge =>
    have hs' := hslack (hlt (by simp [hasSlack, hc]))
    have ha' := hart (hlt' (by simp [hasArtificial, hc]))
    simp only [hc, slackEntry, artificialEntry, ha'] at hrow
    simp only [Constraint.Holds, Relation.Holds, hc]
    linarith
  | eq =>
    have ha' := hart (hlt' (by simp [hasArtificial, hc]))
    simp only [hc, slackEntry, artificialEntry, ha'] at hrow
    simp only [Constraint.Holds, Relation.Holds, hc]
    linarith

/-- The value that a slack variable takes at a point, by its place among the slack variables. -/
def slackValue (form : StandardForm ℚ) (v : ℕ → ℚ) (k : ℕ) : ℚ :=
  (((oriented form).filter hasSlack)[k]?.map fun c ↦
    slackEntry c.relation * (c.rhs - dot c.coefficients v)).getD 0

/-- A point of the standard variables with slack variables that fit it and no artificial ones. -/
def lift (form : StandardForm ℚ) (v : ℕ → ℚ) (j : ℕ) : ℚ :=
  if j < form.numVars then v j
  else if j < form.numVars + (ofForm form).numSlack then slackValue form v (j - form.numVars)
  else 0

theorem slackValue_slackIndex {v : ℕ → ℚ} {i : ℕ} {c : Constraint ℚ}
    (hi : (oriented form)[i]? = some c) (hc : hasSlack c = true) :
    slackValue form v (slackIndex form i) =
      slackEntry c.relation * (c.rhs - dot c.coefficients v) := by
  rw [slackValue, slackIndex, getElem?_filter_countP hi hc]
  rfl

theorem slackValue_nonneg {v : ℕ → ℚ} (hv : ∀ c ∈ form.constraints, c.Holds v) (k : ℕ) :
    0 ≤ slackValue form v k := by
  unfold slackValue
  cases hk : ((oriented form).filter hasSlack)[k]? with
  | none => exact le_rfl
  | some c =>
    obtain ⟨hmem, hs⟩ := List.mem_filter.mp (List.mem_of_getElem? hk)
    obtain ⟨c₀, hc₀, rfl⟩ := List.mem_map.mp hmem
    have hc := (orient_holds c₀ v).mpr (hv c₀ hc₀)
    simp only [Option.map_some, Option.getD_some]
    cases hr : (orient c₀).1.relation <;>
      simp only [Constraint.Holds, Relation.Holds, hr, slackEntry] at hc ⊢ <;> linarith

theorem lift_own {v : ℕ → ℚ} {j : ℕ} (hj : j < form.numVars) : lift form v j = v j := if_pos hj

theorem lift_slack {v : ℕ → ℚ} {k : ℕ} (hk : k < (ofForm form).numSlack) :
    lift form v (form.numVars + k) = slackValue form v k := by
  rw [lift, if_neg (by omega), if_pos (by omega), Nat.add_sub_cancel_left]

theorem lift_artificial {v : ℕ → ℚ} {k : ℕ} :
    lift form v (form.numVars + (ofForm form).numSlack + k) = 0 := by
  rw [lift, if_neg (by omega), if_neg (by omega)]

theorem lift_holds (h : form.Shaped) {v : ℕ → ℚ} (hv : ∀ c ∈ form.constraints, c.Holds v) :
    (ofForm form).Holds (lift form v) := by
  intro i r hr
  rw [getElem?_rows_ofForm, Option.map_eq_some_iff] at hr
  obtain ⟨c, hi, rfl⟩ := hr
  have hdot : dot c.coefficients (lift form v) = dot c.coefficients v := by
    refine dot_congr fun j hj ↦ lift_own ?_
    rwa [length_oriented h hi] at hj
  have hc : c.Holds v := by
    obtain ⟨c₀, hc₀, rfl⟩ := List.mem_map.mp (List.mem_of_getElem? hi)
    exact (orient_holds c₀ v).mpr (hv c₀ hc₀)
  rw [residual_initialRow h hi, hdot, lift_artificial, mul_zero, add_zero]
  cases hr : c.relation with
  | eq =>
    simp only [Constraint.Holds, Relation.Holds, hr] at hc
    simp only [slackEntry, zero_mul, add_zero, hc, sub_self]
  | le | ge =>
    have hs : hasSlack c = true := by simp [hasSlack, hr]
    rw [lift_slack (slackIndex_lt hi hs), slackValue_slackIndex hi hs, hr]
    simp only [slackEntry]
    ring

end

end Tableau

end LinProg
