import LinProg.Proofs.StandardForm.Rows
import LinProg.Proofs.Tableau.Extension
import LinProg.Proofs.Tableau.Multipliers

namespace LinProg

def Constraint.isIdle (c : Constraint ℚ) : Bool :=
  c.coefficients.all (· == 0) && !c.relation.excludesZero 0 c.rhs

namespace StandardForm

def withConstraints (form : StandardForm ℚ) (cs : List (Constraint ℚ)) : StandardForm ℚ :=
  { form with constraints := cs }

/-- The second form has the constraints of the first one but for `c`. -/
structure Omits (before : List (Constraint ℚ)) (c : Constraint ℚ) (after : List (Constraint ℚ))
    (form rest : StandardForm ℚ) : Prop where
  constraints_eq : form.constraints = before ++ c :: after
  rest_eq : rest = form.withConstraints (before ++ after)

end StandardForm

namespace Tableau

def skip (m i : ℕ) : ℕ := if i < m then i else i + 1

theorem skip_strictMono (m : ℕ) : StrictMono (skip m) := by
  intro i j hij
  unfold skip
  split_ifs <;> omega

theorem mem_range_skip {m k : ℕ} : k ∈ Set.range (skip m) ↔ k ≠ m := by
  constructor
  · rintro ⟨i, rfl⟩
    unfold skip
    split_ifs <;> omega
  · intro hk
    by_cases hlt : k < m
    · exact ⟨k, if_pos hlt⟩
    · refine ⟨k - 1, ?_⟩
      rw [skip, if_neg (by omega)]
      omega

theorem getElem?_skip {γ : Type} (xs ys : List γ) (x : γ) (i : ℕ) :
    (xs ++ x :: ys)[skip xs.length i]? = (xs ++ ys)[i]? := by
  unfold skip
  split_ifs with hi
  · rw [List.getElem?_append_left hi, List.getElem?_append_left hi]
  · obtain ⟨k, rfl⟩ := Nat.exists_eq_add_of_le (Nat.le_of_not_lt hi)
    rw [List.getElem?_append_right (by omega), List.getElem?_append_right (by omega), Nat.add_assoc,
      Nat.add_sub_cancel_left, Nat.add_sub_cancel_left, List.getElem?_cons_succ]

theorem skip_lt_length_iff {γ : Type} (xs ys : List γ) (x : γ) (i : ℕ) :
    skip xs.length i < (xs ++ x :: ys).length ↔ i < (xs ++ ys).length := by
  unfold skip
  simp only [List.length_append, List.length_cons]
  split_ifs <;> omega

theorem countP_take_skip {test : Constraint ℚ → Bool} {xs ys : List (Constraint ℚ)} {i : ℕ}
    {d : Constraint ℚ} (hi : (xs ++ ys)[i]? = some d) (hd : test d = true) (x : Constraint ℚ) :
    ((xs ++ x :: ys).take (skip xs.length i)).countP test =
      ((xs ++ ys).take i).countP test +
        if xs.countP test ≤ ((xs ++ ys).take i).countP test then [x].countP test else 0 := by
  unfold skip
  split_ifs with hlt hle hle
  · rw [List.getElem?_append_left hlt] at hi
    rw [List.take_append_of_le_length hlt.le] at hle
    exact absurd (countP_take_lt hi hd) (not_lt_of_ge hle)
  · rw [List.take_append_of_le_length hlt.le, List.take_append_of_le_length hlt.le, add_zero]
  · obtain ⟨k, rfl⟩ := Nat.exists_eq_add_of_le (Nat.le_of_not_lt hlt)
    rw [Nat.add_assoc, List.take_length_add_append, List.take_length_add_append,
      List.take_succ_cons, ← List.singleton_append (l := ys.take k)]
    simp only [List.countP_append]
    omega
  · obtain ⟨k, rfl⟩ := Nat.exists_eq_add_of_le (Nat.le_of_not_lt hlt)
    rw [List.take_length_add_append, List.countP_append] at hle
    omega

/-- The columns that stay when `d₁` columns are taken away at one place and `d₂` at a later one. -/
def skipColumns (start₁ d₁ start₂ d₂ j : ℕ) : ℕ :=
  j + (if start₁ ≤ j then d₁ else 0) + if start₂ ≤ j then d₂ else 0

theorem skipColumns_strictMono (start₁ d₁ start₂ d₂ : ℕ) :
    StrictMono (skipColumns start₁ d₁ start₂ d₂) := by
  intro j k hjk
  unfold skipColumns
  split_ifs <;> omega

section

variable {e : ℕ → ℕ} {x : ℚ} {a b : ℕ}

theorem ite_along (he : StrictMono e) (h : x ≠ 0 → e a = b) (j : ℕ) :
    (if e j = b then x else 0) = if j = a then x else 0 := by
  by_cases hx : x = 0
  · rw [hx, ite_self, ite_self]
  · simp only [← h hx, he.injective.eq_iff]

theorem ite_of_ne (h : x ≠ 0 → a ≠ b) : (if a = b then x else 0) = 0 := by
  by_cases hx : x = 0
  · rw [hx, ite_self]
  · exact if_neg (h hx)

end

section

variable {numVars numSlack numArtificial s a : ℕ}

theorem coefficient_layoutRow {c : Constraint ℚ} (hn : c.coefficients.length = numVars)
    (hs : hasSlack c = true → s < numSlack) (ha : hasArtificial c = true → a < numArtificial)
    (j : ℕ) :
    (layoutRow numVars numSlack numArtificial c s a).equation.coefficient j =
      c.coefficients.getD j 0 + (if j = numVars + s then slackEntry c.relation else 0) +
        if j = numVars + numSlack + a then artificialEntry c.relation else 0 := by
  have hs' : slackEntry c.relation ≠ 0 → s < numSlack := fun hne ↦ hs (slackEntry_ne_zero.mp hne)
  have ha' : artificialEntry c.relation ≠ 0 → a < numArtificial :=
    fun hne ↦ ha (artificialEntry_ne_zero.mp hne)
  rcases lt_or_ge j numVars with hj | hj
  · simp only [layoutRow, Equation.coefficient, List.getElem?_toArray, List.append_assoc]
    rw [List.getElem?_append_left (hn ▸ hj), if_neg (by omega), if_neg (by omega), add_zero,
      add_zero, List.getD_eq_getElem?_getD]
  have hown : c.coefficients.getD j 0 = 0 := by
    rw [List.getD_eq_getElem?_getD, List.getElem?_eq_none (hn ▸ hj)]
    rfl
  obtain ⟨k, rfl⟩ := Nat.exists_eq_add_of_le hj
  rcases lt_or_ge k numSlack with hk | hk
  · have hne : numVars + k ≠ numVars + numSlack + a := by omega
    rw [coefficient_layoutRow_slack hn hk, hown, if_neg hne, add_zero, zero_add]
    simp only [Nat.add_left_cancel_iff]
  obtain ⟨l, rfl⟩ := Nat.exists_eq_add_of_le hk
  rw [hown, zero_add, ite_of_ne (b := numVars + s) (fun hne ↦ by have := hs' hne; omega), zero_add,
    ← Nat.add_assoc]
  rcases lt_or_ge l numArtificial with hl | hl
  · rw [coefficient_layoutRow_artificial hn hl]
    simp only [Nat.add_left_cancel_iff]
  · rw [Equation.coefficient_of_le (by rw [size_layoutRow hn]; omega),
      ite_of_ne fun hne ↦ by have := ha' hne; omega]

end

def orientAll (cs : List (Constraint ℚ)) : List (Constraint ℚ) := cs.map fun c ↦ (orient c).1

def columnsWithout (before : List (Constraint ℚ)) (c : Constraint ℚ) (rest : StandardForm ℚ) :
    ℕ → ℕ :=
  skipColumns (rest.numVars + (orientAll before).countP hasSlack) ([(orient c).1].countP hasSlack)
    (rest.numVars + (ofForm rest).numSlack + (orientAll before).countP hasArtificial)
    ([(orient c).1].countP hasArtificial)

def artificialColumn (form : StandardForm ℚ) (k : ℕ) : ℕ :=
  form.numVars + (ofForm form).numSlack + artificialIndex form k

theorem coefficient_initialRow_eq {form : StandardForm ℚ} (hshaped : form.Shaped) {i : ℕ}
    {d : Constraint ℚ} (hi : (oriented form)[i]? = some d) (j : ℕ) :
    (initialRow form i d).equation.coefficient j =
      d.coefficients.getD j 0 + (if j = slackColumn form i then slackEntry d.relation else 0) +
        if j = artificialColumn form i then artificialEntry d.relation else 0 :=
  coefficient_layoutRow (length_oriented hshaped hi) (slackIndex_lt hi) (artificialIndex_lt hi) j

theorem basic_initialRow (form : StandardForm ℚ) (i : ℕ) (d : Constraint ℚ) :
    (initialRow form i d).basic =
      if d.relation = .le then slackColumn form i else artificialColumn form i := rfl

theorem getD_orient_of_isIdle {c : Constraint ℚ} (hidle : c.isIdle = true) (j : ℕ) :
    (orient c).1.coefficients.getD j 0 = 0 := by
  have hall := List.all_eq_true.mp (Bool.and_eq_true_iff.mp hidle).1
  have hmap (k : ℚ) : ∀ a ∈ c.coefficients.map (k * ·), a = 0 := by
    intro a ha
    obtain ⟨b, hb, rfl⟩ := List.mem_map.mp ha
    rw [beq_iff_eq.mp (hall b hb), mul_zero]
  have hzero : ∀ a ∈ (orient c).1.coefficients, a = 0 := by
    unfold orient
    split_ifs
    · exact hmap (-1)
    · exact hmap 1
  rw [List.getD_eq_getElem?_getD]
  cases hj : (orient c).1.coefficients[j]? with
  | none => rfl
  | some a => exact hzero a (List.mem_of_getElem? hj)

theorem rhs_orient_of_isIdle {c : Constraint ℚ} (hidle : c.isIdle = true)
    (hc : (orient c).1.relation ≠ .le) : (orient c).1.rhs = 0 := by
  have hnot : c.relation.excludesZero 0 c.rhs = false := by
    simpa using (Bool.and_eq_true_iff.mp hidle).2
  have hzero (d : Constraint ℚ) : dot d.coefficients (fun _ ↦ 0) = 0 :=
    Finset.sum_eq_zero fun j _ ↦ mul_zero _
  have hholds : (orient c).1.Holds fun _ ↦ 0 := by
    rw [orient_holds, Constraint.Holds, hzero]
    exact (StandardForm.excludesZero_iff _ _).mp hnot
  rw [Constraint.Holds, hzero] at hholds
  cases hr : (orient c).1.relation <;> rw [hr] at hholds hc
  · exact absurd rfl hc
  · exact le_antisymm hholds (rhs_orient_nonneg c)
  · exact hholds.symm

end Tableau

namespace StandardForm.Omits

open Tableau

variable {form rest : StandardForm ℚ} {before after : List (Constraint ℚ)} {c : Constraint ℚ}
  (h : Omits before c after form rest)

include h

theorem numVars_eq : form.numVars = rest.numVars := by
  rw [h.rest_eq]
  rfl

theorem shaped (hshaped : form.Shaped) : rest.Shaped := by
  rw [h.rest_eq]
  refine ⟨hshaped.objective, fun d hd ↦ hshaped.constraints d ?_⟩
  rw [h.constraints_eq]
  rcases List.mem_append.mp hd with hd | hd
  · exact List.mem_append_left _ hd
  · exact List.mem_append_right _ (List.mem_cons_of_mem c hd)

theorem oriented_eq : oriented form = orientAll before ++ (orient c).1 :: orientAll after ∧
    oriented rest = orientAll before ++ orientAll after := by
  rw [oriented, oriented, h.constraints_eq, h.rest_eq]
  exact ⟨List.map_append, List.map_append⟩

theorem countP_oriented (test : Constraint ℚ → Bool) :
    (oriented form).countP test = (oriented rest).countP test + [(orient c).1].countP test := by
  rw [h.oriented_eq.1, h.oriented_eq.2, ← List.singleton_append (l := orientAll after)]
  simp only [List.countP_append]
  omega

theorem countP_orientAll_le (test : Constraint ℚ → Bool) :
    (orientAll before).countP test ≤ (oriented rest).countP test := by
  rw [h.oriented_eq.2, List.countP_append]
  exact Nat.le_add_right _ _

theorem numSlack_eq :
    (ofForm form).numSlack = (ofForm rest).numSlack + [(orient c).1].countP hasSlack := by
  rw [numSlack_ofForm, numSlack_ofForm, h.countP_oriented]

theorem numArtificial_eq :
    (ofForm form).numArtificial =
      (ofForm rest).numArtificial + [(orient c).1].countP hasArtificial := by
  rw [numArtificial_ofForm, numArtificial_ofForm, h.countP_oriented]

theorem embeds : Embeds (columnsWithout before c rest) (ofForm form) (ofForm rest) := by
  have hslack := h.numSlack_eq
  have hartificial := h.numArtificial_eq
  have hle := h.countP_orientAll_le hasSlack
  have hle' := h.countP_orientAll_le hasArtificial
  have hnumVars : (ofForm form).numVars = rest.numVars := h.numVars_eq
  have hnumVars' : (ofForm rest).numVars = rest.numVars := rfl
  rw [← numSlack_ofForm] at hle
  rw [← numArtificial_ofForm] at hle'
  refine ⟨skipColumns_strictMono _ _ _ _, fun j ↦ ?_, fun j ↦ ?_, hnumVars, fun j hj ↦ ?_⟩
  · simp only [columnsWithout, skipColumns, width]
    split_ifs <;> omega
  · simp only [columnsWithout, skipColumns, artificialStart]
    split_ifs <;> omega
  · simp only [columnsWithout, skipColumns]
    split_ifs <;> omega

theorem numVars_le_of_not_mem {k : ℕ} (hk : k ∉ Set.range (columnsWithout before c rest)) :
    rest.numVars ≤ k := by
  by_contra hlt
  exact hk ⟨k, h.embeds.eq_self k (Nat.lt_of_not_le hlt)⟩

theorem objective_spreads (hshaped : form.Shaped) :
    (ofForm form).objective.Spreads (columnsWithout before c rest) (ofForm rest).objective := by
  have hzero (j : ℕ) (hj : rest.numVars ≤ j) : form.objective.getD j 0 = 0 := by
    rw [List.getD_eq_getElem?_getD, List.getElem?_eq_none]
    · rfl
    · rwa [hshaped.objective, h.numVars_eq]
  have hsame : rest.objective = form.objective := by
    rw [h.rest_eq]
    rfl
  refine ⟨⟨fun j ↦ ?_, rfl⟩, fun k hk ↦ ?_⟩
  · rw [coefficient_objective_ofForm, coefficient_objective_ofForm, hsame]
    rcases lt_or_ge j rest.numVars with hj | hj
    · rw [h.embeds.eq_self j hj]
    · rw [hzero _ (hj.trans h.embeds.strictMono.le_apply), hzero j hj]
  · rw [coefficient_objective_ofForm, hzero k (h.numVars_le_of_not_mem hk)]

section

variable {i : ℕ} {d : Constraint ℚ} (hi : (oriented rest)[i]? = some d)

include hi

theorem getElem?_oriented_skip : (oriented form)[skip before.length i]? = some d := by
  have hskip := getElem?_skip (orientAll before) (orientAll after) (orient c).1 i
  rwa [← h.oriented_eq.1, ← h.oriented_eq.2, hi, orientAll, List.length_map] at hskip

theorem countP_take_oriented {test : Constraint ℚ → Bool} (hd : test d = true) :
    ((oriented form).take (skip before.length i)).countP test =
      ((oriented rest).take i).countP test +
        if (orientAll before).countP test ≤ ((oriented rest).take i).countP test
        then [(orient c).1].countP test else 0 := by
  have hlength : (orientAll before).length = before.length := List.length_map _
  rw [h.oriented_eq.2] at hi ⊢
  rw [h.oriented_eq.1, ← hlength, countP_take_skip hi hd]

theorem columnsWithout_slackColumn (hd : hasSlack d = true) :
    columnsWithout before c rest (slackColumn rest i) =
      slackColumn form (skip before.length i) := by
  have hlt := slackIndex_lt hi hd
  have hskip := h.countP_take_oriented hi hd
  rw [← slackIndex, ← slackIndex] at hskip
  rw [slackColumn, slackColumn, hskip, h.numVars_eq, columnsWithout, skipColumns]
  split_ifs <;> omega

theorem columnsWithout_artificialColumn (hd : hasArtificial d = true) :
    columnsWithout before c rest (artificialColumn rest i) =
      artificialColumn form (skip before.length i) := by
  have hle := h.countP_orientAll_le hasSlack
  have hskip := h.countP_take_oriented hi hd
  rw [← numSlack_ofForm] at hle
  rw [← artificialIndex, ← artificialIndex] at hskip
  rw [artificialColumn, artificialColumn, hskip, h.numVars_eq, h.numSlack_eq, columnsWithout,
    skipColumns]
  split_ifs <;> omega

theorem keptRow (hshaped : form.Shaped) :
    KeptRow (columnsWithout before c rest) (initialRow form (skip before.length i) d)
      (initialRow rest i d) := by
  have hi' := h.getElem?_oriented_skip hi
  have hslack (hd : slackEntry d.relation ≠ 0) :=
    h.columnsWithout_slackColumn hi (slackEntry_ne_zero.mp hd)
  have hartificial (hd : artificialEntry d.relation ≠ 0) :=
    h.columnsWithout_artificialColumn hi (artificialEntry_ne_zero.mp hd)
  have hown (j : ℕ) (hj : rest.numVars ≤ j) : d.coefficients.getD j 0 = 0 := by
    rw [List.getD_eq_getElem?_getD, List.getElem?_eq_none]
    · rfl
    · rwa [length_oriented hshaped hi', h.numVars_eq]
  refine ⟨?_, ⟨fun j ↦ ?_, rfl⟩, fun k hk ↦ ?_⟩
  · rw [basic_initialRow, basic_initialRow]
    split_ifs with hle
    · exact (h.columnsWithout_slackColumn hi (by simp [hasSlack, hle])).symm
    · exact (h.columnsWithout_artificialColumn hi (by simp [hasArtificial, hle])).symm
  · rw [coefficient_initialRow_eq hshaped hi', coefficient_initialRow_eq (h.shaped hshaped) hi,
      ite_along h.embeds.strictMono hslack, ite_along h.embeds.strictMono hartificial]
    rcases lt_or_ge j rest.numVars with hj | hj
    · rw [h.embeds.eq_self j hj]
    · rw [hown j hj, hown _ (hj.trans h.embeds.strictMono.le_apply)]
  · rw [coefficient_initialRow_eq hshaped hi', hown k (h.numVars_le_of_not_mem hk),
      ite_of_ne fun hd he ↦ hk ⟨_, (hslack hd).trans he.symm⟩,
      ite_of_ne fun hd he ↦ hk ⟨_, (hartificial hd).trans he.symm⟩, add_zero, add_zero]

end

theorem getElem?_oriented_length : (oriented form)[before.length]? = some (orient c).1 := by
  rw [oriented, List.getElem?_map, h.constraints_eq]
  simp

theorem countP_take_length (test : Constraint ℚ → Bool) :
    ((oriented form).take before.length).countP test = (orientAll before).countP test := by
  have hlength : before.length = (orientAll before).length := (List.length_map _).symm
  rw [h.oriented_eq.1, hlength, List.take_left]

theorem slackColumn_not_mem (hc : hasSlack (orient c).1 = true) :
    slackColumn form before.length ∉ Set.range (columnsWithout before c rest) := by
  have hle := h.countP_orientAll_le hasSlack
  have hone : [(orient c).1].countP hasSlack = 1 := by simp [hc]
  rw [← numSlack_ofForm] at hle
  rintro ⟨j, hj⟩
  rw [slackColumn, slackIndex, h.countP_take_length, h.numVars_eq, columnsWithout, skipColumns,
    hone] at hj
  split_ifs at hj <;> omega

theorem artificialColumn_not_mem (hc : hasArtificial (orient c).1 = true) :
    artificialColumn form before.length ∉ Set.range (columnsWithout before c rest) := by
  have hle := h.countP_orientAll_le hasSlack
  have hone : [(orient c).1].countP hasArtificial = 1 := by simp [hc]
  rw [← numSlack_ofForm] at hle
  rintro ⟨j, hj⟩
  rw [artificialColumn, artificialIndex, h.countP_take_length, h.numVars_eq, h.numSlack_eq,
    columnsWithout, skipColumns, hone] at hj
  split_ifs at hj <;> omega

theorem relation_ne_le (hb : (ofForm form).artificialStart ≤
    (initialRow form before.length (orient c).1).basic) : (orient c).1.relation ≠ .le := by
  intro hle
  have hlt := slackIndex_lt h.getElem?_oriented_length (by simp [hasSlack, hle])
  rw [basic_initialRow, if_pos hle] at hb
  exact absurd (Nat.le_of_add_le_add_left hb) (not_le_of_gt hlt)

section

variable (hshaped : form.Shaped) (hidle : c.isIdle = true)

include hshaped hidle

theorem idleRow :
    IdleRow (columnsWithout before c rest) (ofForm form).artificialStart
      (initialRow form before.length (orient c).1) := by
  refine ⟨?_, fun j ↦ ?_, fun hb ↦ rhs_orient_of_isIdle hidle (h.relation_ne_le hb)⟩
  · rw [basic_initialRow]
    split_ifs with hle
    · exact h.slackColumn_not_mem (by simp [hasSlack, hle])
    · exact h.artificialColumn_not_mem (by simp [hasArtificial, hle])
  · rw [coefficient_initialRow_eq hshaped h.getElem?_oriented_length, getD_orient_of_isIdle hidle,
      ite_of_ne, ite_of_ne, add_zero, add_zero]
    · intro hentry he
      exact h.artificialColumn_not_mem (artificialEntry_ne_zero.mp hentry) ⟨j, he⟩
    · intro hentry he
      exact h.slackColumn_not_mem (slackEntry_ne_zero.mp hentry) ⟨j, he⟩

/-- Without an idle constraint the first tableau loses an idle row and the columns added for it. -/
theorem ofForm_extends :
    (ofForm form).Extends (columnsWithout before c rest) (skip before.length) (ofForm rest) := by
  refine ⟨h.embeds, canonical_ofForm hshaped, canonical_ofForm (h.shaped hshaped),
    ⟨skip_strictMono _, fun i ↦ ?_, ?_, ?_⟩, (h.objective_spreads hshaped).toAgrees⟩
  · change _ < (ofForm form).rows.size ↔ i < (ofForm rest).rows.size
    rw [size_rows_ofForm, size_rows_ofForm, h.constraints_eq, h.rest_eq]
    exact skip_lt_length_iff before after c i
  · intro i R r hR hr
    rw [Array.getElem?_toList, getElem?_rows_ofForm, Option.map_eq_some_iff] at hR hr
    obtain ⟨d, hi, rfl⟩ := hr
    obtain ⟨d', hi', rfl⟩ := hR
    obtain rfl := Option.some_inj.mp ((h.getElem?_oriented_skip hi).symm.trans hi')
    exact h.keptRow hi hshaped
  · intro k hk R hR
    obtain rfl : k = before.length := by
      by_contra hne
      exact hk (mem_range_skip.mpr hne)
    rw [Array.getElem?_toList, getElem?_rows_ofForm, h.getElem?_oriented_length,
      Option.map_some] at hR
    rw [← Option.some_inj.mp hR]
    exact h.idleRow hshaped hidle

/-- No column that an idle constraint adds is worth entering for in phase one. -/
theorem phaseOne_cost_nonpos {k : ℕ} (hk : k ∉ Set.range (columnsWithout before c rest)) :
    (ofForm form).phaseOneObjective.coefficient k ≤ 0 := by
  have hi := h.getElem?_oriented_length
  have hrow : (ofForm form).rows[before.length]? =
      some (initialRow form before.length (orient c).1) := by
    rw [getElem?_rows_ofForm, hi, Option.map_some]
  refine (h.ofForm_extends hshaped hidle).phaseOne_cost_nonpos hrow
    (fun i hi ↦ mem_range_skip.mpr hi) hk fun hb hne ↦ ?_
  have hrelation := h.relation_ne_le hb
  rw [basic_initialRow, if_neg hrelation] at hne
  rw [coefficient_initialRow_eq hshaped hi, getD_orient_of_isIdle hidle, if_neg hne, zero_add,
    add_zero]
  cases hr : (orient c).1.relation with
  | le => exact absurd hr hrelation
  | ge | eq => split_ifs <;> norm_num [slackEntry]

end

end StandardForm.Omits

end LinProg
