import LinProg.Proofs.Simplex.Extension
import LinProg.Proofs.Tableau.IdleConstraint

namespace LinProg.Simplex

open Tableau

def opened (form : StandardForm ℚ) (tolerances : Tolerances ℚ) (messageLevel : MessageLevel) :
    Simplex ℚ :=
  { unstarted form tolerances messageLevel with
    phase := .one (ofForm form).objective
    tableau := { ofForm form with objective := (ofForm form).phaseOneObjective } }

def answer (form : StandardForm ℚ) (tolerances : Tolerances ℚ) (messageLevel : MessageLevel)
    (p : Problem ℚ) (budget : ℕ) (d : Deadline) : Option (Solution ℚ) :=
  let s := ((opened form tolerances messageLevel).run budget d).value.1
  if s.isDone then some (s.solution p) else none

variable {messageLevel : MessageLevel}
variable {form rest : StandardForm ℚ} {tolerances : Tolerances ℚ}

theorem length_duals_ofForm (form : StandardForm ℚ) :
    (ofForm form).duals.length = form.constraints.length := by
  have hsize := size_rows_ofForm form
  simp only [ofForm, List.size_toArray] at hsize
  simp only [ofForm, List.length_zipWith, List.length_map, hsize, min_self]

section

variable {before after : List (Constraint ℚ)} {c : Constraint ℚ}
  (h : StandardForm.Omits before c after form rest) (hshaped : form.Shaped)
  (hidle : c.isIdle = true)

include h hshaped hidle

theorem duals_ofForm_thinned :
    Thinned (skip before.length) (KeptDual (columnsWithout before c rest))
      (fun D ↦ D.2.variableIndex ∉ Set.range (columnsWithout before c rest))
      (form.constraints.zip (ofForm form).duals) (rest.constraints.zip (ofForm rest).duals) := by
  have hrest : rest.constraints = before ++ after := by
    rw [h.rest_eq]
    rfl
  refine ⟨skip_strictMono _, fun i ↦ ?_, ?_, ?_⟩
  · rw [List.length_zip, List.length_zip, length_duals_ofForm, length_duals_ofForm, min_self,
      min_self, h.constraints_eq, hrest]
    exact skip_lt_length_iff before after c i
  · intro i D d hD hd
    obtain ⟨hc, hdual⟩ := List.getElem?_zip_eq_some.mp hD
    obtain ⟨hc', hdual'⟩ := List.getElem?_zip_eq_some.mp hd
    rw [duals_ofForm hc, Option.some_inj] at hdual
    rw [duals_ofForm hc', Option.some_inj] at hdual'
    rw [h.constraints_eq, getElem?_skip, ← hrest, hc', Option.some_inj] at hc
    rw [KeptDual, ← hdual, ← hdual', ← hc]
    exact ⟨rfl, (h.keptRow (getElem?_oriented hc') hshaped).basic_eq, rfl⟩
  · intro k hk D hD
    obtain ⟨hc, hdual⟩ := List.getElem?_zip_eq_some.mp hD
    obtain rfl : k = before.length := by
      by_contra hne
      exact hk (mem_range_skip.mpr hne)
    rw [duals_ofForm hc, Option.some_inj] at hdual
    obtain rfl : c = D.1 := by simpa [h.constraints_eq] using hc
    rw [← hdual]
    exact (h.idleRow hshaped hidle).basic_not_mem

/-- Phase one of the form with an idle constraint starts on an extension of the tableau of the form
without it. -/
theorem opened_extends (tolerances : Tolerances ℚ) (messageLevel : MessageLevel) :
    Extends (columnsWithout before c rest) (skip before.length) tolerances
      (opened form tolerances messageLevel) (opened rest tolerances messageLevel) := by
  have htableau := h.ofForm_extends hshaped hidle
  refine ⟨htableau.phaseOne, duals_ofForm_thinned h hshaped hidle, ?_, ?_, rfl, rfl, rfl, rfl,
    .one (h.objective_spreads hshaped) htableau.canonical_left.size_objective
      htableau.canonical.size_objective, fun k hk ↦ h.phaseOne_cost_nonpos hshaped hidle hk,
    fun hpast ↦ ?_⟩
  · rw [h.rest_eq]
    rfl
  · rw [h.rest_eq]
    rfl
  · cases hpast

theorem answer_idle (hf : 0 ≤ tolerances.feasibility) (ht : 0 ≤ tolerances.pivot) (p : Problem ℚ)
    (budget : ℕ) (d : Deadline) :
    answer form tolerances messageLevel p budget d =
      answer rest tolerances messageLevel p budget d := by
  have hlast := ((opened_extends h hshaped hidle tolerances messageLevel).run hf ht budget d).1
  simp only [answer, hlast.isDone_eq, hlast.solution_eq]

end

theorem answer_filter (form : StandardForm ℚ) (hf : 0 ≤ tolerances.feasibility)
    (ht : 0 ≤ tolerances.pivot) (before after : List (Constraint ℚ))
    (hshaped : (form.withConstraints (before ++ after)).Shaped)
    (p : Problem ℚ) (budget : ℕ) (d : Deadline) :
    answer (form.withConstraints (before ++ after)) tolerances messageLevel p budget d =
      answer (form.withConstraints (before ++ after.filter fun c ↦ !c.isIdle)) tolerances
        messageLevel p budget d := by
  induction after generalizing before with
  | nil => rfl
  | cons c after ih =>
    cases hidle : c.isIdle
    · rw [List.append_cons] at hshaped
      rw [List.filter_cons_of_pos (by simp [hidle]), List.append_cons before c after,
        List.append_cons before c (after.filter _)]
      exact ih _ hshaped
    · have homits : StandardForm.Omits before c after (form.withConstraints (before ++ c :: after))
          (form.withConstraints (before ++ after)) := ⟨rfl, rfl⟩
      rw [List.filter_cons_of_neg (by simp [hidle]), answer_idle homits hshaped hidle hf ht]
      exact ih _ (homits.shaped hshaped)

/-- All constraints without coefficients that zero satisfies can be left out. -/
theorem answer_without_idle (hf : 0 ≤ tolerances.feasibility) (ht : 0 ≤ tolerances.pivot)
    (hshaped : form.Shaped) (p : Problem ℚ) (budget : ℕ) (d : Deadline) :
    answer form tolerances messageLevel p budget d =
      answer (form.withConstraints (form.constraints.filter fun c ↦ !c.isIdle)) tolerances
        messageLevel p budget d :=
  answer_filter form hf ht [] form.constraints hshaped p budget d

theorem foldl_eq_self {σ γ : Type} {g : σ → γ → σ} {s : σ} {l : List γ}
    (h : ∀ x ∈ l, g s x = s) : l.foldl g s = s :=
  List.foldlRecOn l g (motive := (· = s)) rfl fun t ht x hx ↦ by rw [ht, h x hx]

section

variable (hshaped : form.Shaped) (hart : (ofForm form).numArtificial = 0)

include hshaped hart

theorem not_artificialStart_le {r : BasicRow ℚ} (hr : r ∈ (ofForm form).rows.toList) :
    ¬ (ofForm form).artificialStart ≤ r.basic := by
  obtain ⟨i, hi, -⟩ := (canonical_ofForm hshaped).mem_rows hr
  have hlt := (canonical_ofForm hshaped).basic_lt_width hi
  rw [width, hart] at hlt
  exact not_le_of_gt hlt

theorem enteringColumn_opened (ht : 0 ≤ tolerances.pivot) :
    (opened form tolerances messageLevel).enteringColumn = none := by
  by_contra hne
  obtain ⟨column, hcolumn⟩ := Option.ne_none_iff_exists'.mp hne
  obtain ⟨-, hcost⟩ := lt_reducedCost hcolumn
  have hsum : (ofForm form).phaseOneObjective = (ofForm form).minusSum := by
    rw [phaseOneObjective_eq, pricedSum]
    exact foldl_eq_self fun r hr ↦ if_neg (not_artificialStart_le hshaped hart hr)
  have hzero : (ofForm form).phaseOneObjective.coefficient column = 0 := by
    have hwidth : (ofForm form).width = (ofForm form).artificialStart := by
      rw [width, hart]
      rfl
    rw [hsum, coefficient_minusSum, if_neg (by omega)]
  change tolerances.pivot < (ofForm form).phaseOneObjective.coefficient column at hcost
  rw [hzero] at hcost
  exact absurd hcost (not_lt_of_ge ht)

theorem afterPhaseOne_opened (ht : 0 ≤ tolerances.pivot) :
    (opened form tolerances messageLevel).afterPhaseOne (ofForm form).objective =
      unstarted form tolerances messageLevel := by
  set t : Tableau ℚ := (opened form tolerances messageLevel).tableau with ht'
  have hdriven : t.driveOutArtificials tolerances.feasibility = t := by
    refine foldl_eq_self fun row _ ↦ ?_
    unfold driveOut
    cases hr : t.rows[row]? with
    | none => rfl
    | some r =>
      exact if_neg (not_artificialStart_le hshaped hart
        (Array.mem_toList_iff.mpr (Array.mem_of_getElem? hr)))
  have hrestored : (t.restoreObjective (ofForm form).objective tolerances.pivot).objective =
      (ofForm form).objective := by
    rw [objective_restoreObjective, restoredObjective]
    refine foldl_eq_self fun r hr ↦ ?_
    obtain ⟨i, hi, -⟩ := (canonical_ofForm hshaped).mem_rows hr
    have hzero := priced_ofForm hshaped i r hi
    simp only [hzero, Scalar.abs_rat, abs_zero, if_neg (not_lt_of_ge ht)]
  have hback : t.restoreObjective (ofForm form).objective tolerances.pivot = ofForm form :=
    congrArg (fun q ↦ { ofForm form with objective := q }) hrestored
  have htolerances : (opened form tolerances messageLevel).tolerances = tolerances := rfl
  unfold afterPhaseOne
  rw [← ht', htolerances, hdriven, hback]
  rfl

theorem turn_opened (ht : 0 ≤ tolerances.pivot) :
    (opened form tolerances messageLevel).turn.value = unstarted form tolerances messageLevel := by
  have hattempt : (opened form tolerances messageLevel).attempt = .optimal := by
    simp [attempt, enteringColumn_opened hshaped hart ht]
  have hremains : (opened form tolerances messageLevel).tableau.artificialRemains
      tolerances.feasibility = false := by
    by_contra hne
    obtain ⟨i, r, hr, hb, -⟩ := exists_of_artificialRemains (Bool.not_eq_false _ ▸ hne)
    have hmem : r ∈ (ofForm form).rows.toList :=
      Array.mem_toList_iff.mpr (Array.mem_of_getElem? hr)
    exact not_artificialStart_le hshaped hart hmem hb
  have hphase :
      (opened form tolerances messageLevel).phase = .one (ofForm form).objective := rfl
  have htolerances : (opened form tolerances messageLevel).tolerances = tolerances := rfl
  rw [turn, hattempt, hphase]
  dsimp only
  rw [value_finishPhaseOne, htolerances, hremains, if_neg Bool.false_ne_true]
  exact afterPhaseOne_opened hshaped hart ht

/-- Without artificial variables it makes no difference to a run whether it starts in phase one. -/
theorem run_opened (ht : 0 ≤ tolerances.pivot) {d : Deadline} (hd : d.limit = none)
    (budget : ℕ) :
    let s := ((opened form tolerances messageLevel).run budget d).value.1
    let t := ((unstarted form tolerances messageLevel).run budget d).value.1
    s = t ∨ s.isDone = false ∧ t.isDone = false := by
  intro s t
  cases budget with
  | zero =>
    have hstays {u : Simplex ℚ} : (u.run 0 d).value = (u, d) := by
      simp [value_run, Logged.iterateWhile_succ, goesOn]
    exact .inr ⟨by simp only [s, hstays]; rfl, by simp only [t, hstays]; rfl⟩
  | succ budget =>
    refine .inl (congrArg Prod.fst ?_)
    have hgoes : goesOn (0 + (budget + 1)) (opened form tolerances messageLevel, d) = true :=
      goesOn_eq_true.mpr ⟨rfl, by simp [opened, unstarted], Deadline.expired_of_limit hd⟩
    have hturn : (timedTurn (opened form tolerances messageLevel, d)).value =
        (unstarted form tolerances messageLevel, d) :=
      Prod.ext (turn_opened hshaped hart ht) (Deadline.next_of_limit hd)
    calc ((opened form tolerances messageLevel).run (budget + 1) d).value
        = (Logged.iterateWhile (goesOn (0 + (budget + 1))) timedTurn (budget + 4)
            (opened form tolerances messageLevel, d)).value := value_run_eq_of_le (by omega)
      _ = (Logged.iterateWhile (goesOn (0 + (budget + 1))) timedTurn (budget + 3)
            (unstarted form tolerances messageLevel, d)).value := by
          rw [Logged.iterateWhile_succ, if_pos hgoes, Logged.value_bind, hturn]
      _ = _ := (value_run (unstarted form tolerances messageLevel) (budget + 1) d).symm

end

end LinProg.Simplex
