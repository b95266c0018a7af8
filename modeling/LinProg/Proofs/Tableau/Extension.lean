import LinProg.Proofs.Tableau.PhaseTwo
import LinProg.Proofs.Thinning

namespace LinProg

variable {e f : ℕ → ℕ}

namespace Equation

structure Agrees (e : ℕ → ℕ) (E q : Equation ℚ) : Prop where
  coefficient : ∀ j, E.coefficient (e j) = q.coefficient j
  rhs : E.rhs = q.rhs

/-- No coefficients but those of the other equation. -/
structure Spreads (e : ℕ → ℕ) (E q : Equation ℚ) : Prop extends Agrees e E q where
  coefficient_eq_zero : ∀ k ∉ Set.range e, E.coefficient k = 0

variable {E P q p : Equation ℚ}

theorem toList_extract {n : ℕ} (h : n ≤ q.coefficients.size) :
    (q.coefficients.extract 0 n).toList = (List.range n).map q.coefficient := by
  apply List.ext_getElem?
  intro j
  rw [List.getElem?_map, Array.getElem?_toList, Array.getElem?_extract, Nat.zero_add, Nat.sub_zero,
    min_eq_left h]
  split_ifs with hj
  · rw [List.getElem?_range hj, Option.map_some, coefficient_of_lt (hj.trans_le h),
      Array.getElem?_eq_getElem]
  · rw [List.getElem?_eq_none (by simpa using hj), Option.map_none]

theorem findIdx?_extract {n : ℕ} (h : n ≤ q.coefficients.size) (test : ℚ → Bool) :
    (q.coefficients.extract 0 n).findIdx? test =
      ((List.range n).map q.coefficient).findIdx? test := by
  rw [← toList_extract h, ← List.findIdx?_toArray, Array.toArray_toList]

theorem eliminate_of_eq_zero {j : ℕ} (h : E.coefficient j = 0) : E.eliminate j P = E := by
  simp [eliminate, h]

theorem Agrees.divide (h : E.Agrees e q) (d : ℚ) : (E.divide d).Agrees e (q.divide d) :=
  ⟨fun j ↦ by rw [coefficient_divide, coefficient_divide, h.coefficient],
    congrArg (· / d) h.rhs⟩

theorem Spreads.divide (h : E.Spreads e q) (d : ℚ) : (E.divide d).Spreads e (q.divide d) :=
  ⟨h.toAgrees.divide d, fun k hk ↦ by rw [coefficient_divide, h.coefficient_eq_zero k hk, zero_div]⟩

section

variable (hP : P.coefficients.size = E.coefficients.size)
  (hp : p.coefficients.size = q.coefficients.size)

include hP hp

theorem Agrees.add (h : E.Agrees e q) (hadd : P.Agrees e p) : (E.add P).Agrees e (q.add p) := by
  refine ⟨fun j ↦ ?_, congrArg₂ (· + ·) h.rhs hadd.rhs⟩
  rw [coefficient_add hP, coefficient_add hp, h.coefficient, hadd.coefficient]

theorem Agrees.subScaled (h : E.Agrees e q) (hsub : P.Agrees e p) (k : ℚ) :
    (E.subScaled k P).Agrees e (q.subScaled k p) := by
  refine ⟨fun j ↦ ?_, congrArg₂ (fun x y ↦ x - k * y) h.rhs hsub.rhs⟩
  rw [coefficient_subScaled hP, coefficient_subScaled hp, h.coefficient, hsub.coefficient]

theorem Spreads.subScaled (h : E.Spreads e q) (hsub : P.Spreads e p) (k : ℚ) :
    (E.subScaled k P).Spreads e (q.subScaled k p) := by
  refine ⟨h.toAgrees.subScaled hP hp hsub.toAgrees k, fun i hi ↦ ?_⟩
  rw [coefficient_subScaled hP, h.coefficient_eq_zero i hi, hsub.coefficient_eq_zero i hi, mul_zero,
    sub_zero]

theorem Agrees.eliminate (h : E.Agrees e q) (hsub : P.Agrees e p) (j : ℕ) :
    (E.eliminate (e j) P).Agrees e (q.eliminate j p) := by
  obtain ⟨-, hrhs, hcoeff⟩ := eliminate_eq hP (e j)
  obtain ⟨-, hrhs', hcoeff'⟩ := eliminate_eq hp j
  refine ⟨fun i ↦ ?_, ?_⟩
  · rw [hcoeff, hcoeff', h.coefficient, h.coefficient, hsub.coefficient]
  · rw [hrhs, hrhs', h.rhs, h.coefficient, hsub.rhs]

end

theorem Spreads.coefficient_eliminate (hsub : P.Spreads e p)
    (hP : P.coefficients.size = E.coefficients.size) (j : ℕ) {k : ℕ} (hk : k ∉ Set.range e) :
    (E.eliminate j P).coefficient k = E.coefficient k := by
  rw [(eliminate_eq hP j).2.2, hsub.coefficient_eq_zero k hk, mul_zero, sub_zero]

theorem Spreads.eliminate (h : E.Spreads e q) (hsub : P.Spreads e p)
    (hP : P.coefficients.size = E.coefficients.size)
    (hp : p.coefficients.size = q.coefficients.size) (j : ℕ) :
    (E.eliminate (e j) P).Spreads e (q.eliminate j p) :=
  ⟨h.toAgrees.eliminate hP hp hsub.toAgrees j, fun k hk ↦ by
    rw [hsub.coefficient_eliminate hP _ hk, h.coefficient_eq_zero k hk]⟩

end Equation

namespace Tableau

variable {T t : Tableau ℚ}

structure Embeds (e : ℕ → ℕ) (T t : Tableau ℚ) : Prop where
  strictMono : StrictMono e
  lt_width_iff : ∀ j, e j < T.width ↔ j < t.width
  lt_artificialStart_iff : ∀ j, e j < T.artificialStart ↔ j < t.artificialStart
  numVars_eq : T.numVars = t.numVars
  eq_self : ∀ j < t.numVars, e j = j

structure KeptRow (e : ℕ → ℕ) (R r : BasicRow ℚ) : Prop where
  basic_eq : R.basic = e r.basic
  spreads : R.equation.Spreads e r.equation

/-- A row that says nothing about the old columns, and nothing at all about what an artificial
variable has to make up for. -/
structure IdleRow (e : ℕ → ℕ) (artificialStart : ℕ) (R : BasicRow ℚ) : Prop where
  basic_not_mem : R.basic ∉ Set.range e
  coefficient_eq_zero : ∀ j, R.equation.coefficient (e j) = 0
  rhs_eq_zero : artificialStart ≤ R.basic → R.equation.rhs = 0

/-- The first tableau has the rows and columns of the second one, at the places that `f` and `e`
give, and besides them only idle rows and columns. -/
structure Extends (e f : ℕ → ℕ) (T t : Tableau ℚ) : Prop where
  embeds : Embeds e T t
  canonical_left : Canonical T
  canonical : Canonical t
  rows : Thinned f (KeptRow e) (IdleRow e T.artificialStart) T.rows.toList t.rows.toList
  objective : T.objective.Agrees e t.objective

theorem Embeds.artificialStart_le_iff (h : Embeds e T t) (j : ℕ) :
    T.artificialStart ≤ e j ↔ t.artificialStart ≤ j := by
  rw [← not_lt, h.lt_artificialStart_iff, not_lt]

@[simp] theorem numVars_pivot (t : Tableau ℚ) (row column : ℕ) :
    (t.pivot row column).numVars = t.numVars := by
  unfold pivot
  split <;> rfl

@[simp] theorem duals_pivot (t : Tableau ℚ) (row column : ℕ) :
    (t.pivot row column).duals = t.duals := by
  unfold pivot
  split <;> rfl

theorem duals_driveOutArtificials {tolerance : ℚ} (ht : 0 ≤ tolerance) (t : Tableau ℚ) :
    (t.driveOutArtificials tolerance).duals = t.duals :=
  driveOutArtificials_invariant (P := fun t' ↦ t'.duals = t.duals) ht
    (fun t' row column _ h _ _ ↦ by rw [duals_pivot, h]) rfl

theorem width_driveOutArtificials {tolerance : ℚ} (ht : 0 ≤ tolerance) (t : Tableau ℚ) :
    (t.driveOutArtificials tolerance).width = t.width :=
  driveOutArtificials_invariant (P := fun t' ↦ t'.width = t.width) ht
    (fun t' row column _ h _ _ ↦ by rw [width_pivot, h]) rfl

theorem Embeds.pivot_left (h : Embeds e T t) (row column : ℕ) : Embeds e (T.pivot row column) t :=
  ⟨h.strictMono, by simpa using h.lt_width_iff, by simpa using h.lt_artificialStart_iff,
    by simpa using h.numVars_eq, h.eq_self⟩

theorem Embeds.pivot_right (h : Embeds e T t) (row column : ℕ) :
    Embeds e T (t.pivot row column) :=
  ⟨h.strictMono, by simpa using h.lt_width_iff, by simpa using h.lt_artificialStart_iff,
    by simpa using h.numVars_eq, by simpa using h.eq_self⟩

theorem KeptRow.pivotEquation {R r : BasicRow ℚ} (h : KeptRow e R r) (column : ℕ) :
    (pivotEquation R (e column)).Spreads e (pivotEquation r column) := by
  rw [Tableau.pivotEquation, h.spreads.coefficient]
  exact h.spreads.divide _

namespace Extends

variable {i k column : ℕ} {r R : BasicRow ℚ}

theorem exists_row (h : Extends e f T t) (hr : t.rows[i]? = some r) :
    ∃ R, T.rows[f i]? = some R ∧ KeptRow e R r := by
  rw [← Array.getElem?_toList] at hr
  obtain ⟨R, hR, hkept⟩ := h.rows.exists_kept hr
  exact ⟨R, by rwa [← Array.getElem?_toList], hkept⟩

theorem exists_row' (h : Extends e f T t) (hR : T.rows[f i]? = some R) :
    ∃ r, t.rows[i]? = some r ∧ KeptRow e R r := by
  rw [← Array.getElem?_toList] at hR
  obtain ⟨r, hr, hkept⟩ := h.rows.exists_kept' hR
  exact ⟨r, by rwa [← Array.getElem?_toList], hkept⟩

theorem idle_row (h : Extends e f T t) (hk : k ∉ Set.range f) (hR : T.rows[k]? = some R) :
    IdleRow e T.artificialStart R :=
  h.rows.dropped k hk R (by rwa [Array.getElem?_toList])

theorem pivot (h : Extends e f T t) (hr : t.rows[i]? = some r)
    (hc : r.equation.coefficient column ≠ 0) :
    Extends e f (T.pivot (f i) (e column)) (t.pivot i column) := by
  obtain ⟨R, hR, hkept⟩ := h.exists_row hr
  have hC : R.equation.coefficient (e column) ≠ 0 := by rwa [hkept.spreads.coefficient]
  have hP := hkept.pivotEquation column
  refine ⟨(h.embeds.pivot_left _ _).pivot_right _ _, h.canonical_left.pivot hR hC,
    h.canonical.pivot hr hc, ⟨h.rows.strictMono, ?_, ?_, ?_⟩, ?_⟩
  · simpa using h.rows.lt_length_iff
  · intro j Q' q' hQ' hq'
    rw [Array.getElem?_toList, getElem?_rows_pivot hR, Option.map_eq_some_iff] at hQ'
    rw [Array.getElem?_toList, getElem?_rows_pivot hr, Option.map_eq_some_iff] at hq'
    obtain ⟨Q, hQ, rfl⟩ := hQ'
    obtain ⟨q, hq, rfl⟩ := hq'
    by_cases hj : j = i
    · subst hj
      rw [pivotedRow_self, pivotedRow_self]
      exact ⟨rfl, hP⟩
    · have hrow := h.rows.kept j Q q (by rwa [Array.getElem?_toList])
        (by rwa [Array.getElem?_toList])
      rw [pivotedRow_of_ne hj, pivotedRow_of_ne fun he ↦ hj (h.rows.strictMono.injective he)]
      refine ⟨hrow.basic_eq, hrow.spreads.eliminate hP ?_ ?_ column⟩
      · rw [h.canonical_left.size_pivotEquation hR, h.canonical_left.size_row _ Q hQ]
      · rw [h.canonical.size_pivotEquation hr, h.canonical.size_row j q hq]
  · intro k hk Q' hQ'
    rw [Array.getElem?_toList, getElem?_rows_pivot hR, Option.map_eq_some_iff] at hQ'
    obtain ⟨Q, hQ, rfl⟩ := hQ'
    have hidle := h.idle_row hk hQ
    -- an idle row has no entry in the column, so nothing is taken from it
    rw [pivotedRow_of_ne fun he ↦ hk ⟨i, he.symm⟩, artificialStart_pivot,
      Equation.eliminate_of_eq_zero (hidle.coefficient_eq_zero column)]
    exact hidle
  · rw [objective_pivot hR, objective_pivot hr]
    refine h.objective.eliminate ?_ ?_ hP.toAgrees column
    · rw [h.canonical_left.size_pivotEquation hR, h.canonical_left.size_objective]
    · rw [h.canonical.size_pivotEquation hr, h.canonical.size_objective]

theorem cost_pivot (h : Extends e f T t) (hr : t.rows[i]? = some r) (hk : k ∉ Set.range e) :
    (T.pivot (f i) (e column)).objective.coefficient k = T.objective.coefficient k := by
  obtain ⟨R, hR, hkept⟩ := h.exists_row hr
  rw [objective_pivot hR]
  refine (hkept.pivotEquation column).coefficient_eliminate ?_ _ hk
  rw [h.canonical_left.size_pivotEquation hR, h.canonical_left.size_objective]

/-- A pivot on an idle row, which its basic variable leaves with value zero. -/
theorem pivot_idle (h : Extends e f T t) (hR : T.rows[k]? = some R) (hk : k ∉ Set.range f)
    (hb : T.artificialStart ≤ R.basic) (hC : R.equation.coefficient column ≠ 0) :
    Extends e f (T.pivot k column) t := by
  have hidle := h.idle_row hk hR
  have hcolumn : column ∉ Set.range e := by
    rintro ⟨j, rfl⟩
    exact hC (hidle.coefficient_eq_zero j)
  have hP (j : ℕ) : (Tableau.pivotEquation R column).coefficient (e j) = 0 := by
    rw [Tableau.pivotEquation, Equation.coefficient_divide, hidle.coefficient_eq_zero, zero_div]
  have hrhs : (Tableau.pivotEquation R column).rhs = 0 := by
    rw [Tableau.pivotEquation, Equation.divide, hidle.rhs_eq_zero hb, zero_div]
  refine ⟨h.embeds.pivot_left _ _, h.canonical_left.pivot hR hC, h.canonical,
    ⟨h.rows.strictMono, ?_, ?_, ?_⟩, ?_⟩
  · simpa using h.rows.lt_length_iff
  · intro j Q' q hQ' hq
    rw [Array.getElem?_toList, getElem?_rows_pivot hR, Option.map_eq_some_iff] at hQ'
    obtain ⟨Q, hQ, rfl⟩ := hQ'
    have hrow := h.rows.kept j Q q (by rwa [Array.getElem?_toList]) hq
    rw [pivotedRow_of_ne fun he ↦ hk ⟨j, he⟩,
      Equation.eliminate_of_eq_zero (hrow.spreads.coefficient_eq_zero column hcolumn)]
    exact hrow
  · intro j hj Q' hQ'
    rw [Array.getElem?_toList] at hQ'
    rw [artificialStart_pivot]
    rcases rows_pivot_cases h.canonical_left hR hQ' with
      ⟨-, rfl⟩ | ⟨Q, hQ, -, hbasic, hrhs', hcoeff⟩
    · exact ⟨hcolumn, hP, fun _ ↦ hrhs⟩
    · have hrow := h.idle_row hj hQ
      refine ⟨hbasic ▸ hrow.basic_not_mem, fun i ↦ ?_, fun hb' ↦ ?_⟩
      · rw [hcoeff, hP, hrow.coefficient_eq_zero, mul_zero, sub_zero]
      · rw [hrhs', hrhs, hrow.rhs_eq_zero (hbasic ▸ hb'), mul_zero, sub_zero]
  · obtain ⟨hrhs', hcoeff⟩ := objective_pivot_eq h.canonical_left hR
    refine ⟨fun j ↦ ?_, ?_⟩
    · rw [hcoeff, hP, mul_zero, sub_zero, h.objective.coefficient]
    · rw [hrhs', hrhs, mul_zero, sub_zero, h.objective.rhs]

variable {tolerance : ℚ}

theorem driveOut_kept (ht : 0 ≤ tolerance) (h : Extends e f T t) (i : ℕ) :
    Extends e f (T.driveOut tolerance (f i)) (t.driveOut tolerance i) := by
  cases hr : t.rows[i]? with
  | none =>
    have hR : T.rows[f i]? = none := by
      rw [Option.eq_none_iff_forall_ne_some]
      intro R hR
      obtain ⟨r, hr', -⟩ := h.exists_row' hR
      simp [hr] at hr'
    simpa only [driveOut, hr, hR] using h
  | some r =>
    obtain ⟨R, hR, hkept⟩ := h.exists_row hr
    have hsize : t.artificialStart ≤ r.equation.coefficients.size := by
      rw [h.canonical.size_row i r hr]
      exact Nat.le_add_right _ _
    have hsize' : T.artificialStart ≤ R.equation.coefficients.size := by
      rw [h.canonical_left.size_row _ R hR]
      exact Nat.le_add_right _ _
    have hthin : Thinned e (· = ·) (· = (0 : ℚ))
        ((List.range T.artificialStart).map R.equation.coefficient)
        ((List.range t.artificialStart).map r.equation.coefficient) :=
      thinned_map_range h.embeds.strictMono h.embeds.lt_artificialStart_iff
        (fun j _ ↦ hkept.spreads.coefficient j) hkept.spreads.coefficient_eq_zero
    have hfind := hthin.findIdx? (P := fun x ↦ decide (tolerance < Scalar.abs x))
      (p := fun x ↦ decide (tolerance < Scalar.abs x)) (fun x y hxy ↦ by rw [hxy])
      fun x hx ↦ by simpa [hx, Scalar.abs_rat] using ht
    simp only [driveOut, hr, hR, hkept.basic_eq, h.embeds.artificialStart_le_iff,
      Equation.findIdx?_extract hsize, Equation.findIdx?_extract hsize', hfind]
    split_ifs
    · cases hcolumn : ((List.range t.artificialStart).map r.equation.coefficient).findIdx?
          fun x ↦ decide (tolerance < Scalar.abs x) with
      | none => exact h
      | some column =>
        obtain ⟨hlt, hx, -⟩ := List.findIdx?_eq_some_iff_getElem.mp hcolumn
        simp only [List.getElem_map, List.getElem_range, Scalar.abs_rat, decide_eq_true_iff] at hx
        exact h.pivot hr (abs_pos.mp (ht.trans_lt hx))
    · exact h

theorem driveOut_idle (ht : 0 ≤ tolerance) (h : Extends e f T t) (hk : k ∉ Set.range f) :
    Extends e f (T.driveOut tolerance k) t := by
  rcases driveOut_cases ht T k with ⟨he, -⟩ | ⟨R, column, hR, hb, -, hC, he⟩
  · rwa [he]
  · rw [he]
    exact h.pivot_idle hR hk hb hC

theorem driveOutArtificials (ht : 0 ≤ tolerance) (h : Extends e f T t) :
    Extends e f (T.driveOutArtificials tolerance) (t.driveOutArtificials tolerance) := by
  have hthin : Thinned f (fun k i ↦ k = f i) (· ∉ Set.range f) ((List.range T.rows.size).map id)
      ((List.range t.rows.size).map id) :=
    thinned_map_range h.rows.strictMono (by simpa using h.rows.lt_length_iff) (fun _ _ ↦ rfl)
      fun _ hk ↦ hk
  rw [List.map_id, List.map_id] at hthin
  refine hthin.foldl (R := Extends e f) ?_ ?_ h
  · rintro k i T t rfl h
    exact h.driveOut_kept ht i
  · intro k T t hk h
    exact h.driveOut_idle ht hk

theorem restoreObjective (ht : 0 ≤ tolerance) (h : Extends e f T t) {O o : Equation ℚ}
    (ho : O.Spreads e o) (hO : O.coefficients.size = T.width)
    (ho' : o.coefficients.size = t.width) :
    Extends e f (T.restoreObjective O tolerance) (t.restoreObjective o tolerance) ∧
      ∀ k ∉ Set.range e, (T.restoreObjective O tolerance).objective.coefficient k = 0 := by
  have hfolds : (restoredObjective tolerance O T.rows.toList).Spreads e
      (restoredObjective tolerance o t.rows.toList) ∧
        (restoredObjective tolerance O T.rows.toList).coefficients.size = T.width ∧
        (restoredObjective tolerance o t.rows.toList).coefficients.size = t.width := by
    refine h.rows.with_mem.foldl
      (R := fun E q : Equation ℚ ↦
        E.Spreads e q ∧ E.coefficients.size = T.width ∧ q.coefficients.size = t.width)
      ?_ ?_ ⟨ho, hO, ho'⟩
    · rintro R r E q ⟨hkept, hR, hr⟩ ⟨hspreads, hE, hq⟩
      have hER := h.canonical_left.size_eq_of_mem hR hE
      have hqr := h.canonical.size_eq_of_mem hr hq
      simp only [hkept.basic_eq, hspreads.coefficient]
      split_ifs
      · exact ⟨hspreads.subScaled hER hqr hkept.spreads _, by rw [Equation.size_subScaled hER, hE],
          by rw [Equation.size_subScaled hqr, hq]⟩
      · exact ⟨hspreads, hE, hq⟩
    · rintro R E q ⟨hidle, -⟩ ⟨hspreads, hE, hq⟩
      have hzero : ¬ tolerance < Scalar.abs (E.coefficient R.basic) := by
        rw [hspreads.coefficient_eq_zero _ hidle.basic_not_mem, Scalar.abs_rat, abs_zero]
        exact not_lt_of_ge ht
      simp only [if_neg hzero]
      exact ⟨hspreads, hE, hq⟩
  obtain ⟨hspreads, hE, hq⟩ := hfolds
  rw [← objective_restoreObjective] at hspreads hE
  rw [← objective_restoreObjective] at hspreads hq
  refine ⟨⟨⟨h.embeds.strictMono, h.embeds.lt_width_iff, h.embeds.lt_artificialStart_iff,
    h.embeds.numVars_eq, h.embeds.eq_self⟩, ⟨h.canonical_left.size_row, hE, h.canonical_left.basis⟩,
    ⟨h.canonical.size_row, hq, h.canonical.basis⟩, h.rows, hspreads.toAgrees⟩,
    hspreads.coefficient_eq_zero⟩

theorem phaseOne (h : Extends e f T t) :
    Extends e f { T with objective := T.phaseOneObjective }
      { t with objective := t.phaseOneObjective } := by
  have hstart : T.minusSum.Agrees e t.minusSum := by
    refine ⟨fun j ↦ ?_, rfl⟩
    simp only [coefficient_minusSum, h.embeds.artificialStart_le_iff, h.embeds.lt_width_iff]
  have hfolds := h.rows.with_mem.foldl
    (G := fun E r ↦ if T.artificialStart ≤ r.basic then E.add r.equation else E)
    (g := fun E r ↦ if t.artificialStart ≤ r.basic then E.add r.equation else E)
    (R := fun E q : Equation ℚ ↦
      E.Agrees e q ∧ E.coefficients.size = T.width ∧ q.coefficients.size = t.width)
    ?_ ?_ ⟨hstart, size_minusSum T, size_minusSum t⟩
  · rw [← pricedSum, ← pricedSum, ← phaseOneObjective_eq, ← phaseOneObjective_eq] at hfolds
    obtain ⟨hagrees, hE, hq⟩ := hfolds
    exact ⟨⟨h.embeds.strictMono, h.embeds.lt_width_iff, h.embeds.lt_artificialStart_iff,
      h.embeds.numVars_eq, h.embeds.eq_self⟩,
      ⟨h.canonical_left.size_row, hE, h.canonical_left.basis⟩,
      ⟨h.canonical.size_row, hq, h.canonical.basis⟩, h.rows, hagrees⟩
  · rintro R r E q ⟨hkept, hR, hr⟩ ⟨hagrees, hE, hq⟩
    have hER := h.canonical_left.size_eq_of_mem hR hE
    have hqr := h.canonical.size_eq_of_mem hr hq
    simp only [hkept.basic_eq, h.embeds.artificialStart_le_iff]
    split_ifs
    · exact ⟨hagrees.add hER hqr hkept.spreads.toAgrees, by rw [Equation.size_add hER, hE],
        by rw [Equation.size_add hqr, hq]⟩
    · exact ⟨hagrees, hE, hq⟩
  · rintro R E q ⟨hidle, hR⟩ ⟨hagrees, hE, hq⟩
    have hER := h.canonical_left.size_eq_of_mem hR hE
    split_ifs with hb
    · refine ⟨⟨fun j ↦ ?_, ?_⟩, by rw [Equation.size_add hER, hE], hq⟩
      · rw [Equation.coefficient_add hER, hidle.coefficient_eq_zero, add_zero, hagrees.coefficient]
      · rw [Equation.add, hidle.rhs_eq_zero hb, add_zero, hagrees.rhs]
    · exact ⟨hagrees, hE, hq⟩

/-- Where there is one idle row, a further column costs in phase one no more than its entry there,
and nothing if it is basic in it. -/
theorem phaseOne_cost_nonpos (h : Extends e f T t) (hR : T.rows[k]? = some R)
    (hrange : ∀ i ≠ k, i ∈ Set.range f) {j : ℕ} (hj : j ∉ Set.range e)
    (hentry : T.artificialStart ≤ R.basic → j ≠ R.basic → R.equation.coefficient j ≤ 0) :
    T.phaseOneObjective.coefficient j ≤ 0 := by
  -- of the rows that are summed up only the idle one has an entry in the column
  have hrow : T.rows.toList[k]? = some R := by rwa [Array.getElem?_toList]
  have hminus : (if T.artificialStart ≤ j ∧ j < T.width then (-1 : ℚ) else 0) ≤ 0 := by
    split_ifs <;> norm_num
  rw [phaseOneObjective_eq, split_of_getElem? hrow, coefficient_pricedSum_split,
    coefficient_minusSum]
  · by_cases hb : T.artificialStart ≤ R.basic
    · rw [if_pos hb]
      by_cases hjb : j = R.basic
      · have hone := h.canonical_left.basis k k R R hR hR
        rw [hjb, if_pos ⟨hb, h.canonical_left.basic_lt_width hR⟩, hone, if_pos rfl]
        norm_num
      · exact add_nonpos hminus (hentry hb hjb)
    · rwa [if_neg hb, add_zero]
  · intro Q hQ
    rw [← split_of_getElem? hrow] at hQ
    exact h.canonical_left.size_eq_of_mem hQ (size_minusSum T)
  · intro Q hQ
    obtain ⟨i, hne, hQ⟩ := exists_ne_of_mem_take_drop hQ
    obtain ⟨i, rfl⟩ := hrange i hne
    rw [Array.getElem?_toList] at hQ
    obtain ⟨r, -, hkept⟩ := h.exists_row' hQ
    exact hkept.spreads.coefficient_eq_zero j hj

theorem artificialRemains_eq (ht : 0 ≤ tolerance) (h : Extends e f T t) :
    T.artificialRemains tolerance = t.artificialRemains tolerance := by
  have hiff (t : Tableau ℚ) : t.artificialRemains tolerance = true ↔
      ∃ (i : ℕ) (r : BasicRow ℚ), t.rows[i]? = some r ∧ t.artificialStart ≤ r.basic ∧
        tolerance < |r.equation.rhs| := by
    refine ⟨exists_of_artificialRemains, ?_⟩
    rintro ⟨i, r, hr, hb, hlt⟩
    obtain ⟨hi, rfl⟩ := Array.getElem?_eq_some_iff.mp hr
    exact Array.any_eq_true.mpr ⟨i, hi, by simp [hb, hlt, Scalar.abs_rat]⟩
  rw [Bool.eq_iff_iff, hiff, hiff]
  constructor
  · rintro ⟨k, R, hR, hb, hlt⟩
    by_cases hk : k ∈ Set.range f
    · obtain ⟨i, rfl⟩ := hk
      obtain ⟨r, hr, hkept⟩ := h.exists_row' hR
      rw [hkept.basic_eq, h.embeds.artificialStart_le_iff] at hb
      rw [hkept.spreads.rhs] at hlt
      exact ⟨i, r, hr, hb, hlt⟩
    · rw [(h.idle_row hk hR).rhs_eq_zero hb, abs_zero] at hlt
      exact absurd hlt (not_lt_of_ge ht)
  · rintro ⟨i, r, hr, hb, hlt⟩
    obtain ⟨R, hR, hkept⟩ := h.exists_row hr
    refine ⟨f i, R, hR, ?_, ?_⟩
    · rwa [hkept.basic_eq, h.embeds.artificialStart_le_iff]
    · rwa [hkept.spreads.rhs]

theorem basicPoint_eq (h : Extends e f T t) : T.basicPoint = t.basicPoint := by
  have hfolds := h.rows.foldl (G := fun v r ↦ v.setIfInBounds r.basic r.equation.rhs)
    (g := fun v r ↦ v.setIfInBounds r.basic r.equation.rhs)
    (R := fun V v : Array ℚ ↦ V = v ∧ v.size = t.numVars) (fun R r V v hkept hV ↦ ?_)
    (fun R V v hidle hV ↦ ?_) (s := Array.replicate T.numVars 0) (t := Array.replicate t.numVars 0)
    ⟨by rw [h.embeds.numVars_eq], by simp⟩
  · rw [basicPoint, basicPoint, ← Array.foldl_toList, ← Array.foldl_toList, hfolds.1]
  · obtain ⟨rfl, hsize⟩ := hV
    refine ⟨?_, by simpa using hsize⟩
    rw [hkept.basic_eq, hkept.spreads.rhs]
    by_cases hb : r.basic < t.numVars
    · rw [h.embeds.eq_self _ hb]
    · have hle := h.embeds.strictMono.le_apply (x := r.basic)
      rw [Array.setIfInBounds_eq_of_size_le (by omega),
        Array.setIfInBounds_eq_of_size_le (by omega)]
  · obtain ⟨rfl, hsize⟩ := hV
    have hle : t.numVars ≤ R.basic := by
      by_contra hlt
      exact hidle.basic_not_mem ⟨R.basic, h.embeds.eq_self _ (Nat.lt_of_not_le hlt)⟩
    exact ⟨Array.setIfInBounds_eq_of_size_le (by omega), hsize⟩

end Extends

end Tableau

end LinProg
