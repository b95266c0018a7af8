import LinProg.Proofs.StandardForm.Equivalence

namespace LinProg

instance (relation : Relation) (x y : ℚ) : Decidable (relation.Holds x y) :=
  match relation with
  | .le => inferInstanceAs (Decidable (x ≤ y))
  | .ge => inferInstanceAs (Decidable (y ≤ x))
  | .eq => inferInstanceAs (Decidable (x = y))

instance (c : Constraint ℚ) (v : ℕ → ℚ) : Decidable (c.Holds v) :=
  inferInstanceAs (Decidable (c.relation.Holds _ _))

namespace StandardForm

open ColumnMap

structure Image (form : StandardForm ℚ) (x : Array ℚ) (v : List ℚ) : Prop where
  length : v.length = form.numVars
  nonneg : ∀ a ∈ v, 0 ≤ a
  holds : ∀ c ∈ form.constraints, c.Holds (assignment v)
  recover : (form.recover v).toArray = x

theorem coefficient_eq_zero_of_isEmpty {r : Row ℚ} (hv : r.coefficients.Valid)
    (he : r.isEmpty = true) (slot : ℕ) : r.coefficients.coefficient slot = 0 := by
  by_cases hs : ∃ (k : ℕ) (e : Entry ℚ), r.coefficients.entries[k]? = some e ∧ e.slot = slot
  · obtain ⟨k, e, hk, rfl⟩ := hs
    have hmem : (e.slot, e.value) ∈ r.coefficients.toList :=
      List.mem_map_of_mem (f := fun e : Entry ℚ ↦ (e.slot, e.value))
        (Array.mem_toList_iff.mpr (Array.mem_of_getElem? hk))
    rw [hv.coefficient_slot hk]
    exact beq_iff_eq.mp (List.all_eq_true.mp he _ hmem)
  · exact hv.coefficient_eq_zero fun k e hk hslot ↦ hs ⟨k, e, hk, hslot⟩

theorem exists_image_of_feasible {p : Problem ℚ} (hp : p.WellPosed) (presolve : Bool)
    (tolerance : ℚ) {x : Array ℚ} (hx : p.Feasible x) :
    ∃ v, (ofProblem p presolve tolerance).Image x v := by
  obtain ⟨v, hlength, hpos, rfl⟩ := exists_recover_of_feasible hp hx
  exact ⟨v, hlength, hpos, ((feasible_recover_iff hp presolve tolerance hpos).mp hx).2, rfl⟩

/-- The feasible points are those with an image, provided that the rows which presolving drops
admit zero; and the objectives of a problem and of its standard form differ by sign and a
constant. -/
theorem feasible_iff_exists_image (p : Problem ℚ) (hp : p.WellPosed) (presolve : Bool)
    (tolerance : ℚ)
    (hdropped : presolve = true → ∀ r ∈ p.rows, r.boundType ≠ .free →
      (∀ slot, r.coefficients.coefficient slot = 0) → Within r.effectiveBounds 0) :
    let form := ofProblem p presolve tolerance
    (∀ x, p.Feasible x ↔ ∃ v, form.Image x v) ∧
      ∃ constant, ∀ v, dot form.objective (assignment v) + constant =
        form.sense * p.objectiveValue (form.recover v).toArray := by
  intro form
  have hzero : ∀ r ∈ p.rows, (presolve && r.isEmpty) = true → Within r.effectiveBounds 0 := by
    intro r hr hd
    obtain ⟨hpresolve, hempty⟩ := Bool.and_eq_true_iff.mp hd
    by_cases hfree : r.boundType = .free
    · rw [Row.effectiveBounds, hfree]
      exact within_free 0
    · exact hdropped hpresolve r hr hfree
        (coefficient_eq_zero_of_isEmpty (hp.rows_valid r hr) hempty)
  constructor
  · intro x
    constructor
    · exact exists_image_of_feasible hp presolve tolerance
    · rintro ⟨v, hv⟩
      rw [← hv.recover]
      exact (feasible_recover_iff hp presolve tolerance hv.nonneg).mpr ⟨hzero, hv.holds⟩
  · exact ⟨objectiveOffset p, objective_recover p presolve tolerance⟩

end StandardForm

namespace Problem

/-- A column of every bound type, a row over all of them, and a row without coefficients. -/
def allTypes : Problem ℚ :=
  { name := "all types", direction := .minimize
    columns := #[
      { name := "free", objective := 1, kind := .continuous, bounds := .explicit .negInf .posInf,
        boundType := .free },
      { name := "lower", objective := 2, kind := .continuous, bounds := .explicit (.fin 1) .posInf,
        boundType := .lower },
      { name := "upper", objective := 3, kind := .continuous, bounds := .explicit .negInf (.fin 4),
        boundType := .upper },
      { name := "double", objective := 4, kind := .continuous,
        bounds := .explicit (.fin (-2)) (.fin 3), boundType := .double },
      { name := "fixed", objective := 5, kind := .continuous,
        bounds := .explicit (.fin 7) (.fin 7), boundType := .fixed }]
    rows := #[
      { name := "sum", coefficients := ⟨#[some 0, some 1, some 2, some 3, some 4],
          #[⟨1, 1⟩, ⟨2, -1⟩, ⟨3, 2⟩, ⟨4, 1⟩, ⟨5, 1⟩]⟩,
        boundType := .double, lower := .fin 0, upper := .fin 20 },
      { name := "empty", coefficients := .zero 5, boundType := .lower, lower := .fin (-1),
        upper := .posInf }] }

theorem wellPosed_allTypes : allTypes.WellPosed := by
  have hsum : (⟨#[some 0, some 1, some 2, some 3, some 4],
      #[⟨1, 1⟩, ⟨2, -1⟩, ⟨3, 2⟩, ⟨4, 1⟩, ⟨5, 1⟩]⟩ : SparseVector ℚ).Valid :=
    SparseVector.valid_ofPairs
      (show SparseVector.ofPairs 5 [(1, (1 : ℚ)), (2, -1), (3, 2), (4, 1), (5, 1)] = .ok _ from rfl)
  refine ⟨?_, ?_, ?_⟩
  · simp only [allTypes, List.mem_toArray, List.forall_mem_cons]
    exact ⟨hsum, SparseVector.valid_zero 5, by simp⟩
  · simp only [allTypes, List.mem_toArray, List.forall_mem_cons, Row.Bounded, Row.sides]
    exact ⟨⟨⟨0, rfl⟩, ⟨20, rfl⟩, by simp⟩, ⟨⟨-1, rfl⟩, by simp⟩, by simp⟩
  · simp [allTypes, Column.Matched, Column.lower, Column.upper, ColumnBounds.resolve]

theorem feasible_iff_exists_image_allTypes :
    let form := StandardForm.ofProblem allTypes true 0
    allTypes.WellPosed ∧
      (∀ r ∈ allTypes.rows, r.boundType ≠ .free →
        (∀ slot, r.coefficients.coefficient slot = 0) → Within r.effectiveBounds 0) ∧
      allTypes.Feasible #[3 / 2, 2, 3, 0, 7] ∧
      ∃ constant, ∀ v, dot form.objective (ColumnMap.assignment v) + constant =
        form.sense * allTypes.objectiveValue (form.recover v).toArray := by
  intro form
  have hdropped : ∀ r ∈ allTypes.rows, r.boundType ≠ .free →
      (∀ slot, r.coefficients.coefficient slot = 0) → Within r.effectiveBounds 0 := by
    simp only [allTypes, List.mem_toArray, List.forall_mem_cons]
    refine ⟨fun _ h ↦ absurd (h 1) (by decide +kernel), fun _ _ ↦ by decide +kernel, by simp⟩
  obtain ⟨hfeasible, hobjective⟩ := StandardForm.feasible_iff_exists_image allTypes
    wellPosed_allTypes true 0 fun _ ↦ hdropped
  refine ⟨wellPosed_allTypes, hdropped, (hfeasible _).mpr ⟨[2, 1 / 2, 1, 1, 2], ?_⟩, hobjective⟩
  exact ⟨by decide +kernel, by decide +kernel, by decide +kernel, by decide +kernel⟩

end Problem

end LinProg
