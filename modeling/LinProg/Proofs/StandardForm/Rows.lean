import LinProg.Proofs.Problem.Feasible
import LinProg.Proofs.StandardForm.Forms

namespace LinProg

open ColumnMap StandardForm

theorem Row.activity_eq {r : Row ℚ} (hv : r.coefficients.Valid) {n : ℕ} {x : Array ℚ}
    (hx : x.size ≤ n) :
    r.activity x = dot (rowCoefficients n r) (assignment x.toList) := by
  have hout (j : ℕ) (hj : n ≤ j) : (x[j]?).getD 0 = 0 := by
    rw [Array.getElem?_eq_none (by omega)]
    rfl
  rw [activity, Scalar.sum_rat, hv.sum_toList hout, dot, length_rowCoefficients]
  refine Finset.sum_congr rfl fun j hj ↦ ?_
  rw [rowCoefficients, assignment, List.getD_eq_getElem?_getD, List.getD_eq_getElem?_getD,
    List.getElem?_map, List.getElem?_range (Finset.mem_range.mp hj), Array.getElem?_toList]
  rfl

namespace StandardForm

variable {columns : List (ColumnMap ℚ)} {r : Row ℚ}

theorem foldl_add {γ : Type} {f : ℚ → γ → ℚ} {g : γ → ℚ}
    (h : ∀ total c, f total c = total + g c) (total : ℚ) (l : List γ) :
    l.foldl f total = total + (l.map g).sum := by
  induction l generalizing total with
  | nil => exact (add_zero total).symm
  | cons c l ih => rw [List.foldl_cons, ih, h, List.map_cons, List.sum_cons, add_assoc]

theorem shiftedSides_eq (columns : List (ColumnMap ℚ)) (hv : r.coefficients.Valid) :
    shiftedSides columns r = r.sides.map fun (relation, side) ↦
      (relation, side.toScalar - constantPart (rowCoefficients columns.length r) columns) := by
  have hout (j : ℕ) (hj : columns.length ≤ j) : ((columns[j]?).map offset).getD 0 = 0 := by
    rw [List.getElem?_eq_none hj]
    rfl
  have hsum : (r.coefficients.toList.map fun p ↦
      p.2 * ((columns[p.1 - 1]?).map offset).getD 0).sum =
        constantPart (rowCoefficients columns.length r) columns := by
    rw [hv.sum_toList hout, constantPart_eq, dot, length_rowCoefficients]
    refine Finset.sum_congr rfl fun j hj ↦ ?_
    rw [rowCoefficients, List.getD_eq_getElem?_getD, List.getElem?_map,
      List.getElem?_range (Finset.mem_range.mp hj)]
    rfl
  refine List.map_congr_left fun side _ ↦ congrArg (fun k ↦ (side.1, side.2.toScalar - k)) ?_
  rw [← hsum, ← zero_add (List.sum _)]
  refine foldl_add (fun total p ↦ ?_) 0 _
  simp only [List.getElem?_toArray]
  cases columns[p.1 - 1]? with
  | none => simp
  | some m => simp [shift_eq]

theorem sides_hold_iff (hb : r.Bounded) (a k : ℚ) :
    (∀ side ∈ r.sides, side.1.Holds a (side.2.toScalar - k)) ↔
      Within r.effectiveBounds (a + k) := by
  have hside (side : Relation × Extended ℚ) (hs : side ∈ r.sides) : ∃ b, side.2 = .fin b :=
    hb side hs
  unfold Row.effectiveBounds BoundType.apply
  cases ht : r.boundType with
  | free => simp [Row.sides, ht, within_free]
  | lower =>
    obtain ⟨l, hl : r.lower = .fin l⟩ := hside (.ge, r.lower) (by simp [Row.sides, ht])
    simp [Row.sides, ht, hl, within_lower, Relation.Holds, Extended.toScalar]
  | upper =>
    obtain ⟨u, hu : r.upper = .fin u⟩ := hside (.le, r.upper) (by simp [Row.sides, ht])
    simp [Row.sides, ht, hu, within_upper, Relation.Holds, Extended.toScalar, le_sub_iff_add_le]
  | double =>
    obtain ⟨l, hl : r.lower = .fin l⟩ := hside (.ge, r.lower) (by simp [Row.sides, ht])
    obtain ⟨u, hu : r.upper = .fin u⟩ := hside (.le, r.upper) (by simp [Row.sides, ht])
    simp [Row.sides, ht, hl, hu, within_fin, Relation.Holds, Extended.toScalar, le_sub_iff_add_le]
  | fixed =>
    obtain ⟨l, hl : r.lower = .fin l⟩ := hside (.eq, r.lower) (by simp [Row.sides, ht])
    simp only [Row.sides, ht, List.mem_singleton, forall_eq, hl, within_fin, Relation.Holds,
      Extended.toScalar]
    constructor
    · intro h
      constructor <;> linarith
    · rintro ⟨h, h'⟩
      linarith

theorem rowConstraints_hold_iff (hv : r.coefficients.Valid) (hb : r.Bounded) (i : ℕ)
    (v : List ℚ) :
    (∀ c ∈ rowConstraints columns r i, c.Holds (assignment v)) ↔
      Within r.effectiveBounds (r.activity (ColumnMap.recover columns v).toArray) := by
  have hsize : (ColumnMap.recover columns v).toArray.size ≤ columns.length := by simp
  rw [Row.activity_eq hv hsize, ← dot_spreadAll (length_rowCoefficients _ _) v, ← spreadRow_eq,
    ← sides_hold_iff hb]
  simp only [rowConstraints, shiftedSides_eq columns hv, List.map_map, List.forall_mem_map]
  rfl

theorem activity_eq_zero (he : r.isEmpty = true) (x : Array ℚ) : r.activity x = 0 := by
  rw [Row.activity, Scalar.sum_rat]
  refine List.sum_eq_zero fun a ha ↦ ?_
  obtain ⟨⟨j, b⟩, hp, rfl⟩ := List.mem_map.mp ha
  have hzero : b = 0 := beq_iff_eq.mp (List.all_eq_true.mp he (j, b) hp)
  rw [hzero]
  exact zero_mul _

theorem constantPart_eq_zero (hv : r.coefficients.Valid) (he : r.isEmpty = true)
    (columns : List (ColumnMap ℚ)) :
    constantPart (rowCoefficients columns.length r) columns = 0 := by
  have hsum := dot_spreadAll (length_rowCoefficients columns.length r) []
  have hsize : (ColumnMap.recover columns []).toArray.size ≤ columns.length := by simp
  have hzero : dot (spreadAll (rowCoefficients columns.length r) columns) (assignment []) = 0 := by
    rw [dot]
    exact Finset.sum_eq_zero fun j _ ↦ mul_zero _
  rw [hzero, zero_add] at hsum
  rw [hsum, ← activity_eq_zero he (ColumnMap.recover columns []).toArray, Row.activity_eq hv hsize]

theorem excludesZero_iff (relation : Relation) (b : ℚ) :
    relation.excludesZero 0 b = false ↔ relation.Holds 0 b := by
  cases relation with
  | le => simp [Relation.excludesZero, Relation.Holds]
  | ge => simp [Relation.excludesZero, Relation.Holds]
  | eq =>
    simp only [Relation.excludesZero, Relation.Holds, neg_zero, decide_eq_false_iff_not, not_or,
      not_lt]
    exact ⟨fun h ↦ le_antisymm h.2 h.1, fun h ↦ ⟨h.ge, h.le⟩⟩

theorem any_excludesZero_iff (columns : List (ColumnMap ℚ)) (hv : r.coefficients.Valid)
    (hb : r.Bounded) (he : r.isEmpty = true) :
    ((shiftedSides columns r).any fun (relation, rhs) ↦ relation.excludesZero 0 rhs) = false ↔
      Within r.effectiveBounds 0 := by
  rw [shiftedSides_eq columns hv, constantPart_eq_zero hv he, ← add_zero (0 : ℚ),
    ← sides_hold_iff hb, List.any_map, List.any_eq_false]
  simp only [Function.comp_apply, Bool.not_eq_true, add_zero, excludesZero_iff]

end StandardForm

end LinProg
