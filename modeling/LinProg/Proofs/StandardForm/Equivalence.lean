import Mathlib.Algebra.Order.Group.MinMax
import LinProg.Proofs.StandardForm.Rows

namespace LinProg

namespace ColumnMap

theorem getElem?_recover (columns : List (ColumnMap ℚ)) (v : List ℚ) (j : ℕ) :
    (recover columns v)[j]? =
      columns[j]?.map fun m ↦ m.value (v.drop (totalWidth (columns.take j))) := by
  induction columns generalizing v j with
  | nil => simp [recover]
  | cons m ms ih =>
    cases j with
    | zero => simp [recover, totalWidth]
    | succ j => simp [recover, totalWidth, ih, List.drop_drop]

theorem headD_nonneg {w : List ℚ} (hw : ∀ a ∈ w, 0 ≤ a) : 0 ≤ w.headD 0 := by
  cases w with
  | nil => exact le_rfl
  | cons a w => exact hw a List.mem_cons_self

theorem value_within_iff {c : Column ℚ} (hc : c.Matched) {w : List ℚ} (hw : ∀ a ∈ w, 0 ≤ a) :
    Within (c.lower, c.upper) ((ofColumn c).value w) ↔
      (c.boundType = .double → (ofColumn c).value w ≤ c.upper.toScalar) := by
  have hhead := headD_nonneg hw
  unfold Column.Matched at hc
  unfold ofColumn
  cases ht : c.boundType <;> simp only [ht] at hc
  case free => simp [hc, within_free]
  case lower =>
    obtain ⟨⟨l, hl⟩, hu⟩ := hc
    simpa [hl, hu, within_lower, value, Extended.toScalar] using hhead
  case upper =>
    obtain ⟨hl, u, hu⟩ := hc
    simpa [hl, hu, within_upper, value, Extended.toScalar] using hhead
  case double =>
    obtain ⟨⟨l, hl⟩, u, hu⟩ := hc
    simp only [hl, hu, within_fin, value, Extended.toScalar, forall_const]
    exact and_iff_right (le_add_of_nonneg_right hhead)
  case fixed =>
    obtain ⟨l, hl, hu⟩ := hc
    simp [hl, hu, within_fin, value, Extended.toScalar]

theorem exists_value {c : Column ℚ} (hc : c.Matched) {x : ℚ} (hx : Within (c.lower, c.upper) x) :
    ∃ w : List ℚ, w.length = (ofColumn c).width ∧ (∀ a ∈ w, 0 ≤ a) ∧
      ∀ v, (ofColumn c).value (w ++ v) = x := by
  unfold Column.Matched at hc
  unfold ofColumn
  cases ht : c.boundType <;> simp only [ht] at hc
  case free =>
    refine ⟨[max x 0, max (-x) 0], rfl, by simp, fun v ↦ ?_⟩
    exact max_zero_sub_max_neg_zero_eq_self x
  case lower =>
    obtain ⟨⟨l, hl⟩, hu⟩ := hc
    rw [hl, hu, within_lower] at hx
    refine ⟨[x - l], rfl, by simpa using hx, fun v ↦ ?_⟩
    simp [value, hl, Extended.toScalar]
  case upper =>
    obtain ⟨hl, u, hu⟩ := hc
    rw [hl, hu, within_upper] at hx
    refine ⟨[u - x], rfl, by simpa using hx, fun v ↦ ?_⟩
    simp [value, hu, Extended.toScalar]
  case double =>
    obtain ⟨⟨l, hl⟩, u, hu⟩ := hc
    rw [hl, hu, within_fin] at hx
    refine ⟨[x - l], rfl, by simpa using hx.1, fun v ↦ ?_⟩
    simp [value, hl, Extended.toScalar]
  case fixed =>
    obtain ⟨l, hl, hu⟩ := hc
    rw [hl, hu, within_fin] at hx
    refine ⟨[], rfl, by simp, fun v ↦ ?_⟩
    simpa [value, hl, Extended.toScalar] using le_antisymm hx.1 hx.2

theorem exists_recover {cs : List (Column ℚ)} (hcs : ∀ c ∈ cs, c.Matched) {x : List ℚ}
    (hlength : x.length = cs.length)
    (hx : ∀ (j : ℕ) (c : Column ℚ), cs[j]? = some c → Within (c.lower, c.upper) (x[j]?.getD 0)) :
    ∃ v : List ℚ, v.length = totalWidth (cs.map ofColumn) ∧ (∀ a ∈ v, 0 ≤ a) ∧
      recover (cs.map ofColumn) v = x := by
  induction cs generalizing x with
  | nil =>
    obtain rfl := List.length_eq_zero_iff.mp hlength
    exact ⟨[], rfl, by simp, rfl⟩
  | cons c cs ih =>
    obtain ⟨y, ys, rfl⟩ := List.exists_cons_of_length_eq_add_one hlength
    obtain ⟨w, hw, hpos, hvalue⟩ := exists_value (hcs c List.mem_cons_self) (hx 0 c rfl)
    obtain ⟨v, hv, hpos', hrecover⟩ := ih (fun d hd ↦ hcs d (List.mem_cons_of_mem c hd))
      (Nat.succ_injective hlength) fun j d hd ↦ hx (j + 1) d hd
    refine ⟨w ++ v, ?_, fun a ha ↦ ?_, ?_⟩
    · rw [List.length_append, hw, hv]
      rfl
    · rcases List.mem_append.mp ha with ha | ha
      · exact hpos a ha
      · exact hpos' a ha
    · rw [List.map_cons, recover, hvalue, ← hw, List.drop_left, hrecover]
      rfl

end ColumnMap

namespace StandardForm

open ColumnMap

variable {p : Problem ℚ} {presolve : Bool} {tolerance : ℚ}

theorem dot_unitCoefficients {n j : ℕ} (hj : j < n) (x : ℕ → ℚ) :
    dot (unitCoefficients n j) x = x j := by
  have hget (k : ℕ) (hk : k < n) : (unitCoefficients n j).getD k 0 = if k = j then 1 else 0 := by
    rw [unitCoefficients, List.getD_eq_getElem?_getD, List.getElem?_map, List.getElem?_range hk]
    rfl
  rw [dot, length_unitCoefficients, Finset.sum_eq_single j]
  · rw [hget j hj, if_pos rfl, one_mul]
  · intro k hk hne
    rw [hget k (Finset.mem_range.mp hk), if_neg hne, zero_mul]
  · intro hn
    exact absurd (Finset.mem_range.mpr hj) hn

theorem rangeConstraint_holds_iff {c : Column ℚ} {j : ℕ} (hj : p.columns[j]? = some c)
    (v : List ℚ) :
    (∀ k, rangeConstraint? (columnMaps p) c j = some k → k.Holds (assignment v)) ↔
      (c.boundType = .double →
        assignment (ColumnMap.recover (columnMaps p) v) j ≤ c.upper.toScalar) := by
  unfold rangeConstraint?
  split_ifs with ht
  · have hlt : j < (columnMaps p).length := by
      rw [length_columnMaps]
      exact (Array.getElem?_eq_some_iff.mp hj).1
    have hsum := dot_spreadAll (length_unitCoefficients (columnMaps p).length j) v
    have hoffset : (((columnMaps p)[j]?).map offset).getD 0 = c.lower.toScalar := by
      rw [columnMaps, List.getElem?_map, Array.getElem?_toList, hj]
      simp [ofColumn, ht, offset]
    rw [dot_unitCoefficients hlt, constantPart_eq, dot_unitCoefficients hlt, hoffset] at hsum
    simp only [Option.some_inj, forall_eq', ht, forall_const, Constraint.Holds, Relation.Holds]
    rw [unitRow_eq, ← hsum]
    exact le_sub_iff_add_le
  · simp [ht]

theorem columns_within_iff (hp : p.WellPosed) {v : List ℚ} (hv : ∀ a ∈ v, 0 ≤ a) {j : ℕ}
    {c : Column ℚ} (hj : p.columns[j]? = some c) :
    Within (c.lower, c.upper) (assignment (ColumnMap.recover (columnMaps p) v) j) ↔
      ∀ k, rangeConstraint? (columnMaps p) c j = some k → k.Holds (assignment v) := by
  have hc := hp.columns_matched c (Array.mem_of_getElem? hj)
  have hvalue : assignment (ColumnMap.recover (columnMaps p) v) j =
      (ofColumn c).value (v.drop (totalWidth ((columnMaps p).take j))) := by
    rw [assignment, List.getD_eq_getElem?_getD, getElem?_recover, columnMaps, List.getElem?_map,
      Array.getElem?_toList, hj]
    rfl
  rw [rangeConstraint_holds_iff hj, hvalue]
  exact value_within_iff hc fun a ha ↦ hv a (List.mem_of_mem_drop ha)

/-- A point of the non-negative standard variables stands for a feasible point just when it
satisfies the constraints, and zero the rows that presolving drops. -/
theorem feasible_recover_iff (hp : p.WellPosed) (presolve : Bool) (tolerance : ℚ) {v : List ℚ}
    (hv : ∀ a ∈ v, 0 ≤ a) :
    p.Feasible (ColumnMap.recover (columnMaps p) v).toArray ↔
      (∀ r ∈ p.rows, (presolve && r.isEmpty) = true → Within r.effectiveBounds 0) ∧
        ∀ c ∈ (ofProblem p presolve tolerance).constraints, c.Holds (assignment v) := by
  set x := (ColumnMap.recover (columnMaps p) v).toArray with hx
  have hrow (i : ℕ) (r : Row ℚ) (hr : r ∈ p.rows) :
      (∀ c ∈ rowConstraints (columnMaps p) r i, c.Holds (assignment v)) ↔
        Within r.effectiveBounds (r.activity x) :=
    rowConstraints_hold_iff (hp.rows_valid r hr) (hp.rows_bounded r hr) i v
  have hget (j : ℕ) : (x[j]?).getD 0 = assignment (ColumnMap.recover (columnMaps p) v) j := by
    rw [assignment, List.getD_eq_getElem?_getD, hx, List.getElem?_toArray]
  constructor
  · intro h
    refine ⟨fun r hr hd ↦ ?_, fun c hc ↦ ?_⟩
    · rw [← activity_eq_zero (Bool.and_eq_true_iff.mp hd).2 x]
      exact h.rows r hr
    · rcases (mem_constraints_ofProblem p presolve tolerance).mp hc with
        ⟨i, r, hi, -, hc⟩ | ⟨j, d, hj, hc⟩
      · have hr := Array.mem_of_getElem? hi
        exact (hrow i r hr).mpr (h.rows r hr) c hc
      · have hd := h.columns j d hj
        rw [hget] at hd
        exact (columns_within_iff hp hv hj).mp hd c hc
  · rintro ⟨hdropped, hall⟩
    refine ⟨by simp [hx, length_columnMaps], fun r hr ↦ ?_, fun j d hj ↦ ?_⟩
    · cases hd : presolve && r.isEmpty
      · obtain ⟨i, hi⟩ := Array.mem_iff_getElem?.mp hr
        exact (hrow i r hr).mp fun c hc ↦ hall c
          ((mem_constraints_ofProblem p presolve tolerance).mpr (.inl ⟨i, r, hi, hd, hc⟩))
      · rw [activity_eq_zero (Bool.and_eq_true_iff.mp hd).2 x]
        exact hdropped r hr hd
    · rw [hget]
      exact (columns_within_iff hp hv hj).mpr fun k hk ↦ hall k
        ((mem_constraints_ofProblem p presolve tolerance).mpr (.inr ⟨j, d, hj, hk⟩))

/-- With exact comparison presolving finds a row without activity just when zero misses the bounds
of a row that it drops. -/
theorem rowWithoutActivity_eq_none_iff (hvalid : ∀ r ∈ p.rows, r.coefficients.Valid)
    (hbounded : ∀ r ∈ p.rows, r.Bounded) :
    (ofProblem p presolve 0).rowWithoutActivity = none ↔
      ∀ r ∈ p.rows, (presolve && r.isEmpty) = true → Within r.effectiveBounds 0 := by
  have hrow (r : Row ℚ) (hr : r ∈ p.rows) (he : r.isEmpty = true) :=
    any_excludesZero_iff (columnMaps p) (hvalid r hr) (hbounded r hr) he
  simp only [ofProblem, List.findSome?_eq_none_iff, Prod.forall, List.mem_zipIdx_iff_getElem?,
    Array.getElem?_toList]
  constructor
  · intro h r hr hd
    obtain ⟨i, hi⟩ := Array.mem_iff_getElem?.mp hr
    have hif := h r i hi
    rw [← hrow r hr (Bool.and_eq_true_iff.mp hd).2]
    simpa [hd, columnMaps] using hif
  · intro h r i hi
    have hr := Array.mem_of_getElem? hi
    cases hd : presolve && r.isEmpty
    · simp
    · have hnone := (hrow r hr (Bool.and_eq_true_iff.mp hd).2).mpr (h r hr hd)
      simpa [columnMaps] using hnone

theorem excludesZero_mono {tolerance : ℚ} (ht : 0 ≤ tolerance) {relation : Relation} {b : ℚ}
    (h : relation.excludesZero 0 b = false) : relation.excludesZero tolerance b = false := by
  rw [excludesZero_iff] at h
  cases relation <;>
    simp only [Relation.Holds, Relation.excludesZero, decide_eq_false_iff_not, not_or,
      not_lt] at h ⊢
  · linarith
  · linarith
  · constructor <;> linarith

theorem rowWithoutActivity_mono (ht : 0 ≤ tolerance)
    (h : (ofProblem p presolve 0).rowWithoutActivity = none) :
    (ofProblem p presolve tolerance).rowWithoutActivity = none := by
  simp only [ofProblem, List.findSome?_eq_none_iff, Prod.forall] at h ⊢
  intro r i hi
  have hexact := h r i hi
  rw [ite_eq_right_iff] at hexact ⊢
  intro hd
  refine absurd (hexact ?_) (Option.some_ne_none _)
  rw [Bool.and_eq_true, List.any_eq_true] at hd ⊢
  obtain ⟨hdropped, side, hside, hexcludes⟩ := hd
  refine ⟨hdropped, side, hside, ?_⟩
  by_contra hnot
  rw [Bool.not_eq_true] at hnot
  rw [excludesZero_mono ht hnot] at hexcludes
  cases hexcludes

theorem exists_recover_of_feasible (hp : p.WellPosed) {x : Array ℚ} (hx : p.Feasible x) :
    ∃ v : List ℚ, v.length = totalWidth (columnMaps p) ∧ (∀ a ∈ v, 0 ≤ a) ∧
      (ColumnMap.recover (columnMaps p) v).toArray = x := by
  obtain ⟨v, hv, hpos, hrecover⟩ := exists_recover
    (fun c hc ↦ hp.columns_matched c (Array.mem_toList_iff.mp hc))
    (x := x.toList) hx.size fun j c hj ↦ by
      rw [Array.getElem?_toList] at hj ⊢
      exact hx.columns j c hj
  exact ⟨v, hv, hpos, by rw [columnMaps, hrecover]⟩

def objectiveOffset (p : Problem ℚ) : ℚ :=
  constantPart (p.columns.toList.map fun c ↦ directionSign p * c.objective) (columnMaps p)

theorem objectiveValue_eq (p : Problem ℚ) (x : List ℚ) (hx : x.length = p.numColumns) :
    p.objectiveValue x.toArray = dot (p.columns.toList.map (·.objective)) (assignment x) := by
  have hsum (cs : List (Column ℚ)) (y : List ℚ) (hy : y.length = cs.length) :
      (cs.zipWith (fun c x ↦ c.objective * x) y).sum =
        dot (cs.map (·.objective)) (assignment y) := by
    induction cs generalizing y with
    | nil => simp
    | cons c cs ih =>
      obtain ⟨a, y, rfl⟩ := List.exists_cons_of_length_eq_add_one hy
      rw [List.zipWith_cons_cons, List.sum_cons, ih y (Nat.succ_injective hy), List.map_cons,
        dot_cons]
      rfl
  rw [Problem.objectiveValue, Scalar.sum_rat, hsum _ _ hx]

theorem objective_recover (p : Problem ℚ) (presolve : Bool) (tolerance : ℚ) (v : List ℚ) :
    dot (ofProblem p presolve tolerance).objective (assignment v) + objectiveOffset p =
      directionSign p * p.objectiveValue (ColumnMap.recover (columnMaps p) v).toArray := by
  have hlength : (p.columns.toList.map fun c ↦ directionSign p * c.objective).length =
      (columnMaps p).length := by simp [columnMaps]
  have hmap : (p.columns.toList.map fun c ↦ directionSign p * c.objective) =
      (p.columns.toList.map (·.objective)).map (directionSign p * ·) := by
    rw [List.map_map]
    rfl
  rw [objective_ofProblem, objectiveOffset, dot_spreadAll hlength, hmap, dot_map_mul,
    objectiveValue_eq p _ (by rw [length_recover, length_columnMaps])]

def pointOf (p : Problem ℚ) (v : ℕ → ℚ) : Array ℚ :=
  (ColumnMap.recover (columnMaps p) ((List.range (totalWidth (columnMaps p))).map v)).toArray

theorem assignment_map_range {n j : ℕ} (hj : j < n) (v : ℕ → ℚ) :
    assignment ((List.range n).map v) j = v j := by
  rw [assignment, List.getD_eq_getElem?_getD, List.getElem?_map, List.getElem?_range hj]
  rfl

theorem objective_pointOf (p : Problem ℚ) (presolve : Bool) (tolerance : ℚ) (v : ℕ → ℚ) :
    dot (ofProblem p presolve tolerance).objective v + objectiveOffset p =
      directionSign p * p.objectiveValue (pointOf p v) := by
  rw [pointOf, ← objective_recover p presolve tolerance]
  congr 1
  refine dot_congr fun j hj ↦ ?_
  rw [(shaped_ofProblem p presolve tolerance).objective] at hj
  exact (assignment_map_range hj v).symm

theorem holds_congr {c : Constraint ℚ} {v w : ℕ → ℚ}
    (h : ∀ j < c.coefficients.length, v j = w j) : c.Holds v ↔ c.Holds w := by
  rw [Constraint.Holds, Constraint.Holds, dot_congr h]

theorem feasible_of_admits (hp : p.WellPosed)
    (hrow : (ofProblem p presolve 0).rowWithoutActivity = none) {v : ℕ → ℚ}
    (hv : (ofProblem p presolve 0).Admits v) :
    p.Feasible (pointOf p v) ∧ directionSign p * p.objectiveValue (pointOf p v) =
      dot (ofProblem p presolve 0).objective v + objectiveOffset p := by
  have hpos (a : ℚ) (ha : a ∈ (List.range (totalWidth (columnMaps p))).map v) : 0 ≤ a := by
    obtain ⟨j, -, rfl⟩ := List.mem_map.mp ha
    exact hv.1 j
  refine ⟨(feasible_recover_iff hp presolve 0 hpos).mpr
    ⟨(rowWithoutActivity_eq_none_iff hp.rows_valid hp.rows_bounded).mp hrow, fun c hc ↦ ?_⟩,
    (objective_pointOf p presolve 0 v).symm⟩
  refine (holds_congr fun j hj ↦ ?_).mpr (hv.2 c hc)
  rw [(shaped_ofProblem p presolve 0).constraints c hc] at hj
  exact assignment_map_range hj v

theorem admits_of_feasible (hp : p.WellPosed) (presolve : Bool) {x : Array ℚ}
    (hx : p.Feasible x) :
    (ofProblem p presolve 0).rowWithoutActivity = none ∧
      ∃ v, (ofProblem p presolve 0).Admits v ∧ directionSign p * p.objectiveValue x =
        dot (ofProblem p presolve 0).objective v + objectiveOffset p := by
  obtain ⟨v, -, hpos, rfl⟩ := exists_recover_of_feasible hp hx
  obtain ⟨hdropped, hall⟩ := (feasible_recover_iff hp presolve 0 hpos).mp hx
  exact ⟨(rowWithoutActivity_eq_none_iff hp.rows_valid hp.rows_bounded).mpr hdropped, assignment v,
    ⟨assignment_nonneg hpos, hall⟩, (objective_recover p presolve 0 v).symm⟩

theorem better_iff (p : Problem ℚ) (a b : ℚ) :
    p.direction.Better a b ↔ directionSign p * b < directionSign p * a := by
  unfold directionSign
  cases p.direction <;> simp [Direction.Better]

end StandardForm

end LinProg
