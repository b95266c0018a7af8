import LinProg.Proofs.Problem.Feasible
import LinProg.BranchAndBound

namespace LinProg

namespace Problem

def Integral (p : Problem ℚ) (x : Array ℚ) : Prop :=
  ∀ (j : ℕ) (c : Column ℚ), p.columns[j]? = some c → c.kind.isInteger = true →
    ∃ z : ℤ, (x[j]?).getD 0 = z

variable {α : Type} [Scalar α] (p : Problem α) (j : ℕ) (bounds : ColumnBounds α)

theorem getElem?_columns_setColumnBounds (i : ℕ) :
    (p.setColumnBounds (j + 1) bounds).columns[i]? =
      p.columns[i]?.map fun c ↦ if j = i then c.setBounds bounds else c := by
  simp only [setColumnBounds, modifyColumn, Nat.add_one_ne_zero, if_false, Nat.add_sub_cancel,
    Array.getElem?_modify]
  split_ifs
  · rfl
  · simp

theorem setColumnBounds_succ :
    p.setColumnBounds (j + 1) bounds =
      { p with columns := p.columns.modify j (·.setBounds bounds) } := rfl

theorem objectiveValue_setColumnBounds (x : Array α) :
    (p.setColumnBounds (j + 1) bounds).objectiveValue x = p.objectiveValue x := by
  have hzip (cs : List (Column α)) (xs : List α) (i : ℕ) :
      (cs.modify i (·.setBounds bounds)).zipWith (fun c x ↦ c.objective * x) xs =
        cs.zipWith (fun c x ↦ c.objective * x) xs := by
    induction cs generalizing xs i with
    | nil => cases i <;> rfl
    | cons c cs ih =>
      cases xs with
      | nil => cases i <;> simp
      | cons y ys =>
        cases i with
        | zero => rfl
        | succ i => simp [ih]
  simp only [setColumnBounds_succ, objectiveValue, Array.toList_modify, hzip]

end Problem

namespace Node

variable {α : Type} [Scalar α]

theorem restrict_invariant {P : Problem α → Prop} (node : Node α) {p : Problem α} (hp : P p)
    (h : ∀ q j bounds, P q → P (q.setColumnBounds (j + 1) bounds)) : P (node.restrict p) := by
  unfold restrict
  induction node.changes generalizing p with
  | nil => exact hp
  | cons c changes ih => exact ih (h p c.column _ hp)

theorem direction_restrict (node : Node α) (p : Problem α) :
    (node.restrict p).direction = p.direction :=
  restrict_invariant (P := fun q ↦ q.direction = p.direction) node rfl fun _ _ _ h ↦ h

theorem objectiveValue_restrict (node : Node α) (p : Problem α) (x : Array α) :
    (node.restrict p).objectiveValue x = p.objectiveValue x :=
  restrict_invariant (P := fun q ↦ q.objectiveValue x = p.objectiveValue x) node rfl
    fun q j bounds h ↦ (q.objectiveValue_setColumnBounds j bounds x).trans h

theorem numColumns_restrict (node : Node α) (p : Problem α) :
    (node.restrict p).numColumns = p.numColumns :=
  restrict_invariant (P := fun q ↦ q.numColumns = p.numColumns) node rfl fun q j bounds h ↦ by
    rw [← h, Problem.setColumnBounds_succ, Problem.numColumns, Problem.numColumns,
      Array.size_modify]

theorem exists_column (node : Node α) {p : Problem α} {j : ℕ} {c : Column α}
    (hj : p.columns[j]? = some c) : ∃ d, (node.restrict p).columns[j]? = some d := by
  have hsize : (node.restrict p).columns.size = p.columns.size := node.numColumns_restrict p
  have hlt : j < (node.restrict p).columns.size := by
    rw [hsize]
    exact (Array.getElem?_eq_some_iff.mp hj).1
  exact ⟨_, Array.getElem?_eq_getElem hlt⟩

theorem boundsOf_eq (node : Node α) (p : Problem α) {j : ℕ} {c : Column α}
    (hj : (node.restrict p).columns[j]? = some c) : node.boundsOf p j = (c.lower, c.upper) := by
  obtain ⟨changes, bound, depth⟩ := node
  induction changes using List.reverseRecOn generalizing c with
  | nil =>
    change p.columns[j]? = some c at hj
    simp [boundsOf, hj]
  | append_singleton changes change ih =>
    have hchild : (⟨changes ++ [change], bound, depth + 1⟩ : Node α) =
        child ⟨changes, bound, depth⟩ change bound := rfl
    have hbounds := boundsOf_child ⟨changes, bound, depth⟩ change bound p j
    have hrestrict := restrict_child ⟨changes, bound, depth⟩ change bound p
    change (restrict (child ⟨changes, bound, depth⟩ change bound) p).columns[j]? = _ at hj
    rw [hrestrict, Problem.getElem?_columns_setColumnBounds, Option.map_eq_some_iff] at hj
    obtain ⟨d, hd, rfl⟩ := hj
    refine hbounds.trans ?_
    split_ifs
    · rfl
    · exact ih hd

end Node

namespace Problem

theorem feasible_setColumnBounds_iff {q : Problem ℚ} {j : ℕ} {c : Column ℚ}
    (hj : q.columns[j]? = some c) {lower upper : Extended ℚ}
    (htight : ∀ y, Within (lower, upper) y → Within (c.lower, c.upper) y) (x : Array ℚ) :
    (q.setColumnBounds (j + 1) (.explicit lower upper)).Feasible x ↔
      q.Feasible x ∧ Within (lower, upper) ((x[j]?).getD 0) := by
  have hsize : (q.setColumnBounds (j + 1) (.explicit lower upper)).numColumns = q.numColumns := by
    rw [setColumnBounds_succ, numColumns, numColumns, Array.size_modify]
  constructor
  · intro h
    have hw : Within (lower, upper) ((x[j]?).getD 0) := by
      refine h.columns j (c.setBounds (.explicit lower upper)) ?_
      rw [getElem?_columns_setColumnBounds, hj, Option.map_some, if_pos rfl]
    refine ⟨⟨h.size.trans hsize, h.rows, fun i d hi ↦ ?_⟩, hw⟩
    by_cases hij : j = i
    · subst hij
      obtain rfl := Option.some_inj.mp (hj.symm.trans hi)
      exact htight _ hw
    · refine h.columns i d ?_
      rw [getElem?_columns_setColumnBounds, hi, Option.map_some, if_neg hij]
  · rintro ⟨h, hw⟩
    refine ⟨h.size.trans hsize.symm, h.rows, fun i d hi ↦ ?_⟩
    rw [getElem?_columns_setColumnBounds, Option.map_eq_some_iff] at hi
    obtain ⟨e, he, rfl⟩ := hi
    by_cases hij : j = i
    · subst hij
      rw [if_pos rfl]
      exact hw
    · rw [if_neg hij]
      exact h.columns i e he

end Problem

namespace Extended

theorem below_of_le {b : Extended ℚ} {x y : ℚ} (h : b.below (.fin x) = false) (hxy : y ≤ x) :
    b.below (.fin y) = false := by
  cases b with
  | negInf => simp at h
  | posInf => simp
  | fin u => exact below_fin.mpr (hxy.trans (below_fin.mp h))

theorem below_of_ge {b : Extended ℚ} {x y : ℚ} (h : (fin x).below b = false) (hxy : x ≤ y) :
    (fin y).below b = false := by
  cases b with
  | negInf => simp
  | posInf => simp at h
  | fin l => exact below_fin.mpr ((below_fin.mp h).trans hxy)

end Extended

namespace Node

variable {node : Node ℚ} {p : Problem ℚ} {j : ℕ} {c : Column ℚ} {value score : ℚ}

theorem feasible_down (hj : (node.restrict p).columns[j]? = some c)
    (hv : Within (c.lower, c.upper) value) (x : Array ℚ) :
    ((node.children p j value score).1.restrict p).Feasible x ↔
      (node.restrict p).Feasible x ∧ (x[j]?).getD 0 ≤ Scalar.floor value := by
  have hupper {y : ℚ} : (Scalar.extend (Scalar.floor value)).below (.fin y) = false ↔
      y ≤ Scalar.floor value := Extended.below_fin
  simp only [children, boundsOf_eq node p hj, restrict_child]
  rw [Problem.feasible_setColumnBounds_iff hj]
  · refine and_congr_right fun hx ↦ ?_
    exact (and_iff_right (hx.columns j c hj).1).trans hupper
  · rintro y ⟨hl, hu⟩
    exact ⟨hl, Extended.below_of_le hv.2 ((hupper.mp hu).trans (Scalar.floor_le value))⟩

theorem feasible_up (hj : (node.restrict p).columns[j]? = some c)
    (hv : Within (c.lower, c.upper) value) (x : Array ℚ) :
    ((node.children p j value score).2.restrict p).Feasible x ↔
      (node.restrict p).Feasible x ∧ Scalar.ceil value ≤ (x[j]?).getD 0 := by
  have hlower {y : ℚ} : (Extended.fin y).below (Scalar.extend (Scalar.ceil value)) = false ↔
      Scalar.ceil value ≤ y := Extended.below_fin
  simp only [children, boundsOf_eq node p hj, restrict_child]
  rw [Problem.feasible_setColumnBounds_iff hj]
  · refine and_congr_right fun hx ↦ ?_
    exact (and_iff_left (hx.columns j c hj).2).trans hlower
  · rintro y ⟨hl, hu⟩
    exact ⟨Extended.below_of_ge hv.1 ((Scalar.le_ceil value).trans (hlower.mp hl)), hu⟩

/-- No point with an integer at a column gets lost between the children. -/
theorem feasible_children (hj : (node.restrict p).columns[j]? = some c)
    (hv : Within (c.lower, c.upper) value) {x : Array ℚ} (hx : (node.restrict p).Feasible x)
    (hz : ∃ z : ℤ, (x[j]?).getD 0 = z) :
    ((node.children p j value score).1.restrict p).Feasible x ∨
      ((node.children p j value score).2.restrict p).Feasible x := by
  obtain ⟨z, hz⟩ := hz
  rw [feasible_down hj hv, feasible_up hj hv, hz]
  rcases Scalar.intCast_le_floor_or_ceil_le z value with h | h
  · exact .inl ⟨hx, h⟩
  · exact .inr ⟨hx, h⟩

end Node

end LinProg
