import LinProg.Proofs.Problem.Made

namespace LinProg

/-- A number that lies nowhere below the first and nowhere above the second of two bounds. -/
def Within (bounds : Extended ℚ × Extended ℚ) (x : ℚ) : Prop :=
  (Extended.fin x).below bounds.1 = false ∧ bounds.2.below (.fin x) = false

instance (bounds : Extended ℚ × Extended ℚ) (x : ℚ) : Decidable (Within bounds x) :=
  inferInstanceAs (Decidable (_ ∧ _))

namespace Extended

@[simp] theorem below_fin {x y : ℚ} : (fin x).below (.fin y) = false ↔ y ≤ x := by
  simp [Extended.below]

@[simp] theorem below_negInf (b : Extended ℚ) : b.below .negInf = false := by cases b <;> rfl

@[simp] theorem posInf_below (b : Extended ℚ) : Extended.posInf.below b = false := by
  cases b <;> rfl

@[simp] theorem fin_below_posInf (x : ℚ) : (fin x).below .posInf = true := by
  simp [Extended.below]

@[simp] theorem negInf_below_fin (x : ℚ) : Extended.negInf.below (.fin x) = true := by
  simp [Extended.below]

end Extended

theorem within_fin {l u x : ℚ} : Within (.fin l, .fin u) x ↔ l ≤ x ∧ x ≤ u := by simp [Within]

theorem within_lower {l x : ℚ} : Within (.fin l, .posInf) x ↔ l ≤ x := by simp [Within]

theorem within_upper {u x : ℚ} : Within (.negInf, .fin u) x ↔ x ≤ u := by simp [Within]

theorem within_free (x : ℚ) : Within (.negInf, .posInf) x := by simp [Within]

/-- Whether the first of two objectives is the better one. -/
def Direction.Better : Direction → ℚ → ℚ → Prop
  | .minimize, a, b => a < b
  | .maximize, a, b => b < a

/-- The bound type of the column matches its bounds, of which two finite ones may be equal or in
the wrong order. -/
def Column.Matched (c : Column ℚ) : Prop :=
  match c.boundType with
  | .free => c.lower = .negInf ∧ c.upper = .posInf
  | .lower => (∃ l, c.lower = .fin l) ∧ c.upper = .posInf
  | .upper => c.lower = .negInf ∧ ∃ u, c.upper = .fin u
  | .double => (∃ l, c.lower = .fin l) ∧ ∃ u, c.upper = .fin u
  | .fixed => ∃ l, c.lower = .fin l ∧ c.upper = .fin l

theorem Column.matched_named (name : String) : (Column.named name : Column ℚ).Matched :=
  ⟨⟨0, rfl⟩, rfl⟩

theorem Column.matched_setBounds (c : Column ℚ) {bounds : ColumnBounds ℚ}
    (hl : bounds.resolve.1 ≠ .posInf) (hu : bounds.resolve.2 ≠ .negInf) :
    (c.setBounds bounds).Matched := by
  rcases hb : bounds.resolve with ⟨l, u⟩
  rw [hb] at hl hu
  have hlower : (c.setBounds bounds).lower = l := by rw [Column.lower, setBounds, hb]
  have hupper : (c.setBounds bounds).upper = u := by rw [Column.upper, setBounds, hb]
  have htype : (c.setBounds bounds).boundType = BoundType.classify l u := by
    rw [setBounds, ColumnBounds.type, hb]
  unfold Matched
  rw [hlower, hupper, htype]
  cases l with
  | posInf => exact absurd rfl hl
  | negInf =>
    cases u with
    | negInf => exact absurd rfl hu
    | posInf => exact ⟨rfl, rfl⟩
    | fin u => exact ⟨rfl, u, rfl⟩
  | fin l =>
    cases u with
    | negInf => exact absurd rfl hu
    | posInf => exact ⟨⟨l, rfl⟩, rfl⟩
    | fin u =>
      by_cases h : l = u
      · have hc : BoundType.classify (.fin l) (.fin u) = .fixed := by
          subst h
          simp [BoundType.classify, normalizeBounds, bne, BEq.beq, Extended.beq]
        rw [hc]
        exact ⟨l, rfl, by rw [h]⟩
      · have hc : BoundType.classify (.fin l) (.fin u) = .double := by
          simp [BoundType.classify, normalizeBounds, bne, BEq.beq, Extended.beq, h]
        rw [hc]
        exact ⟨⟨l, rfl⟩, u, rfl⟩

def Row.Bounded (r : Row ℚ) : Prop := ∀ side ∈ r.sides, ∃ b, side.2 = .fin b

namespace Problem

structure Feasible (p : Problem ℚ) (x : Array ℚ) : Prop where
  size : x.size = p.numColumns
  rows : ∀ r ∈ p.rows, Within r.effectiveBounds (r.activity x)
  columns : ∀ (j : ℕ) (c : Column ℚ), p.columns[j]? = some c →
    Within (c.lower, c.upper) ((x[j]?).getD 0)

structure WellPosed (p : Problem ℚ) : Prop where
  rows_valid : ∀ r ∈ p.rows, r.coefficients.Valid
  rows_bounded : ∀ r ∈ p.rows, r.Bounded
  columns_matched : ∀ c ∈ p.columns, c.Matched

namespace WellPosed

variable {p q : Problem ℚ}

theorem setColumnBounds (h : p.WellPosed) (index : ℕ) {bounds : ColumnBounds ℚ}
    (hl : bounds.resolve.1 ≠ .posInf) (hu : bounds.resolve.2 ≠ .negInf) :
    (p.setColumnBounds index bounds).WellPosed := by
  unfold Problem.setColumnBounds modifyColumn
  split_ifs
  · exact h
  · refine ⟨h.rows_valid, h.rows_bounded, fun c hc ↦ ?_⟩
    obtain ⟨j, hj⟩ := Array.mem_iff_getElem?.mp hc
    rw [Array.getElem?_modify] at hj
    split_ifs at hj
    · obtain ⟨d, -, rfl⟩ := Option.map_eq_some_iff.mp hj
      exact d.matched_setBounds hl hu
    · exact h.columns_matched c (Array.mem_of_getElem? hj)

end WellPosed

/-- Two columns, one of them with a range, under a row of either sense; solving takes one pivot in
phase one and two in phase two. -/
def twoPhases : Problem ℚ :=
  { name := "two phases", direction := .maximize
    columns := #[
      { name := "x", objective := 3, kind := .continuous, bounds := .unset, boundType := .lower },
      { name := "y", objective := 2, kind := .continuous, bounds := .explicit (.fin 0) (.fin 3),
        boundType := .double }]
    rows := #[
      { name := "sum", coefficients := ⟨#[some 0, some 1], #[⟨1, 1⟩, ⟨2, 1⟩]⟩,
        boundType := .upper, lower := .negInf, upper := .fin 4 },
      { name := "difference", coefficients := ⟨#[some 0, some 1], #[⟨1, 1⟩, ⟨2, -1⟩]⟩,
        boundType := .lower, lower := .fin (1 / 2), upper := .posInf }] }

theorem wellPosed_twoPhases : twoPhases.WellPosed := by
  have hsum : (⟨#[some 0, some 1], #[⟨1, 1⟩, ⟨2, 1⟩]⟩ : SparseVector ℚ).Valid :=
    SparseVector.valid_ofPairs (show SparseVector.ofPairs 2 [(1, (1 : ℚ)), (2, 1)] = .ok _ from rfl)
  have hdifference : (⟨#[some 0, some 1], #[⟨1, 1⟩, ⟨2, -1⟩]⟩ : SparseVector ℚ).Valid :=
    SparseVector.valid_ofPairs
      (show SparseVector.ofPairs 2 [(1, (1 : ℚ)), (2, -1)] = .ok _ from rfl)
  refine ⟨?_, ?_, ?_⟩
  · simp only [twoPhases, List.mem_toArray, List.forall_mem_cons]
    exact ⟨hsum, hdifference, by simp⟩
  · simp [twoPhases, Row.Bounded, Row.sides]
  · simp [twoPhases, Column.Matched, Column.lower, Column.upper, ColumnBounds.resolve]

end Problem

end LinProg
