import LinProg.Proofs.SparseVector.Entries
import LinProg.Problem.Basic

namespace LinProg

variable {α : Type}

structure RowIndexed (numColumns : ℕ) (r : Row α) : Prop where
  valid : r.coefficients.Valid
  dim_le : r.coefficients.dim ≤ numColumns

theorem RowIndexed.slot_range {numColumns : ℕ} {r : Row α} (h : RowIndexed numColumns r)
    {e : ℕ × α} (he : e ∈ r.coefficients.toList) : 0 < e.1 ∧ e.1 ≤ numColumns := by
  obtain ⟨entry, hentry, rfl⟩ := List.mem_map.mp he
  obtain ⟨hpos, hle⟩ := h.valid.slot_range (Array.mem_toList_iff.mp hentry)
  exact ⟨hpos, hle.trans h.dim_le⟩

theorem RowIndexed.nodup {numColumns : ℕ} {r : Row α} (h : RowIndexed numColumns r) :
    (r.coefficients.toList.map (·.1)).Nodup := by
  have hslots : r.coefficients.toList.map (·.1) = r.coefficients.entries.toList.map (·.slot) := by
    simp [SparseVector.toList]
  rw [hslots]
  exact h.valid.nodup_slots

theorem rowIndexed_ofPairs [Scalar α] {numColumns : ℕ} {terms : List (ℕ × α)} {r : Row α}
    (h : SparseVector.ofPairs numColumns terms = .ok r.coefficients) : RowIndexed numColumns r := by
  have hdim := ((SparseVector.valid_zero _).dim_foldlM_add h).trans (SparseVector.dim_zero _)
  exact ⟨SparseVector.valid_ofPairs h, Nat.le_of_eq hdim⟩

namespace Problem

variable [Scalar α] {p : Problem α}

/-- A problem that the operations lead to. A column is changed at will; of a row nothing changes
once it has been added. -/
inductive Made : Problem α → Prop
  | empty (name : String) (direction : Direction) : Made (.empty name direction)
  | addColumn {p : Problem α} (h : Made p) (name : String) : Made (p.addColumn name)
  | addRow {p q : Problem α} (h : Made p) {name : String} {terms : List (ℕ × α)}
      {boundType : BoundType} {lower upper : Extended α}
      (hq : p.addRow name terms boundType lower upper = .ok q) : Made q
  | modifyColumn {p : Problem α} (h : Made p) (index : ℕ) (f : Column α → Column α) :
      Made (p.modifyColumn index f)
  | finalizeBounds {p : Problem α} (h : Made p) : Made p.finalizeBounds
  | entitle {p : Problem α} (h : Made p) (name : String) (direction : Direction) :
      Made { p with name, direction }

omit [Scalar α] in
theorem numColumns_modifyColumn (p : Problem α) (index : ℕ) (f : Column α → Column α) :
    (p.modifyColumn index f).numColumns = p.numColumns ∧
      (p.modifyColumn index f).rows = p.rows := by
  unfold modifyColumn
  split
  · exact ⟨rfl, rfl⟩
  · exact ⟨Array.size_modify, rfl⟩

section AddRow

variable {q : Problem α} {name : String} {terms : List (ℕ × α)} {boundType : BoundType}
  {lower upper : Extended α}

theorem addRow_eq (p : Problem α) (name : String) (terms : List (ℕ × α)) (boundType : BoundType)
    (lower upper : Extended α) :
    p.addRow name terms boundType lower upper =
      (SparseVector.ofPairs p.numColumns terms).map fun v ↦
        { p with rows := p.rows.push ⟨name, v, boundType, lower, upper⟩ } := by
  unfold addRow
  rw [show p.columns.size = p.numColumns from rfl]
  cases SparseVector.ofPairs p.numColumns terms <;> rfl

theorem exists_of_addRow (hq : p.addRow name terms boundType lower upper = .ok q) :
    ∃ v, SparseVector.ofPairs p.numColumns terms = .ok v ∧
      q = { p with rows := p.rows.push ⟨name, v, boundType, lower, upper⟩ } := by
  rw [addRow_eq] at hq
  cases hv : SparseVector.ofPairs p.numColumns terms with
  | error e => simp [hv, Except.map] at hq
  | ok v =>
    simp only [hv, Except.map, Except.ok.injEq] at hq
    exact ⟨v, rfl, hq.symm⟩

theorem rowIndexed_addRow
    (h : ∀ r ∈ p.rows, RowIndexed p.numColumns r)
    (hq : p.addRow name terms boundType lower upper = .ok q) :
    ∀ r ∈ q.rows, RowIndexed q.numColumns r := by
  obtain ⟨v, hv, rfl⟩ := exists_of_addRow hq
  intro r hr
  rcases Array.mem_push.mp hr with hr | rfl
  · exact h r hr
  · exact rowIndexed_ofPairs hv

end AddRow

theorem Made.rowIndexed (h : p.Made) : ∀ r ∈ p.rows, RowIndexed p.numColumns r := by
  induction h with
  | empty name direction => exact fun _ hr ↦ absurd hr (Array.not_mem_empty _)
  | @addColumn p _ name ih =>
    have hsize : (p.addColumn name).numColumns = p.numColumns + 1 := Array.size_push _
    exact fun r hr ↦ ⟨(ih r hr).valid, (ih r hr).dim_le.trans (hsize ▸ Nat.le_succ _)⟩
  | addRow _ hq ih => exact rowIndexed_addRow ih hq
  | @modifyColumn p _ index f ih =>
    obtain ⟨hsize, hrows⟩ := p.numColumns_modifyColumn index f
    rw [hsize, hrows]
    exact ih
  | @finalizeBounds p _ ih =>
    have hsize : p.finalizeBounds.numColumns = p.numColumns := Array.size_map
    rw [hsize]
    exact ih
  | entitle _ name direction ih => exact ih

end Problem

end LinProg
