import LinProg.Proofs.StandardForm.Columns
import LinProg.Proofs.Tableau.Initial

namespace LinProg.StandardForm

open ColumnMap

def rowCoefficients (n : ℕ) (r : Row ℚ) : List ℚ :=
  (List.range n).map fun j ↦ r.coefficients.coefficient (j + 1)

def unitCoefficients (n index : ℕ) : List ℚ :=
  (List.range n).map fun j ↦ if j = index then 1 else 0

theorem flatMap_zipIdx_eq {g : ColumnMap ℚ × ℕ → List ℚ} {c : ℕ → ℚ} {columns : List (ColumnMap ℚ)}
    {start : ℕ} (h : ∀ m j, g (m, j) = m.spread (c j)) :
    (columns.zipIdx start).flatMap g =
      spreadAll ((List.range' start columns.length).map c) columns := by
  induction columns generalizing start with
  | nil => rfl
  | cons m ms ih =>
    rw [List.zipIdx_cons, List.flatMap_cons, ih, h, List.length_cons, List.range'_succ,
      List.map_cons, spreadAll]

theorem spreadRow_eq (columns : List (ColumnMap ℚ)) (r : Row ℚ) :
    spreadRow columns r = spreadAll (rowCoefficients columns.length r) columns := by
  rw [spreadRow, flatMap_zipIdx_eq (c := fun j ↦ r.coefficients.coefficient (j + 1)) fun _ _ ↦ rfl,
    rowCoefficients, List.range_eq_range']

theorem unitRow_eq (columns : List (ColumnMap ℚ)) (index : ℕ) :
    unitRow columns index = spreadAll (unitCoefficients columns.length index) columns := by
  rw [unitRow, flatMap_zipIdx_eq (c := fun j ↦ if j = index then 1 else 0) ?_, unitCoefficients,
    List.range_eq_range']
  intro m j
  dsimp only
  split_ifs
  · rfl
  · exact (spread_zero m).symm

theorem length_rowCoefficients (n : ℕ) (r : Row ℚ) : (rowCoefficients n r).length = n := by
  simp [rowCoefficients]

theorem length_unitCoefficients (n index : ℕ) : (unitCoefficients n index).length = n := by
  simp [unitCoefficients]

def columnMaps (p : Problem ℚ) : List (ColumnMap ℚ) := p.columns.toList.map .ofColumn

def directionSign (p : Problem ℚ) : ℚ :=
  match p.direction with
  | .maximize => 1
  | .minimize => -1

variable (p : Problem ℚ) (presolve : Bool) (tolerance : ℚ)

theorem length_columnMaps : (columnMaps p).length = p.numColumns := by
  simp [columnMaps, Problem.numColumns]

theorem objective_ofProblem :
    (ofProblem p presolve tolerance).objective =
      spreadAll (p.columns.toList.map fun c ↦ directionSign p * c.objective) (columnMaps p) := by
  have h (cs : List (Column ℚ)) (s : ℚ) :
      (cs.zip (cs.map ColumnMap.ofColumn)).flatMap (fun x ↦ x.2.spread (s * x.1.objective)) =
        spreadAll (cs.map fun c ↦ s * c.objective) (cs.map ColumnMap.ofColumn) := by
    induction cs with
    | nil => rfl
    | cons c cs ih => rw [List.map_cons, List.zip_cons_cons, List.flatMap_cons, ih]; rfl
  exact h p.columns.toList (directionSign p)

theorem mem_constraints_ofProblem {c : Constraint ℚ} :
    c ∈ (ofProblem p presolve tolerance).constraints ↔
      (∃ (i : ℕ) (r : Row ℚ), p.rows[i]? = some r ∧ (presolve && r.isEmpty) = false ∧
        c ∈ rowConstraints (columnMaps p) r i) ∨
      ∃ (j : ℕ) (d : Column ℚ), p.columns[j]? = some d ∧
        rangeConstraint? (columnMaps p) d j = some c := by
  simp only [ofProblem, List.mem_append, List.mem_flatMap, List.mem_filterMap, Prod.exists,
    List.mem_zipIdx_iff_getElem?, Array.getElem?_toList]
  refine or_congr ?_ ?_
  · constructor
    · rintro ⟨r, i, hr, hc⟩
      cases hd : presolve && r.isEmpty
      · exact ⟨i, r, hr, hd, by simpa [hd, columnMaps] using hc⟩
      · simp [hd] at hc
    · rintro ⟨i, r, hr, hd, hc⟩
      exact ⟨r, i, hr, by simpa [hd, columnMaps] using hc⟩
  · constructor
    · rintro ⟨d, j, hd, hc⟩
      exact ⟨j, d, hd, hc⟩
    · rintro ⟨j, d, hd, hc⟩
      exact ⟨d, j, hd, hc⟩

theorem shaped_ofProblem : (ofProblem p presolve tolerance).Shaped := by
  refine ⟨?_, fun c hc ↦ ?_⟩
  · rw [objective_ofProblem, length_spreadAll (by simp [columnMaps])]
    rfl
  · rcases (mem_constraints_ofProblem p presolve tolerance).mp hc with
      ⟨i, r, -, -, hc⟩ | ⟨j, d, -, hc⟩
    · obtain ⟨side, -, rfl⟩ := List.mem_map.mp hc
      change (spreadRow (columnMaps p) r).length = _
      rw [spreadRow_eq, length_spreadAll (length_rowCoefficients _ _)]
      rfl
    · unfold rangeConstraint? at hc
      split_ifs at hc
      cases hc
      change (unitRow (columnMaps p) j).length = _
      rw [unitRow_eq, length_spreadAll (length_unitCoefficients _ _)]
      rfl

end LinProg.StandardForm
