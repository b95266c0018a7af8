import LinProg.Proofs.Storage.Grid

namespace LinProg.Storage

variable {α : Type} [Scalar α]

namespace Grid

/-- Puts the sum of the artificial variables in place of the objective, which is returned as it
was. -/
def startPhaseOne (g : Grid α) : Option (Array α × Grid α) := do
  let objectiveRow ← g.objectiveRow
  let numCells ← g.numCells
  let saved ← g.data[objectiveRow]?
  let data ← change g.data objectiveRow fun cs ↦ do
    let cs ← loop numCells (fun j cs ↦ write cs j 0) cs
    loop g.numArtificial (fun k cs ↦ write cs (g.artificialStart + k) (-1)) cs
  let g ← foldRows { g with data } fun basic source cs ↦
    if g.artificialStart ≤ basic then combine numCells (· + ·) source cs else some cs
  return (saved, g)

def artificialRemains (g : Grid α) (tolerance : α) : Option Bool := do
  let objectiveRow ← g.objectiveRow
  let rhsColumn ← g.rhsColumn
  (List.range objectiveRow).anyM fun i ↦ do
    if g.artificialStart ≤ (← g.basicVars[i]?) then
      let rhs ← (← g.data[i]?)[rhsColumn]?
      return decide (tolerance < Scalar.abs rhs)
    else return false

def driveOut (tolerance : α) (g : Grid α) (row : ℕ) : Option (Grid α) := do
  if g.artificialStart ≤ (← g.basicVars[row]?) then
    let entering ← (List.range g.artificialStart).findM? fun j ↦ do
      let x ← (← g.data[row]?)[j]?
      return decide (tolerance < Scalar.abs x)
    match entering with
    | some j => g.pivot row j
    | none => return g
  else return g

def driveOutArtificials (g : Grid α) (tolerance : α) : Option (Grid α) := do
  loop (← g.objectiveRow) (fun row g ↦ g.driveOut tolerance row) g

def restoreObjective (g : Grid α) (saved : Array α) (tolerance : α) : Option (Grid α) := do
  let objectiveRow ← g.objectiveRow
  let numCells ← g.numCells
  let data ← write g.data objectiveRow saved
  foldRows { g with data } fun basic source cs ↦ do
    let k ← cs[basic]?
    if tolerance < Scalar.abs k then combine numCells (fun x y ↦ x - k * y) source cs
    else some cs

end Grid

section Objective

variable {t : Tableau α}

omit [Scalar α] in
theorem data_withObjective (t : Tableau α) (e : Equation α) :
    (ofTableau t).data.setIfInBounds t.rows.size (cells e) =
      (ofTableau { t with objective := e }).data := by
  refine Array.ext_getElem? fun i ↦ ?_
  rw [Array.getElem?_setIfInBounds, size_data, if_pos (Nat.lt_succ_self _)]
  split
  · next hi => rw [← hi, ← data_objective (t := { t with objective := e })]
  · next hi => simp [ofTableau, Array.getElem?_push, Ne.symm hi]

omit [Scalar α] in
/-- Changes of the objective's row by the rows above it follow a fold over the equations. -/
theorem Rectangular.foldRows_eq (h : Rectangular t) {f : ℕ → Array α → Array α → Option (Array α)}
    {g : Equation α → BasicRow α → Equation α}
    (hf : ∀ r e, r.equation.coefficients.size = t.width → r.basic < t.width →
      e.coefficients.size = t.width →
      f r.basic (cells r.equation) (cells e) = some (cells (g e r)) ∧
        (g e r).coefficients.size = t.width) :
    (ofTableau t).foldRows f =
        some (ofTableau { t with objective := t.rows.foldl g t.objective }) ∧
      (t.rows.foldl g t.objective).coefficients.size = t.width := by
  obtain ⟨hloop, hsize⟩ := loop_foldl (l := t.rows.toList) (g := g)
    (e := fun e ↦ (ofTableau { t with objective := e }).data)
    (P := fun e ↦ e.coefficients.size = t.width)
    (f := fun i data ↦ do
      let basic ← (ofTableau t).basicVars[i]?
      let source ← data[i]?
      change data t.rows.size (f basic source))
    (fun i r e hr he ↦ by
      have hr : t.rows[i]? = some r := by simpa using hr
      obtain ⟨hentry, hnext⟩ := hf r e (h.size_row hr) (h.basic_lt hr) he
      refine ⟨?_, hnext⟩
      rw [basicVars_row hr, data_row (t := { t with objective := e }) hr]
      simp only [Option.bind_eq_bind, Option.bind_some]
      rw [change_eq (data_objective (t := { t with objective := e })) hentry, data_withObjective])
    h.objective
  rw [Array.foldl_toList] at hloop hsize
  refine ⟨?_, hsize⟩
  rw [Array.length_toList] at hloop
  rw [Grid.foldRows, objectiveRow_eq, Option.bind_eq_bind, Option.bind_some, hloop]
  rfl

end Objective

section PhaseOne

variable {t : Tableau α}

def minusArtificials (t : Tableau α) : Equation α :=
  ⟨(List.replicate t.artificialStart (0 : α) ++ List.replicate t.numArtificial (-1)).toArray, 0⟩

theorem size_minusArtificials (t : Tableau α) :
    (minusArtificials t).coefficients.size = t.width := by
  simp [minusArtificials, Tableau.artificialStart, Tableau.width]

theorem write_minusArtificials {cs : Array α} (hcs : cs.size = t.width + 1) :
    (do
      let cs ← loop (t.width + 1) (fun j cs ↦ write cs j 0) cs
      loop t.numArtificial (fun k cs ↦ write cs (t.artificialStart + k) (-1)) cs) =
        some (cells (minusArtificials t)) := by
  have hzero : Array.replicate (t.width + 1) (0 : α) =
      (List.replicate t.artificialStart (0 : α) ++ List.replicate t.numArtificial 0 ++
        [0]).toArray := by
    rw [List.replicate_append_replicate, ← List.replicate_succ', List.toArray_replicate]
    rfl
  have hones := loop_write_block (List.replicate t.artificialStart (0 : α)) [0] t.numArtificial 0
    (-1)
  rw [List.length_replicate] at hones
  rw [loop_write hcs, Option.bind_eq_bind, Option.bind_some, hzero, hones]
  simp [cells, minusArtificials]

theorem Rectangular.startPhaseOne_eq (h : Rectangular t) :
    (ofTableau t).startPhaseOne =
      some (cells t.objective, ofTableau { t with objective := t.phaseOneObjective }) ∧
        t.phaseOneObjective.coefficients.size = t.width := by
  have hzero : change (ofTableau t).data t.rows.size (fun cs ↦ do
      let cs ← loop (t.width + 1) (fun j cs ↦ write cs j 0) cs
      loop t.numArtificial (fun k cs ↦ write cs (t.artificialStart + k) (-1)) cs) =
        some (ofTableau { t with objective := minusArtificials t }).data := by
    rw [← data_withObjective t (minusArtificials t)]
    exact change_eq data_objective (write_minusArtificials (by rw [size_cells, h.objective]))
  obtain ⟨hfold, hsize⟩ := (h.withObjective (size_minusArtificials t)).foldRows_eq
    (f := fun basic source cs ↦ if t.artificialStart ≤ basic then
      Grid.combine (t.width + 1) (· + ·) source cs else some cs)
    (g := fun e r ↦ if t.artificialStart ≤ r.basic then e.add r.equation else e)
    (fun r e hr _ he ↦ by
      split
      · exact ⟨combine_eq he hr _, (size_add (hr.trans he.symm)).trans he⟩
      · exact ⟨rfl, he⟩)
  refine ⟨?_, hsize⟩
  rw [Grid.startPhaseOne, objectiveRow_eq, h.numCells_eq]
  simp only [Option.bind_eq_bind, Option.bind_some, data_objective]
  refine (bind_of_eq_some hzero _).trans ?_
  exact (bind_of_eq_some hfold _).trans rfl

theorem Rectangular.artificialRemains_eq (h : Rectangular t) (tolerance : α) :
    (ofTableau t).artificialRemains tolerance = some (t.artificialRemains tolerance) := by
  rw [Grid.artificialRemains, objectiveRow_eq, h.rhsColumn_eq]
  refine anyM_range fun i r hr ↦ ?_
  rw [basicVars_row hr, data_row hr]
  simp only [Option.bind_eq_bind, Option.bind_some, cells_rhs (h.size_row hr)]
  split
  · next hb => simp [show t.artificialStart ≤ r.basic from hb]
  · next hb => simp [show ¬t.artificialStart ≤ r.basic from hb]

omit [Scalar α] in
theorem artificialStart_le_width (t : Tableau α) : t.artificialStart ≤ t.width :=
  Nat.le_add_right _ _

omit [Scalar α] in
theorem Rectangular.findM?_row (h : Rectangular t) {row : ℕ} {r : BasicRow α}
    (hr : t.rows[row]? = some r) (q : α → Bool) :
    ((List.range t.artificialStart).findM? fun j ↦ do
      let x ← (← (ofTableau t).data[row]?)[j]?
      return q x) =
        some ((r.equation.coefficients.extract 0 t.artificialStart).findIdx? q) := by
  have hle : t.artificialStart ≤ r.equation.coefficients.size :=
    h.size_row hr ▸ artificialStart_le_width t
  have hsize : (r.equation.coefficients.extract 0 t.artificialStart).size = t.artificialStart := by
    rw [Array.size_extract, Nat.sub_zero]
    exact Nat.min_eq_left hle
  refine (congrArg (fun n ↦ (List.range n).findM? _) hsize.symm).trans
    (findM?_range fun j x hx ↦ ?_)
  obtain ⟨hj, hx⟩ := Array.getElem?_eq_some_iff.mp hx
  rw [hsize] at hj
  rw [Array.getElem_extract] at hx
  have hget : (cells r.equation)[j]? = some x := by
    rw [cells, Array.getElem?_push_lt (Nat.lt_of_lt_of_le hj hle)]
    simpa using hx
  rw [data_row hr, Option.bind_eq_bind, Option.bind_some, hget]
  rfl

theorem Rectangular.driveOut_eq (h : Rectangular t) (tolerance : α) {row : ℕ} {r : BasicRow α}
    (hr : t.rows[row]? = some r) :
    (ofTableau t).driveOut tolerance row = some (ofTableau (t.driveOut tolerance row)) ∧
      Rectangular (t.driveOut tolerance row) := by
  rw [Grid.driveOut, basicVars_row hr, Option.bind_eq_bind, Option.bind_some]
  by_cases hb : t.artificialStart ≤ r.basic
  · rw [if_pos (show (ofTableau t).artificialStart ≤ r.basic from hb)]
    have hfind := h.findM?_row hr fun x ↦ decide (tolerance < Scalar.abs x)
    cases hentering : (r.equation.coefficients.extract 0 t.artificialStart).findIdx?
      fun x ↦ decide (tolerance < Scalar.abs x) with
    | none =>
      have hstays : t.driveOut tolerance row = t := by simp [Tableau.driveOut, hr, hentering]
      rw [hstays]
      refine ⟨(bind_of_eq_some hfind _).trans ?_, h⟩
      rw [hentering]
      rfl
    | some j =>
      have hpivots : t.driveOut tolerance row = t.pivot row j := by
        simp [Tableau.driveOut, hr, hentering, hb]
      have hj : j < t.width := by
        obtain ⟨hj, -⟩ := Array.findIdx?_eq_some_iff_getElem.mp hentering
        rw [Array.size_extract] at hj
        have := artificialStart_le_width t
        omega
      rw [hpivots]
      refine ⟨(bind_of_eq_some hfind _).trans ?_, h.pivot hr hj⟩
      rw [hentering]
      exact h.pivot_eq hr hj
  · have hstays : t.driveOut tolerance row = t := by simp [Tableau.driveOut, hr, hb]
    rw [hstays, if_neg (show ¬(ofTableau t).artificialStart ≤ r.basic from hb)]
    exact ⟨rfl, h⟩

theorem sameLayout_driveOut (tolerance : α) (t : Tableau α) (row : ℕ) :
    SameLayout t (t.driveOut tolerance row) := by
  unfold Tableau.driveOut
  split
  · exact .refl t
  · dsimp only
    split
    · split
      · exact sameLayout_pivot t row _
      · exact .refl t
    · exact .refl t

theorem Rectangular.driveOutArtificials_eq (h : Rectangular t) (tolerance : α) :
    (ofTableau t).driveOutArtificials tolerance =
        some (ofTableau (t.driveOutArtificials tolerance)) ∧
      Rectangular (t.driveOutArtificials tolerance) ∧
        SameLayout t (t.driveOutArtificials tolerance) := by
  obtain ⟨hloop, hdriven⟩ := loop_foldl (l := List.range t.rows.size) (e := ofTableau)
    (P := fun u ↦ Rectangular u ∧ SameLayout t u) (g := Tableau.driveOut tolerance)
    (f := fun row g ↦ Grid.driveOut tolerance g row)
    (fun i row u hrow ⟨hu, hsame⟩ ↦ by
      obtain ⟨hi, hrow⟩ := List.getElem?_eq_some_iff.mp hrow
      rw [List.getElem_range] at hrow
      rw [List.length_range, ← hsame.size] at hi
      subst hrow
      obtain ⟨hout, hrect⟩ := hu.driveOut_eq tolerance (Array.getElem?_eq_getElem hi)
      exact ⟨hout, hrect, hsame.trans (sameLayout_driveOut tolerance u i)⟩)
    ⟨h, .refl t⟩
  rw [List.length_range] at hloop
  refine ⟨?_, hdriven⟩
  rw [Grid.driveOutArtificials, objectiveRow_eq, Option.bind_eq_bind, Option.bind_some]
  exact hloop

theorem Rectangular.restoreObjective_eq (h : Rectangular t) {objective : Equation α}
    (hobjective : objective.coefficients.size = t.width) (tolerance : α) :
    (ofTableau t).restoreObjective (cells objective) tolerance =
        some (ofTableau (t.restoreObjective objective tolerance)) ∧
      Rectangular (t.restoreObjective objective tolerance) := by
  have hwrite : write (ofTableau t).data t.rows.size (cells objective) =
      some (ofTableau { t with objective }).data := by
    rw [write_eq (by rw [size_data]; exact Nat.lt_succ_self _), data_withObjective]
  obtain ⟨hfold, hsize⟩ := (h.withObjective hobjective).foldRows_eq
    (f := fun basic source cs ↦ do
      let k ← cs[basic]?
      if tolerance < Scalar.abs k then
        Grid.combine (t.width + 1) (fun x y ↦ x - k * y) source cs
      else some cs)
    (g := fun e r ↦
      let k := e.coefficient r.basic
      if tolerance < Scalar.abs k then e.subScaled k r.equation else e)
    (fun r e hr hb he ↦ by
      have hb : r.basic < e.coefficients.size := he ▸ hb
      rw [cells_coefficient hb, Option.bind_eq_bind, Option.bind_some]
      dsimp only
      split
      · exact ⟨combine_eq he hr _, (size_subScaled (hr.trans he.symm) _).trans he⟩
      · exact ⟨rfl, he⟩)
  refine ⟨?_, h.withObjective hsize⟩
  rw [Grid.restoreObjective, objectiveRow_eq, h.numCells_eq]
  simp only [Option.bind_eq_bind, Option.bind_some, hwrite]
  exact hfold

end PhaseOne

end LinProg.Storage
