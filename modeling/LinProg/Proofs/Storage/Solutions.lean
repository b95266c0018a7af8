import LinProg.Proofs.Storage.Runs

namespace LinProg.Storage

variable {α : Type} [Scalar α]

namespace Machine

def loadBasic (m : Machine α) (rhsColumn i : ℕ) (v : Array α) : Option (Array α) := do
  let basic ← m.grid.basicVars[i]?
  if basic < m.form.numVars then
    let x ← (← m.grid.data[i]?)[rhsColumn]?
    write v basic x
  else return v

def point (m : Machine α) : Option (Array α) := do
  let rhsColumn ← m.grid.rhsColumn
  loop m.grid.basicVars.size (m.loadBasic rhsColumn) (Array.replicate m.form.numVars 0)

/-- Adds the multiplier of a constraint to the dual of its row. -/
def addMultiplier (m : Machine α) (objectiveRow k : ℕ) (ds : Array α) : Option (Array α) := do
  let c ← m.form.constraints[k]?
  match c.origin with
  | .columnRange _ => return ds
  | .row i =>
    let d ← m.grid.duals[k]?
    let x ← (← m.grid.data[objectiveRow]?)[d.variableIndex]?
    change ds i fun total ↦ some (total + m.form.sense * (-x * d.sign))

def duals (m : Machine α) (numRows : ℕ) : Option (Array α) := do
  let zero : Array α := Array.replicate numRows 0
  match m.stage with
  | .one _ | .done .infeasible => return zero
  | .two | .done .optimal | .done .unbounded =>
    let ds ← loop m.form.constraints.length (m.addMultiplier (← m.grid.objectiveRow)) zero
    return ds.map fun d ↦ if Scalar.abs d < m.tolerances.pivot then 0 else d

def status (m : Machine α) : Status :=
  match m.stage with
  | .one _ => .infeasible
  | .two => .feasible
  | .done .optimal => .optimal
  | .done .unbounded => .unbounded
  | .done .infeasible => .noFeasible

def solution (m : Machine α) (p : Problem α) : Option (Solution α) := do
  let values := (← m.form.recover (← m.point)).toArray
  let duals ← m.duals p.numRows
  return { status := m.status, objectiveValue := p.objectiveValue values, values
           duals := some duals, iterations := m.iterations }

end Machine

variable {p : Problem α} {s : Simplex α}

omit [Scalar α] in
theorem status_ofSimplex (s : Simplex α) : (ofSimplex s).status = s.status := by
  have hstage : (ofSimplex s).stage = ofPhase s.phase := rfl
  unfold Machine.status Simplex.status
  rw [hstage]
  rcases s.phase with _ | _ | _ | _ | _ <;> rfl

theorem Stored.numVars (h : Stored p s) : s.tableau.numVars = s.form.numVars :=
  h.layout.numVars

theorem loadBasic_eq (h : Stored p s) {i : ℕ} {r : BasicRow α} (hr : s.tableau.rows[i]? = some r)
    {v : Array α} (hv : v.size = s.form.numVars) :
    (ofSimplex s).loadBasic s.tableau.width i v =
      some (v.setIfInBounds r.basic r.equation.rhs) := by
  have hbasic : (ofSimplex s).grid.basicVars[i]? = some r.basic := basicVars_row hr
  have hrow : (ofSimplex s).grid.data[i]? = some (cells r.equation) := data_row hr
  have hnumVars : (ofSimplex s).form.numVars = s.form.numVars := rfl
  simp only [Machine.loadBasic, hbasic, hrow, hnumVars, Option.bind_eq_bind, Option.bind_some,
    cells_rhs (h.rectangular.size_row hr)]
  split
  · next hb => exact write_eq (hv ▸ hb) _
  · next hb =>
    rw [Array.setIfInBounds_eq_of_size_le (hv ▸ Nat.le_of_not_lt hb)]
    rfl

theorem point_eq (h : Stored p s) :
    ∃ v, (ofSimplex s).point = some v ∧ v.toList = s.tableau.basicPoint ∧
      v.size = s.form.numVars := by
  obtain ⟨hloop, hsize⟩ := loop_foldl (l := s.tableau.rows.toList) (e := id)
    (P := fun v : Array α ↦ v.size = s.form.numVars)
    (g := fun v r ↦ v.setIfInBounds r.basic r.equation.rhs)
    (f := (ofSimplex s).loadBasic s.tableau.width)
    (fun i r v hr hv ↦ ⟨loadBasic_eq h (by simpa using hr) hv,
      Array.size_setIfInBounds.trans hv⟩)
    (s := Array.replicate s.form.numVars 0) Array.size_replicate
  rw [Array.length_toList, Array.foldl_toList] at hloop
  rw [Array.foldl_toList] at hsize
  have hcolumn : (ofSimplex s).grid.rhsColumn = some s.tableau.width := h.rectangular.rhsColumn_eq
  have hcount : (ofSimplex s).grid.basicVars.size = s.tableau.rows.size := Array.size_map
  refine ⟨_, ?_, ?_, hsize⟩
  · rw [Machine.point, hcolumn, Option.bind_eq_bind, Option.bind_some, hcount]
    exact hloop
  · rw [Tableau.basicPoint, h.numVars]

def charged (sense : α) (ds : Array α) (x : Origin × α) : Array α :=
  match x with
  | (origin, y) =>
    match origin with
    | .row i => ds.modify i (· + sense * y)
    | .columnRange _ => ds

theorem size_charged (sense : α) (ds : Array α) (x : Origin × α) :
    (charged sense ds x).size = ds.size := by
  obtain ⟨origin, y⟩ := x
  cases origin with
  | row i => exact Array.size_modify
  | columnRange j => rfl

theorem addMultiplier_eq (h : Stored p s) {k : ℕ} {x : Origin × α}
    (hk : s.multipliers[k]? = some x) {ds : Array α} (hds : ds.size = p.numRows) :
    (ofSimplex s).addMultiplier s.tableau.rows.size k ds = some (charged s.form.sense ds x) := by
  obtain ⟨c, d, hc, hd, rfl⟩ := List.getElem?_zipWith_eq_some.mp hk
  have hlt : d.variableIndex < s.tableau.objective.coefficients.size := by
    rw [h.rectangular.objective, h.layout.width]
    exact dual_lt_width h.fits (h.layout.duals ▸ List.mem_of_getElem? hd)
  have hdual : (ofSimplex s).grid.duals[k]? = some d := by
    simpa [ofSimplex, ofTableau] using hd
  have hdata : (ofSimplex s).grid.data[s.tableau.rows.size]? = some (cells s.tableau.objective) :=
    data_objective
  have hconstraint : (ofSimplex s).form.constraints[k]? = some c := hc
  rw [Machine.addMultiplier, hconstraint, Option.bind_eq_bind, Option.bind_some]
  cases ho : c.origin with
  | columnRange j => rfl
  | row i =>
    have hi : i < ds.size := hds ▸ h.fits.origin c (List.mem_of_getElem? hc) i ho
    simp only [hdual, hdata, cells_coefficient hlt, Option.bind_eq_bind, Option.bind_some]
    exact change_eq_modify hi _

theorem duals_eq (h : Stored p s) :
    (ofSimplex s).duals p.numRows = some (s.duals p.numRows) ∧
      (s.duals p.numRows).size = p.numRows := by
  let zero : Array α := Array.replicate p.numRows 0
  let settle (ds : Array α) : Array α :=
    ds.map fun d ↦ if Scalar.abs d < s.tolerances.pivot then 0 else d
  have hzero : zero.size = p.numRows := Array.size_replicate
  have hlength : s.multipliers.length = s.form.constraints.length := by
    rw [Simplex.multipliers, List.length_zipWith, h.layout.duals, duals_ofForm, Nat.min_self]
  obtain ⟨hloop, hsize⟩ := loop_foldl (l := s.multipliers) (e := id)
    (P := fun ds : Array α ↦ ds.size = p.numRows) (g := charged s.form.sense)
    (f := (ofSimplex s).addMultiplier s.tableau.rows.size)
    (fun k x ds hk hds ↦ ⟨addMultiplier_eq h hk hds, (size_charged _ ds x).trans hds⟩) hzero
  rw [hlength, id, id] at hloop
  have hrow : (ofSimplex s).grid.objectiveRow = some s.tableau.rows.size := objectiveRow_eq
  have hstage : (ofSimplex s).stage = ofPhase s.phase := rfl
  have hpriced : (do
      let ds ← loop (ofSimplex s).form.constraints.length
        ((ofSimplex s).addMultiplier (← (ofSimplex s).grid.objectiveRow)) zero
      return settle ds) = some (settle (s.multipliers.foldl (charged s.form.sense) zero)) := by
    rw [hrow, Option.bind_eq_bind, Option.bind_some]
    exact (bind_of_eq_some hloop _).trans rfl
  have hsettled : (settle (s.multipliers.foldl (charged s.form.sense) zero)).size = p.numRows :=
    (Array.size_map ..).trans hsize
  unfold Machine.duals Simplex.duals
  rw [hstage]
  cases s.phase with
  | one objective => exact ⟨rfl, hzero⟩
  | two => exact ⟨hpriced, hsettled⟩
  | done terminal =>
    cases terminal with
    | optimal | unbounded => exact ⟨hpriced, hsettled⟩
    | infeasible => exact ⟨rfl, hzero⟩

theorem solution_eq (h : Stored p s) :
    (ofSimplex s).solution p = some (s.solution p) ∧
      (s.solution p).values.size = p.numColumns ∧
      ∃ ds, (s.solution p).duals = some ds ∧ ds.size = p.numRows := by
  obtain ⟨v, hpoint, hv, hsize⟩ := point_eq h
  obtain ⟨hduals, hcount⟩ := duals_eq h
  have hrecover : (ofSimplex s).form.recover v = some (s.form.recover s.tableau.basicPoint) := by
    rw [← hv]
    exact recover_ofForm s.form hsize
  refine ⟨?_, ?_, _, rfl, hcount⟩
  · rw [Machine.solution]
    simp only [hpoint, hrecover, hduals, Option.bind_eq_bind, Option.bind_some, status_ofSimplex]
    rfl
  · simp [Simplex.solution, StandardForm.recover, h.fits.columns]

end LinProg.Storage
