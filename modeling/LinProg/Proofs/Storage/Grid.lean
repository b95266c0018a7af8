import LinProg.Proofs.Storage.Access
import LinProg.Tableau

namespace LinProg.Storage

/-- The simplex tableau as one grid of numbers: a row for each equation with its right-hand side
last, and the objective below them. -/
structure Grid (α : Type) where
  data : Array (Array α)
  basicVars : Array ℕ
  numVars : ℕ
  numSlack : ℕ
  numArtificial : ℕ
  duals : Array (DualColumn α)

namespace Grid

variable {α : Type}

def objectiveRow (g : Grid α) : Option ℕ := minus g.data.size 1

def numCells (g : Grid α) : Option ℕ := do return (← g.data[0]?).size

def rhsColumn (g : Grid α) : Option ℕ := do minus (← g.numCells) 1

def artificialStart (g : Grid α) : ℕ := g.numVars + g.numSlack

variable [Scalar α]

def divideRow (numCells column : ℕ) (cs : Array α) : Option (Array α) := do
  let d ← cs[column]?
  loop numCells (fun j cs ↦ change cs j fun x ↦ some (x / d)) cs

def combine (numCells : ℕ) (f : α → α → α) (source cs : Array α) : Option (Array α) :=
  loop numCells (fun j cs ↦ do
    let y ← source[j]?
    change cs j fun x ↦ some (f x y)) cs

def eliminateRow (numCells column : ℕ) (source cs : Array α) : Option (Array α) := do
  let k ← cs[column]?
  if k == 0 then return cs
  combine numCells (fun x y ↦ x - k * y) source cs

def pivot (g : Grid α) (row column : ℕ) : Option (Grid α) := do
  let numCells ← g.numCells
  let basicVars ← write g.basicVars row column
  let data ← change g.data row (divideRow numCells column)
  let source ← data[row]?
  let data ← loop data.size (fun i data ↦
    if i = row then some data else change data i (eliminateRow numCells column source)) data
  return { g with data, basicVars }

def foldRows (g : Grid α) (f : ℕ → Array α → Array α → Option (Array α)) : Option (Grid α) := do
  let objectiveRow ← g.objectiveRow
  let data ← loop objectiveRow (fun i data ↦ do
    let basic ← g.basicVars[i]?
    let source ← data[i]?
    change data objectiveRow (f basic source)) g.data
  return { g with data }

end Grid

section Image

variable {α : Type}

def cells (e : Equation α) : Array α := e.coefficients.push e.rhs

def ofTableau (t : Tableau α) : Grid α :=
  { data := (t.rows.map fun r ↦ cells r.equation).push (cells t.objective)
    basicVars := t.rows.map (·.basic), numVars := t.numVars, numSlack := t.numSlack
    numArtificial := t.numArtificial, duals := t.duals.toArray }

/-- What the storage of a tableau relies on: every equation has a coefficient for each variable, and
the basic variables are variables. -/
structure Rectangular (t : Tableau α) : Prop where
  rows : ∀ r ∈ t.rows, r.equation.coefficients.size = t.width
  basic : ∀ r ∈ t.rows, r.basic < t.width
  objective : t.objective.coefficients.size = t.width

theorem size_cells (e : Equation α) : (cells e).size = e.coefficients.size + 1 := Array.size_push _

theorem cells_rhs {e : Equation α} {n : ℕ} (h : e.coefficients.size = n) :
    (cells e)[n]? = some e.rhs := by
  subst h
  exact Array.getElem?_push_size

theorem cells_coefficient [Scalar α] {e : Equation α} {j : ℕ} (h : j < e.coefficients.size) :
    (cells e)[j]? = some (e.coefficient j) := by
  rw [cells, Array.getElem?_push_lt h, Equation.coefficient, Array.getElem?_eq_getElem h]
  rfl

variable {t : Tableau α}

theorem size_data : (ofTableau t).data.size = t.rows.size + 1 := by simp [ofTableau]

theorem data_row {i : ℕ} {r : BasicRow α} (hr : t.rows[i]? = some r) :
    (ofTableau t).data[i]? = some (cells r.equation) := by
  obtain ⟨hi, -⟩ := Array.getElem?_eq_some_iff.mp hr
  simp [ofTableau, Array.getElem?_push, hr, Nat.ne_of_lt hi]

theorem data_objective : (ofTableau t).data[t.rows.size]? = some (cells t.objective) := by
  have hsize : (t.rows.map fun r ↦ cells r.equation).size = t.rows.size := Array.size_map
  exact hsize ▸ Array.getElem?_push_size

theorem data_cases {i : ℕ} {cs : Array α} (h : (ofTableau t).data[i]? = some cs) :
    (∃ r, t.rows[i]? = some r ∧ cs = cells r.equation) ∨
      i = t.rows.size ∧ cs = cells t.objective := by
  rcases Nat.lt_trichotomy i t.rows.size with hlt | rfl | hgt
  · have hr := Array.getElem?_eq_getElem hlt
    exact .inl ⟨_, hr, Option.some_inj.mp (h.symm.trans (data_row hr))⟩
  · exact .inr ⟨rfl, Option.some_inj.mp (h.symm.trans data_objective)⟩
  · rw [Array.getElem?_eq_none (by rw [size_data]; omega)] at h
    cases h

theorem basicVars_row {i : ℕ} {r : BasicRow α} (hr : t.rows[i]? = some r) :
    (ofTableau t).basicVars[i]? = some r.basic := by
  simp [ofTableau, hr]

theorem objectiveRow_eq : (ofTableau t).objectiveRow = some t.rows.size := by
  rw [Grid.objectiveRow, size_data]
  exact minus_eq (Nat.le_add_left 1 _)

theorem Rectangular.size_row (h : Rectangular t) {i : ℕ} {r : BasicRow α}
    (hr : t.rows[i]? = some r) : r.equation.coefficients.size = t.width :=
  h.rows r (Array.mem_of_getElem? hr)

theorem Rectangular.basic_lt (h : Rectangular t) {i : ℕ} {r : BasicRow α}
    (hr : t.rows[i]? = some r) : r.basic < t.width :=
  h.basic r (Array.mem_of_getElem? hr)

theorem Rectangular.numCells_eq (h : Rectangular t) :
    (ofTableau t).numCells = some (t.width + 1) := by
  have hpos : 0 < (ofTableau t).data.size := by rw [size_data]; exact Nat.succ_pos _
  have hfirst := Array.getElem?_eq_getElem hpos
  have hsize : (ofTableau t).data[0].size = t.width + 1 := by
    obtain ⟨r, hr, hcells⟩ | ⟨-, hcells⟩ := data_cases hfirst
    · rw [hcells, size_cells, h.size_row hr]
    · rw [hcells, size_cells, h.objective]
  rw [Grid.numCells, hfirst]
  exact congrArg some hsize

theorem Rectangular.rhsColumn_eq (h : Rectangular t) : (ofTableau t).rhsColumn = some t.width := by
  rw [Grid.rhsColumn, h.numCells_eq]
  exact minus_eq (Nat.le_add_left 1 _)

theorem Rectangular.withObjective (h : Rectangular t) {e : Equation α}
    (he : e.coefficients.size = t.width) : Rectangular { t with objective := e } :=
  ⟨h.rows, h.basic, he⟩

end Image

structure SameLayout {α : Type} (t u : Tableau α) : Prop where
  numVars : u.numVars = t.numVars
  numSlack : u.numSlack = t.numSlack
  numArtificial : u.numArtificial = t.numArtificial
  duals : u.duals = t.duals
  size : u.rows.size = t.rows.size

namespace SameLayout

variable {α : Type} {t u v : Tableau α}

theorem refl (t : Tableau α) : SameLayout t t := ⟨rfl, rfl, rfl, rfl, rfl⟩

theorem trans (h : SameLayout t u) (h' : SameLayout u v) : SameLayout t v :=
  ⟨h'.numVars.trans h.numVars, h'.numSlack.trans h.numSlack,
    h'.numArtificial.trans h.numArtificial, h'.duals.trans h.duals, h'.size.trans h.size⟩

theorem width (h : SameLayout t u) : u.width = t.width := by
  rw [Tableau.width, h.numVars, h.numSlack, h.numArtificial, Tableau.width]

theorem withObjective (h : SameLayout t u) (e : Equation α) :
    SameLayout t { u with objective := e } :=
  ⟨h.numVars, h.numSlack, h.numArtificial, h.duals, h.size⟩

end SameLayout

section Rows

variable {α : Type} [Scalar α] {e f : Equation α} {n : ℕ}

@[simp] theorem size_divide (e : Equation α) (d : α) :
    (e.divide d).coefficients.size = e.coefficients.size := by
  simp [Equation.divide]

theorem size_add (hf : f.coefficients.size = e.coefficients.size) :
    (e.add f).coefficients.size = e.coefficients.size := by
  simp [Equation.add, hf]

theorem size_subScaled (hf : f.coefficients.size = e.coefficients.size) (k : α) :
    (e.subScaled k f).coefficients.size = e.coefficients.size := by
  simp [Equation.subScaled, hf]

theorem size_eliminate (hf : f.coefficients.size = e.coefficients.size) (j : ℕ) :
    (e.eliminate j f).coefficients.size = e.coefficients.size := by
  unfold Equation.eliminate
  dsimp only
  split
  · rfl
  · exact size_subScaled hf _

theorem divideRow_eq {column : ℕ} (he : e.coefficients.size = n) (hc : column < n) :
    Grid.divideRow (n + 1) column (cells e) = some (cells (e.divide (e.coefficient column))) := by
  subst he
  rw [Grid.divideRow, cells_coefficient hc, Option.bind_eq_bind, Option.bind_some, ← size_cells]
  refine loop_change (by simp [size_cells]) fun j x y hx hy ↦ ?_
  rw [cells, Equation.divide, ← Array.map_push, Array.getElem?_map, ← cells, hx] at hy
  exact hy

omit [Scalar α] in
theorem combine_eq (he : e.coefficients.size = n) (hf : f.coefficients.size = n)
    (g : α → α → α) : Grid.combine (n + 1) g (cells f) (cells e) =
      some (cells ⟨e.coefficients.zipWith g f.coefficients, g e.rhs f.rhs⟩) := by
  have hsize : (cells e).size = n + 1 := by rw [size_cells, he]
  rw [Grid.combine, ← hsize]
  refine loop_replace (by simp [size_cells, he, hf]) fun j x z u hx hz hu ↦ ?_
  obtain ⟨y, hy, rfl⟩ : ∃ y, (cells f)[j]? = some y ∧ g x y = z := by
    have hj : j ≤ n := by
      obtain ⟨hj, -⟩ := Array.getElem?_eq_some_iff.mp hx
      omega
    obtain rfl | hlt := Nat.eq_or_lt_of_le hj
    · rw [cells_rhs he] at hx
      rw [cells_rhs (by simp [he, hf])] at hz
      obtain rfl := Option.some_inj.mp hx
      exact ⟨_, cells_rhs hf, Option.some_inj.mp hz⟩
    · rw [cells, Array.getElem?_push_lt (he ▸ hlt)] at hx
      rw [cells, Array.getElem?_push_lt (by simpa [he, hf] using hlt)] at hz
      refine ⟨_, Array.getElem?_push_lt (hf ▸ hlt), ?_⟩
      simpa [← Option.some_inj.mp hx] using hz
  rw [hy, Option.bind_eq_bind, Option.bind_some]
  exact change_eq hu rfl

theorem eliminateRow_eq {column : ℕ} (he : e.coefficients.size = n) (hf : f.coefficients.size = n)
    (hc : column < n) : Grid.eliminateRow (n + 1) column (cells f) (cells e) =
      some (cells (e.eliminate column f)) := by
  rw [Grid.eliminateRow, cells_coefficient (he ▸ hc), Option.bind_eq_bind, Option.bind_some,
    Equation.eliminate]
  split
  · rfl
  · exact combine_eq he hf _

end Rows

section Pivot

variable {α : Type} [Scalar α] {t : Tableau α} {row column : ℕ} {r : BasicRow α}

theorem pivot_of_row (hr : t.rows[row]? = some r) (column : ℕ) :
    t.pivot row column =
      let p := r.equation.divide (r.equation.coefficient column)
      { t with
        rows := t.rows.mapIdx fun i r ↦
          if i = row then ⟨column, p⟩ else ⟨r.basic, r.equation.eliminate column p⟩
        objective := t.objective.eliminate column p } := by
  rw [Tableau.pivot, hr]

omit [Scalar α] in
theorem getElem?_data_set (hr : t.rows[row]? = some r) (p : Equation α) (i : ℕ) :
    ((ofTableau t).data.setIfInBounds row (cells p))[i]? =
      if row = i then some (cells p) else (ofTableau t).data[i]? := by
  obtain ⟨hrow, -⟩ := Array.getElem?_eq_some_iff.mp hr
  simp [Array.getElem?_setIfInBounds, size_data, Nat.lt_succ_of_lt hrow]

theorem basicVars_pivot (hr : t.rows[row]? = some r) (column : ℕ) :
    write (ofTableau t).basicVars row column =
      some (ofTableau (t.pivot row column)).basicVars := by
  obtain ⟨hrow, -⟩ := Array.getElem?_eq_some_iff.mp hr
  rw [write_eq (by simpa [ofTableau] using hrow), pivot_of_row hr]
  refine congrArg some (Array.ext_getElem? fun i ↦ ?_)
  by_cases hi : i = row
  · subst hi
    simp [ofTableau, hrow]
  · cases hq : t.rows[i]? <;> simp [ofTableau, hq, hi, Ne.symm hi]

theorem Rectangular.eliminate_eq (h : Rectangular t) (hr : t.rows[row]? = some r)
    (hc : column < t.width) :
    let p := r.equation.divide (r.equation.coefficient column)
    let data := (ofTableau t).data.setIfInBounds row (cells p)
    loop data.size (fun i data ↦ if i = row then some data
      else change data i (Grid.eliminateRow (t.width + 1) column (cells p))) data =
        some (ofTableau (t.pivot row column)).data := by
  intro p data
  have hp : p.coefficients.size = t.width := by rw [size_divide, h.size_row hr]
  have hpivot := pivot_of_row hr column
  refine loop_replace (by simp [data, size_data]) fun i x y u hx hy hu ↦ ?_
  rw [getElem?_data_set hr p] at hx
  by_cases hi : i = row
  · subst hi
    have hpivoted : (t.pivot i column).rows[i]? = some ⟨column, p⟩ := by simp [hpivot, hr, p]
    obtain rfl : y = x :=
      Option.some_inj.mp ((hy.symm.trans (data_row hpivoted)).trans (by simpa using hx))
    rw [if_pos rfl, setIfInBounds_self hu]
  · rw [if_neg (Ne.symm hi)] at hx
    rw [if_neg hi]
    obtain ⟨q, hq, rfl⟩ | ⟨rfl, rfl⟩ := data_cases hx
    · have hpivoted : (t.pivot row column).rows[i]? =
          some ⟨q.basic, q.equation.eliminate column p⟩ := by simp [hpivot, hq, hi, p]
      rw [data_row hpivoted] at hy
      obtain rfl := Option.some_inj.mp hy
      exact change_eq hu (eliminateRow_eq (h.size_row hq) hp hc)
    · have hobjective := data_objective (t := t.pivot row column)
      rw [Tableau.size_rows_pivot, hy, hpivot] at hobjective
      obtain rfl := Option.some_inj.mp hobjective
      exact change_eq hu (eliminateRow_eq h.objective hp hc)

/-- A pivot of the tableau is one of the grid, and needs no element that the grid does not have. -/
theorem Rectangular.pivot_eq (h : Rectangular t) (hr : t.rows[row]? = some r)
    (hc : column < t.width) :
    (ofTableau t).pivot row column = some (ofTableau (t.pivot row column)) := by
  let p := r.equation.divide (r.equation.coefficient column)
  let data := (ofTableau t).data.setIfInBounds row (cells p)
  have hdivide : change (ofTableau t).data row (Grid.divideRow (t.width + 1) column) = some data :=
    change_eq (data_row hr) (divideRow_eq (h.size_row hr) hc)
  have hself : data[row]? = some (cells p) := by rw [getElem?_data_set hr, if_pos rfl]
  rw [Grid.pivot, h.numCells_eq]
  simp only [Option.bind_eq_bind, Option.bind_some, basicVars_pivot hr, hdivide, hself]
  refine (bind_of_eq_some (h.eliminate_eq hr hc) _).trans ?_
  rw [pivot_of_row hr]
  rfl

theorem Rectangular.pivot (h : Rectangular t) (hr : t.rows[row]? = some r)
    (hc : column < t.width) : Rectangular (t.pivot row column) := by
  let p := r.equation.divide (r.equation.coefficient column)
  have hp : p.coefficients.size = t.width := by rw [size_divide, h.size_row hr]
  have hrow (i : ℕ) (q : BasicRow α) (hq : (t.pivot row column).rows[i]? = some q) :
      q.equation.coefficients.size = t.width ∧ q.basic < t.width := by
    rw [pivot_of_row hr, Array.getElem?_mapIdx, Option.map_eq_some_iff] at hq
    obtain ⟨q, hq, rfl⟩ := hq
    split
    · exact ⟨hp, hc⟩
    · exact ⟨(size_eliminate (hp.trans (h.size_row hq).symm) column).trans (h.size_row hq),
        (h.basic_lt hq :)⟩
  refine ⟨fun q hq ↦ ?_, fun q hq ↦ ?_, ?_⟩
  · obtain ⟨i, hi⟩ := Array.getElem?_of_mem hq
    rw [Tableau.width_pivot]
    exact (hrow i q hi).1
  · obtain ⟨i, hi⟩ := Array.getElem?_of_mem hq
    rw [Tableau.width_pivot]
    exact (hrow i q hi).2
  · rw [Tableau.width_pivot, pivot_of_row hr]
    exact (size_eliminate (hp.trans h.objective.symm) column).trans h.objective

theorem sameLayout_pivot (t : Tableau α) (row column : ℕ) :
    SameLayout t (t.pivot row column) := by
  unfold Tableau.pivot
  split
  · exact .refl t
  · exact ⟨rfl, rfl, rfl, rfl, Array.size_mapIdx⟩

end Pivot

end LinProg.Storage
