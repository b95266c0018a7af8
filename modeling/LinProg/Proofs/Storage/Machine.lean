import LinProg.Proofs.Choice
import LinProg.Proofs.Storage.InitialGrid
import LinProg.Proofs.Storage.Phases
import LinProg.Simplex

namespace LinProg.Storage

inductive Stage (α : Type) where
  | one (saved : Array α)
  | two
  | done (terminal : Terminal)

structure Machine (α : Type) where
  form : Standard α
  tolerances : Tolerances α
  grid : Grid α
  stage : Stage α
  iterations : ℕ
  degenerateStreak : ℕ

inductive Move (α : Type) where
  | pivoted (next : Machine α)
  | optimal
  | unbounded

variable {α : Type} [Scalar α]

namespace Machine

def isDone (m : Machine α) : Bool :=
  match m.stage with
  | .done _ => true
  | _ => false

def numCandidates (m : Machine α) : Option ℕ := do
  let rhsColumn ← m.grid.rhsColumn
  match m.stage with
  | .one _ => return rhsColumn
  | _ => return m.grid.artificialStart

def enteringColumn (m : Machine α) : Option (Option ℕ) := do
  let objectiveRow ← m.grid.objectiveRow
  let numCandidates ← m.numCandidates
  let reduced ← slice (← m.grid.data[objectiveRow]?) numCandidates
  return if Simplex.degenerateStreakLimit ≤ m.degenerateStreak then
    reduced.toList.findIdx? fun d ↦ m.tolerances.pivot < d
  else Simplex.argmaxAbove m.tolerances.pivot reduced.toList

/-- The best row so far, of which the row and the ratio are kept, with its basic variable. -/
def readLeaving (g : Grid α) : Option (ℕ × α) → Option (Option (Simplex.Leaving α))
  | none => some none
  | some (row, ratio) => do return some ⟨row, ← g.basicVars[row]?, ratio⟩

def considerRow (g : Grid α) (tolerance : α) (column rhsColumn i : ℕ) (best : Option (ℕ × α)) :
    Option (Option (ℕ × α)) := do
  let cs ← g.data[i]?
  let entry ← cs[column]?
  if tolerance < entry then
    let ratio := Scalar.positivePart (← cs[rhsColumn]?) / entry
    let leaving ← readLeaving g best
    return if Simplex.improvesOn tolerance ratio (← g.basicVars[i]?) leaving then some (i, ratio)
      else best
  else return best

def leavingRow (g : Grid α) (tolerance : α) (column : ℕ) : Option (Option (ℕ × α)) := do
  let rhsColumn ← g.rhsColumn
  loop (← g.objectiveRow) (considerRow g tolerance column rhsColumn) none

def attempt (m : Machine α) : Option (Move α) := do
  match ← m.enteringColumn with
  | none => return .optimal
  | some column =>
    match ← leavingRow m.grid m.tolerances.pivot column with
    | none => return .unbounded
    | some (row, ratio) =>
      let grid ← m.grid.pivot row column
      return .pivoted { m with
        grid, iterations := m.iterations + 1
        degenerateStreak := if ratio ≤ m.tolerances.pivot then m.degenerateStreak + 1 else 0 }

end Machine

section Image

def ofPhase : Phase α → Stage α
  | .one objective => .one (cells objective)
  | .two => .two
  | .done terminal => .done terminal

def ofSimplex (s : Simplex α) : Machine α :=
  { form := ofForm s.form, tolerances := s.tolerances, grid := ofTableau s.tableau
    stage := ofPhase s.phase, iterations := s.iterations, degenerateStreak := s.degenerateStreak }

def ofAttempt : Attempt α → Move α
  | .pivoted next => .pivoted (ofSimplex next)
  | .optimal => .optimal
  | .unbounded => .unbounded

/-- What the storage of a run on a problem relies on. -/
structure Stored (p : Problem α) (s : Simplex α) : Prop where
  fits : Fits p s.form
  rectangular : Rectangular s.tableau
  layout : SameLayout (.ofForm s.form) s.tableau
  saved : ∀ e, s.phase = .one e → e.coefficients.size = s.tableau.width

variable {p : Problem α} {s : Simplex α} {t : Tableau α}

omit [Scalar α] in
theorem isDone_ofSimplex (s : Simplex α) : (ofSimplex s).isDone = s.isDone := by
  cases h : s.phase <;> simp [ofSimplex, Machine.isDone, Simplex.isDone, h, ofPhase]

omit [Scalar α] in
theorem numCandidates_le (s : Simplex α) : s.numCandidates ≤ s.tableau.width := by
  unfold Simplex.numCandidates
  split
  · exact Nat.le_refl _
  · exact artificialStart_le_width _

omit [Scalar α] in
theorem slice_cells {e : Equation α} {n : ℕ} (hn : n ≤ e.coefficients.size) :
    slice (cells e) n = some (e.coefficients.extract 0 n) := by
  rw [slice, if_pos (by rw [size_cells]; omega), cells, Array.extract_push_of_le hn]

omit [Scalar α] in
theorem numCandidates_eq (h : Rectangular s.tableau) :
    (ofSimplex s).numCandidates = some s.numCandidates := by
  rw [Machine.numCandidates, show (ofSimplex s).grid = ofTableau s.tableau from rfl, h.rhsColumn_eq,
    Simplex.numCandidates]
  cases hp : s.phase <;> simp [ofSimplex, ofPhase, hp] <;> rfl

theorem enteringColumn_eq (h : Rectangular s.tableau) :
    (ofSimplex s).enteringColumn = some s.enteringColumn := by
  have hslice := slice_cells (e := s.tableau.objective) (n := s.numCandidates)
    (h.objective ▸ numCandidates_le s)
  rw [Machine.enteringColumn, show (ofSimplex s).grid = ofTableau s.tableau from rfl,
    objectiveRow_eq, numCandidates_eq h]
  simp only [Option.bind_eq_bind, Option.bind_some, data_objective, hslice]
  rfl

theorem argmaxAbove_lt {threshold : α} {xs : List α} {j : ℕ}
    (h : Simplex.argmaxAbove threshold xs = some j) : j < xs.length := by
  obtain ⟨⟨x, i⟩, hc, rfl⟩ := Option.map_eq_some_iff.mp h
  have hmem : (x, i) ∈ xs.zipIdx := by
    refine (foldl_choice (P := (· ∈ xs.zipIdx)) (R := fun _ ↦ True)
      (fun best hbest d hd c hc ↦ ?_) fun best d _ hc ↦ ?_).2 _ hc
    · cases best with
      | none =>
        dsimp only at hc
        split at hc
        · exact Option.some_inj.mp hc ▸ hd
        · cases hc
      | some b =>
        dsimp only at hc
        split at hc
        · exact Option.some_inj.mp hc ▸ hd
        · exact Option.some_inj.mp hc ▸ hbest b rfl
    · cases best with
      | none => exact ⟨rfl, trivial⟩
      | some b =>
        dsimp only at hc
        split at hc <;> cases hc
  have hlt := List.snd_lt_of_mem_zipIdx hmem
  simpa using hlt

theorem enteringColumn_lt (h : Rectangular s.tableau) {column : ℕ}
    (hc : s.enteringColumn = some column) : column < s.tableau.width := by
  have hle := numCandidates_le s
  have hlt : column <
      (s.tableau.objective.coefficients.extract 0 s.numCandidates).toList.length := by
    unfold Simplex.enteringColumn at hc
    dsimp only at hc
    split at hc
    · exact (List.findIdx?_eq_some_iff_getElem.mp hc).1
    · exact argmaxAbove_lt hc
  rw [Array.length_toList, Array.size_extract, h.objective] at hlt
  omega

omit [Scalar α] in
theorem readLeaving_eq {best : Option (Simplex.Leaving α)}
    (hbest : ∀ l ∈ best, ∃ r, t.rows[l.row]? = some r ∧ r.basic = l.basic) :
    Machine.readLeaving (ofTableau t) (best.map fun l ↦ (l.row, l.ratio)) = some best := by
  cases best with
  | none => rfl
  | some l =>
    obtain ⟨r, hr, hb⟩ := hbest l rfl
    rw [Option.map_some, Machine.readLeaving, basicVars_row hr, hb]
    rfl

theorem considerRow_eq (h : Rectangular t) (tolerance : α) {column : ℕ} (hc : column < t.width)
    {i : ℕ} {r : BasicRow α} (hr : t.rows[i]? = some r) {best : Option (Simplex.Leaving α)}
    (hbest : ∀ l ∈ best, ∃ r, t.rows[l.row]? = some r ∧ r.basic = l.basic) :
    Machine.considerRow (ofTableau t) tolerance column t.width i
        (best.map fun l ↦ (l.row, l.ratio)) =
      some ((Simplex.considerRow tolerance column best (r, i)).map fun l ↦ (l.row, l.ratio)) ∧
    ∀ l ∈ Simplex.considerRow tolerance column best (r, i),
      ∃ r, t.rows[l.row]? = some r ∧ r.basic = l.basic := by
  have hentry := cells_coefficient (e := r.equation) (j := column) (h.size_row hr ▸ hc)
  rw [Machine.considerRow, data_row hr]
  simp only [Option.bind_eq_bind, Option.bind_some, hentry, cells_rhs (h.size_row hr),
    readLeaving_eq hbest, basicVars_row hr]
  unfold Simplex.considerRow
  dsimp only
  split
  · split
    · refine ⟨rfl, ?_⟩
      rintro _ ⟨⟩
      exact ⟨r, hr, rfl⟩
    · exact ⟨rfl, hbest⟩
  · exact ⟨rfl, hbest⟩

theorem leavingRow_eq (h : Rectangular t) (tolerance : α) {column : ℕ} (hc : column < t.width) :
    Machine.leavingRow (ofTableau t) tolerance column =
      some ((Simplex.leavingRow t tolerance column).map fun l ↦ (l.row, l.ratio)) ∧
    ∀ l ∈ Simplex.leavingRow t tolerance column,
      ∃ r, t.rows[l.row]? = some r ∧ r.basic = l.basic := by
  obtain ⟨hloop, hrow⟩ := loop_foldl (l := t.rows.toList.zipIdx)
    (e := fun best : Option (Simplex.Leaving α) ↦ best.map fun l ↦ (l.row, l.ratio))
    (P := fun best ↦ ∀ l ∈ best, ∃ r, t.rows[l.row]? = some r ∧ r.basic = l.basic)
    (g := Simplex.considerRow tolerance column)
    (f := Machine.considerRow (ofTableau t) tolerance column t.width)
    (fun i x best hx hbest ↦ by
      rw [List.getElem?_zipIdx, Option.map_eq_some_iff] at hx
      obtain ⟨r, hr, rfl⟩ := hx
      rw [Nat.zero_add]
      exact considerRow_eq h tolerance hc (by simpa using hr) hbest)
    (s := none) (by simp)
  rw [List.length_zipIdx, Array.length_toList] at hloop
  refine ⟨?_, hrow⟩
  rw [Machine.leavingRow, h.rhsColumn_eq, objectiveRow_eq]
  exact hloop

theorem attempt_eq (h : Rectangular s.tableau) :
    (ofSimplex s).attempt = some (ofAttempt s.attempt) := by
  rw [Machine.attempt, enteringColumn_eq h, Option.bind_eq_bind, Option.bind_some, Simplex.attempt]
  cases hc : s.enteringColumn with
  | none => rfl
  | some column =>
    have hlt := enteringColumn_lt h hc
    obtain ⟨hleaving, hrow⟩ := leavingRow_eq h s.tolerances.pivot hlt
    refine (bind_of_eq_some hleaving _).trans ?_
    dsimp only
    cases hl : Simplex.leavingRow s.tableau s.tolerances.pivot column with
    | none => rfl
    | some l =>
      obtain ⟨r, hr, -⟩ := hrow l hl
      exact (bind_of_eq_some (h.pivot_eq hr hlt) _).trans rfl

end Image

end LinProg.Storage
