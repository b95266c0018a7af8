import LinProg.Proofs.Problem.Made
import LinProg.Registry

namespace LinProg

open EStateM (Result)

/-- Changes a draft, and keeps what has been changed when it stops with an error. -/
abbrev Drafting (α : Type) := EStateM VectorError (Draft α)

inductive Declaration (α : Type) where
  | column (name : String)
  | row (name : String) (terms : List (ℕ × α)) (boundType : BoundType) (lower upper : Extended α)

def Draft.settle {α : Type} (d : Draft α) :
    Except VectorError (ℕ × Draft α) → Result VectorError (Draft α) ℕ
  | .ok (i, e) => .ok i e
  | .error e => .error e d

namespace Drafting

variable {α : Type} [Scalar α]

def addColumn (name : String) : Drafting α ℕ := do
  modify fun d ↦ { d with problem := d.problem.addColumn name }
  return (← get).problem.numColumns

def addRow (name : String) (terms : List (ℕ × α)) (boundType : BoundType)
    (lower upper : Extended α) : Drafting α ℕ := do
  let coefficients ← ofExcept (SparseVector.ofPairs (← get).problem.numColumns terms)
  modify fun d ↦ { d with
    problem.rows := d.problem.rows.push { name, coefficients, boundType, lower, upper } }
  return (← get).problem.numRows

def resolveColumn (name : String) : Drafting α ℕ := do
  match (← get).registry.findColumn? name with
  | some j => return j
  | none =>
    let j ← addColumn name
    modify fun d ↦ { d with registry.columns := d.registry.columns.insert name j }
    return j

def declareRow (name : String) (terms : List (ℕ × α)) (boundType : BoundType)
    (lower upper : Extended α) : Drafting α ℕ := do
  let i ← addRow name terms boundType lower upper
  modify fun d ↦ { d with
    registry.rows := d.registry.rows.insert name (d.registry.findRows name ++ [i]) }
  return i

theorem run_resolveColumn (name : String) (d : Draft α) :
    (resolveColumn name).run d = d.settle (.ok (d.resolveColumn name)) := by
  unfold resolveColumn Draft.resolveColumn
  change (match d.registry.findColumn? name with
    | some j => return j
    | none => _ : Drafting α ℕ).run d = _
  cases d.registry.findColumn? name <;> rfl

theorem run_addRow (name : String) (terms : List (ℕ × α)) (boundType : BoundType)
    (lower upper : Extended α) (d : Draft α) :
    (addRow name terms boundType lower upper).run d =
      d.settle ((d.problem.addRow name terms boundType lower upper).map fun p ↦
        (p.numRows, { d with problem := p })) := by
  unfold addRow
  rw [Problem.addRow_eq]
  simp only [EStateM.run_bind, EStateM.run_get]
  cases SparseVector.ofPairs d.problem.numColumns terms <;> rfl

/-- A row that cannot be added leaves the draft as it was. -/
theorem run_declareRow (name : String) (terms : List (ℕ × α)) (boundType : BoundType)
    (lower upper : Extended α) (d : Draft α) :
    (declareRow name terms boundType lower upper).run d =
      d.settle (d.declareRow name terms boundType lower upper) := by
  unfold declareRow Draft.declareRow
  rw [EStateM.run_bind, run_addRow]
  cases d.problem.addRow name terms boundType lower upper <;> rfl

def left : Result VectorError (Draft α) ℕ → Draft α
  | .ok _ d | .error _ d => d

end Drafting

namespace Declaration

variable {α : Type} [Scalar α]

def perform : Declaration α → Drafting α ℕ
  | column name => Drafting.resolveColumn name
  | row name terms boundType lower upper =>
    Drafting.declareRow name terms boundType lower upper

def applied (d : Draft α) : Declaration α → Except VectorError (ℕ × Draft α)
  | column name => .ok (d.resolveColumn name)
  | row name terms boundType lower upper => d.declareRow name terms boundType lower upper

theorem run_perform (c : Declaration α) (d : Draft α) :
    c.perform.run d = d.settle (c.applied d) := by
  cases c with
  | column name => exact Drafting.run_resolveColumn name d
  | row name terms boundType lower upper => exact Drafting.run_declareRow ..

omit [Scalar α] in
def slots : Declaration α → List ℕ
  | column _ => []
  | row _ terms _ _ _ => terms.map (·.1)

end Declaration

namespace Draft

variable {α : Type}

def withColumn [Scalar α] (d : Draft α) (name : String) : Draft α :=
  ⟨d.problem.addColumn name,
    { d.registry with columns := d.registry.columns.insert name (d.problem.numColumns + 1) }⟩

def withRow (d : Draft α) (r : Row α) : Draft α :=
  ⟨{ d.problem with rows := d.problem.rows.push r },
    { d.registry with
      rows := d.registry.rows.insert r.name
        (d.registry.findRows r.name ++ [d.problem.numRows + 1]) }⟩

end Draft

namespace Declaration

variable {α : Type} [Scalar α]

/-- What a declaration can come to. -/
inductive Outcome (d : Draft α) : Declaration α → Result VectorError (Draft α) ℕ → Prop
  | known {name : String} {j : ℕ} (hj : d.registry.findColumn? name = some j) :
      Outcome d (.column name) (.ok j d)
  | added {name : String} (hnew : d.registry.findColumn? name = none) :
      Outcome d (.column name) (.ok (d.problem.numColumns + 1) (d.withColumn name))
  | declared {name : String} {terms : List (ℕ × α)} {boundType : BoundType}
      {lower upper : Extended α} {v : SparseVector α}
      (hv : SparseVector.ofPairs d.problem.numColumns terms = .ok v) :
      Outcome d (.row name terms boundType lower upper)
        (.ok (d.problem.numRows + 1) (d.withRow ⟨name, v, boundType, lower, upper⟩))
  | refused {name : String} {terms : List (ℕ × α)} {boundType : BoundType}
      {lower upper : Extended α} {e : VectorError}
      (he : SparseVector.ofPairs d.problem.numColumns terms = .error e) :
      Outcome d (.row name terms boundType lower upper) (.error e d)

theorem perform_outcome (d : Draft α) (c : Declaration α) : Outcome d c (c.perform.run d) := by
  rw [run_perform]
  cases c with
  | column name =>
    rw [applied, Draft.resolveColumn]
    cases hj : d.registry.findColumn? name with
    | some j => exact .known hj
    | none =>
      have hsize : (d.problem.addColumn name).numColumns = d.problem.numColumns + 1 :=
        Array.size_push _
      dsimp only
      rw [hsize]
      exact .added hj
  | row name terms boundType lower upper =>
    rw [applied, Draft.declareRow, Problem.addRow_eq]
    cases hv : SparseVector.ofPairs d.problem.numColumns terms with
    | error e => exact .refused hv
    | ok v =>
      have hsize : (d.problem.rows.push ⟨name, v, boundType, lower, upper⟩).size =
        d.problem.numRows + 1 := Array.size_push _
      have houtcome : Outcome d (.row name terms boundType lower upper) _ := .declared hv
      unfold Draft.withRow at houtcome
      rw [← hsize] at houtcome
      exact houtcome

end Declaration

end LinProg
