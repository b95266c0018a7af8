import LinProg.Problem.Basic
import Std.Data.HashMap

namespace LinProg

structure Registry where
  columns : Std.HashMap String Nat
  rows : Std.HashMap String (List Nat)

/-- A problem under construction, and the names given to its columns and rows. -/
structure Draft (α : Type) where
  problem : Problem α
  registry : Registry

namespace Registry

def empty : Registry := ⟨∅, ∅⟩

def findColumn? (r : Registry) (name : String) : Option Nat := r.columns[name]?

def findRows (r : Registry) (name : String) : List Nat := r.rows[name]?.getD []

end Registry

namespace Draft

variable {α : Type} [Scalar α]

def empty (name : String) (direction : Direction) : Draft α :=
  ⟨Problem.empty name direction, Registry.empty⟩

def resolveColumn (d : Draft α) (name : String) : Nat × Draft α :=
  match d.registry.findColumn? name with
  | some j => (j, d)
  | none =>
    let problem := d.problem.addColumn name
    let j := problem.numColumns
    (j, ⟨problem, { d.registry with columns := d.registry.columns.insert name j }⟩)

def resolveColumns (d : Draft α) : List String → List Nat × Draft α
  | [] => ([], d)
  | name :: names =>
    let (j, d) := d.resolveColumn name
    let (js, d) := d.resolveColumns names
    (j :: js, d)

def declareRow (d : Draft α) (name : String) (terms : List (Nat × α)) (boundType : BoundType)
    (lower upper : Extended α) : Except VectorError (Nat × Draft α) := do
  let problem ← d.problem.addRow name terms boundType lower upper
  let i := problem.numRows
  let rows := d.registry.rows.insert name (d.registry.findRows name ++ [i])
  return (i, ⟨problem, { d.registry with rows }⟩)

def modifyColumn (d : Draft α) (name : String) (f : Column α → Column α) : Draft α :=
  let (j, d) := d.resolveColumn name
  { d with problem := d.problem.modifyColumn j f }

end Draft

end LinProg
