import LinProg.Problem.Bounds
import LinProg.SparseVector

namespace LinProg

inductive Direction where
  | minimize
  | maximize
  deriving Repr, DecidableEq

namespace Direction

def ofCode? : Int → Option Direction
  | 1 => some minimize
  | 2 => some maximize
  | _ => none

def code : Direction → Nat
  | minimize => 1
  | maximize => 2

def name : Direction → String
  | minimize => "Minimize"
  | maximize => "Maximize"

@[simp] theorem ofCode?_code (direction : Direction) :
    ofCode? direction.code = some direction := by
  cases direction <;> rfl

end Direction

inductive ColumnKind where
  | continuous
  | integer
  | binary
  deriving Repr, DecidableEq

namespace ColumnKind

def isInteger : ColumnKind → Bool
  | continuous => false
  | integer | binary => true

def name : ColumnKind → String
  | continuous => "continuous"
  | integer => "integer"
  | binary => "binary"

end ColumnKind

/-- A column. Its bound type is settled when bounds are set and not derived from them later. -/
structure Column (α : Type) where
  name : String
  objective : α
  kind : ColumnKind
  bounds : ColumnBounds α
  boundType : BoundType
  deriving Repr, DecidableEq

structure Row (α : Type) where
  name : String
  coefficients : SparseVector α
  boundType : BoundType
  lower : Extended α
  upper : Extended α
  deriving Repr, DecidableEq

structure Problem (α : Type) where
  name : String
  direction : Direction
  columns : Array (Column α)
  rows : Array (Row α)
  deriving Repr, DecidableEq

variable {α : Type} [Scalar α]

namespace Column

def named (name : String) : Column α :=
  { name, objective := 0, kind := .continuous, bounds := .unset, boundType := .lower }

def setBounds (c : Column α) (bounds : ColumnBounds α) : Column α :=
  { c with bounds, boundType := bounds.type }

def lower (c : Column α) : Extended α := c.bounds.resolve.1

def upper (c : Column α) : Extended α := c.bounds.resolve.2

def finalize (c : Column α) : Column α := c.setBounds (.explicit c.lower c.upper)

end Column

namespace Row

def effectiveBounds (r : Row α) : Extended α × Extended α := r.boundType.apply r.lower r.upper

def activity (r : Row α) (values : Array α) : α :=
  Scalar.sum (r.coefficients.toList.map fun (j, a) ↦ a * (values[j - 1]?).getD 0)

end Row

namespace Problem

def empty (name : String) (direction : Direction) : Problem α := ⟨name, direction, #[], #[]⟩

def addColumn (p : Problem α) (name : String) : Problem α :=
  { p with columns := p.columns.push (.named name) }

/-- Appends a row over the columns present; its index is the new number of rows. Terms of one
column are added up. -/
def addRow (p : Problem α) (name : String) (terms : List (Nat × α)) (boundType : BoundType)
    (lower upper : Extended α) : Except VectorError (Problem α) := do
  let coefficients ← SparseVector.ofPairs p.columns.size terms
  return { p with rows := p.rows.push { name, coefficients, boundType, lower, upper } }

def column? (p : Problem α) (index : Nat) : Option (Column α) :=
  if index = 0 then none else p.columns[index - 1]?

def row? (p : Problem α) (index : Nat) : Option (Row α) :=
  if index = 0 then none else p.rows[index - 1]?

def modifyColumn (p : Problem α) (index : Nat) (f : Column α → Column α) : Problem α :=
  if index = 0 then p else { p with columns := p.columns.modify (index - 1) f }

def setColumnBounds (p : Problem α) (index : Nat) (bounds : ColumnBounds α) : Problem α :=
  p.modifyColumn index (·.setBounds bounds)

def numColumns (p : Problem α) : Nat := p.columns.size

def numRows (p : Problem α) : Nat := p.rows.size

def numNonzeros (p : Problem α) : Nat := p.rows.foldl (fun n r ↦ n + r.coefficients.nnz) 0

def numInteger (p : Problem α) : Nat := p.columns.toList.countP (·.kind.isInteger)

def numBinary (p : Problem α) : Nat := p.columns.toList.countP (·.kind == .binary)

def finalizeBounds (p : Problem α) : Problem α := { p with columns := p.columns.map (·.finalize) }

def objectiveValue (p : Problem α) (values : Array α) : α :=
  Scalar.sum (p.columns.toList.zipWith (fun c x ↦ c.objective * x) values.toList)

end Problem

end LinProg
