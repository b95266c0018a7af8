import LinProg.Problem.Basic

namespace LinProg

inductive Relation where
  | le
  | ge
  | eq
  deriving Repr, DecidableEq

namespace Relation

def reverse : Relation → Relation
  | le => ge
  | ge => le
  | eq => eq

end Relation

inductive Origin where
  | row (index : Nat)
  | columnRange (index : Nat)
  deriving Repr, DecidableEq

structure Constraint (α : Type) where
  origin : Origin
  coefficients : List α
  relation : Relation
  rhs : α
  deriving Repr, DecidableEq

inductive ColumnMap (α : Type) where
  /-- `x = offset + v` -/
  | shifted (offset : α)
  /-- `x = offset - v` -/
  | reflected (offset : α)
  /-- `x = v - w` -/
  | split
  /-- `x = value` -/
  | constant (value : α)
  deriving Repr, DecidableEq

structure StandardForm (α : Type) where
  columns : List (ColumnMap α)
  objective : List α
  constraints : List (Constraint α)
  sense : α
  rowWithoutActivity : Option Nat
  deriving Repr, DecidableEq

variable {α : Type} [Scalar α]

namespace ColumnMap

def width : ColumnMap α → Nat
  | shifted _ | reflected _ => 1
  | split => 2
  | constant _ => 0

def ofColumn (c : Column α) : ColumnMap α :=
  match c.boundType with
  | .free => split
  | .lower | .double => shifted c.lower.toScalar
  | .upper => reflected c.upper.toScalar
  | .fixed => constant c.lower.toScalar

def spread (a : α) : ColumnMap α → List α
  | shifted _ => [0 + a]
  | reflected _ => [0 - a]
  | split => [0 + a, 0 - a]
  | constant _ => []

/-- What a coefficient `a` of the column adds to a linear form when all standard variables are
zero, added to `total`. -/
def shift (total a : α) : ColumnMap α → α
  | shifted offset | reflected offset => total + a * offset
  | split => total
  | constant value => total + a * value

def value (v : List α) : ColumnMap α → α
  | shifted offset => offset + v.headD 0
  | reflected offset => offset - v.headD 0
  | split => v.headD 0 - v.tail.headD 0
  | constant value => value

def totalWidth : List (ColumnMap α) → Nat
  | [] => 0
  | m :: ms => m.width + totalWidth ms

def recover : List (ColumnMap α) → List α → List α
  | [], _ => []
  | m :: ms, v => m.value v :: recover ms (v.drop m.width)

@[simp] theorem length_spread (m : ColumnMap α) (a : α) : (m.spread a).length = m.width := by
  cases m <;> rfl

@[simp] theorem length_recover (columns : List (ColumnMap α)) (v : List α) :
    (recover columns v).length = columns.length := by
  induction columns generalizing v with
  | nil => rfl
  | cons m ms ih => simp [recover, ih]

end ColumnMap

namespace Row

def sides (r : Row α) : List (Relation × Extended α) :=
  match r.boundType with
  | .free => []
  | .lower => [(.ge, r.lower)]
  | .upper => [(.le, r.upper)]
  | .double => [(.ge, r.lower), (.le, r.upper)]
  | .fixed => [(.eq, r.lower)]

def isEmpty (r : Row α) : Bool := r.coefficients.toList.all fun (_, a) ↦ a == 0

end Row

def Relation.excludesZero (tolerance rhs : α) : Relation → Bool
  | ge => tolerance < rhs
  | le => rhs < -tolerance
  | eq => tolerance < rhs ∨ rhs < -tolerance

namespace StandardForm

def shiftedSides (columns : List (ColumnMap α)) (r : Row α) : List (Relation × α) :=
  let columns := columns.toArray
  let shift := r.coefficients.toList.foldl (fun total (slot, a) ↦
    match columns[slot - 1]? with
    | some m => m.shift total a
    | none => total) 0
  r.sides.map fun (relation, side) ↦ (relation, side.toScalar - shift)

def spreadRow (columns : List (ColumnMap α)) (r : Row α) : List α :=
  columns.zipIdx.flatMap fun (m, j) ↦ m.spread (r.coefficients.coefficient (j + 1))

def rowConstraints (columns : List (ColumnMap α)) (r : Row α) (index : Nat) :
    List (Constraint α) :=
  let coefficients := spreadRow columns r
  (shiftedSides columns r).map fun (relation, rhs) ↦
    { origin := .row index, coefficients, relation, rhs }

def unitRow (columns : List (ColumnMap α)) (index : Nat) : List α :=
  columns.zipIdx.flatMap fun (m, j) ↦
    if j = index then m.spread 1 else List.replicate m.width 0

def rangeConstraint? (columns : List (ColumnMap α)) (c : Column α) (index : Nat) :
    Option (Constraint α) :=
  if c.boundType = .double then
    some { origin := .columnRange index, coefficients := unitRow columns index, relation := .le,
           rhs := c.upper.toScalar - c.lower.toScalar }
  else none

/-- The standard form of a problem. Presolving drops the rows without coefficients, after a check
that zero satisfies them within the tolerance. -/
def ofProblem (p : Problem α) (presolve : Bool) (tolerance : α) : StandardForm α :=
  let sense : α := match p.direction with
    | .maximize => 1
    | .minimize => -1
  let columns := p.columns.toList.map ColumnMap.ofColumn
  let rows := p.rows.toList.zipIdx
  let dropped (r : Row α) : Bool := presolve && r.isEmpty
  { columns
    objective := (p.columns.toList.zip columns).flatMap fun (c, m) ↦ m.spread (sense * c.objective)
    constraints :=
      rows.flatMap (fun (r, i) ↦ if dropped r then [] else rowConstraints columns r i) ++
      p.columns.toList.zipIdx.filterMap fun (c, j) ↦ rangeConstraint? columns c j
    sense
    rowWithoutActivity := rows.findSome? fun (r, i) ↦
      if dropped r && (shiftedSides columns r).any fun (relation, rhs) ↦
        relation.excludesZero tolerance rhs
      then some i else none }

def numVars (form : StandardForm α) : Nat := ColumnMap.totalWidth form.columns

def numConstraints (form : StandardForm α) : Nat := form.constraints.length

def recover (form : StandardForm α) (v : List α) : List α := ColumnMap.recover form.columns v

end StandardForm

end LinProg
