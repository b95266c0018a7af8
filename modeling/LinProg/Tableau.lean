import LinProg.StandardForm

namespace LinProg

structure Equation (α : Type) where
  coefficients : Array α
  rhs : α
  deriving Repr, DecidableEq

structure BasicRow (α : Type) where
  basic : Nat
  equation : Equation α
  deriving Repr, DecidableEq

/-- Where the dual of a constraint is read off the objective: a variable, and the sign with which
the constraint entered the tableau. -/
structure DualColumn (α : Type) where
  variableIndex : Nat
  sign : α
  deriving Repr, DecidableEq

/-- The constraints of a standard form as equations over its own variables, then one slack
variable for each inequality, then one artificial variable for each constraint that has no slack
to start from. -/
structure Tableau (α : Type) where
  numVars : Nat
  numSlack : Nat
  numArtificial : Nat
  rows : Array (BasicRow α)
  objective : Equation α
  duals : List (DualColumn α)
  deriving Repr, DecidableEq

variable {α : Type} [Scalar α]

namespace Equation

def coefficient (e : Equation α) (j : Nat) : α := (e.coefficients[j]?).getD 0

def divide (e : Equation α) (d : α) : Equation α := ⟨e.coefficients.map (· / d), e.rhs / d⟩

def add (e f : Equation α) : Equation α :=
  ⟨e.coefficients.zipWith (· + ·) f.coefficients, e.rhs + f.rhs⟩

def subScaled (e : Equation α) (k : α) (f : Equation α) : Equation α :=
  ⟨e.coefficients.zipWith (fun x y ↦ x - k * y) f.coefficients, e.rhs - k * f.rhs⟩

def eliminate (e : Equation α) (j : Nat) (pivot : Equation α) : Equation α :=
  let k := e.coefficient j
  if k == 0 then e else e.subScaled k pivot

end Equation

namespace Tableau

def block (n i : Nat) (x : α) : List α := (List.replicate n 0).set i x

def orient (c : Constraint α) : Constraint α × α :=
  if c.rhs < 0 then
    ({ c with coefficients := c.coefficients.map (-1 * ·), relation := c.relation.reverse,
              rhs := -c.rhs }, -1)
  else ({ c with coefficients := c.coefficients.map (1 * ·) }, 1)

/-- The rows of oriented constraints, the first of which takes the slack `s` and the artificial
variable `a` if it needs them. -/
def layout (numVars numSlack numArtificial : Nat) :
    List (Constraint α) → (s a : Nat) → List (BasicRow α)
  | [], _, _ => []
  | c :: cs, s, a =>
    let equation (slack artificial : List α) : Equation α :=
      ⟨(c.coefficients ++ slack ++ artificial).toArray, c.rhs⟩
    match c.relation with
    | .le =>
      ⟨numVars + s, equation (block numSlack s 1) (List.replicate numArtificial 0)⟩ ::
        layout numVars numSlack numArtificial cs (s + 1) a
    | .ge =>
      ⟨numVars + numSlack + a, equation (block numSlack s (-1)) (block numArtificial a 1)⟩ ::
        layout numVars numSlack numArtificial cs (s + 1) (a + 1)
    | .eq =>
      ⟨numVars + numSlack + a, equation (List.replicate numSlack 0) (block numArtificial a 1)⟩ ::
        layout numVars numSlack numArtificial cs s (a + 1)

/-- The first tableau of a standard form. Its basis consists of slack and artificial variables,
and the dual of a constraint stays readable at the variable that is basic for it here. -/
def ofForm (form : StandardForm α) : Tableau α :=
  let oriented := form.constraints.map orient
  let constraints := oriented.map (·.1)
  let numVars := form.numVars
  let numSlack := constraints.countP (·.relation != .eq)
  let numArtificial := constraints.countP (·.relation != .le)
  let rows := layout numVars numSlack numArtificial constraints 0 0
  { numVars, numSlack, numArtificial
    rows := rows.toArray
    objective :=
      ⟨(form.objective ++ List.replicate (numSlack + numArtificial) 0).toArray, 0⟩
    duals := rows.zipWith (fun r (_, sign) ↦ ⟨r.basic, sign⟩) oriented }

def artificialStart (t : Tableau α) : Nat := t.numVars + t.numSlack

def width (t : Tableau α) : Nat := t.numVars + t.numSlack + t.numArtificial

def objectiveValue (t : Tableau α) : α := -t.objective.rhs

def pivot (t : Tableau α) (row column : Nat) : Tableau α :=
  match t.rows[row]? with
  | none => t
  | some r =>
    let p := r.equation.divide (r.equation.coefficient column)
    { t with
      rows := t.rows.mapIdx fun i r ↦
        if i = row then ⟨column, p⟩ else ⟨r.basic, r.equation.eliminate column p⟩
      objective := t.objective.eliminate column p }

@[simp] theorem length_block (n i : Nat) (x : α) : (block n i x).length = n := by
  simp [block]

@[simp] theorem size_rows_pivot (t : Tableau α) (row column : Nat) :
    (t.pivot row column).rows.size = t.rows.size := by
  unfold pivot
  split <;> simp

@[simp] theorem width_pivot (t : Tableau α) (row column : Nat) :
    (t.pivot row column).width = t.width := by
  unfold pivot
  split <;> rfl

def basicPoint (t : Tableau α) : List α :=
  (t.rows.foldl (fun v r ↦ v.setIfInBounds r.basic r.equation.rhs)
    (Array.replicate t.numVars (0 : α))).toList

def phaseOneObjective (t : Tableau α) : Equation α :=
  let minusSum : List α :=
    List.replicate t.artificialStart 0 ++ List.replicate t.numArtificial (-1)
  t.rows.foldl (fun e r ↦ if t.artificialStart ≤ r.basic then e.add r.equation else e)
    ⟨minusSum.toArray, 0⟩

def artificialRemains (t : Tableau α) (tolerance : α) : Bool :=
  t.rows.any fun r ↦ t.artificialStart ≤ r.basic && tolerance < Scalar.abs r.equation.rhs

/-- Replaces an artificial variable that is basic in a row by the first other variable whose
coefficient there counts as other than zero, if there is one. -/
def driveOut (tolerance : α) (t : Tableau α) (row : Nat) : Tableau α :=
  match t.rows[row]? with
  | none => t
  | some r =>
    if t.artificialStart ≤ r.basic then
      let own := r.equation.coefficients.extract 0 t.artificialStart
      match own.findIdx? fun x ↦ tolerance < Scalar.abs x with
      | some j => t.pivot row j
      | none => t
    else t

def driveOutArtificials (t : Tableau α) (tolerance : α) : Tableau α :=
  (List.range t.rows.size).foldl (driveOut tolerance) t

def restoreObjective (t : Tableau α) (objective : Equation α) (tolerance : α) : Tableau α :=
  { t with
    objective := t.rows.foldl (fun e r ↦
      let k := e.coefficient r.basic
      if tolerance < Scalar.abs k then e.subScaled k r.equation else e) objective }

end Tableau

end LinProg
