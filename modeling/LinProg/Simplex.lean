import LinProg.Event
import LinProg.Tableau

namespace LinProg

structure Tolerances (α : Type) where
  pivot : α
  feasibility : α
  deriving Repr, DecidableEq

/-- Where a run stands. In phase one it holds the objective to restore afterwards. -/
inductive Phase (α : Type) where
  | one (objective : Equation α)
  | two
  | done (terminal : Terminal)
  deriving Repr, DecidableEq

structure Simplex (α : Type) where
  form : StandardForm α
  tolerances : Tolerances α
  messageLevel : MessageLevel
  tableau : Tableau α
  phase : Phase α
  iterations : Nat
  degenerateStreak : Nat
  deriving Repr, DecidableEq

inductive Attempt (α : Type) where
  | pivoted (next : Simplex α)
  | optimal
  | unbounded
  deriving Repr, DecidableEq

variable {α : Type} [Scalar α]

def Tolerances.standard : Tolerances α :=
  { pivot := Scalar.ofDecimal 1 true 9, feasibility := Scalar.ofDecimal 1 true 7 }

namespace Simplex

/-- The number of degenerate pivots in a row after which the entering variable is the first
candidate and no longer the most promising one. -/
def degenerateStreakLimit : Nat := 50

def isDone (s : Simplex α) : Bool :=
  match s.phase with
  | .done _ => true
  | _ => false

def numCandidates (s : Simplex α) : Nat :=
  match s.phase with
  | .one _ => s.tableau.width
  | _ => s.tableau.artificialStart

def argmaxAbove (threshold : α) (xs : List α) : Option Nat :=
  (xs.zipIdx.foldl (fun best (x, j) ↦
    match best with
    | none => if threshold < x then some (x, j) else none
    | some (y, _) => if y < x then some (x, j) else best) (none : Option (α × Nat))).map (·.2)

def enteringColumn (s : Simplex α) : Option Nat :=
  let reduced := (s.tableau.objective.coefficients.extract 0 s.numCandidates).toList
  if degenerateStreakLimit ≤ s.degenerateStreak then
    reduced.findIdx? fun d ↦ s.tolerances.pivot < d
  else argmaxAbove s.tolerances.pivot reduced

structure Leaving (α : Type) where
  row : Nat
  basic : Nat
  ratio : α
  deriving Repr, DecidableEq

def improvesOn (tolerance ratio : α) (basic : Nat) : Option (Leaving α) → Bool
  | none => (Scalar.extend ratio).below .posInf
  | some best =>
    decide (ratio < best.ratio - tolerance) ||
      (decide (ratio ≤ best.ratio + tolerance) && decide (basic < best.basic))

def considerRow (tolerance : α) (column : Nat) (best : Option (Leaving α))
    (candidate : BasicRow α × Nat) : Option (Leaving α) :=
  let (r, i) := candidate
  let entry := r.equation.coefficient column
  if tolerance < entry then
    let ratio := Scalar.positivePart r.equation.rhs / entry
    if improvesOn tolerance ratio r.basic best then some ⟨i, r.basic, ratio⟩ else best
  else best

def leavingRow (t : Tableau α) (tolerance : α) (column : Nat) : Option (Leaving α) :=
  t.rows.toList.zipIdx.foldl (considerRow tolerance column) none

def attempt (s : Simplex α) : Attempt α :=
  match s.enteringColumn with
  | none => .optimal
  | some column =>
    match leavingRow s.tableau s.tolerances.pivot column with
    | none => .unbounded
    | some leaving =>
      .pivoted { s with
        tableau := s.tableau.pivot leaving.row column
        iterations := s.iterations + 1
        degenerateStreak :=
          if leaving.ratio ≤ s.tolerances.pivot then s.degenerateStreak + 1 else 0 }

def report (s : Simplex α) (wanted : MessageLevel) (e : Event α) : Logged (Event α) Unit :=
  s.messageLevel.report wanted e

def start (p : Problem α) (config : SolveConfig α) (tolerances : Tolerances α) :
    Logged (Event α) (Simplex α) := do
  let form := StandardForm.ofProblem p config.presolve tolerances.pivot
  let tableau := Tableau.ofForm form
  let begin : Simplex α :=
    { form, tolerances, messageLevel := config.messageLevel, tableau, phase := .two
      iterations := 0, degenerateStreak := 0 }
  let s ← match form.rowWithoutActivity with
    | some row => do
      begin.report .on (.rowWithoutActivity (row + 1))
      pure { begin with phase := .done .infeasible }
    | none =>
      if tableau.numArtificial = 0 then pure begin
      else do
        begin.report .all (.phaseOne tableau.numArtificial)
        pure { begin with
          phase := .one tableau.objective
          tableau := { tableau with objective := tableau.phaseOneObjective } }
  s.report .on (.tableauReady form.numConstraints form.numVars)
  return s

def finishPhaseOne (s : Simplex α) (objective : Equation α) : Logged (Event α) (Simplex α) := do
  if s.tableau.artificialRemains s.tolerances.feasibility then
    s.report .on .noFeasiblePoint
    return { s with phase := .done .infeasible }
  else
    let tableau := (s.tableau.driveOutArtificials s.tolerances.feasibility).restoreObjective
      objective s.tolerances.pivot
    s.report .all (.phaseTwo s.iterations)
    return { s with tableau, phase := .two }

def reportProgress (s : Simplex α) : Logged (Event α) Unit :=
  if s.iterations % 100 = 0 then s.report .on (.progress s.iterations s.tableau.objectiveValue)
  else pure ()

/-- Performs one pivot, passes from phase one to phase two, or ends the run. Phase one has no
unbounded objective unless its rows contradict each other. -/
def turn (s : Simplex α) : Logged (Event α) (Simplex α) := do
  match s.attempt, s.phase with
  | .pivoted next, _ => do
    next.reportProgress
    return next
  | .optimal, .one objective => s.finishPhaseOne objective
  | .optimal, _ => return { s with phase := .done .optimal }
  | .unbounded, .one _ => return { s with phase := .done .infeasible }
  | .unbounded, _ => return { s with phase := .done .unbounded }

def goesOn (pivots : Nat) (r : Simplex α × Deadline) : Bool :=
  !r.1.isDone && decide (r.1.iterations < pivots) && !r.2.expired

def timedTurn (r : Simplex α × Deadline) : Logged (Event α) (Simplex α × Deadline) := do
  -- counts the look by which `goesOn` admitted the turn; one that ends a run is not counted, since
  -- time does not go back
  return (← r.1.turn, r.2.next)

/-- Performs at most a number of pivots. There are at most two turns without one: that to phase two
and the last. -/
def run (s : Simplex α) (budget : Nat) (deadline : Deadline) :
    Logged (Event α) (Simplex α × Deadline) := do
  let r ← Logged.iterateWhile (goesOn (s.iterations + budget)) timedTurn (budget + 2) (s, deadline)
  if let .done terminal := r.1.phase then
    r.1.report .on (.simplexFinished terminal r.1.iterations)
  return r

def status (s : Simplex α) : Status :=
  match s.phase with
  | .one _ => .infeasible
  | .two => .feasible
  | .done .optimal => .optimal
  | .done .unbounded => .unbounded
  | .done .infeasible => .noFeasible

def multipliers (s : Simplex α) : List (Origin × α) :=
  s.form.constraints.zipWith
    (fun c d ↦ (c.origin, -s.tableau.objective.coefficient d.variableIndex * d.sign))
    s.tableau.duals

/-- The duals of the rows: the sums of the multipliers of their constraints, where these are
priced, and zero for what is below the tolerance. -/
def duals (s : Simplex α) (numRows : Nat) : Array α :=
  let zero : Array α := Array.replicate numRows 0
  match s.phase with
  | .one _ | .done .infeasible => zero
  | .two | .done .optimal | .done .unbounded =>
    (s.multipliers.foldl (fun ds (origin, y) ↦
      match origin with
      | .row i => ds.modify i (· + s.form.sense * y)
      | .columnRange _ => ds) zero).map fun d ↦
        if Scalar.abs d < s.tolerances.pivot then 0 else d

def solution (s : Simplex α) (p : Problem α) : Solution α :=
  let values := (s.form.recover s.tableau.basicPoint).toArray
  { status := s.status
    objectiveValue := p.objectiveValue values
    values
    duals := some (s.duals p.numRows)
    iterations := s.iterations }

end Simplex

end LinProg
