import LinProg.BranchAndBound
import LinProg.Simplex

namespace LinProg

/-- Something that solves problems. Solving at one go may fail to come to an end, which `none`
stands for; a session always answers, because each of its rounds has a budget of pivots. -/
structure Backend (α : Type) where
  Session : Type
  version : String
  solveLp : Problem α → SolveConfig α → Logged (Event α) (Option (Solution α))
  solveMip : Problem α → SolveConfig α → Logged (Event α) (Option (Solution α))
  start : Problem α → SolveConfig α → Logged (Event α) Session
  resume : Session → Problem α → Nat → Logged (Event α) (Solution α × Session)

def version : String := "0.1.0"

structure Solver (α : Type) where
  tolerances : Tolerances α
  integerTolerance : α
  clock : Clock
  /-- The pivots of a run, and the nodes of a search, that have no limit of their own. -/
  fuel : Nat

structure SimplexSession (α : Type) where
  simplex : Simplex α
  deadline : Deadline

variable {α : Type} [Scalar α]

namespace SimplexSession

def iterations (s : SimplexSession α) : Nat := s.simplex.iterations

def isFinished (s : SimplexSession α) : Bool := s.simplex.isDone

end SimplexSession

namespace Solver

def standard : Solver α :=
  { tolerances := .standard, integerTolerance := Search.standardIntegerTolerance
    clock := .ticking, fuel := 0x4000000000000000 }

def runLp (solver : Solver α) (p : Problem α) (config : SolveConfig α) (deadline : Deadline) :
    Logged (Event α) (Option (Solution α) × Deadline) := do
  let s ← Simplex.start p config solver.tolerances
  let r ← s.run (config.iterationLimit.getD solver.fuel) deadline
  if config.iterationLimit.isSome || r.1.isDone || r.2.expired then
    return (some (r.1.solution p), r.2)
  else return (none, r.2)

def solveLp (solver : Solver α) (p : Problem α) (config : SolveConfig α) :
    Logged (Event α) (Option (Solution α)) := do
  return (← solver.runLp p config (config.deadline solver.clock)).1

def solveMip (solver : Solver α) (p : Problem α) (config : SolveConfig α) :
    Logged (Event α) (Option (Solution α)) :=
  Search.solve solver.runLp p config solver.integerTolerance solver.clock solver.fuel

def start (solver : Solver α) (p : Problem α) (config : SolveConfig α) :
    Logged (Event α) (SimplexSession α) := do
  return { simplex := ← Simplex.start p config solver.tolerances
           deadline := config.deadline solver.clock }

def resume (session : SimplexSession α) (p : Problem α) (iterations : Nat) :
    Logged (Event α) (Solution α × SimplexSession α) := do
  let r ← session.simplex.run iterations session.deadline
  return (r.1.solution p, { simplex := r.1, deadline := r.2 })

def backend (solver : Solver α) : Backend α :=
  { Session := SimplexSession α, version := LinProg.version, solveLp := solver.solveLp
    solveMip := solver.solveMip, start := solver.start, resume := resume }

end Solver

end LinProg
