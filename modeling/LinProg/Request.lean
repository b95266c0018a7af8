import LinProg.Model
import LinProg.Result.Output
import LinProg.Rounds
import LinProg.Spec.Options

namespace LinProg

structure Request (α : Type) where
  options : Options α
  kind : Option SolveKind
  /-- The pivots in a round of a linear program; when absent, it is solved at one go. -/
  increment : Option Nat

inductive BackendCall (α : Type) where
  | solve (kind : SolveKind) (config : SolveConfig α)
  | start (config : SolveConfig α)

inductive Failure (ε : Type) where
  | model (e : VectorError)
  | callback (e : ε)
  | unfinished

structure Report (α ε : Type) where
  calls : List (BackendCall α)
  budgets : List Nat
  rounds : List (Output α)
  result : Except (Failure ε) (Output α)

variable {α ε : Type} [Scalar α]

def Backend.solve (backend : Backend α) (p : Problem α) (config : SolveConfig α)
    (kind : SolveKind) : Logged (Event α) (Option (Solution α)) := do
  Logged.raise (.solveStarted kind config.presolve config.mipGap)
  let solution ← match kind with
    | .lp => backend.solveLp p config
    | .mip => backend.solveMip p config
  match solution with
  | none => return none
  | some s =>
    Logged.raise (.solveFinished s.status s.objectiveValue s.iterations)
    return some s

namespace Request

def default : Request α := { options := .none, kind := .none, increment := .none }

def runAtOnce (backend : Backend α) (p : Problem α) (config : SolveConfig α) (kind : SolveKind)
    (withRows : Bool) : Logged (Event α) (Report α ε) := do
  let solution ← backend.solve p config kind
  let result : Except (Failure ε) (Output α) := match solution with
    | some s => .ok (Output.ofSolution p s backend.version withRows)
    | none => .error .unfinished
  return { calls := [.solve kind config], budgets := [], rounds := [], result }

def runInRounds (backend : Backend α) (p : Problem α) (config : SolveConfig α) (increment : Nat)
    (withRows : Bool) (onRound : Nat → Output α → Except ε Unit) (fuel : Nat) :
    Logged (Event α) (Report α ε) := do
  let output (s : Solution α) : Output α := Output.ofSolution p s backend.version withRows
  let r ← Rounds.run backend p config increment (fun k s ↦ onRound k (output s)) fuel
  let rounds := r.rounds.reverse
  let result : Except (Failure ε) (Output α) := match r.ended with
    | some (.finished s) => .ok (output s)
    | some (.failed e) => .error (.callback e)
    | none => .error .unfinished
  return { calls := [.start (Rounds.sessionConfig config)], budgets := rounds.map (·.budget)
           rounds := rounds.map fun round ↦ output round.solution, result }

/-- Builds the described problem and solves it. The callback is shown every round of a linear
program that is solved in rounds, under its number; an increment means nothing where integrality
is heeded. -/
def run (request : Request α) (backend : Backend α) (spec : ProblemSpec α)
    (onRound : Nat → Output α → Except ε Unit) (fuel : Nat) : Logged (Event α) (Report α ε) := do
  let options := spec.options.merged request.options
  let config := options.solveConfig
  let withRows := options.reportsRows
  match ← Problem.build spec with
  | .error e => return { calls := [], budgets := [], rounds := [], result := .error (.model e) }
  | .ok p =>
    let kind := request.kind.getD (SolveKind.ofProblem p)
    match kind, request.increment with
    | .lp, some increment => runInRounds backend p config increment withRows onRound fuel
    | .mip, some _ =>
      Logged.raise .incrementIgnored
      runAtOnce backend p config kind withRows
    | _, none => runAtOnce backend p config kind withRows

end Request

end LinProg
