import LinProg.Config
import LinProg.Logged
import LinProg.Solution

namespace LinProg

inductive Severity where
  | info
  | debug
  deriving Repr, DecidableEq

namespace Severity

def name : Severity → String
  | info => "info"
  | debug => "debug"

end Severity

inductive Terminal where
  | optimal
  | unbounded
  | infeasible
  deriving Repr, DecidableEq

namespace Terminal

def name : Terminal → String
  | optimal => "Optimal"
  | unbounded => "Unbounded"
  | infeasible => "Infeasible"

end Terminal

inductive Event (α : Type) where
  | columnClassified (column : String) (boundType : BoundType) (lower upper : Extended α)
  | modelBuilt (rows columns nonzeros integer binary : Nat)
  | solveStarted (kind : SolveKind) (presolve : Bool) (mipGap : α)
  | solveFinished (status : Status) (objective : α) (iterations : Nat)
  | roundFinished (round iterations : Nat) (status : Status)
  | roundsFinished (rounds : Nat) (status : Status) (objective : α)
  | incrementIgnored
  | rowWithoutActivity (row : Nat)
  | phaseOne (artificials : Nat)
  | tableauReady (constraints width : Nat)
  | progress (iteration : Nat) (objective : α)
  | noFeasiblePoint
  | phaseTwo (iterations : Nat)
  | simplexFinished (terminal : Terminal) (iterations : Nat)
  | searchStarted (integer binary : Nat)
  | relaxationInfeasible (node depth : Nat)
  | newIncumbent (node : Nat) (objective : α)
  | branching (node column : Nat) (value : α)
  | searchFinished (nodes iterations : Nat)
  deriving Repr, DecidableEq

inductive FieldValue (α : Type) where
  | count (n : Nat)
  | number (x : α)
  | bound (x : Extended α)
  | flag (b : Bool)
  | text (s : String)
  deriving Repr, DecidableEq

namespace Event

variable {α : Type}

def severity : Event α → Severity
  | columnClassified .. | solveStarted .. | roundFinished .. | incrementIgnored | phaseOne ..
  | phaseTwo .. | relaxationInfeasible .. | branching .. => .debug
  | modelBuilt .. | solveFinished .. | roundsFinished .. | rowWithoutActivity .. | tableauReady ..
  | progress .. | noFeasiblePoint | simplexFinished .. | searchStarted .. | newIncumbent ..
  | searchFinished .. => .info

def message : Event α → String
  | columnClassified .. => "column classified"
  | modelBuilt .. => "model built"
  | solveStarted .. => "solve started"
  | solveFinished .. => "solve finished"
  | roundFinished .. => "incremental round"
  | roundsFinished .. => "incremental solve finished"
  | incrementIgnored => "increment ignored for MIP"
  | rowWithoutActivity .. => "presolve: row has no feasible activity"
  | phaseOne .. => "simplex: phase 1"
  | tableauReady .. => "simplex: tableau ready"
  | progress .. => "simplex: progress"
  | noFeasiblePoint => "simplex: problem has no primal feasible solution"
  | phaseTwo .. => "simplex: phase 2"
  | simplexFinished .. => "simplex: finished"
  | searchStarted .. => "mip: branch-and-bound started"
  | relaxationInfeasible .. => "mip: relaxation infeasible"
  | newIncumbent .. => "mip: new incumbent"
  | branching .. => "mip: branching"
  | searchFinished .. => "mip: search finished"

def fields : Event α → List (String × FieldValue α)
  | columnClassified column boundType lower upper =>
    [("column", .text column), ("bound_type", .text boundType.name), ("lower", .bound lower),
      ("upper", .bound upper)]
  | modelBuilt rows columns nonzeros integer binary =>
    [("rows", .count rows), ("columns", .count columns), ("nonzeros", .count nonzeros),
      ("integer", .count integer), ("binary", .count binary)]
  | solveStarted kind presolve mipGap =>
    [("kind", .text kind.name), ("presolve", .flag presolve), ("mip_gap", .number mipGap)]
  | solveFinished status objective iterations =>
    [("status", .text status.name), ("objective", .number objective),
      ("iterations", .count iterations)]
  | roundFinished round iterations status =>
    [("round", .count round), ("iterations", .count iterations), ("status", .text status.name)]
  | roundsFinished rounds status objective =>
    [("rounds", .count rounds), ("status", .text status.name), ("objective", .number objective)]
  | incrementIgnored | noFeasiblePoint => []
  | rowWithoutActivity row => [("row", .count row)]
  | phaseOne artificials => [("artificials", .count artificials)]
  | tableauReady constraints width =>
    [("constraints", .count constraints), ("variables", .count width)]
  | progress iteration objective =>
    [("iteration", .count iteration), ("objective", .number objective)]
  | phaseTwo iterations => [("iterations", .count iterations)]
  | simplexFinished terminal iterations =>
    [("terminal", .text terminal.name), ("iterations", .count iterations)]
  | searchStarted integer binary => [("integer", .count integer), ("binary", .count binary)]
  | relaxationInfeasible node depth => [("node", .count node), ("depth", .count depth)]
  | newIncumbent node objective => [("node", .count node), ("objective", .number objective)]
  | branching node column value =>
    [("node", .count node), ("column", .count column), ("value", .number value)]
  | searchFinished nodes iterations =>
    [("nodes", .count nodes), ("iterations", .count iterations)]

end Event

/-- Raises an event that is meant for a level and those above it. -/
def MessageLevel.report {α : Type} (level wanted : MessageLevel) (e : Event α) :
    Logged (Event α) Unit :=
  if level.shows wanted then Logged.raise e else pure ()

end LinProg
