import LinProg.Problem.Basic

namespace LinProg

inductive Status where
  | undefined
  /-- The point is feasible and not known to be optimal. -/
  | feasible
  /-- The point is not feasible yet. -/
  | infeasible
  | noFeasible
  | optimal
  | unbounded
  deriving Repr, DecidableEq

namespace Status

def code : Status → Nat
  | undefined => 1
  | feasible => 2
  | infeasible => 3
  | noFeasible => 4
  | optimal => 5
  | unbounded => 6

def name : Status → String
  | undefined => "Undefined"
  | feasible => "Feasible"
  | infeasible => "Infeasible"
  | noFeasible => "NoFeasible"
  | optimal => "Optimal"
  | unbounded => "Unbounded"

def ofCode? : Int → Option Status
  | 1 => some undefined
  | 2 => some feasible
  | 3 => some infeasible
  | 4 => some noFeasible
  | 5 => some optimal
  | 6 => some unbounded
  | _ => none

def isTerminal : Status → Bool
  | optimal | noFeasible | unbounded | undefined => true
  | feasible | infeasible => false

end Status

structure Solution (α : Type) where
  status : Status
  objectiveValue : α
  values : Array α
  duals : Option (Array α)
  iterations : Nat
  deriving Repr, DecidableEq

namespace Solution

variable {α : Type}

def undefined [Zero α] (numColumns : Nat) : Solution α :=
  { status := .undefined, objectiveValue := 0, values := Array.replicate numColumns 0,
    duals := none, iterations := 0 }

def isOptimal (s : Solution α) : Bool := s.status == .optimal

end Solution

end LinProg
