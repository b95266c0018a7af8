import LinProg.Event

namespace LinProg

/-- Solves a problem without regard to integrality; `none` when it has not come to an end. The looks
at the clock count towards the deadline. -/
abbrev Oracle (α : Type) :=
  Problem α → SolveConfig α → Deadline → Logged (Event α) (Option (Solution α) × Deadline)

structure BoundChange (α : Type) where
  column : Nat
  lower : Extended α
  upper : Extended α
  deriving Repr, DecidableEq

structure Node (α : Type) where
  changes : List (BoundChange α)
  /-- The score of the parent's relaxation, below every score in the node. -/
  bound : Extended α
  depth : Nat
  deriving Repr, DecidableEq

structure Incumbent (α : Type) where
  score : α
  values : Array α
  deriving Repr, DecidableEq

inductive SearchEnd (α : Type) where
  | exhausted
  | limit
  | gap
  | unbounded (values : Array α)
  | unfinished
  deriving Repr, DecidableEq

structure Search (α : Type) where
  stack : List (Node α)
  incumbent : Option (Incumbent α)
  iterations : Nat
  nodes : Nat
  deadline : Deadline
  ended : Option (SearchEnd α)

variable {α : Type} [Scalar α]

namespace Node

def root : Node α := { changes := [], bound := .negInf, depth := 0 }

def boundsOf (node : Node α) (p : Problem α) (column : Nat) : Extended α × Extended α :=
  match node.changes.reverse.find? (·.column == column) with
  | some c => (c.lower, c.upper)
  | none =>
    match p.columns[column]? with
    | some c => (c.lower, c.upper)
    | none => (.negInf, .posInf)

def restrict (node : Node α) (p : Problem α) : Problem α :=
  node.changes.foldl (fun p c ↦ p.setColumnBounds (c.column + 1) (.explicit c.lower c.upper)) p

def child (node : Node α) (change : BoundChange α) (bound : Extended α) : Node α :=
  { changes := node.changes ++ [change], bound, depth := node.depth + 1 }

theorem boundsOf_child (node : Node α) (change : BoundChange α) (bound : Extended α)
    (p : Problem α) (column : Nat) :
    (node.child change bound).boundsOf p column =
      if change.column = column then (change.lower, change.upper)
      else node.boundsOf p column := by
  by_cases h : change.column = column <;> simp [boundsOf, child, h]

theorem restrict_child (node : Node α) (change : BoundChange α) (bound : Extended α)
    (p : Problem α) :
    (node.child change bound).restrict p =
      (node.restrict p).setColumnBounds (change.column + 1)
        (.explicit change.lower change.upper) := by
  simp [restrict, child]

def children (node : Node α) (p : Problem α) (column : Nat) (value score : α) : Node α × Node α :=
  let (lower, upper) := node.boundsOf p column
  let bound := Scalar.extend score
  (node.child { column, lower, upper := Scalar.extend (Scalar.floor value) } bound,
   node.child { column, lower := Scalar.extend (Scalar.ceil value), upper } bound)

end Node

namespace Search

def standardIntegerTolerance : α := Scalar.ofDecimal 1 true 6

def epsilon : α := 1 / Scalar.ofDecimal 0x10000000000000 false 0

def improves (score : Extended α) (incumbent : α) : Bool :=
  score.below (Scalar.extend
    (incumbent - Scalar.ofDecimal 1 true 9 * (1 + Scalar.abs incumbent)))

def prunes (s : Search α) (score : Extended α) : Bool :=
  match s.incumbent with
  | some inc => !improves score inc.score
  | none => false

def integerColumns (p : Problem α) : List Nat :=
  p.columns.toList.zipIdx.filterMap fun (c, j) ↦ if c.kind.isInteger then some j else none

def distanceFromHalf (x : α) : α := Scalar.abs (x - Scalar.floor x - Scalar.half)

/-- Among the given columns the one whose value is farthest from integral, with its value; of
several the last. -/
def mostFractional (tolerance : α) (columns : List Nat) (values : Array α) : Option (Nat × α) :=
  let candidates := (columns.map fun j ↦ (j, (values[j]?).getD 0)).filter fun (_, x) ↦
    tolerance < Scalar.abs (x - Scalar.round x)
  candidates.foldl (fun best c ↦
    match best with
    | none => some c
    | some b => if distanceFromHalf c.2 ≤ distanceFromHalf b.2 then some c else best) none

def bestBound (s : Search α) : Extended α :=
  s.stack.foldl (fun best node ↦ if node.bound.below best then node.bound else best) .posInf

def closesGap (s : Search α) (mipGap : α) : Bool :=
  match s.incumbent with
  | some inc =>
    decide (0 < mipGap) && !s.stack.isEmpty &&
      decide (Scalar.abs (inc.score - s.bestBound.toScalar) / (epsilon + Scalar.abs inc.score)
        ≤ mipGap)
  | none => false

def sense (p : Problem α) : α :=
  match p.direction with
  | .minimize => 1
  | .maximize => -1

def roundAt (columns : List Nat) (values : Array α) : Array α :=
  columns.foldl (fun values j ↦ values.modify j Scalar.round) values

/-- Takes in the optimal point of a node's relaxation: as the new incumbent if it is integral, and
else by opening two children, the one nearer to the value first. -/
def takeIn (p : Problem α) (config : SolveConfig α) (tolerance : α) (s : Search α) (node : Node α)
    (score : α) (lp : Solution α) : Logged (Event α) (Search α) := do
  let columns := integerColumns p
  match mostFractional tolerance columns lp.values with
  | none =>
    config.messageLevel.report .on (.newIncumbent s.nodes lp.objectiveValue)
    return { s with incumbent := some ⟨score, roundAt columns lp.values⟩ }
  | some (j, x) =>
    config.messageLevel.report .all (.branching s.nodes (j + 1) x)
    let (down, up) := node.children p j x score
    let stack :=
      if x - Scalar.floor x < Scalar.half then down :: up :: s.stack else up :: down :: s.stack
    return { s with stack }

def explore (oracle : Oracle α) (p : Problem α) (config : SolveConfig α) (tolerance : α)
    (s : Search α) (node : Node α) : Logged (Event α) (Search α) := do
  let r ← oracle (node.restrict p) config.forRelaxations s.deadline
  let s := { s with nodes := s.nodes + 1, deadline := r.2 }
  match r.1 with
  | none => return { s with ended := some .unfinished }
  | some lp =>
    let s := { s with iterations := s.iterations + lp.iterations }
    match lp.status with
    | .noFeasible =>
      config.messageLevel.report .all (.relaxationInfeasible s.nodes node.depth)
      return s
    | .unbounded => return { s with ended := some (.unbounded lp.values) }
    | .optimal =>
      let score := sense p * lp.objectiveValue
      if s.prunes (Scalar.extend score) then return s
      let s ← s.takeIn p config tolerance node score lp
      return if s.closesGap config.mipGap then { s with ended := some .gap } else s
    | _ => return { s with ended := some .limit }

def step (oracle : Oracle α) (p : Problem α) (config : SolveConfig α) (tolerance : α)
    (s : Search α) : Logged (Event α) (Search α) :=
  match s.stack with
  | [] => pure { s with ended := some .exhausted }
  | node :: stack =>
    let s := { s with stack }
    if s.deadline.expired then pure { s with ended := some .limit }
    else
      let s := { s with deadline := s.deadline.next }
      if s.prunes node.bound then pure s
      else explore oracle p config tolerance s node

def start (deadline : Deadline) : Search α :=
  { stack := [Node.root], incumbent := none, iterations := 0, nodes := 0, deadline, ended := none }

def outcome (p : Problem α) (ended : SearchEnd α) (incumbent : Option (Incumbent α)) :
    Option (Status × Array α) :=
  let zero := Array.replicate p.numColumns 0
  match ended, incumbent with
  | .unfinished, _ => none
  | .unbounded values, _ => some (.unbounded, values)
  | .exhausted, some inc => some (.optimal, inc.values)
  | .exhausted, none => some (.noFeasible, zero)
  | .limit, some inc | .gap, some inc => some (.feasible, inc.values)
  | .limit, none | .gap, none => some (.undefined, zero)

/-- Runs a search to its end, over at most `fuel` nodes; `none` when it has not come to an end by
then. -/
def solve (oracle : Oracle α) (p : Problem α) (config : SolveConfig α) (tolerance : α)
    (clock : Clock) (fuel : Nat) : Logged (Event α) (Option (Solution α)) := do
  config.messageLevel.report .on (.searchStarted (integerColumns p).length p.numBinary)
  let s ← Logged.iterateWhile (fun s ↦ s.ended.isNone) (step oracle p config tolerance) fuel
    (start (config.deadline clock))
  match s.ended.bind fun ended ↦ outcome p ended s.incumbent with
  | none => return none
  | some (status, values) =>
    config.messageLevel.report .on (.searchFinished s.nodes s.iterations)
    return some
      { status, objectiveValue := p.objectiveValue values, values, duals := none
        iterations := s.iterations }

end Search

end LinProg
