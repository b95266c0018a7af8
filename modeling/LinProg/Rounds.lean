import LinProg.Backend

namespace LinProg

structure Round (α : Type) where
  budget : Nat
  solution : Solution α
  deriving Repr, DecidableEq

inductive RoundsEnd (α ε : Type) where
  | finished (solution : Solution α)
  | failed (e : ε)

structure Rounds (α ε S : Type) where
  session : S
  done : Nat
  rounds : List (Round α)
  ended : Option (RoundsEnd α ε)

namespace Rounds

variable {α ε : Type}

def budget (increment : Nat) (limit : Option Nat) (done : Nat) : Nat :=
  match limit with
  | some limit => min increment (limit - done)
  | none => increment

def step (backend : Backend α) (p : Problem α) (increment : Nat) (limit : Option Nat)
    (onRound : Nat → Solution α → Except ε Unit) (s : Rounds α ε backend.Session) :
    Logged (Event α) (Rounds α ε backend.Session) := do
  let budget := budget increment limit s.done
  let (solution, session) ← backend.resume s.session p budget
  let rounds := ⟨budget, solution⟩ :: s.rounds
  match onRound rounds.length solution with
  | .error e => return { s with session, rounds, ended := some (.failed e) }
  | .ok () =>
    let done := solution.iterations
    Logged.raise (.roundFinished rounds.length done solution.status)
    let exhausted := match limit with
      | some limit => decide (limit ≤ done)
      | none => false
    if solution.status.isTerminal || decide (done ≤ s.done) || exhausted then
      Logged.raise (.roundsFinished rounds.length solution.status solution.objectiveValue)
      return { session, done, rounds, ended := some (.finished solution) }
    else return { session, done, rounds, ended := none }

def sessionConfig (config : SolveConfig α) : SolveConfig α := { config with presolve := false }

/-- Solves in rounds of at most `increment` pivots, of which there is at least one in a round
unless the limit is zero. A limit bounds the number of rounds too; without one, `fuel` does. -/
def run (backend : Backend α) (p : Problem α) (config : SolveConfig α) (increment : Nat)
    (onRound : Nat → Solution α → Except ε Unit) (fuel : Nat) :
    Logged (Event α) (Rounds α ε backend.Session) := do
  let session ← backend.start p (sessionConfig config)
  let fuel := match config.iterationLimit with
    | some limit => max 1 limit
    | none => fuel
  Logged.iterateWhile (fun s ↦ s.ended.isNone)
    (step backend p (max 1 increment) config.iterationLimit onRound) fuel
    { session, done := 0, rounds := [], ended := none }

end Rounds

end LinProg
