import LinProg.Config
import LinProg.Decimal.Binary64

namespace LinProg

structure Options (α : Type) where
  mipGap : Option α
  timeLimit : Option Float
  messageLevel : Option MessageLevel
  presolve : Option Bool
  iterationLimit : Option Nat
  rows : Option Bool

namespace Options

variable {α : Type}

def none : Options α :=
  { mipGap := .none, timeLimit := .none, messageLevel := .none, presolve := .none,
    iterationLimit := .none, rows := .none }

/-- The options of `stronger` where it has them, and else those of `base`. -/
def merged (base stronger : Options α) : Options α :=
  { mipGap := stronger.mipGap <|> base.mipGap
    timeLimit := stronger.timeLimit <|> base.timeLimit
    messageLevel := stronger.messageLevel <|> base.messageLevel
    presolve := stronger.presolve <|> base.presolve
    iterationLimit := stronger.iterationLimit <|> base.iterationLimit
    rows := stronger.rows <|> base.rows }

/-- The settings of a solve. A time limit that is no span of time is ignored. -/
def solveConfig [Zero α] (options : Options α) : SolveConfig α :=
  let default : SolveConfig α := .default
  { messageLevel := options.messageLevel.getD default.messageLevel
    timeLimit := do Duration.ofSeconds? (← Binary64.toRat? (← options.timeLimit))
    iterationLimit := options.iterationLimit
    presolve := options.presolve.getD default.presolve
    mipGap := options.mipGap.getD default.mipGap }

def reportsRows (options : Options α) : Bool := options.rows.getD false

end Options

end LinProg
