import LinProg.Problem.Basic

namespace LinProg

inductive MessageLevel where
  | off
  | error
  | on
  | all
  | debug
  deriving Repr, DecidableEq

namespace MessageLevel

def code : MessageLevel → Nat
  | off => 0
  | error => 1
  | on => 2
  | all => 3
  | debug => 4

def ofCode? : Int → Option MessageLevel
  | 0 => some off
  | 1 => some error
  | 2 => some on
  | 3 => some all
  | 4 => some debug
  | _ => none

@[simp] theorem ofCode?_code (level : MessageLevel) : ofCode? level.code = some level := by
  cases level <;> rfl

def name : MessageLevel → String
  | off => "Off"
  | error => "Error"
  | on => "On"
  | all => "All"
  | debug => "Debug"

def filterName : MessageLevel → String
  | off => "off"
  | error => "warn"
  | on => "info"
  | all => "debug"
  | debug => "trace"

def shows (level wanted : MessageLevel) : Bool := wanted.code ≤ level.code

def max (a b : MessageLevel) : MessageLevel := if a.shows b then a else b

end MessageLevel

inductive SolveKind where
  | lp
  | mip
  deriving Repr, DecidableEq

namespace SolveKind

def name : SolveKind → String
  | lp => "Lp"
  | mip => "Mip"

def ofProblem {α : Type} (p : Problem α) : SolveKind := if 0 < p.numInteger then mip else lp

end SolveKind

structure Duration where
  nanoseconds : Nat
  deriving Repr, DecidableEq

namespace Duration

def perSecond : Nat := 1000000000

def seconds (d : Duration) : Nat := d.nanoseconds / perSecond

def subsecNanos (d : Duration) : Nat := d.nanoseconds % perSecond

def secondsBound : Nat := 0x10000000000000000

/-- The nearest number of nanoseconds to a number of seconds, a half going to the even neighbour.
There is none for a negative span, nor for one that reaches `secondsBound`. -/
def ofSeconds? (s : Rat) : Option Duration :=
  if s < 0 then none else
  let n : Rat := s * (perSecond : Rat)
  let down : Nat := n.floor.toNat
  let rest := n - (down : Rat)
  let nanos := if 1 / 2 < rest ∨ (rest = 1 / 2 ∧ down % 2 = 1) then down + 1 else down
  if nanos < secondsBound * perSecond then some ⟨nanos⟩ else none

end Duration

/-- The time gone by since a deadline was set, at each look at the clock; `none` where no clock can
be read. -/
abbrev Clock := Nat → Option Duration

/-- A clock to run the solver with: ten nanoseconds go by from one look to the next. What is proved
of deadlines holds for every clock. -/
def Clock.ticking : Clock := fun look ↦ some ⟨10 * (look + 1)⟩

structure Deadline where
  limit : Option Duration
  clock : Clock
  looks : Nat

namespace Deadline

def expired (d : Deadline) : Bool :=
  d.limit.any fun limit ↦ (d.clock d.looks).any fun elapsed ↦
    limit.nanoseconds ≤ elapsed.nanoseconds

/-- The deadline after a look. Without a limit no clock is looked at. -/
def next (d : Deadline) : Deadline := if d.limit.isSome then { d with looks := d.looks + 1 } else d

theorem expired_of_limit {d : Deadline} (h : d.limit = none) : d.expired = false := by
  simp [expired, h]

theorem next_of_limit {d : Deadline} (h : d.limit = none) : d.next = d := by simp [next, h]

end Deadline

structure SolveConfig (α : Type) where
  messageLevel : MessageLevel
  timeLimit : Option Duration
  iterationLimit : Option Nat
  presolve : Bool
  mipGap : α
  deriving Repr, DecidableEq

namespace SolveConfig

variable {α : Type}

def default [Zero α] : SolveConfig α :=
  { messageLevel := .error, timeLimit := none, iterationLimit := none, presolve := true,
    mipGap := 0 }

def deadline (config : SolveConfig α) (clock : Clock) : Deadline :=
  { limit := config.timeLimit, clock, looks := 0 }

/-- The settings for the relaxations of a search, of which only the most talkative level tells. -/
def forRelaxations (config : SolveConfig α) : SolveConfig α :=
  if config.messageLevel.shows .debug then config else { config with messageLevel := .off }

theorem iterationLimit_forRelaxations (config : SolveConfig α) :
    config.forRelaxations.iterationLimit = config.iterationLimit := by
  unfold forRelaxations
  split <;> rfl

end SolveConfig

end LinProg
