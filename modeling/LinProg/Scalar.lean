namespace LinProg

inductive Extended (α : Type) where
  | negInf
  | fin (value : α)
  | posInf
  deriving Repr, DecidableEq

/-- Ordered arithmetic with rounding to integers and decimal literals. -/
class Scalar (α : Type) extends
    Zero α, One α, Add α, Sub α, Mul α, Div α, Neg α, LT α, LE α, BEq α where
  decLt : (a b : α) → Decidable (a < b)
  decLe : (a b : α) → Decidable (a ≤ b)
  abs : α → α
  floor : α → α
  ceil : α → α
  round : α → α
  /-- `ofDecimal m true e` is `m / 10 ^ e` and `ofDecimal m false e` is `m * 10 ^ e`. -/
  ofDecimal : Nat → Bool → Nat → α
  /-- What stands for the upper end where an unbounded side reaches the arithmetic. Exact numbers
  have no such value and no well-posed computation asks them for it. -/
  infinity : α
  extend : α → Extended α

attribute [reducible, instance] Scalar.decLt Scalar.decLe

namespace Scalar

variable {α : Type} [Scalar α]

def positivePart (x : α) : α := if 0 < x then x else 0

def half : α := ofDecimal 5 true 1

/-- Adds from left to right. The sum starts from the negated zero, which leaves the sign of a sum
of zeros to its terms. -/
def sum (xs : List α) : α := xs.foldl (· + ·) (-0)

end Scalar

instance : Scalar Float where
  decLt := inferInstance
  decLe := inferInstance
  abs := Float.abs
  floor := Float.floor
  ceil := Float.ceil
  round := Float.round
  ofDecimal := Float.ofScientific
  infinity := 1 / 0
  extend x := if x == 1 / 0 then .posInf else if x == -1 / 0 then .negInf else .fin x

def roundRat (q : Rat) : Rat :=
  if 0 ≤ q then ((q + 1 / 2).floor : Rat) else ((q - 1 / 2).ceil : Rat)

instance : Scalar Rat where
  toZero := ⟨0⟩
  toOne := ⟨1⟩
  toBEq := ⟨fun x y ↦ decide (x = y)⟩
  decLt := inferInstance
  decLe := inferInstance
  abs := Rat.abs
  floor q := q.floor
  ceil q := q.ceil
  round := roundRat
  ofDecimal := Rat.ofScientific
  infinity := 0
  extend := .fin

namespace Extended

variable {α : Type} [Scalar α]

instance : Coe α (Extended α) := ⟨.fin⟩

def toScalar : Extended α → α
  | negInf => -Scalar.infinity
  | fin x => x
  | posInf => Scalar.infinity

protected def beq : Extended α → Extended α → Bool
  | negInf, negInf => true
  | fin x, fin y => x == y
  | posInf, posInf => true
  | _, _ => false

instance : BEq (Extended α) := ⟨Extended.beq⟩

/-- Strict order along the line. An element that differs from itself stands nowhere on it and is
below and above nothing. -/
def below : Extended α → Extended α → Bool
  | negInf, posInf => true
  | negInf, fin y => y == y
  | fin x, fin y => decide (x < y)
  | fin x, posInf => x == x
  | _, _ => false

end Extended

end LinProg
