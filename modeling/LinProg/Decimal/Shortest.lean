import LinProg.Decimal.Binary64

namespace LinProg

inductive Tie where
  | toEven
  | up
  deriving Repr, DecidableEq

structure Decimal where
  digits : Nat
  exponent : Int
  deriving Repr, DecidableEq

namespace Decimal

def strip : Nat → Decimal → Decimal
  | 0, d => d
  | fuel + 1, d => if d.digits % 10 = 0 then strip fuel ⟨d.digits / 10, d.exponent + 1⟩ else d

def magnitudeOf (d : Dyadic) : Int :=
  let reaches (k : Int) : Bool :=
    Nat.pow 10 k.toNat * Nat.pow 2 (-d.exponent).toNat ≤
      d.significand * Nat.pow 2 d.exponent.toNat * Nat.pow 10 (-k).toNat
  let k := ((d.significand.log2 + d.exponent) * 30103).fdiv 100000
  if reaches (k + 1) then k + 1 else if reaches k then k else k - 1

/-- The neighbour of a positive dyadic number on the grid of multiples of `10 ^ k` that rounds
back to it, if there is one. -/
def onGrid? (tie : Tie) (d : Dyadic) (k : Int) : Option Decimal :=
  let m := d.significand
  -- in units of a quarter of the last binary place, scaled to make the grid integral
  let unit := Nat.pow 2 (d.exponent - 2).toNat * Nat.pow 10 (-k).toNat
  let den := Nat.pow 2 (2 - d.exponent).toNat * Nat.pow 10 k.toNat
  let value := 4 * m * unit
  let narrow : Bool := m = Binary64.leadingBit ∧ Binary64.minExponent < d.exponent
  let low := value - (if narrow then 1 else 2) * unit
  let high := value + 2 * unit
  let inside (x : Nat) : Bool :=
    if m % 2 = 0 then low ≤ x * den ∧ x * den ≤ high else low < x * den ∧ x * den < high
  let down := value / den
  let rest := value % den
  let nearer :=
    if 2 * rest < den then down
    else if den < 2 * rest then down + 1
    else match tie with
      | .toEven => if down % 2 = 0 then down else down + 1
      | .up => down + 1
  let farther := if nearer = down then down + 1 else down
  if inside nearer then some ⟨nearer, k⟩
  else if inside farther then some ⟨farther, k⟩
  else none

/-- The first grid that has a hit, from `10 ^ k` downwards over at most `fuel` grids. -/
def search (tie : Tie) (d : Dyadic) : Nat → Int → Decimal
  | 0, k => ⟨0, k⟩
  | fuel + 1, k =>
    match onGrid? tie d k with
    | some x => x
    | none => search tie d fuel (k - 1)

def shortest (tie : Tie) (d : Dyadic) : Decimal :=
  if d.significand = 0 then ⟨0, 0⟩ else strip 20 (search tie d 20 (magnitudeOf d))

end Decimal

end LinProg
