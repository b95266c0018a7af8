namespace LinProg

/-- The magnitude of a finite double, `significand * 2 ^ exponent`. -/
structure Dyadic where
  significand : Nat
  exponent : Int
  deriving Repr, DecidableEq

def roundDivEven (num den : Nat) : Nat :=
  let down := num / den
  let rest := num % den
  if den < 2 * rest ∨ (2 * rest = den ∧ down % 2 = 1) then down + 1 else down

namespace Binary64

def minExponent : Int := -1074

def leadingBit : Nat := 0x10000000000000

def signBit : Nat := 0x8000000000000000

/-- The bits of `+∞`; smaller words are the magnitudes of finite doubles, in order. -/
def infinityBits : Nat := 2047 * leadingBit

def magnitudeBits (x : Float) : Nat := x.toBits.toNat % signBit

def isNegative (x : Float) : Bool := signBit ≤ x.toBits.toNat

def isFinite (x : Float) : Bool := magnitudeBits x < infinityBits

def decode (bits : Nat) : Dyadic :=
  let field := bits / leadingBit
  let fraction := bits % leadingBit
  if field = 0 then ⟨fraction, minExponent⟩
  else ⟨leadingBit + fraction, minExponent + (field - 1 : Nat)⟩

def magnitude? (x : Float) : Option Dyadic :=
  if isFinite x then some (decode (magnitudeBits x)) else none

def exponentOf (num den : Nat) : Int :=
  let e : Int := num.log2 - den.log2 - 52
  let tooHigh := num * Nat.pow 2 (-e).toNat < den * Nat.pow 2 e.toNat * leadingBit
  max minExponent (if tooHigh then e - 1 else e)

/-- The bits of the double nearest to a fraction, a tie going to the even significand; at least
`infinityBits` where the fraction lies beyond the finite doubles. -/
def nearestBits (num den : Nat) : Nat :=
  if num = 0 then 0 else
  let e := exponentOf num den
  (e - minExponent).toNat * leadingBit +
    roundDivEven (num * Nat.pow 2 (-e).toNat) (den * Nat.pow 2 e.toNat)

def ofBits (negative : Bool) (bits : Nat) : Float :=
  Float.ofBits (UInt64.ofNat ((if negative then signBit else 0) + bits))

def nearest (negative : Bool) (num den : Nat) : Float :=
  ofBits negative (min infinityBits (nearestBits num den))

def ofInt (n : Int) : Float := nearest (n < 0) n.natAbs 1

def toRat? (x : Float) : Option Rat := do
  let d ← magnitude? x
  let q : Rat := d.significand * (2 : Rat) ^ d.exponent
  return if isNegative x then -q else q

def toInt? (x : Float) : Option Int := do
  let d ← magnitude? x
  let unit := Nat.pow 2 (-d.exponent).toNat
  if d.significand % unit ≠ 0 then none else
  let n : Int := d.significand / unit * Nat.pow 2 d.exponent.toNat
  return if isNegative x then -n else n

def maxFinite : Float := ofBits false (infinityBits - 1)

end Binary64

end LinProg
