import LinProg.Decimal.Shortest

namespace LinProg

/-- The decisions of a number format. A number `d.ddd * 10 ^ k` is written positionally for
`positionalFrom ≤ k < positionalBelow` and with an exponent elsewhere. -/
structure NumberLayout where
  tie : Tie
  positionalFrom : Int
  positionalBelow : Int
  pointZero : Bool
  exponentPlus : Bool
  deriving Repr, DecidableEq

namespace NumberLayout

def zeros (n : Nat) : List Char := List.replicate n '0'

/-- Digits around a point that stands after the digit for `10 ^ 0`, where the first digit stands
for `10 ^ k`. -/
def positional (layout : NumberLayout) (digits : List Char) (k : Int) : List Char :=
  if k < 0 then '0' :: '.' :: zeros (-k - 1).toNat ++ digits
  else
    let whole := k.toNat + 1
    if whole < digits.length then digits.take whole ++ '.' :: digits.drop whole
    else digits ++ zeros (whole - digits.length) ++ (if layout.pointZero then ['.', '0'] else [])

def scientific (layout : NumberLayout) (digits : List Char) (k : Int) : List Char :=
  let mantissa := match digits with
    | first :: rest => if rest.isEmpty then [first] else first :: '.' :: rest
    | [] => []
  let sign := if k < 0 then ['-'] else if layout.exponentPlus then ['+'] else []
  mantissa ++ 'e' :: sign ++ Nat.toDigits 10 k.natAbs

def unsigned (layout : NumberLayout) (d : Decimal) : List Char :=
  let digits := Nat.toDigits 10 d.digits
  let k := d.exponent + digits.length - 1
  if layout.positionalFrom ≤ k ∧ k < layout.positionalBelow then layout.positional digits k
  else layout.scientific digits k

def finite? (layout : NumberLayout) (x : Float) : Option (List Char) := do
  let d ← Binary64.magnitude? x
  let text := layout.unsigned (Decimal.shortest layout.tie d)
  return if Binary64.isNegative x then '-' :: text else text

end NumberLayout

end LinProg
