import LinProg.Json.Basic

namespace LinProg.Json

/-- Reads a number of a document: at or beyond the largest finite magnitude it is infinite. -/
def widen (x : Float) : Float :=
  if Binary64.maxFinite ≤ x then 1 / 0 else if x ≤ -Binary64.maxFinite then -1 / 0 else x

def clamp (x : Float) : Float :=
  if x == 1 / 0 then Binary64.maxFinite else if x == -1 / 0 then -Binary64.maxFinite else x

def Value.toFloat? : Value → Option Float
  | number n => some (widen n.toFloat)
  | _ => none

end LinProg.Json
