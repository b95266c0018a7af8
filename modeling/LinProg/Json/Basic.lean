import LinProg.Decimal.Binary64

namespace LinProg.Json

inductive Number where
  | int (n : Int)
  | float (x : Float)

inductive Value where
  | null
  | bool (b : Bool)
  | number (n : Number)
  | string (s : String)
  | array (items : List Value)
  | object (members : List (String × Value))

instance : Inhabited Value := ⟨.null⟩

def int64Bound : Int := 0x8000000000000000

def nat64Bound : Nat := 0x10000000000000000

namespace Number

def toFloat : Number → Float
  | int n => Binary64.ofInt n
  | float x => x

def toInt64? : Number → Option Int
  | int n => if n < int64Bound then some n else none
  | float _ => none

end Number

namespace Value

def member? (members : List (String × Value)) (key : String) : Option Value :=
  (members.find? (·.1 == key)).map (·.2)

/-- Puts a member into a list that is sorted by key; a member with the same key is replaced. -/
def insertMember (key : String) (value : Value) :
    List (String × Value) → List (String × Value)
  | [] => [(key, value)]
  | (k, v) :: rest =>
    if key < k then (key, value) :: (k, v) :: rest
    else if key = k then (key, value) :: rest
    else (k, v) :: insertMember key value rest

end Value

end LinProg.Json
