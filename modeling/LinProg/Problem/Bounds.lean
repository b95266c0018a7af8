import LinProg.Scalar

namespace LinProg

inductive BoundType where
  | free
  | lower
  | upper
  | double
  | fixed
  deriving Repr, DecidableEq

inductive ColumnBounds (α : Type) where
  | unset
  | explicit (lower upper : Extended α)
  deriving Repr, DecidableEq

namespace BoundType

def ofCode? : Int → Option BoundType
  | 1 => some free
  | 2 => some lower
  | 3 => some upper
  | 4 => some double
  | 5 => some fixed
  | _ => none

def code : BoundType → Nat
  | free => 1
  | lower => 2
  | upper => 3
  | double => 4
  | fixed => 5

def name : BoundType → String
  | free => "Free"
  | lower => "Lower"
  | upper => "Upper"
  | double => "Double"
  | fixed => "Fixed"

@[simp] theorem ofCode?_code (type : BoundType) : ofCode? type.code = some type := by
  cases type <;> rfl

end BoundType

variable {α : Type} [Scalar α]

/-- Replaces a lower side at `+∞` by zero and an upper side at `-∞` by `+∞`; the two together
mark a pair that was never set. -/
def normalizeBounds (lower upper : Extended α) : Extended α × Extended α :=
  (match lower with | .posInf => .fin 0 | l => l,
   match upper with | .negInf => .posInf | u => u)

namespace BoundType

def classify (lower upper : Extended α) : BoundType :=
  match normalizeBounds lower upper with
  | (.negInf, .posInf) => free
  | (_, .posInf) => .lower
  | (.negInf, _) => .upper
  | (l, u) => if l != u then double else fixed

/-- The sides in force under a type, with an infinite value for a side that is not. A fixed pair
has its lower side on both ends. -/
def apply (type : BoundType) (lower upper : Extended α) : Extended α × Extended α :=
  match type with
  | free => (.negInf, .posInf)
  | .lower => (lower, .posInf)
  | .upper => (.negInf, upper)
  | double => (lower, upper)
  | fixed => (lower, lower)

end BoundType

namespace ColumnBounds

def ofPair : Extended α → Extended α → ColumnBounds α
  | .posInf, .negInf => unset
  | lower, upper =>
    let (lower, upper) := normalizeBounds lower upper
    explicit lower upper

def resolve : ColumnBounds α → Extended α × Extended α
  | unset => (.fin 0, .posInf)
  | explicit lower upper => (lower, upper)

def type (bounds : ColumnBounds α) : BoundType :=
  BoundType.classify bounds.resolve.1 bounds.resolve.2

end ColumnBounds

end LinProg
