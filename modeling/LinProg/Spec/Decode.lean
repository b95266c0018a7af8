import LinProg.Json.Infinity
import LinProg.Json.Parser
import LinProg.Spec.Basic
import LinProg.Spec.Error

namespace LinProg

abbrev Decoded := Except Malformed

namespace Json.Cursor

def refuse {β : Type} (c : Cursor) (expected : Expected) : Decoded β :=
  .error ⟨c.path.lastKey, c.path, expected⟩

def object (c : Cursor) : Decoded (List (String × Value)) :=
  match c.value with
  | .object members => .ok members
  | _ => c.refuse .object

def items (c : Cursor) : Decoded (List Cursor) :=
  match c.value with
  | .array items => .ok (items.zipIdx.map fun (v, i) ↦ ⟨v, c.path ++ [.index i]⟩)
  | _ => c.refuse .array

/-- A member that is null counts as absent. -/
def optional (c : Cursor) (members : List (String × Value)) (key : String) : Option Cursor :=
  match Value.member? members key with
  | none | some .null => none
  | some v => some ⟨v, c.path ++ [.key key]⟩

def require (c : Cursor) (members : List (String × Value)) (key : String) : Decoded Cursor :=
  match c.optional members key with
  | some member => .ok member
  | none => .error ⟨key, c.path, .value⟩

def string (c : Cursor) : Decoded String :=
  match c.value with
  | .string s => .ok s
  | _ => c.refuse .string

def number (c : Cursor) : Decoded Float :=
  match c.value.toFloat? with
  | some x => .ok x
  | none => c.refuse .number

/-- An integer of 64 bits: an integer literal, or a double without a fractional part. -/
def integer (c : Cursor) : Decoded Int :=
  match c.value with
  | .number (.int n) => if n < int64Bound then .ok n else c.refuse .integer
  | .number (.float x) =>
    match Binary64.toInt? x with
    | some n => if -int64Bound ≤ n ∧ n < int64Bound then .ok n else c.refuse .integer
    | none => c.refuse .integer
  | _ => c.refuse .integer

def flag (c : Cursor) : Decoded Bool :=
  match c.value with
  | .bool b => .ok b
  | .number n => .ok (n.toFloat != 0)
  | _ => c.refuse .boolean

def code {β : Type} (c : Cursor) (ofCode? : Int → Option β) (expected : Expected) : Decoded β := do
  match ofCode? (← c.integer) with
  | some x => return x
  | none => c.refuse expected

def readOptional {β : Type} (c : Cursor) (members : List (String × Value)) (key : String)
    (read : Cursor → Decoded β) : Decoded (Option β) :=
  match c.optional members key with
  | some member => some <$> read member
  | none => .ok none

def readItems {β : Type} (c : Cursor) (read : Cursor → Decoded β) : Decoded (List β) := do
  (← c.items).mapM read

def readSection {β : Type} (c : Cursor) (members : List (String × Value)) (key : String)
    (read : Cursor → Decoded β) : Decoded (List β) :=
  return (← c.readOptional members key (·.readItems read)).getD []

end Json.Cursor

open Json (Cursor)

def Term.decode (c : Cursor) : Decoded (Term Float) := do
  let members ← c.object
  let name ← (← c.require members "name").string
  let coef ← (← c.require members "coef").number
  return { name, coef }

def Bounds.decode (c : Cursor) : Decoded (Bounds Float) := do
  let members ← c.object
  let type ← (← c.require members "type").code BoundType.ofCode? .boundType
  let lower ← c.readOptional members "lb" (·.number)
  let upper ← c.readOptional members "ub" (·.number)
  return { type, lower := Scalar.extend (lower.getD 0), upper := Scalar.extend (upper.getD 0) }

def Objective.decode (c : Cursor) : Decoded (Objective Float) := do
  let members ← c.object
  let direction ← (← c.require members "direction").code Direction.ofCode? .direction
  let terms ← (← c.require members "vars").readItems Term.decode
  return { direction, terms }

def ConstraintSpec.decode (c : Cursor) : Decoded (ConstraintSpec Float) := do
  let members ← c.object
  let name ← (← c.require members "name").string
  let terms ← (← c.require members "vars").readItems Term.decode
  let bounds ← Bounds.decode (← c.require members "bnds")
  return { name, terms, bounds }

def ColumnBoundSpec.decode (c : Cursor) : Decoded (ColumnBoundSpec Float) := do
  let members ← c.object
  let name ← (← c.require members "name").string
  let bounds ← Bounds.decode c
  return { name, bounds }

namespace Options

/-- Negative limits and gaps count as absent. -/
def decode (c : Cursor) : Decoded (Options Float) := do
  let members ← c.object
  let nonNegative (key : String) : Decoded (Option Float) :=
    return (← c.readOptional members key (·.number)).filter (0 ≤ ·)
  let messageLevel ← c.readOptional members "msglev"
    (·.code MessageLevel.ofCode? .messageLevel)
  let iterations ← c.readOptional members "itlim" (·.integer)
  let mipGap ← nonNegative "mipgap"
  let timeLimit ← nonNegative "tmlim"
  let presolve ← c.readOptional members "presol" (·.flag)
  let rows ← c.readOptional members "rows" (·.flag)
  let iterationLimit := iterations.bind fun n ↦ if 0 ≤ n then some n.toNat else .none
  return { mipGap, timeLimit, messageLevel, presolve, iterationLimit, rows }

end Options

def ProblemSpec.decode (c : Cursor) : Decoded (ProblemSpec Float) := do
  let members ← c.object
  let name ← c.readOptional members "name" (·.string)
  let objective ← Objective.decode (← c.require members "objective")
  let subjectTo ← (← c.require members "subjectTo").readItems ConstraintSpec.decode
  let bounds ← c.readSection members "bounds" ColumnBoundSpec.decode
  let options ← c.readOptional members "options" Options.decode
  let generals ← c.readSection members "generals" (·.string)
  let binaries ← c.readSection members "binaries" (·.string)
  return { name := name.getD "", objective, subjectTo, bounds, generals, binaries,
           options := options.getD Options.none }

def decodeText {β : Type} (decode : Cursor → Decoded β) (text : String) : Except SpecError β :=
  match Json.parse text.toList with
  | .error fault => .error (.parse (.ofFault text.toList fault))
  | .ok value =>
    match decode (Cursor.root value) with
    | .error e => .error (.malformed e)
    | .ok x => .ok x

def ProblemSpec.parse (text : String) : Except SpecError (ProblemSpec Float) :=
  decodeText ProblemSpec.decode text

def Options.parse (text : String) : Except SpecError (Options Float) :=
  decodeText Options.decode text

end LinProg
