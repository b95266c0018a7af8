import LinProg.Json.Fault
import LinProg.Json.Path
import LinProg.SparseVector

namespace LinProg

inductive Expected where
  | value
  | object
  | array
  | string
  | number
  | integer
  | boolean
  | direction
  | boundType
  | messageLevel
  deriving Repr, DecidableEq

def Expected.description : Expected → String
  | value => "a value"
  | object => "an object"
  | array => "an array"
  | string => "a string"
  | number => "a number"
  | integer => "an integer"
  | boolean => "a boolean"
  | direction => "1 (minimize) or 2 (maximize)"
  | boundType => "a bound type 1-5"
  | messageLevel => "a message level 0-4"

/-- A place that has not what is expected there. For a missing member the place is the object
that lacks it, and else the field is the last key on the way to the place. -/
structure Malformed where
  field : String
  path : Json.Path
  expected : Expected
  deriving Repr, DecidableEq

def Malformed.message (e : Malformed) : String :=
  s!"malformed spec: `{e.field}` at {e.path.toText}: expected {e.expected.description}"

structure ParseError where
  reason : Json.Reason
  position : Json.Position
  deriving Repr, DecidableEq

namespace ParseError

def ofFault (text : List Char) (fault : Json.Fault) : ParseError :=
  ⟨fault.reason, .ofOffset text fault.offset⟩

def message (e : ParseError) : String :=
  let line := e.position.line
  let column := e.position.column
  s!"parse error at line {line}, column {column}: {e.reason.message} " ++
    s!"at line {line} column {column}"

end ParseError

inductive SpecError where
  | parse (e : ParseError)
  | malformed (e : Malformed)
  | vector (e : VectorError)
  deriving Repr, DecidableEq

def SpecError.message : SpecError → String
  | parse e => e.message
  | malformed e => e.message
  | vector e => e.message

end LinProg
