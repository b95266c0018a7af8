import LinProg.Json.Infinity
import LinProg.Json.Printer
import LinProg.Result.Values
import LinProg.Solution

namespace LinProg

structure Output (α : Type) where
  z : α
  version : String
  status : Status
  vars : Values α
  dual : Option (Values α)
  rows : Option (Values α)
  name : Option String
  time : Option Float

namespace Output

variable {α : Type}

instance [BEq α] : BEq (Output α) where
  beq a b :=
    a.z == b.z && a.version == b.version && a.status == b.status && a.vars == b.vars &&
      a.dual == b.dual && a.rows == b.rows && a.name == b.name && a.time == b.time

/-- The result object of a solution. A column or row that the solution has no number for counts as
zero. -/
def ofSolution [Scalar α] (p : Problem α) (s : Solution α) (version : String) (withRows : Bool) :
    Output α :=
  { z := s.objectiveValue
    version
    status := s.status
    vars := .ofList (p.columns.toList.zipIdx.map fun (c, j) ↦ (c.name, (s.values[j]?).getD 0))
    dual := s.duals.map fun duals ↦
      .ofList (p.rows.toList.zipIdx.map fun (r, i) ↦ (r.name, (duals[i]?).getD 0))
    rows :=
      if withRows then some (.ofList (p.rows.toList.map fun r ↦ (r.name, r.activity s.values)))
      else none
    name := some p.name
    time := none }

def withTime (o : Output α) (seconds : Float) : Output α := { o with time := some seconds }

end Output

def Json.Value.ofFloat (x : Float) : Json.Value := .number (.float (Json.clamp x))

def Values.toJson (v : Values Float) : Json.Value :=
  .object (v.entries.map fun (name, x) ↦ (name, Json.Value.ofFloat x))

namespace Output

def toJson (o : Output Float) : Json.Value :=
  let part {β : Type} (key : String) (write : β → Json.Value) (x : Option β) :
      List (String × Json.Value) := (x.map fun x ↦ (key, write x)).toList
  .object <|
    [("z", Json.Value.ofFloat o.z), ("glpk_version", .string o.version),
      ("status", .number (.int o.status.code)), ("vars", o.vars.toJson)] ++
    part "dual" Values.toJson o.dual ++ part "rows" Values.toJson o.rows ++
    part "name" .string o.name ++ part "time" (fun x ↦ .number (.float x)) o.time

def toText (o : Output Float) (spacing : Json.Spacing) : String := o.toJson.toText spacing

end Output

end LinProg
