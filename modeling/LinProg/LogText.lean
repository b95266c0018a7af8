import LinProg.Event
import LinProg.Json.Printer
import LinProg.LpText

namespace LinProg

inductive LogFormat where
  | pretty
  | json
  deriving Repr, DecidableEq

def Severity.level : Severity → MessageLevel
  | .info => .on
  | .debug => .all

namespace FieldValue

def toJson : FieldValue Float → Json.Value
  | count n => .number (.int n)
  | number x => .number (.float x)
  | bound x => .number (.float x.toScalar)
  | flag b => .bool b
  | text s => .string s

def toText : FieldValue Float → String
  | number x => LpText.number LpText.formatFloat x
  | bound x => LpText.bound LpText.formatFloat x
  | v => v.toJson.toText .compact

end FieldValue

namespace Event

def logLine (format : LogFormat) (e : Event Float) : String :=
  let severity := e.severity.name.toUpper
  match format with
  | .pretty =>
    " ".intercalate ([severity, e.message] ++ e.fields.map fun (name, v) ↦ name ++ "=" ++ v.toText)
  | .json =>
    let fields := e.fields.map fun (name, v) ↦ (name, v.toJson)
    (Json.Value.object [("level", .string severity), ("message", .string e.message),
      ("fields", .object fields)]).toText .compact

def logLines (format : LogFormat) (filter : MessageLevel) (events : List (Event Float)) :
    List String :=
  (events.filter fun e ↦ filter.shows e.severity.level).map (logLine format)

end Event

end LinProg
