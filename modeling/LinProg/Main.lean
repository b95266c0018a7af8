import LinProg.CommandLine

namespace LinProg.CommandLine

/-- The number of a system error; some calls report it negated. -/
def errorNumber (code : UInt32) : UInt32 :=
  if code < 0x80000000 then code else 0 - code

def failureOf : IO.Error → ReadFailure
  | .noFileOrDirectory .. => .notFound
  | .permissionDenied .. => .denied
  | .inappropriateType _ code _ => if errorNumber code = 20 then .notADirectory else .isDirectory
  | .invalidArgument _ code details =>
    if errorNumber code = 36 then .nameTooLong else .other details
  | e => .other (toString e)

def readInput (file : String) : IO (Except ReadFailure String) := do
  try
    let bytes ←
      if isStandardInput file then (← IO.getStdin).readBinToEnd else IO.FS.readBinFile file
    return textOfBytes bytes
  catch e => return .error (failureOf e)

def execute (invocation : Invocation) : IO UInt32 := do
  let command := invocation.command
  let input ← match command.check?, command.file? with
    | none, some file => readInput file
    | _, _ => pure (.ok "")
  let start ← IO.monoNanosNow
  let answer := run command input
  for line in Event.logLines invocation.logFormat answer.filter answer.events do
    IO.eprintln line
  match answer.printout with
  | .ok printout =>
    let stop ← IO.monoNanosNow
    IO.print (printout.toText (Float.ofNat (stop - start) / 1e9))
    return 0
  | .error e =>
    IO.eprintln s!"Error: {e.message}"
    return failureExit

end LinProg.CommandLine

def main (args : List String) : IO UInt32 := do
  match LinProg.CommandLine.parse? args with
  | some invocation => LinProg.CommandLine.execute invocation
  | none =>
    IO.eprintln "usage: solve FILE [options] | write FILE | check FILE | version"
    return LinProg.CommandLine.usageExit
