import LinProg.FileTree
import LinProg.LogText
import LinProg.LpText
import LinProg.Request
import LinProg.Spec.Decode

namespace LinProg.CommandLine

structure SolveArgs where
  file : String
  messageLevel : Option Int
  timeLimit : Option Float
  iterationLimit : Option Nat
  noPresolve : Bool
  mipGap : Option Float
  /-- When absent, integrality is heeded if some column asks for it. -/
  kind : Option SolveKind
  increment : Option Nat
  rows : Bool
  pretty : Bool

inductive Command where
  | solve (args : SolveArgs)
  | write (file : String)
  | check (file : String)
  | version

structure Invocation where
  logFormat : LogFormat
  command : Command

inductive OptionName where
  | logFormat
  | messageLevel
  | timeLimit
  | iterationLimit
  | noPresolve
  | mipGap
  | kind
  | increment
  | rows
  | pretty
  deriving Repr, DecidableEq

namespace OptionName

def text : OptionName → String
  | logFormat => "log-format"
  | messageLevel => "msg-level"
  | timeLimit => "time-limit"
  | iterationLimit => "iteration-limit"
  | noPresolve => "no-presolve"
  | mipGap => "mip-gap"
  | kind => "kind"
  | increment => "increment"
  | rows => "rows"
  | pretty => "pretty"

def isSwitch : OptionName → Bool
  | noPresolve | rows | pretty => true
  | _ => false

def ofSolve : List OptionName :=
  [logFormat, messageLevel, timeLimit, iterationLimit, noPresolve, mipGap, kind, increment, rows,
    pretty]

end OptionName

structure Sorted where
  options : List (OptionName × String)
  positional : List String

def splitOption (arg : List Char) : List Char × Option (List Char) :=
  match arg.dropWhile (· != '=') with
  | _ :: value => (arg.takeWhile (· != '='), some value)
  | [] => (arg, none)

def looksLikeOption (arg : String) : Bool :=
  match arg.toList with
  | '-' :: _ :: _ => true
  | _ => false

inductive Piece where
  | positional
  | endOfOptions
  | complete (option : OptionName) (value : String)
  | incomplete (option : OptionName)
  deriving Repr, DecidableEq

def Piece.ofArgument? (allowed : List OptionName) (arg : String) : Option Piece :=
  match arg.toList with
  | ['-', '-'] => some .endOfOptions
  | '-' :: '-' :: long => do
    let (name, value) := splitOption long
    let option ← allowed.find? (·.text == String.ofList name)
    match option.isSwitch, value with
    | true, none => some (.complete option "")
    | true, some _ => none
    | false, some value => some (.complete option (String.ofList value))
    | false, none => some (.incomplete option)
  | '-' :: _ :: _ => none
  | _ => some .positional

def Sorted.addOption (option : OptionName) (value : String) (sorted : Sorted) : Sorted :=
  { sorted with options := (option, value) :: sorted.options }

/-- Sorts arguments. The value of an option follows behind an equals sign or as the next argument;
two dashes end the options. -/
def sort (allowed : List OptionName) : List String → Option Sorted
  | [] => some ⟨[], []⟩
  | arg :: args =>
    match Piece.ofArgument? allowed arg with
    | none => none
    | some .endOfOptions => some ⟨[], args⟩
    | some (.complete option value) => (sort allowed args).map (·.addOption option value)
    | some .positional =>
      (sort allowed args).map fun sorted ↦
        { sorted with positional := arg :: sorted.positional }
    | some (.incomplete option) =>
      match args with
      | [] => none
      | value :: args =>
        if looksLikeOption value then none
        else (sort allowed args).map (·.addOption option value)

def int? (text : String) : Option Int :=
  let digits (cs : List Char) : Option Nat :=
    match cs.mapM Json.digit? with
    | some (d :: ds) => some (Json.spell (d :: ds))
    | _ => none
  match text.toList with
  | '-' :: cs => (digits cs).map fun n ↦ -n
  | '+' :: cs => (digits cs).map fun n ↦ n
  | cs => (digits cs).map fun n ↦ n

def int64? (text : String) : Option Int :=
  (int? text).filter fun n ↦ decide (-Json.int64Bound ≤ n ∧ n < Json.int64Bound)

def nat64? (text : String) : Option Nat :=
  if text.startsWith "-" then none
  else (int? text).bind fun n ↦ if n < Json.nat64Bound then some n.toNat else none

def unsignedFloat? (negative : Bool) (cs : List Char) : Option Float := do
  let whole := Json.Lexer.digits cs 0
  let fraction : Json.Lexer.Scanned (List Nat) := match whole.rest with
    | '.' :: rest => Json.Lexer.digits rest 0
    | rest => ⟨[], rest, 0⟩
  let digits := whole.value ++ fraction.value
  if digits.isEmpty then failure
  let exponent : Int ← match fraction.rest with
    | [] => some 0
    | c :: rest =>
      if c = 'e' ∨ c = 'E' then int? (String.ofList rest) else none
  return Json.NumberText.scaled negative (Json.spell digits) (exponent - fraction.value.length)

def float? (text : String) : Option Float :=
  let unsigned (negative : Bool) (cs : List Char) : Option Float :=
    match String.ofList (cs.map Char.toLower) with
    | "inf" | "infinity" => some (if negative then -1 / 0 else 1 / 0)
    | "nan" => some (0 / 0)
    | _ => unsignedFloat? negative cs
  match text.toList with
  | '-' :: cs => unsigned true cs
  | '+' :: cs => unsigned false cs
  | cs => unsigned false cs

/-- The value of an option that is given at most once, read by `read`; the outer `none` is a
mistake in the arguments. -/
def single {β : Type} (options : List (OptionName × String)) (name : OptionName)
    (read : String → Option β) : Option (Option β) :=
  match options.filter (·.1 == name) with
  | [] => some none
  | [(_, value)] => (read value).map some
  | _ => none

def switch (options : List (OptionName × String)) (name : OptionName) : Option Bool := do
  return (← single options name fun _ ↦ some ()).isSome

def logFormatOfText? : String → Option LogFormat
  | "pretty" => some .pretty
  | "json" => some .json
  | _ => none

def kindOfText? : String → Option (Option SolveKind)
  | "auto" => some none
  | "lp" => some (some .lp)
  | "mip" => some (some .mip)
  | _ => none

def file? (sorted : Sorted) : Option String :=
  match sorted.positional with
  | [file] => if file.isEmpty then none else some file
  | _ => none

def solveArgs? (sorted : Sorted) : Option SolveArgs := do
  let options := sorted.options
  return {
    file := ← file? sorted
    messageLevel := ← single options .messageLevel int64?
    timeLimit := ← single options .timeLimit float?
    iterationLimit := ← single options .iterationLimit nat64?
    noPresolve := ← switch options .noPresolve
    mipGap := ← single options .mipGap float?
    kind := (← single options .kind kindOfText?).join
    increment := ← single options .increment nat64?
    rows := ← switch options .rows
    pretty := ← switch options .pretty }

def command? (name : String) (args : List String) : Option (Command × Option LogFormat) := do
  let allowed := if name = "solve" then OptionName.ofSolve else [.logFormat]
  let sorted ← sort allowed args
  let command : Command ← match name with
    | "solve" => Command.solve <$> solveArgs? sorted
    | "write" => Command.write <$> file? sorted
    | "check" => Command.check <$> file? sorted
    | "version" => if sorted.positional.isEmpty then some .version else none
    | _ => none
  return (command, ← single sorted.options .logFormat logFormatOfText?)

def leading : List String → List String × List String
  | [] => ([], [])
  | arg :: args =>
    if looksLikeOption arg then
      if arg = "--log-format" then
        match args with
        | value :: args => let (before, rest) := leading args; (arg :: value :: before, rest)
        | [] => ([arg], [])
      else let (before, rest) := leading args; (arg :: before, rest)
    else ([], arg :: args)

def parse? (args : List String) : Option Invocation := do
  let (before, rest) := leading args
  let sorted ← sort [.logFormat] before
  let outer ← single sorted.options .logFormat logFormatOfText?
  match rest with
  | [] => none
  | name :: args =>
    if !sorted.positional.isEmpty || before.contains "--" then none
    else
      let (command, inner) ← command? name args
      return { logFormat := (inner <|> outer).getD .pretty, command }

inductive CommandError where
  | messageLevel (code : Int)
  | reading (source : String) (failure : ReadFailure)
  | spec (e : SpecError)
  | unfinished

def CommandError.message : CommandError → String
  | messageLevel code => s!"invalid message level {code}, expected 0-4"
  | reading source failure => s!"Error reading {source}: {failure.message}"
  | spec e => e.message
  | unfinished => "the solve did not come to an end"

inductive Printout where
  | text (s : String)
  | result (o : Output Float) (spacing : Json.Spacing)

namespace Printout

def toText (seconds : Float) : Printout → String
  | text s => s
  | result o spacing => (o.withTime seconds).toText spacing ++ "\n"

end Printout

structure Answer where
  printout : Except CommandError Printout
  filter : MessageLevel
  events : List (Event Float)

namespace SolveArgs

/-- The options of a solve; a negative gap or time limit counts as not given. -/
def options (args : SolveArgs) : Except CommandError (Options Float) := do
  let messageLevel ← match args.messageLevel with
    | none => pure none
    | some code =>
      match MessageLevel.ofCode? code with
      | some level => pure (some level)
      | none => throw (.messageLevel code)
  return {
    mipGap := args.mipGap.filter (0 ≤ ·)
    timeLimit := args.timeLimit.filter (0 ≤ ·)
    messageLevel
    presolve := if args.noPresolve then some false else none
    iterationLimit := args.iterationLimit
    rows := if args.rows then some true else none }

def solve (args : SolveArgs) (options : Options Float) (spec : ProblemSpec Float) : Answer :=
  let request : Request Float := { options, kind := args.kind, increment := args.increment }
  let solver : Solver Float := .standard
  let r := request.run solver.backend spec (fun _ _ ↦ (.ok () : Except Empty Unit)) solver.fuel
  let level := (options.messageLevel <|> spec.options.messageLevel).getD .error
  let printout : Except CommandError Printout := match r.value.result with
    | .ok o => .ok (.result o (if args.pretty then .pretty else .compact))
    | .error (.model e) => .error (.spec (.vector e))
    | .error .unfinished => .error .unfinished
  { printout, filter := level, events := r.events }

end SolveArgs

def statistics (p : Problem Float) : String :=
  let kind := match SolveKind.ofProblem p with
    | .lp => "LP"
    | .mip => "MIP"
  LpText.unlines
    [s!"Problem: {p.name}", s!"Kind: {kind}", s!"Rows: {p.numRows}", s!"Columns: {p.numColumns}",
      s!"Non-zeros: {p.numNonzeros}", s!"Integer columns: {p.numInteger}",
      s!"Binary columns: {p.numBinary}"]

def printProblem (print : Problem Float → String) (spec : ProblemSpec Float) : Answer :=
  let r := Problem.build spec
  let printout : Except CommandError Printout := match r.value with
    | .ok p => .ok (.text (print p))
    | .error e => .error (.spec (.vector e))
  { printout, filter := .error, events := r.events }

namespace Command

def file? : Command → Option String
  | solve args => some args.file
  | write file | check file => some file
  | version => none

def check? : Command → Option CommandError
  | solve args =>
    match args.options with
    | .error e => some e
    | .ok _ => none
  | _ => none

def perform (command : Command) (text : String) : Answer :=
  let failed (e : CommandError) : Answer := { printout := .error e, filter := .error, events := [] }
  let withSpec (answer : ProblemSpec Float → Answer) : Answer :=
    match ProblemSpec.parse text with
    | .error e => failed (.spec e)
    | .ok spec => answer spec
  match command with
  | version => { printout := .ok (.text (LinProg.version ++ "\n")), filter := .error, events := [] }
  | write _ => withSpec (printProblem (LpText.write LpText.formatFloat))
  | check _ => withSpec (printProblem statistics)
  | solve args =>
    match args.options with
    | .error e => failed e
    | .ok options => withSpec (args.solve options)

end Command

/-- Whether a file stands for the standard input: a path of the one name `-`, and of names behind
it that stay where they are. -/
def isStandardInput (file : String) : Bool :=
  match file.splitOn "/" with
  | "-" :: names => names.all FileTree.staysPut
  | _ => false

def sourceName (file : String) : String :=
  if isStandardInput file then "stdin" else s!"file {file}"

def run (command : Command) (input : Except ReadFailure String) : Answer :=
  match command.check? with
  | some e => { printout := .error e, filter := .error, events := [] }
  | none =>
    match command.file?, input with
    | some file, .error failure =>
      { printout := .error (.reading (sourceName file) failure), filter := .error, events := [] }
    | _, .ok text => command.perform text
    | none, .error _ => command.perform ""

structure Sources where
  standardInput : ByteArray
  files : FileSystem

def Sources.read (sources : Sources) (file : String) : Except ReadFailure String :=
  if isStandardInput file then textOfBytes sources.standardInput else sources.files.read file

def runFrom (sources : Sources) (command : Command) : Answer :=
  run command ((command.file?.map sources.read).getD (.ok ""))

def usageExit : UInt32 := 2

def failureExit : UInt32 := 1

end LinProg.CommandLine
