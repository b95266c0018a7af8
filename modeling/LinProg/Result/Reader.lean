import LinProg.Json.Lexer
import LinProg.Result.Output
import LinProg.Text.Quoted

namespace LinProg

open Json (Reason Token TokenKind)

namespace Result

inductive Found where
  | null
  | bool (b : Bool)
  | number (n : Json.Number)
  | string (s : String)
  | sequence
  | map

def Found.description : Found → String
  | null => "null"
  | bool b => s!"boolean `{b}`"
  | number (.int n) => s!"integer `{n}`"
  | number (.float x) => s!"floating point `{String.ofList (Json.Number.float x).render}`"
  | string s => s!"string {Text.quoted s}"
  | sequence => "sequence"
  | map => "map"

inductive Wanted where
  | double
  | string
  | int32
  | values
  | output
  deriving Repr, DecidableEq

def Wanted.description : Wanted → String
  | double => "f64"
  | string => "a string"
  | int32 => "i32"
  | values => "a map of names to numbers"
  | output => "struct Output"

inductive Field where
  | z
  | version
  | status
  | vars
  | dual
  | rows
  | name
  | time
  deriving Repr, DecidableEq

namespace Field

def key : Field → String
  | z => "z"
  | version => "glpk_version"
  | status => "status"
  | vars => "vars"
  | dual => "dual"
  | rows => "rows"
  | name => "name"
  | time => "time"

def all : List Field := [z, version, status, vars, dual, rows, name, time]

def ofKey? (key : String) : Option Field := all.find? (·.key == key)

end Field

inductive ReadError where
  | json (reason : Reason)
  | missing (field : Field)
  | duplicate (field : Field)
  | invalidType (found : Found) (wanted : Wanted)
  | outOfRange (n : Int)
  | unknownStatus (code : Int)
  | tooShort (elements : Nat)

def ReadError.message : ReadError → String
  | json reason => reason.message
  | missing field => s!"missing field `{field.key}`"
  | duplicate field => s!"duplicate field `{field.key}`"
  | invalidType found wanted =>
    s!"invalid type: {found.description}, expected {wanted.description}"
  | outOfRange n => s!"invalid value: integer `{n}`, expected i32"
  | unknownStatus code => s!"unknown status code {code}"
  | tooShort elements =>
    s!"invalid length {elements}, expected {Wanted.output.description} with " ++
      s!"{Field.all.length} elements"

structure Partial where
  z : Option Float
  version : Option String
  status : Option Status
  vars : Option (Values Float)
  /-- An outer `none` means that the member has not been read. -/
  dual : Option (Option (Values Float))
  rows : Option (Option (Values Float))
  name : Option (Option String)
  time : Option (Option Float)

abbrev Parsed (β : Type) := β × List Token

def fail {β : Type} (reason : Reason) : Except ReadError β := .error (.json reason)

def lift {β : Type} : Except Json.Fault β → Except ReadError β
  | .ok x => .ok x
  | .error fault => fail fault.reason

def found (t : Token) : Except ReadError Found :=
  match t.kind with
  | .null => .ok .null
  | .bool b => .ok (.bool b)
  | .number n => return .number (← lift (n.value t.start))
  | .string s => return .string (← lift (s.value t.start))
  | .openList => .ok .sequence
  | .openObject => .ok .map
  | .broken fault _ => fail fault.reason
  | _ => fail .expectedValue

def refuse {β : Type} (t : Token) (wanted : Wanted) : Except ReadError β := do
  .error (.invalidType (← found t) wanted)

def readNumber (wanted : Wanted) : List Token → Except ReadError (Parsed Json.Number)
  | [] => fail .endInValue
  | t :: ts =>
    match t.kind with
    | .number n => return (← lift (n.value t.start), ts)
    | _ => refuse t wanted

def readFloat (ts : List Token) : Except ReadError (Parsed Float) := do
  let (n, ts) ← readNumber .double ts
  return (n.toFloat, ts)

def readExtended (ts : List Token) : Except ReadError (Parsed Float) := do
  let (x, ts) ← readFloat ts
  return (Json.widen x, ts)

def readString : List Token → Except ReadError (Parsed String)
  | [] => fail .endInValue
  | t :: ts =>
    match t.kind with
    | .string s => return (← lift (s.value t.start), ts)
    | _ => refuse t .string

def int32Bound : Int := 0x80000000

def readStatus (ts : List Token) : Except ReadError (Parsed Status) := do
  let (n, ts) ← readNumber .int32 ts
  match n with
  | .float _ => .error (.invalidType (.number n) .int32)
  | .int code =>
    if code < -int32Bound ∨ int32Bound ≤ code then .error (.outOfRange code)
    else
      match Status.ofCode? code with
      | some status => return (status, ts)
      | none => .error (.unknownStatus code)

def nextKey (first : Bool) : List Token → Except ReadError (Parsed (Option String))
  | [] => fail .endInObject
  | t :: ts =>
    match t.kind with
    | .closeObject => return (none, ts)
    | .comma =>
      if first then fail .expectedKey
      else
        match ts with
        | [] => fail .endInValue
        | t :: ts =>
          match t.kind with
          | .string s => return (some (← lift (s.value t.start)), ts)
          | .closeObject => fail .trailingComma
          | _ => fail .expectedKey
    | .string s =>
      if first then return (some (← lift (s.value t.start)), ts) else fail .expectedObjectCommaOrEnd
    | _ => fail (if first then .expectedKey else .expectedObjectCommaOrEnd)

def expectColon : List Token → Except ReadError (List Token)
  | [] => fail .endInObject
  | t :: ts =>
    match t.kind with
    | .colon => .ok ts
    | _ => fail .expectedColon

def readEntries : Nat → Bool → List Token → Except ReadError (Parsed (List (String × Float)))
  | 0, _, _ => fail .endInObject
  | fuel + 1, first, ts => do
    match ← nextKey first ts with
    | (none, ts) => return ([], ts)
    | (some key, ts) =>
      let (x, ts) ← readExtended (← expectColon ts)
      let (entries, ts) ← readEntries fuel false ts
      return ((key, x) :: entries, ts)

def readValues : List Token → Except ReadError (Parsed (Values Float))
  | [] => fail .endInValue
  | t :: ts =>
    match t.kind with
    | .openObject => do
      let (entries, ts) ← readEntries (ts.length + 1) true ts
      return (.ofList entries, ts)
    | _ => refuse t .values

def readOptional {β : Type} (read : List Token → Except ReadError (Parsed β)) (ts : List Token) :
    Except ReadError (Parsed (Option β)) := do
  match ts with
  | ⟨_, .null⟩ :: ts => return (none, ts)
  | _ =>
    let (x, ts) ← read ts
    return (some x, ts)

inductive Skipping where
  | value
  | first
  | key
  | colon
  | after

def skipFault (t : Token) : Option Reason :=
  match t.kind with
  | .null | .bool _ | .number _ => none
  | .string s =>
    match s.ending with
    | .quote => none
    | .fault f => some f.reason
  | .broken f inNumber => some (if inNumber then .invalidNumber else f.reason)
  | _ => some .expectedValue

def skipAfter (stack : List Bool) : Option (List Bool × Skipping) :=
  if stack.isEmpty then none else some (stack, .after)

def skipValue (stack : List Bool) (t : Token) : Except ReadError (Option (List Bool × Skipping)) :=
  match t.kind with
  | .openList => .ok (some (false :: stack, .first))
  | .openObject => .ok (some (true :: stack, .first))
  | _ =>
    match skipFault t with
    | some reason => fail reason
    | none => .ok (skipAfter stack)

def skipKey (stack : List Bool) (t : Token) : Except ReadError (Option (List Bool × Skipping)) :=
  match t.kind with
  | .string s =>
    match s.ending with
    | .quote => .ok (some (stack, .colon))
    | .fault f => fail f.reason
  | _ => fail .expectedKey

def closes (isObject : Bool) (t : Token) : Bool :=
  match t.kind with
  | .closeList => !isObject
  | .closeObject => isObject
  | _ => false

/-- Skips one token. The stack tells for each open list or object, the innermost first, whether it
is an object. Numbers may be out of range and surrogates unpaired in what is skipped. -/
def skipToken (t : Token) : List Bool → Skipping →
    Except ReadError (Option (List Bool × Skipping))
  | stack, .value => skipValue stack t
  | stack, .key => skipKey stack t
  | stack, .colon =>
    match t.kind with
    | .colon => .ok (some (stack, .value))
    | _ => fail .expectedColon
  | [], _ => fail .expectedValue
  | isObject :: outer, .first =>
    if closes isObject t then .ok (skipAfter outer)
    else if isObject then skipKey (isObject :: outer) t else skipValue (isObject :: outer) t
  | isObject :: outer, .after =>
    if closes isObject t then .ok (skipAfter outer)
    else
      match t.kind with
      | .comma => .ok (some (isObject :: outer, if isObject then .key else .value))
      | _ => fail (if isObject then .expectedObjectCommaOrEnd else .expectedListCommaOrEnd)

def skipEnd (stack : List Bool) : Skipping → Reason
  | .value => .endInValue
  | .key | .colon => .endInObject
  | .first | .after => if stack.headD false then .endInObject else .endInList

def skip : List Bool → Skipping → List Token → Except ReadError (List Token)
  | stack, state, [] => fail (skipEnd stack state)
  | stack, state, t :: ts => do
    match ← skipToken t stack state with
    | none => return ts
    | some (stack, state) => skip stack state ts

namespace Partial

def start : Partial :=
  { z := none, version := none, status := none, vars := none, dual := none, rows := none,
    name := none, time := none }

def has (p : Partial) : Field → Bool
  | .z => p.z.isSome
  | .version => p.version.isSome
  | .status => p.status.isSome
  | .vars => p.vars.isSome
  | .dual => p.dual.isSome
  | .rows => p.rows.isSome
  | .name => p.name.isSome
  | .time => p.time.isSome

def read (p : Partial) (ts : List Token) : Field → Except ReadError (Parsed Partial)
  | .z => do
    let (x, ts) ← readExtended ts
    return ({ p with z := some x }, ts)
  | .version => do
    let (s, ts) ← readString ts
    return ({ p with version := some s }, ts)
  | .status => do
    let (s, ts) ← readStatus ts
    return ({ p with status := some s }, ts)
  | .vars => do
    let (v, ts) ← readValues ts
    return ({ p with vars := some v }, ts)
  | .dual => do
    let (v, ts) ← readOptional readValues ts
    return ({ p with dual := some v }, ts)
  | .rows => do
    let (v, ts) ← readOptional readValues ts
    return ({ p with rows := some v }, ts)
  | .name => do
    let (s, ts) ← readOptional readString ts
    return ({ p with name := some s }, ts)
  | .time => do
    let (x, ts) ← readOptional readFloat ts
    return ({ p with time := some x }, ts)

def finish (p : Partial) (absent : Field → ReadError) : Except ReadError (Output Float) :=
  match p.z, p.version, p.status, p.vars with
  | some z, some version, some status, some vars =>
    .ok { z, version, status, vars, dual := p.dual.join, rows := p.rows.join
          name := p.name.join, time := p.time.join }
  | none, _, _, _ => .error (absent .z)
  | _, none, _, _ => .error (absent .version)
  | _, _, none, _ => .error (absent .status)
  | _, _, _, none => .error (absent .vars)

def readMembers : Nat → Bool → Partial → List Token → Except ReadError (Parsed Partial)
  | 0, _, _, _ => fail .endInObject
  | fuel + 1, first, p, ts => do
    match ← nextKey first ts with
    | (none, ts) => return (p, ts)
    | (some key, ts) =>
      match Field.ofKey? key with
      | some field =>
        if p.has field then .error (.duplicate field)
        else
          let (p, ts) ← p.read (← expectColon ts) field
          readMembers fuel false p ts
      | none =>
        let ts ← skip [] .value (← expectColon ts)
        readMembers fuel false p ts

def nextElement (first : Bool) : List Token → Except ReadError (Parsed Bool)
  | [] => fail .endInList
  | t :: ts =>
    match t.kind with
    | .closeList => .ok (false, t :: ts)
    | .comma =>
      if first then .ok (true, t :: ts)
      else
        match ts with
        | [] => fail .endInValue
        | ⟨_, .closeList⟩ :: _ => fail .trailingComma
        | _ => .ok (true, ts)
    | _ => if first then .ok (true, t :: ts) else fail .expectedListCommaOrEnd

def readElements : List Field → Bool → Partial → List Token → Except ReadError (Parsed Partial)
  | [], _, p, ts => .ok (p, ts)
  | field :: fields, first, p, ts => do
    match ← nextElement first ts with
    | (false, ts) => return (p, ts)
    | (true, ts) =>
      let (p, ts) ← p.read ts field
      readElements fields false p ts

end Partial

def expectListEnd : List Token → Except ReadError (List Token)
  | [] => fail .endInList
  | t :: ts =>
    match t.kind with
    | .closeList => .ok ts
    | .comma =>
      match ts with
      | ⟨_, .closeList⟩ :: _ => fail .trailingComma
      | _ => fail .trailingCharacters
    | _ => fail .trailingCharacters

def readOutput : List Token → Except ReadError (Parsed (Output Float))
  | [] => fail .endInValue
  | t :: ts =>
    match t.kind with
    | .openObject => do
      let (p, ts) ← Partial.start.readMembers (ts.length + 1) true ts
      return (← p.finish .missing, ts)
    | .openList => do
      let (p, ts) ← Partial.start.readElements Field.all true ts
      let seen := (Field.all.filter p.has).length
      let o ← p.finish fun _ ↦ .tooShort seen
      return (o, ← expectListEnd ts)
    | _ => refuse t .output

end Result

/-- Reads a result from a text that holds nothing else. The first thing found wrong is reported,
so a text may be refused for what a member is before it turns out not to be JSON. -/
def Output.parse (text : String) : Except Result.ReadError (Output Float) := do
  match ← Result.readOutput (Json.Lexer.tokens text.toList) with
  | (o, []) => return o
  | (_, _ :: _) => Result.fail .trailingCharacters

end LinProg
