import LinProg.Decimal.Layout
import LinProg.Problem.Basic

namespace LinProg.LpText

def lineWidth : Nat := 72

/-- Appends terms to a line, each behind a blank; a term that would not fit starts a new line. -/
def wrapFrom (line : String) : List String → List String
  | [] => [line]
  | term :: terms =>
    if lineWidth < line.utf8ByteSize + 1 + term.utf8ByteSize then
      line :: wrapFrom (" " ++ term) terms
    else wrapFrom (line ++ " " ++ term) terms

def wrap (head : String) (terms : List String) : List String := wrapFrom head terms

def nameMarks : List Char := "!\"#$%&()/,.;?@_`'\x7b\x7d|~".toList

def isNameChar (c : Char) : Bool :=
  ('a' ≤ c && c ≤ 'z') || ('A' ≤ c && c ≤ 'Z') || ('0' ≤ c && c ≤ '9') || nameMarks.contains c

/-- Whether the format can carry a name: up to 255 characters, the first of which is neither a
digit nor a point. -/
def isLegalName (name : String) : Bool :=
  match name.toList with
  | [] => false
  | first :: rest =>
    (first :: rest).all isNameChar && !('0' ≤ first && first ≤ '9') && first != '.' &&
      name.utf8ByteSize ≤ 255

def columnName (name : String) (index : Nat) : String :=
  if isLegalName name then name else s!"x_{index}"

def rowName (name : String) (index : Nat) : String :=
  if isLegalName name then name else s!"r_{index}"

def rangeName (index : Nat) : String := s!"~r_{index}"

variable {α : Type} [Scalar α]

def bound (format : α → String) : Extended α → String
  | .posInf => "+inf"
  | .negInf => "-inf"
  | .fin x => format x

def number (format : α → String) (x : α) : String := bound format (Scalar.extend x)

def term (format : α → String) (name : String) (a : α) : String :=
  let sign := if a < 0 then "-" else "+"
  let magnitude := Scalar.abs a
  if magnitude == 1 then s!"{sign} {name}"
  else s!"{sign} {number format magnitude} {name}"

/-- The terms of a linear form over column indices. A form without terms is written as zero times
the first column. -/
def expression (format : α → String) (columns : Array String) (form : List (Nat × α)) :
    List String :=
  match form with
  | [] =>
    match columns[0]? with
    | some name => [s!"0 {name}"]
    | none => ["0"]
  | _ => form.map fun (j, a) ↦ term format ((columns[j - 1]?).getD "") a

def nonzeros (form : List (Nat × α)) : List (Nat × α) := form.filter fun (_, a) ↦ a != 0

def rowSide (format : α → String) (r : Row α) (index : Nat) : List String :=
  match r.boundType with
  | .free => [">= -inf"]
  | .lower => [s!">= {bound format r.lower}"]
  | .upper => [s!"<= {bound format r.upper}"]
  | .fixed => [s!"= {bound format r.lower}"]
  | .double => [s!"- {rangeName index}", s!"= {bound format r.lower}"]

def rowLines (format : α → String) (columns : Array String) (r : Row α) (index : Nat) :
    List String :=
  wrap s!" {rowName r.name index}:"
    (expression format columns (nonzeros r.coefficients.toList) ++ rowSide format r index)

def columnBound (format : α → String) (c : Column α) (name : String) : Option String :=
  let lower := bound format c.lower
  let upper := bound format c.upper
  match c.boundType with
  | .free => some s!" {name} free"
  | .lower => if c.lower == .fin 0 then none else some s!" {name} >= {lower}"
  | .upper => some s!" -inf <= {name} <= {upper}"
  | .double =>
    if c.kind == .binary && c.lower == .fin 0 && c.upper == .fin 1 then none
    else some s!" {lower} <= {name} <= {upper}"
  | .fixed => some s!" {name} = {lower}"

def rangeBound (format : α → String) (r : Row α) (index : Nat) : Option String :=
  if r.boundType = .double then
    let width := r.upper.toScalar - r.lower.toScalar
    some s!" 0 <= {rangeName index} <= {number format width}"
  else none

def titled (title : String) (lines : List String) : List String :=
  if lines.isEmpty then [] else title :: lines ++ [""]

def bodyLines (format : α → String) (p : Problem α) : List String :=
  let columns := p.columns.toList.zipIdx.map fun (c, j) ↦ (c, columnName c.name (j + 1))
  let names := (columns.map (·.2)).toArray
  let rows := p.rows.toList.zipIdx.map fun (r, i) ↦ (r, i + 1)
  let objective := columns.zipIdx.map fun ((c, _), j) ↦ (j + 1, c.objective)
  let kind (kind : ColumnKind) : List String :=
    columns.filterMap fun (c, name) ↦ if c.kind = kind then some (" " ++ name) else none
  [""] ++
  [match p.direction with | .minimize => "Minimize" | .maximize => "Maximize"] ++
  wrap " obj:" (expression format names (nonzeros objective)) ++
  [""] ++
  titled "Subject To" (rows.flatMap fun (r, i) ↦ rowLines format names r i) ++
  titled "Bounds"
    (columns.filterMap (fun (c, name) ↦ columnBound format c name) ++
      rows.filterMap fun (r, i) ↦ rangeBound format r i) ++
  titled "Generals" (kind .integer) ++
  titled "Binaries" (kind .binary) ++
  ["End"]

def headLine (name : String) : String := "\\* Problem: " ++ name ++ " *\\"

def unlines (lines : List String) : String := String.join (lines.map (· ++ "\n"))

def write (format : α → String) (p : Problem α) : String :=
  unlines (headLine p.name :: bodyLines format p)

def layout : NumberLayout :=
  { tie := .up, positionalFrom := -6, positionalBelow := 15, pointZero := false
    exponentPlus := false }

def formatFloat (x : Float) : String :=
  match layout.finite? x with
  | some text => String.ofList text
  | none => "NaN"

end LinProg.LpText
