import LinProg.Event
import LinProg.Registry
import LinProg.Spec.Basic

namespace LinProg

namespace Draft

variable {α : Type} [Scalar α]

def addObjectiveTerm (d : Draft α) (t : Term α) : Draft α :=
  d.modifyColumn t.name fun c ↦ { c with objective := t.coef }.setBounds .unset

def addConstraint (d : Draft α) (c : ConstraintSpec α) : Except VectorError (Draft α) := do
  let (columns, d) := d.resolveColumns (c.terms.map (·.name))
  let terms := columns.zip (c.terms.map (·.coef))
  let (_, d) ← d.declareRow c.name terms c.bounds.type c.bounds.lower c.bounds.upper
  return d

def addColumnBound (d : Draft α) (b : ColumnBoundSpec α) : Draft α :=
  let (lower, upper) := b.bounds.type.apply b.bounds.lower b.bounds.upper
  d.modifyColumn b.name (·.setBounds (.explicit lower upper))

def addGeneral (d : Draft α) (name : String) : Draft α :=
  d.modifyColumn name fun c ↦ { c with kind := .integer }

def addBinary (d : Draft α) (name : String) : Draft α :=
  d.modifyColumn name fun c ↦
    { c with kind := .binary }.setBounds (.explicit (.fin 0) (.fin 1))

def ofSpec (spec : ProblemSpec α) : Except VectorError (Draft α) := do
  let d := spec.objective.terms.foldl addObjectiveTerm (empty spec.name spec.objective.direction)
  let d ← spec.subjectTo.foldlM addConstraint d
  let d := spec.bounds.foldl addColumnBound d
  let d := spec.generals.foldl addGeneral d
  return spec.binaries.foldl addBinary d

end Draft

namespace Problem

variable {α : Type} [Scalar α]

def builtEvents (p : Problem α) : List (Event α) :=
  p.columns.toList.map (fun c ↦ .columnClassified c.name c.boundType c.lower c.upper) ++
    [.modelBuilt p.numRows p.numColumns p.numNonzeros p.numInteger p.numBinary]

def ofSpec (spec : ProblemSpec α) : Except VectorError (Problem α) := do
  let d ← Draft.ofSpec spec
  return d.problem.finalizeBounds

/-- The problem that a description stands for, with the events of building it. -/
def build (spec : ProblemSpec α) : Logged (Event α) (Except VectorError (Problem α)) :=
  match ofSpec spec with
  | .ok p => ⟨.ok p, p.builtEvents⟩
  | .error e => ⟨.error e, []⟩

end Problem

end LinProg
