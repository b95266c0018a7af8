import LinProg.Proofs.Model.Outline

namespace LinProg

variable {α : Type} [Scalar α]

def Term.change (t : Term α) (c : Column α) : Column α :=
  { c with objective := t.coef }.setBounds .unset

def ColumnBoundSpec.change (b : ColumnBoundSpec α) (c : Column α) : Column α :=
  let (lower, upper) := b.bounds.type.apply b.bounds.lower b.bounds.upper
  c.setBounds (.explicit lower upper)

def Column.asInteger (c : Column α) : Column α := { c with kind := .integer }

def Column.asBinary (c : Column α) : Column α :=
  { c with kind := .binary }.setBounds (.explicit (.fin 0) (.fin 1))

namespace ProblemSpec

def mentions (spec : ProblemSpec α) : List String :=
  spec.objective.terms.map (·.name) ++ spec.subjectTo.flatMap (·.names) ++
    spec.bounds.map (·.name) ++ spec.generals ++ spec.binaries

def objectiveOf (spec : ProblemSpec α) (name : String) : α :=
  ((lastNamed Term.name spec.objective.terms name).map (·.coef)).getD 0

def kindOf (spec : ProblemSpec α) (name : String) : ColumnKind :=
  if name ∈ spec.binaries then .binary else if name ∈ spec.generals then .integer else .continuous

def boundsOf (spec : ProblemSpec α) (name : String) : Extended α × Extended α :=
  if name ∈ spec.binaries then (.fin 0, .fin 1)
  else match lastNamed ColumnBoundSpec.name spec.bounds name with
    | some b => b.bounds.type.apply b.bounds.lower b.bounds.upper
    | none => (.fin 0, .posInf)

def column (spec : ProblemSpec α) (name : String) : Column α :=
  { name
    objective := spec.objectiveOf name
    kind := spec.kindOf name
    bounds := .explicit (spec.boundsOf name).1 (spec.boundsOf name).2
    boundType := .classify (spec.boundsOf name).1 (spec.boundsOf name).2 }

def outline (spec : ProblemSpec α) : Outline α :=
  let start : Outline α := ⟨spec.name, spec.objective.direction, [], .named, []⟩
  ((((start.modifyAll Term.name Term.change spec.objective.terms).constrain
    spec.subjectTo).modifyAll ColumnBoundSpec.name ColumnBoundSpec.change
    spec.bounds).modifyAll id (fun _ ↦ Column.asInteger)
    spec.generals).modifyAll id (fun _ ↦ Column.asBinary) spec.binaries

theorem mentions_outline (spec : ProblemSpec α) : spec.outline.mentions = spec.mentions := by
  simp [outline, Outline.modifyAll, Outline.constrain, Outline.mention, mentions]

theorem finalize_column_outline (spec : ProblemSpec α) (name : String) :
    (spec.outline.column name).finalize = spec.column name := by
  simp only [outline, Outline.modifyAll, Outline.constrain, Outline.mention, column, objectiveOf,
    kindOf, boundsOf, lastNamed_id]
  by_cases hbinary : name ∈ spec.binaries <;> by_cases hgeneral : name ∈ spec.generals <;>
    cases lastNamed ColumnBoundSpec.name spec.bounds name <;>
    cases lastNamed Term.name spec.objective.terms name <;>
    simp only [hbinary, hgeneral, if_true, if_false] <;> rfl

end ProblemSpec

namespace Draft

theorem exists_ofSpec (spec : ProblemSpec α) :
    ∃ d, Draft.ofSpec spec = .ok d ∧ d.Realizes spec.outline := by
  have hobjective := (Realizes.empty spec.name spec.objective.direction).modifyColumns Term.name
    Term.change (fun _ _ ↦ rfl) (fun _ _ _ ↦ rfl) spec.objective.terms
  obtain ⟨d, hd, hrows⟩ := hobjective.addConstraints spec.subjectTo
  have hbounds := hrows.modifyColumns ColumnBoundSpec.name ColumnBoundSpec.change
    (fun _ _ ↦ rfl) (fun _ _ _ ↦ rfl) spec.bounds
  have hgenerals := hbounds.modifyColumns id (fun _ ↦ Column.asInteger)
    (fun _ _ ↦ rfl) (fun _ _ _ ↦ rfl) spec.generals
  have hbinaries := hgenerals.modifyColumns id (fun _ ↦ Column.asBinary)
    (fun _ _ ↦ rfl) (fun _ _ _ ↦ rfl) spec.binaries
  refine ⟨_, ?_, hbinaries⟩
  change spec.subjectTo.foldlM Draft.addConstraint
    (spec.objective.terms.foldl Draft.addObjectiveTerm
      (empty spec.name spec.objective.direction)) = .ok d at hd
  unfold Draft.ofSpec
  dsimp only
  rw [hd]
  rfl

end Draft

namespace Problem

/-- What building a description comes to, before it is said column by column and row by row. -/
theorem exists_build (spec : ProblemSpec α) :
    ∃ p : Problem α, (Problem.build spec).value = .ok p ∧ p.name = spec.name ∧
      p.direction = spec.objective.direction ∧
      p.columns.toList = spec.mentions.eraseDups.map spec.column ∧
      List.Forall₂ (ConstraintSpec.DeclaredAs spec.mentions.eraseDups) spec.subjectTo
        p.rows.toList := by
  obtain ⟨d, hd, h⟩ := Draft.exists_ofSpec spec
  have hp : Problem.ofSpec spec = .ok d.problem.finalizeBounds := by
    rw [Problem.ofSpec, hd]
    rfl
  refine ⟨d.problem.finalizeBounds, ?_, h.name, h.direction, ?_, ?_⟩
  · rw [Problem.build, hp]
  · change (d.problem.columns.map (·.finalize)).toList = _
    rw [Array.toList_map, h.columns, List.map_map, spec.mentions_outline]
    exact List.map_congr_left fun name _ ↦ spec.finalize_column_outline name
  · rw [← spec.mentions_outline]
    exact h.rows

theorem build_of_subjectTo_eq_nil {spec : ProblemSpec α} (h : spec.subjectTo = []) :
    (Problem.build spec).value =
      .ok { name := spec.name, direction := spec.objective.direction
            columns := (spec.mentions.eraseDups.map spec.column).toArray, rows := #[] } := by
  obtain ⟨⟨name, direction, columns, rows⟩, hp, rfl, rfl, hcolumns, hrows⟩ := exists_build spec
  rw [h] at hrows
  obtain rfl : rows = #[] := Array.toList_inj.mp (List.forall₂_nil_left_iff.mp hrows)
  rw [hp, ← hcolumns]

/-- Building a description never fails. The columns are the names mentioned, in the order of first
mention; of several objective terms or bounds with one name the last one counts, and binary columns
take their own bounds; the rows are the constraints, and terms with one name are added up. -/
theorem build_meaning (spec : ProblemSpec α) :
    ∃ p : Problem α, (Problem.build spec).value = .ok p ∧
      p.columns.toList.map (·.name) = spec.mentions.eraseDups ∧
      (∀ c ∈ p.columns, c.objective = spec.objectiveOf c.name ∧ c.kind = spec.kindOf c.name ∧
        (c.lower, c.upper) = spec.boundsOf c.name) ∧
      p.numRows = spec.subjectTo.length ∧
      (∀ (i : ℕ) (k : ConstraintSpec α) (r : Row α), spec.subjectTo[i]? = some k →
        p.rows[i]? = some r → r.name = k.name ∧ r.boundType = k.bounds.type ∧
          r.lower = k.bounds.lower ∧ r.upper = k.bounds.upper ∧
          ∀ (j : ℕ) (c : Column α), p.columns[j]? = some c →
            r.coefficients.coefficient (j + 1) =
              Scalar.accumulate (k.coefficientsOf c.name)) ∧
      ∀ xs : List ℚ, Scalar.accumulate xs = xs.sum := by
  obtain ⟨p, hp, -, -, hcolumns, hrows⟩ := exists_build spec
  refine ⟨p, hp, ?_, fun c hc ↦ ?_, ?_, fun i k r hk hr ↦ ?_, Scalar.accumulate_rat⟩
  · rw [hcolumns, List.map_map]
    exact List.map_id _
  · rw [← Array.mem_toList_iff, hcolumns] at hc
    obtain ⟨name, -, rfl⟩ := List.mem_map.mp hc
    exact ⟨rfl, rfl, rfl⟩
  · rw [numRows, ← Array.length_toList, hrows.length_eq]
  · rw [← Array.getElem?_toList] at hr
    obtain ⟨hi, rfl⟩ := List.getElem?_eq_some_iff.mp hk
    obtain ⟨hi', rfl⟩ := List.getElem?_eq_some_iff.mp hr
    have hdeclared := hrows.get hi hi'
    refine ⟨hdeclared.name, hdeclared.boundType, hdeclared.lower, hdeclared.upper, fun j c hj ↦ ?_⟩
    rw [← Array.getElem?_toList, hcolumns, List.getElem?_map, Option.map_eq_some_iff] at hj
    obtain ⟨name, hname, rfl⟩ := hj
    exact hdeclared.coefficient_eq hname

def overlapping : ProblemSpec ℚ :=
  { name := "overlapping", objective := ⟨.maximize, [⟨"x", 1⟩, ⟨"y", 2⟩, ⟨"x", 3⟩]⟩
    subjectTo := [⟨"limit", [⟨"z", 1⟩, ⟨"x", 2⟩, ⟨"z", 4⟩], ⟨.upper, .negInf, .fin 10⟩⟩]
    bounds := [⟨"y", ⟨.lower, .fin 5, .posInf⟩⟩, ⟨"w", ⟨.free, .fin 0, .fin 0⟩⟩,
      ⟨"y", ⟨.double, .fin 1, .fin 4⟩⟩, ⟨"z", ⟨.upper, .fin 0, .fin 7⟩⟩]
    generals := ["z", "y"], binaries := ["z"], options := .none }

theorem build_meaning_overlapping :
    ∃ (p : Problem ℚ) (c : Column ℚ) (r : Row ℚ), (Problem.build overlapping).value = .ok p ∧
      p.columns.toList.map (·.name) = ["x", "y", "z", "w"] ∧
      p.columns[2]? = some c ∧ c.objective = 0 ∧ c.kind = .binary ∧
      (c.lower, c.upper) = (.fin 0, .fin 1) ∧
      p.rows[0]? = some r ∧ r.name = "limit" ∧ r.coefficients.coefficient 3 = 5 := by
  obtain ⟨p, hp, hnames, hcolumns, hnum, hrows, -⟩ := build_meaning overlapping
  have hmentions : overlapping.mentions.eraseDups = ["x", "y", "z", "w"] := by decide +kernel
  rw [hmentions] at hnames
  have hz := congrArg (·[2]?) hnames
  rw [List.getElem?_map, Array.getElem?_toList] at hz
  obtain ⟨c, hc, hname⟩ := Option.map_eq_some_iff.mp hz
  have hsize : 0 < p.rows.size := Nat.lt_of_lt_of_eq Nat.zero_lt_one hnum.symm
  have hr := Array.getElem?_eq_getElem hsize
  obtain ⟨hobjective, hkind, hbounds⟩ := hcolumns c (Array.mem_of_getElem? hc)
  obtain ⟨hlimit, -, -, -, hcoefficient⟩ := hrows 0 _ _ rfl hr
  rw [hname] at hobjective hkind hbounds
  have hsum := hcoefficient 2 c hc
  rw [hname] at hsum
  exact ⟨p, c, p.rows[0], hp, hnames, hc, hobjective, hkind, hbounds, hr, hlimit,
    hsum.trans (by decide +kernel)⟩

end Problem

end LinProg
