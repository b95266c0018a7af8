import Mathlib.Algebra.BigOperators.Ring.List
import LinProg.Proofs.Model.Meaning
import LinProg.Proofs.Rational
import LinProg.Proofs.Result.Collected
import LinProg.Result.Output

namespace LinProg

open Finset in
theorem sum_pairs {n : ℕ} {g : ℕ → ℚ} (hg : ∀ j, n ≤ j → g j = 0) {pairs : List (ℕ × ℚ)}
    (hpos : ∀ p ∈ pairs, 0 < p.1) :
    ∑ j ∈ range n, ((pairs.filter (·.1 == j + 1)).map (·.2)).sum * g j =
      (pairs.map fun p ↦ p.2 * g (p.1 - 1)).sum := by
  induction pairs with
  | nil => simp
  | cons p pairs ih =>
    have hp := hpos p List.mem_cons_self
    have hterm (j : ℕ) : (((p :: pairs).filter (·.1 == j + 1)).map (·.2)).sum * g j =
        (if j = p.1 - 1 then p.2 * g j else 0) +
          ((pairs.filter (·.1 == j + 1)).map (·.2)).sum * g j := by
      by_cases hj : p.1 = j + 1
      · simp [hj, add_mul]
      · have hne : j ≠ p.1 - 1 := by omega
        simp [hj, hne]
    simp only [hterm]
    rw [sum_add_distrib, ih fun q hq ↦ hpos q (List.mem_cons_of_mem p hq), sum_ite_eq',
      List.map_cons, List.sum_cons]
    split_ifs with hmem
    · rfl
    · rw [hg _ (by simpa using hmem), mul_zero]

namespace Values

def valueOf (v : Values ℚ) (name : String) : ℚ := (v.get? name).getD 0

end Values

namespace ConstraintSpec

def activity (c : ConstraintSpec ℚ) (vars : Values ℚ) : ℚ :=
  (c.terms.map fun t ↦ t.coef * vars.valueOf t.name).sum

theorem sum_placed {names : List String} {slots : List ℕ} {terms : List (Term ℚ)}
    (h : List.Forall₂ (PlacedAt names) slots (terms.map (·.name))) {vars : Values ℚ} {g : ℕ → ℚ}
    (hg : ∀ slot name, PlacedAt names slot name → g (slot - 1) = vars.valueOf name) :
    ((slots.zip (terms.map (·.coef))).map fun p ↦ p.2 * g (p.1 - 1)).sum =
      (terms.map fun t ↦ t.coef * vars.valueOf t.name).sum := by
  induction terms generalizing slots with
  | nil => simp
  | cons t terms ih =>
    rw [List.map_cons, List.forall₂_cons_right_iff] at h
    obtain ⟨slot, slots, hslot, htail, rfl⟩ := h
    rw [List.map_cons, List.zip_cons_cons, List.map_cons, List.sum_cons, List.map_cons,
      List.sum_cons, hg slot t.name hslot, ih htail]

theorem DeclaredAs.activity_eq {names : List String} {c : ConstraintSpec ℚ} {r : Row ℚ}
    (h : c.DeclaredAs names r) {vars : Values ℚ} {values : Array ℚ}
    (hvalues : ∀ slot name, PlacedAt names slot name →
      (values[slot - 1]?).getD 0 = vars.valueOf name) :
    r.activity values = c.activity vars := by
  obtain ⟨dim, slots, hv, hslots⟩ := h.coefficients
  have hpos : ∀ p ∈ slots.zip (c.terms.map (·.coef)), 0 < p.1 := by
    intro p hp
    obtain ⟨hlength, hall⟩ := List.forall₂_iff_get.mp hslots
    obtain ⟨i, hi, he⟩ := List.mem_iff_getElem.mp (List.of_mem_zip hp).1
    rw [← he]
    exact (hall i hi (hlength ▸ hi)).1
  have hout (j : ℕ) (hj : values.size ≤ j) : (values[j]?).getD 0 = 0 := by
    rw [Array.getElem?_eq_none hj]
    rfl
  have hcoefficient (j : ℕ) : r.coefficients.coefficient (j + 1) =
      (((slots.zip (c.terms.map (·.coef))).filter (·.1 == j + 1)).map (·.2)).sum := by
    rw [SparseVector.coefficient_ofPairs hv (Nat.succ_pos j), Scalar.accumulate_rat]
  rw [Row.activity, Scalar.sum_rat, (SparseVector.valid_ofPairs hv).sum_toList hout]
  simp only [hcoefficient]
  rw [sum_pairs hout hpos]
  exact sum_placed (g := fun j ↦ (values[j]?).getD 0) hslots hvalues

end ConstraintSpec

/-- The result has one value for each name that the description mentions, in the order of first
mention. Its objective is what the last coefficients given for the names of the objective make of
these values, and where rows are asked for, a row's activity is what the last constraint of its
name makes of them. -/
structure Output.AgreesWith (o : Output ℚ) (spec : ProblemSpec ℚ) (withRows : Bool) : Prop where
  names : o.vars.names = spec.mentions.eraseDups
  z : o.z = ((spec.objective.terms.map (·.name)).eraseDups.map fun name ↦
    spec.objectiveOf name * o.vars.valueOf name).sum
  rows : o.rows.isSome = withRows
  row_names : ∀ rows ∈ o.rows, rows.names = (spec.subjectTo.map (·.name)).eraseDups
  activity : ∀ rows ∈ o.rows, ∀ name c, lastNamed ConstraintSpec.name spec.subjectTo name = some c →
    rows.get? name = some (c.activity o.vars)

namespace Problem

variable {p : Problem ℚ} {spec : ProblemSpec ℚ}

def varsOf (p : Problem ℚ) (values : Array ℚ) : Values ℚ :=
  .ofList (p.columns.toList.zipIdx.map fun (c, j) ↦ (c.name, (values[j]?).getD 0))

/-- The problem has the columns and rows of a description. -/
structure StandsFor (p : Problem ℚ) (spec : ProblemSpec ℚ) : Prop where
  columns : p.columns.toList = spec.mentions.eraseDups.map spec.column
  rows : List.Forall₂ (ConstraintSpec.DeclaredAs spec.mentions.eraseDups) spec.subjectTo
    p.rows.toList

theorem map_name_pairs (p : Problem ℚ) (values : Array ℚ) :
    (p.columns.toList.zipIdx.map fun (c, j) ↦ (c.name, (values[j]?).getD 0)).map (·.1) =
      p.columns.toList.map (·.name) := by
  rw [List.map_map]
  change p.columns.toList.zipIdx.map (Column.name ∘ Prod.fst) = _
  rw [← List.map_map, List.zipIdx_map_fst]

namespace StandsFor

theorem map_name_columns (h : p.StandsFor spec) :
    p.columns.toList.map (·.name) = spec.mentions.eraseDups := by
  rw [h.columns, List.map_map]
  exact List.map_id _

theorem names_varsOf (h : p.StandsFor spec) (values : Array ℚ) :
    (p.varsOf values).names = spec.mentions.eraseDups := by
  rw [varsOf, Values.names_ofList, map_name_pairs, h.map_name_columns,
    eraseDups_of_nodup (nodup_eraseDups _)]

theorem valueOf_varsOf (h : p.StandsFor spec) (values : Array ℚ) {j : ℕ} {name : String}
    (hj : spec.mentions.eraseDups[j]? = some name) :
    (p.varsOf values).valueOf name = (values[j]?).getD 0 := by
  have hnodup : ((p.columns.toList.zipIdx.map fun (c, j) ↦
      (c.name, (values[j]?).getD 0)).map (·.1)).Nodup := by
    rw [map_name_pairs, h.map_name_columns]
    exact nodup_eraseDups _
  have hpair : (p.columns.toList.zipIdx.map fun (c, j) ↦
      (c.name, (values[j]?).getD 0))[j]? = some (name, (values[j]?).getD 0) := by
    rw [List.getElem?_map, List.getElem?_zipIdx, h.columns, List.getElem?_map, hj, Nat.zero_add]
    rfl
  have hlast := lastNamed_of_nodup hnodup (List.mem_of_getElem? hpair)
  rw [varsOf, Values.valueOf, Values.get?_ofList, hlast]
  rfl

end StandsFor

theorem sum_zipWith_named {names : List String} {coef value : String → ℚ} {l : List ℚ}
    (h : ∀ (j : ℕ) name, names[j]? = some name → value name = (l[j]?).getD 0) :
    (names.zipWith (fun name x ↦ coef name * x) l).sum =
      (names.map fun name ↦ coef name * value name).sum := by
  induction names generalizing l with
  | nil => rfl
  | cons name names ih =>
    have hname := h 0 name rfl
    cases l with
    | nil =>
      have htail := ih (l := []) fun j n hn ↦ h (j + 1) n hn
      rw [List.zipWith_nil_right, List.sum_nil] at htail
      rw [List.zipWith_nil_right, List.map_cons, List.sum_cons, ← htail, hname]
      simp
    | cons x l =>
      have htail := ih (l := l) fun j n hn ↦ h (j + 1) n hn
      rw [List.zipWith_cons_cons, List.sum_cons, htail, List.map_cons, List.sum_cons, hname]
      rfl

namespace StandsFor

/-- Names that the objective does not have add nothing to its value. -/
theorem objectiveValue_eq (h : p.StandsFor spec) (values : Array ℚ) :
    p.objectiveValue values = ((spec.objective.terms.map (·.name)).eraseDups.map fun name ↦
      spec.objectiveOf name * (p.varsOf values).valueOf name).sum := by
  have hall : p.objectiveValue values = (spec.mentions.eraseDups.map fun name ↦
      spec.objectiveOf name * (p.varsOf values).valueOf name).sum := by
    rw [Problem.objectiveValue, Scalar.sum_rat, h.columns, List.zipWith_map_left]
    refine sum_zipWith_named fun j name hj ↦ ?_
    rw [h.valueOf_varsOf values hj, Array.getElem?_toList]
  have hmentions : spec.mentions = spec.objective.terms.map (·.name) ++
      (spec.subjectTo.flatMap (·.names) ++ spec.bounds.map (·.name) ++ spec.generals ++
        spec.binaries) := by
    simp [ProblemSpec.mentions]
  rw [hall, hmentions, List.eraseDups_append, List.map_append, List.sum_append, add_eq_left]
  refine List.sum_eq_zero fun x hx ↦ ?_
  obtain ⟨name, hname, rfl⟩ := List.mem_map.mp hx
  have hnot : name ∉ spec.objective.terms.map (·.name) := by
    simpa [List.removeAll] using (List.mem_filter.mp (List.mem_eraseDups.mp hname)).2
  have hnone : lastNamed Term.name spec.objective.terms name = none := by
    rw [lastNamed, List.find?_eq_none]
    intro t ht hbeq
    exact hnot (List.mem_map.mpr ⟨t, List.mem_reverse.mp ht, beq_iff_eq.mp hbeq⟩)
  rw [ProblemSpec.objectiveOf, hnone, Option.map_none, Option.getD_none, zero_mul]

theorem ofSolution_agrees (h : p.StandsFor spec) {s : Solution ℚ}
    (hs : s.objectiveValue = p.objectiveValue s.values) (version : String) (withRows : Bool) :
    (Output.ofSolution p s version withRows).AgreesWith spec withRows := by
  have hvars : (Output.ofSolution p s version withRows).vars = p.varsOf s.values := rfl
  have hactivity {c : ConstraintSpec ℚ} {r : Row ℚ}
      (hr : c.DeclaredAs spec.mentions.eraseDups r) :
      r.activity s.values = c.activity (p.varsOf s.values) :=
    hr.activity_eq fun slot name hslot ↦ (h.valueOf_varsOf s.values hslot.2).symm
  have hnames : p.rows.toList.map (·.name) = spec.subjectTo.map (·.name) := by
    rw [← List.forall₂_eq_eq_eq, List.forall₂_map_left_iff, List.forall₂_map_right_iff]
    exact h.rows.flip.imp fun _ _ hr ↦ hr.name
  have hrows {rows : Values ℚ} (hmem : rows ∈ (Output.ofSolution p s version withRows).rows) :
      rows = .ofList (p.rows.toList.map fun r ↦ (r.name, r.activity s.values)) := by
    simp only [Output.ofSolution] at hmem
    split_ifs at hmem
    · exact (Option.some_inj.mp hmem).symm
    · cases hmem
  refine ⟨?_, ?_, ?_, fun rows hmem ↦ ?_, fun rows hmem name c hc ↦ ?_⟩
  · rw [hvars, h.names_varsOf]
  · rw [hvars, ← h.objectiveValue_eq]
    exact hs
  · cases withRows <;> rfl
  · rw [hrows hmem, Values.names_ofList, List.map_map, ← hnames]
    rfl
  · obtain ⟨r, hr, hdeclared⟩ := lastNamed_of_forall₂ h.rows (fun _ _ hr ↦ hr.name) hc
    rw [hrows hmem, Values.get?_ofList, lastNamed_map]
    change Option.map _ (Option.map _ (lastNamed Row.name p.rows.toList name)) = _
    rw [hr, Option.map_some, Option.map_some, hvars, hactivity hdeclared]

end StandsFor

end Problem

end LinProg
