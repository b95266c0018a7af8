import LinProg.Proofs.Search.Nodes
import LinProg.Proofs.Search.Selection
import LinProg.Proofs.Search.Steps
import LinProg.Proofs.Storage.Access

namespace LinProg.Storage

/-- Solves a problem without regard to integrality. What fails outside is an access; what fails
inside is coming to an end. -/
abbrev Relaxation (α : Type) :=
  Problem α → SolveConfig α → Deadline → Option (Option (Solution α) × Deadline)

variable {α : Type} [Scalar α]

def boundsOf (node : Node α) (p : Problem α) (column : ℕ) : Option (Extended α × Extended α) :=
  match node.changes.reverse.find? (·.column == column) with
  | some c => some (c.lower, c.upper)
  | none => do
    let c ← p.columns[column]?
    return (c.lower, c.upper)

def children (node : Node α) (p : Problem α) (column : ℕ) (value score : α) :
    Option (Node α × Node α) := do
  let (lower, upper) ← boundsOf node p column
  let bound := Scalar.extend score
  return (node.child { column, lower, upper := Scalar.extend (Scalar.floor value) } bound,
    node.child { column, lower := Scalar.extend (Scalar.ceil value), upper } bound)

def mostFractional (tolerance : α) (columns : List ℕ) (values : Array α) :
    Option (Option (ℕ × α)) := do
  let read ← columns.mapM fun j ↦ do return (j, ← values[j]?)
  let candidates := read.filter fun (_, x) ↦ tolerance < Scalar.abs (x - Scalar.round x)
  return candidates.foldl (fun best c ↦
    match best with
    | none => some c
    | some b =>
      if Search.distanceFromHalf c.2 ≤ Search.distanceFromHalf b.2 then some c else best) none

def roundAt (columns : List ℕ) (values : Array α) : Option (Array α) :=
  columns.foldlM (fun values j ↦ change values j fun x ↦ some (Scalar.round x)) values

def takeIn (p : Problem α) (tolerance : α) (s : Search α) (node : Node α) (score : α)
    (lp : Solution α) : Option (Search α) := do
  let columns := Search.integerColumns p
  match ← mostFractional tolerance columns lp.values with
  | none => return { s with incumbent := some ⟨score, ← roundAt columns lp.values⟩ }
  | some (j, x) =>
    let (down, up) ← children node p j x score
    let stack :=
      if x - Scalar.floor x < Scalar.half then down :: up :: s.stack else up :: down :: s.stack
    return { s with stack }

def explore (relax : Relaxation α) (p : Problem α) (config : SolveConfig α) (tolerance : α)
    (s : Search α) (node : Node α) : Option (Search α) := do
  let r ← relax (node.restrict p) config.forRelaxations s.deadline
  let s := { s with nodes := s.nodes + 1, deadline := r.2 }
  match r.1 with
  | none => return { s with ended := some .unfinished }
  | some lp =>
    let s := { s with iterations := s.iterations + lp.iterations }
    match lp.status with
    | .noFeasible => return s
    | .unbounded => return { s with ended := some (.unbounded lp.values) }
    | .optimal =>
      let score := Search.sense p * lp.objectiveValue
      if s.prunes (Scalar.extend score) then return s
      let s ← takeIn p tolerance s node score lp
      return if s.closesGap config.mipGap then { s with ended := some .gap } else s
    | _ => return { s with ended := some .limit }

def step (relax : Relaxation α) (p : Problem α) (config : SolveConfig α) (tolerance : α)
    (s : Search α) : Option (Search α) :=
  match s.stack with
  | [] => some { s with ended := some .exhausted }
  | node :: stack =>
    let s := { s with stack }
    if s.deadline.expired then some { s with ended := some .limit }
    else
      let s := { s with deadline := s.deadline.next }
      if s.prunes node.bound then some s
      else explore relax p config tolerance s node

def solve (relax : Relaxation α) (p : Problem α) (config : SolveConfig α) (tolerance : α)
    (clock : Clock) (fuel : ℕ) : Option (Option (Solution α)) := do
  let s ← iterateWhile (fun s ↦ s.ended.isNone) (step relax p config tolerance) fuel
    (.start (config.deadline clock))
  match s.ended.bind fun ended ↦ Search.outcome p ended s.incumbent with
  | none => return none
  | some (status, values) =>
    let solution : Solution α :=
      { status, objectiveValue := p.objectiveValue values, values, duals := none
        iterations := s.iterations }
    return some solution

/-- A relaxation does what an oracle does for the nodes of a problem, and its points have a value
for every column. -/
def Answers (relax : Relaxation α) (oracle : Oracle α) (p : Problem α) (config : SolveConfig α) :
    Prop :=
  ∀ (node : Node α) (d : Deadline),
    let answer := (oracle (node.restrict p) config.forRelaxations d).value
    relax (node.restrict p) config.forRelaxations d = some answer ∧
      ∀ lp, answer.1 = some lp → lp.values.size = p.numColumns

structure Sized (p : Problem α) (s : Search α) : Prop where
  incumbent : ∀ inc, s.incumbent = some inc → inc.values.size = p.numColumns
  unbounded : ∀ values, s.ended = some (.unbounded values) → values.size = p.numColumns

variable {p : Problem α} {s : Search α} {node : Node α} {values : Array α}

omit [Scalar α] in
theorem sized_start (p : Problem α) (d : Deadline) : Sized p (.start d) where
  incumbent _ h := by cases h
  unbounded _ h := by cases h

theorem children_eq (node : Node α) {j : ℕ} (hj : j < p.numColumns) (value score : α) :
    children node p j value score = some (node.children p j value score) := by
  have hbounds : boundsOf node p j = some (node.boundsOf p j) := by
    have hc : p.columns[j]? = some p.columns[j] := Array.getElem?_eq_getElem hj
    unfold boundsOf Node.boundsOf
    cases node.changes.reverse.find? (·.column == j) with
    | some change => rfl
    | none =>
      rw [hc]
      rfl
  rw [children, hbounds]
  rfl

theorem mostFractional_eq (tolerance : α) {columns : List ℕ} (h : ∀ j ∈ columns, j < values.size) :
    mostFractional tolerance columns values =
      some (Search.mostFractional tolerance columns values) := by
  have hread : (columns.mapM fun j ↦ (do return (j, ← values[j]?) : Option (ℕ × α))) =
      some (columns.map fun j ↦ (j, (values[j]?).getD 0)) :=
    mapM_eq fun j hj ↦ by simp [h j hj]
  exact (bind_of_eq_some hread _).trans rfl

theorem roundAt_eq {columns : List ℕ} (h : ∀ j ∈ columns, j < values.size) :
    roundAt columns values = some (Search.roundAt columns values) ∧
      (Search.roundAt columns values).size = values.size := by
  unfold roundAt Search.roundAt
  induction columns generalizing values with
  | nil => exact ⟨rfl, rfl⟩
  | cons j columns ih =>
    have hsize : (values.modify j Scalar.round).size = values.size := Array.size_modify
    have hrest : ∀ i ∈ columns, i < (values.modify j Scalar.round).size :=
      fun i hi ↦ hsize ▸ h i (List.mem_cons_of_mem j hi)
    rw [List.foldlM_cons, change_eq_modify (h j List.mem_cons_self), List.foldl_cons, ← hsize]
    exact ih hrest

theorem takeIn_eq {lp : Solution α} (hlp : lp.values.size = p.numColumns)
    (config : SolveConfig α) (tolerance : α) (s : Search α) (node : Node α) (score : α) :
    takeIn p tolerance s node score lp =
        some (s.takeIn p config tolerance node score lp).value ∧
      (Sized p s → Sized p (s.takeIn p config tolerance node score lp).value) := by
  have hcolumns : ∀ j ∈ Search.integerColumns p, j < lp.values.size :=
    fun j hj ↦ hlp ▸ Search.lt_numColumns hj
  obtain ⟨hround, hsize⟩ := roundAt_eq hcolumns
  rw [takeIn, mostFractional_eq tolerance hcolumns, Search.value_takeIn, Option.bind_eq_bind,
    Option.bind_some]
  cases hf : Search.mostFractional tolerance (Search.integerColumns p) lp.values with
  | none =>
    refine ⟨(bind_of_eq_some hround _).trans rfl, fun h ↦ ⟨?_, h.unbounded⟩⟩
    rintro inc ⟨⟩
    exact hsize.trans hlp
  | some c =>
    obtain ⟨j, x⟩ := c
    obtain ⟨hj, -⟩ := Search.mem_of_mostFractional hf
    refine ⟨?_, fun h ↦ ⟨h.incumbent, h.unbounded⟩⟩
    simp only [children_eq node (Search.lt_numColumns hj), Option.bind_eq_bind, Option.bind_some,
      Search.ordered]
    split <;> rfl

variable {relax : Relaxation α} {oracle : Oracle α} {config : SolveConfig α}

theorem settle_eq {lp : Solution α} (hlp : lp.values.size = p.numColumns)
    (config : SolveConfig α) (tolerance : α) (hs : Sized p s) (node : Node α) (score : α) :
    let next := (s.takeIn p config tolerance node score lp).value.closed config.mipGap
    (do
      let s ← takeIn p tolerance s node score lp
      return if s.closesGap config.mipGap then { s with ended := some .gap } else s) = some next ∧
      Sized p next := by
  obtain ⟨htake, hsized⟩ := takeIn_eq hlp config tolerance s node score
  refine ⟨bind_of_eq_some htake _, ?_⟩
  unfold Search.closed
  split
  · exact ⟨(hsized hs).incumbent, fun _ h ↦ by cases h⟩
  · exact hsized hs

theorem explore_eq (h : Answers relax oracle p config) (tolerance : α) (hs : Sized p s)
    (node : Node α) :
    explore relax p config tolerance s node =
        some (Search.explore oracle p config tolerance s node).value ∧
      Sized p (Search.explore oracle p config tolerance s node).value := by
  obtain ⟨hrelax, hsize⟩ := h node s.deadline
  unfold explore Search.explore
  simp only [hrelax, Option.bind_eq_bind, Option.bind_some, Logged.value_bind]
  cases hlp : (oracle (node.restrict p) config.forRelaxations s.deadline).value.1 with
  | none => exact ⟨rfl, hs.incumbent, fun _ h ↦ by cases h⟩
  | some lp =>
    cases hstatus : lp.status with
    | undefined | feasible | infeasible =>
      simp only [hstatus]
      exact ⟨rfl, hs.incumbent, fun _ h ↦ by cases h⟩
    | noFeasible =>
      simp only [hstatus]
      exact ⟨rfl, hs.incumbent, hs.unbounded⟩
    | unbounded =>
      simp only [hstatus]
      refine ⟨rfl, hs.incumbent, ?_⟩
      rintro values ⟨⟩
      exact hsize lp hlp
    | optimal =>
      have hcounted (d : Deadline) : Sized p { s with
          nodes := s.nodes + 1, iterations := s.iterations + lp.iterations, deadline := d } :=
        ⟨hs.incumbent, hs.unbounded⟩
      simp only [hstatus]
      split
      · exact ⟨rfl, hcounted _⟩
      · exact settle_eq (hsize lp hlp) config tolerance (hcounted _) node _

theorem step_eq (h : Answers relax oracle p config) (tolerance : α) (hs : Sized p s) :
    step relax p config tolerance s = some (Search.step oracle p config tolerance s).value ∧
      Sized p (Search.step oracle p config tolerance s).value := by
  unfold step Search.step
  cases s.stack with
  | nil => exact ⟨rfl, hs.incumbent, fun _ h ↦ by cases h⟩
  | cons node stack =>
    have hpopped : Sized p { s with stack, deadline := s.deadline.next } :=
      ⟨hs.incumbent, hs.unbounded⟩
    dsimp only
    split
    · exact ⟨rfl, hs.incumbent, fun _ h ↦ by cases h⟩
    · split
      · exact ⟨rfl, hpopped⟩
      · exact explore_eq h tolerance hpopped node

theorem size_of_outcome {ended : SearchEnd α} (hs : Sized p s) (he : s.ended = some ended)
    {status : Status} (h : Search.outcome p ended s.incumbent = some (status, values)) :
    values.size = p.numColumns := by
  have hzero : (Array.replicate p.numColumns (0 : α)).size = p.numColumns := Array.size_replicate
  cases ended with
  | unfinished => cases h
  | unbounded point =>
    cases h
    exact hs.unbounded values he
  | exhausted | limit | gap =>
    cases hi : s.incumbent with
    | none =>
      rw [hi] at h
      cases h
      exact hzero
    | some inc =>
      rw [hi] at h
      cases h
      exact hs.incumbent inc hi

/-- A search reads no value that a point does not have, and no bound that a problem does not
have. -/
theorem solve_eq (h : Answers relax oracle p config) (tolerance : α) (clock : Clock)
    (fuel : ℕ) :
    solve relax p config tolerance clock fuel =
        some (Search.solve oracle p config tolerance clock fuel).value ∧
      ∀ solution, (Search.solve oracle p config tolerance clock fuel).value = some solution →
        solution.values.size = p.numColumns := by
  have hturn : ∀ s t : Search α, s = t ∧ Sized p t → t.ended.isNone = true →
      ∃ s', step relax p config tolerance s = some s' ∧
        s' = (Search.step oracle p config tolerance t).value ∧
        Sized p (Search.step oracle p config tolerance t).value := by
    rintro _ t ⟨rfl, ht⟩ -
    obtain ⟨hstep, hnext⟩ := step_eq h tolerance ht
    exact ⟨_, hstep, rfl, hnext⟩
  obtain ⟨last, hlast, rfl, hsized⟩ :=
    iterateWhile_follows (fun _ _ hR ↦ congrArg (·.ended.isNone) hR.1) hturn fuel
      ⟨rfl, sized_start p (config.deadline clock)⟩
  simp only [solve, Search.solve, hlast, Logged.value_bind, Option.bind_eq_bind, Option.bind_some]
  generalize (Logged.iterateWhile _ _ fuel (Search.start _)).value = last at hsized ⊢
  cases ho : last.ended.bind fun ended ↦ Search.outcome p ended last.incumbent with
  | none => exact ⟨rfl, fun _ h ↦ by cases h⟩
  | some result =>
    obtain ⟨status, values⟩ := result
    obtain ⟨ended, hended, houtcome⟩ := Option.bind_eq_some_iff.mp ho
    refine ⟨rfl, ?_⟩
    rintro solution ⟨⟩
    exact size_of_outcome hsized hended houtcome

end LinProg.Storage
