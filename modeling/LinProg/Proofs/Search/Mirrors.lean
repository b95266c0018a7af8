import LinProg.Proofs.Search.Steps

namespace LinProg.Search

variable {α : Type} [Scalar α] {oracle oracle' : Oracle α} {p q : Problem α}
  {config : SolveConfig α} {tolerance : α} {clock : Clock}

def reading (p : Problem α) (lp : Solution α) : Status × Array α × ℕ × α :=
  (lp.status, lp.values, lp.iterations, sense p * lp.objectiveValue)

/-- The search of `q` by one oracle sees what the search of `p` by another does: of its problem a
search knows the integer columns, the bounds to branch on and the direction. -/
structure Mirrors (oracle' : Oracle α) (q : Problem α) (oracle : Oracle α) (p : Problem α)
    (config : SolveConfig α) : Prop where
  integerColumns : integerColumns q = integerColumns p
  numColumns : q.numColumns = p.numColumns
  children : ∀ (node : Node α) (j : ℕ) (value score : α),
    node.children q j value score = node.children p j value score
  readings : ∀ (node : Node α) (d : Deadline),
    (oracle' (node.restrict q) config.forRelaxations d).value.1.map (reading q) =
      (oracle (node.restrict p) config.forRelaxations d).value.1.map (reading p)
  deadlines : ∀ (node : Node α) (d : Deadline),
    (oracle' (node.restrict q) config.forRelaxations d).value.2 =
      (oracle (node.restrict p) config.forRelaxations d).value.2

namespace Mirrors

variable (h : Mirrors oracle' q oracle p config)

include h

theorem value_takeIn (s : Search α) (node : Node α) (score : α) {lp lp' : Solution α}
    (hvalues : lp'.values = lp.values) :
    (s.takeIn q config tolerance node score lp').value =
      (s.takeIn p config tolerance node score lp).value := by
  simp only [Search.value_takeIn, h.integerColumns, h.children, hvalues]

theorem value_explore (s : Search α) (node : Node α) :
    (explore oracle' q config tolerance s node).value =
      (explore oracle p config tolerance s node).value := by
  have hreadings := h.readings node s.deadline
  unfold explore
  simp only [Logged.value_bind, h.deadlines]
  cases hlp : (oracle (node.restrict p) config.forRelaxations s.deadline).value.1 with
  | none =>
    rw [hlp, Option.map_none, Option.map_eq_none_iff] at hreadings
    rw [hreadings]
  | some lp =>
    rw [hlp, Option.map_some, Option.map_eq_some_iff] at hreadings
    obtain ⟨lp', hlp', hreading⟩ := hreadings
    simp only [reading, Prod.mk.injEq] at hreading
    obtain ⟨hstatus, hvalues, hiterations, hscore⟩ := hreading
    rw [hlp']
    simp only [hstatus, hiterations, hscore, hvalues]
    cases lp.status with
    | optimal =>
      dsimp only
      split_ifs
      · rfl
      · simp only [Logged.value_bind, h.value_takeIn _ node _ hvalues]
    | noFeasible | unbounded | undefined | feasible | infeasible => rfl

theorem value_step (s : Search α) :
    (step oracle' q config tolerance s).value = (step oracle p config tolerance s).value := by
  unfold step
  cases s.stack with
  | nil => rfl
  | cons node rest =>
    simp only
    split_ifs
    · rfl
    · rfl
    · exact h.value_explore _ node

theorem reached (n : ℕ) :
    Search.reached oracle' q config tolerance clock n =
      Search.reached oracle p config tolerance clock n := by
  have hturn : Logged.turnWhile (fun s ↦ s.ended.isNone) (step oracle' q config tolerance) =
      Logged.turnWhile (fun s ↦ s.ended.isNone) (step oracle p config tolerance) := by
    funext s
    rw [Logged.turnWhile, Logged.turnWhile, h.value_step]
  rw [Search.reached, Search.reached, hturn]

theorem value_solve (fuel : ℕ) :
    (solve oracle' q config tolerance clock fuel).value =
      (solve oracle p config tolerance clock fuel).value.map fun solution ↦
        { solution with objectiveValue := q.objectiveValue solution.values } := by
  have houtcome (ended : SearchEnd α) (incumbent : Option (Incumbent α)) :
      outcome q ended incumbent = outcome p ended incumbent := by
    unfold outcome
    rw [h.numColumns]
  rw [Search.value_solve_eq, Search.value_solve_eq, h.reached, Option.map_map]
  simp only [houtcome]
  rfl

theorem value_solve_eq (hobjective : ∀ values, q.objectiveValue values = p.objectiveValue values)
    (fuel : ℕ) :
    (solve oracle' q config tolerance clock fuel).value =
      (solve oracle p config tolerance clock fuel).value := by
  rw [h.value_solve, Search.value_solve_eq, Option.map_map]
  simp only [Function.comp_def, hobjective]

end Mirrors

end LinProg.Search
