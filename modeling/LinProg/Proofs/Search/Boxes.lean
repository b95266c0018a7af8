import LinProg.Proofs.Search.Coverage

namespace LinProg

namespace Node

section

variable {α : Type} [Scalar α]

def BoundsAgree (node : Node α) (p : Problem α) : Prop :=
  ∀ j < p.numColumns, ∃ c, (node.restrict p).columns[j]? = some c ∧
    node.boundsOf p j = (c.lower, c.upper)

theorem boundsAgree (node : Node α) (p : Problem α) : node.BoundsAgree p := by
  intro j hj
  obtain ⟨c, hc⟩ := node.exists_column (Array.getElem?_eq_getElem hj)
  exact ⟨c, hc, node.boundsOf_eq p hc⟩

end

def Box (node : Node ℚ) (p : Problem ℚ) (x : Array ℚ) : Prop :=
  ∀ j < p.numColumns, Within (node.boundsOf p j) ((x[j]?).getD 0)

/-- The box without its sides at one column. -/
def BoxBeside (node : Node ℚ) (p : Problem ℚ) (j : ℕ) (x : Array ℚ) : Prop :=
  ∀ i < p.numColumns, i ≠ j → Within (node.boundsOf p i) ((x[i]?).getD 0)

/-- Two nodes share the points of a third that have an integer at a column, and their boxes do not
reach beyond its box if the value they are split at does not. -/
structure Split (node : Node ℚ) (p : Problem ℚ) (j : ℕ) (value : ℚ) (down up : Node ℚ) : Prop where
  once : ∀ x : Array ℚ, (∃ z : ℤ, (x[j]?).getD 0 = z) → node.Box p x →
    Xor (down.Box p x) (up.Box p x)
  contained : Within (node.boundsOf p j) value → ∀ x, down.Box p x ∨ up.Box p x → node.Box p x

variable {node : Node ℚ} {p : Problem ℚ} {j : ℕ} {value score : ℚ} {x : Array ℚ}

theorem box_iff (hj : j < p.numColumns) :
    node.Box p x ↔ Within (node.boundsOf p j) ((x[j]?).getD 0) ∧ node.BoxBeside p j x := by
  refine ⟨fun h ↦ ⟨h j hj, fun i hi _ ↦ h i hi⟩, fun ⟨h, hbeside⟩ i hi ↦ ?_⟩
  by_cases hij : i = j
  · subst hij
    exact h
  · exact hbeside i hi hij

theorem box_child {change : BoundChange ℚ} {bound : Extended ℚ}
    (hj : change.column < p.numColumns) :
    (node.child change bound).Box p x ↔
      Within (change.lower, change.upper) ((x[change.column]?).getD 0) ∧
        node.BoxBeside p change.column x := by
  rw [box_iff hj, boundsOf_child, if_pos rfl]
  refine and_congr_right fun _ ↦ forall_congr' fun i ↦ imp_congr_right fun _ ↦
    imp_congr_right fun hi ↦ ?_
  rw [boundsOf_child, if_neg (Ne.symm hi)]

theorem box_down (hj : j < p.numColumns) :
    (node.children p j value score).1.Box p x ↔
      ((Extended.fin ((x[j]?).getD 0)).below (node.boundsOf p j).1 = false ∧
        (x[j]?).getD 0 ≤ Scalar.floor value) ∧ node.BoxBeside p j x := by
  refine (box_child hj).trans (and_congr_left fun _ ↦ and_congr_right fun _ ↦ ?_)
  exact Extended.below_fin

theorem box_up (hj : j < p.numColumns) :
    (node.children p j value score).2.Box p x ↔
      (Scalar.ceil value ≤ (x[j]?).getD 0 ∧
        (node.boundsOf p j).2.below (.fin ((x[j]?).getD 0)) = false) ∧ node.BoxBeside p j x := by
  refine (box_child hj).trans (and_congr_left fun _ ↦ and_congr_left fun _ ↦ ?_)
  exact Extended.below_fin

theorem split_children (hj : j < p.numColumns) (hvalue : ∀ z : ℤ, value ≠ z) :
    node.Split p j value (node.children p j value score).1 (node.children p j value score).2 := by
  refine ⟨fun x ⟨z, hz⟩ hx ↦ ?_, fun ⟨hlower, hupper⟩ x hx ↦ ?_⟩
  · have hnotBoth (hdown : (z : ℚ) ≤ Scalar.floor value) (hup : Scalar.ceil value ≤ z) : False :=
      hvalue z (le_antisymm ((Scalar.le_ceil value).trans hup)
        (hdown.trans (Scalar.floor_le value)))
    obtain ⟨⟨hlower, hupper⟩, hbeside⟩ := (box_iff hj).mp hx
    rw [box_down hj, box_up hj, hz]
    rw [hz] at hlower hupper
    rcases Scalar.intCast_le_floor_or_ceil_le z value with hdown | hup
    · exact .inl ⟨⟨⟨hlower, hdown⟩, hbeside⟩, fun ⟨⟨hup, _⟩, _⟩ ↦ hnotBoth hdown hup⟩
    · exact .inr ⟨⟨⟨hup, hupper⟩, hbeside⟩, fun ⟨⟨_, hdown⟩, _⟩ ↦ hnotBoth hdown hup⟩
  · rw [box_iff hj]
    rcases hx with hx | hx
    · obtain ⟨⟨hl, hle⟩, hbeside⟩ := (box_down hj).mp hx
      exact ⟨⟨hl, Extended.below_of_le hupper (hle.trans (Scalar.floor_le value))⟩, hbeside⟩
    · obtain ⟨⟨hle, hu⟩, hbeside⟩ := (box_up hj).mp hx
      exact ⟨⟨Extended.below_of_ge hlower ((Scalar.le_ceil value).trans hle), hu⟩, hbeside⟩

end Node

namespace Search

/-- Every node, whatever was changed how often on the way to it, has the bounds that it looks up,
and where a search branches it splits the box of the node it has taken off the stack. -/
theorem bounds_agree_and_children_split :
    (∀ {α : Type} [Scalar α] (node : Node α) (p : Problem α), node.BoundsAgree p) ∧
    (∀ (node : Node ℚ) (p : Problem ℚ) (j : ℕ) (value score : ℚ), j < p.numColumns →
      (∀ z : ℤ, value ≠ z) →
        node.Split p j value (node.children p j value score).1
          (node.children p j value score).2) ∧
    ∀ (oracle : Oracle ℚ) (p : Problem ℚ) (config : SolveConfig ℚ) (tolerance : ℚ) (clock : Clock)
      (n : ℕ), 0 ≤ tolerance →
      let s := reached oracle p config tolerance clock n
      let t := reached oracle p config tolerance clock (n + 1)
      t.stack = s.stack ∨ t.stack = s.stack.tail ∨
        ∃ (node : Node ℚ) (rest : List (Node ℚ)) (j : ℕ) (value score : ℚ), s.stack = node :: rest ∧
        j ∈ integerColumns p ∧ (∀ z : ℤ, value ≠ z) ∧
        let (down, up) := node.children p j value score
        t.stack = ordered down up value ++ rest ∧ node.Split p j value down up := by
  refine ⟨Node.boundsAgree, fun _ _ _ _ _ hj hvalue ↦ Node.split_children hj hvalue, ?_⟩
  intro oracle p config tolerance clock n htolerance s t
  rcases reached_succ oracle p config tolerance clock n with ⟨-, hturn⟩ | he
  · rcases hturn.stack_cases with ⟨hs, ht⟩ | ⟨node, rest, hs, hstack⟩
    · exact .inl (ht.trans hs.symm)
    · rcases hstack with ht | ⟨j, value, score, values, hf, ht⟩
      · exact .inr (.inl (by rw [ht, hs, List.tail_cons]))
      · have hj := (mem_of_mostFractional hf).1
        have hvalue := ne_intCast_of_mostFractional htolerance hf
        exact .inr (.inr ⟨node, rest, j, value, score, hs, hj, hvalue, ht,
          Node.split_children (lt_numColumns hj) hvalue⟩)
  · exact .inl (congrArg stack he)

end Search

end LinProg
