import LinProg.Proofs.LinearForm

namespace LinProg

namespace ColumnMap

def spreadAll : List ℚ → List (ColumnMap ℚ) → List ℚ
  | c :: cs, m :: ms => m.spread c ++ spreadAll cs ms
  | _, _ => []

/-- What a form over the columns is when all standard variables are zero. -/
def constantPart : List ℚ → List (ColumnMap ℚ) → ℚ
  | c :: cs, m :: ms => m.shift 0 c + constantPart cs ms
  | _, _ => 0

theorem length_spreadAll {cs : List ℚ} {columns : List (ColumnMap ℚ)}
    (h : cs.length = columns.length) : (spreadAll cs columns).length = totalWidth columns := by
  induction columns generalizing cs with
  | nil => cases cs <;> rfl
  | cons m ms ih =>
    cases cs with
    | nil => cases h
    | cons c cs =>
      rw [spreadAll, List.length_append, length_spread, ih (Nat.succ_injective h), totalWidth]

def offset : ColumnMap ℚ → ℚ
  | shifted offset | reflected offset => offset
  | split => 0
  | constant value => value

theorem shift_eq (m : ColumnMap ℚ) (total a : ℚ) : m.shift total a = total + a * m.offset := by
  cases m <;> simp [shift, offset]

theorem constantPart_eq (cs : List ℚ) (columns : List (ColumnMap ℚ)) :
    constantPart cs columns = dot cs fun j ↦ (columns[j]?.map offset).getD 0 := by
  induction columns generalizing cs with
  | nil => cases cs <;> simp [constantPart, dot]
  | cons m ms ih =>
    cases cs with
    | nil => rfl
    | cons c cs =>
      rw [constantPart, dot_cons, ih, shift_eq, zero_add]
      rfl

theorem spread_zero (m : ColumnMap ℚ) : m.spread (0 : ℚ) = List.replicate m.width 0 := by
  cases m <;> simp [spread, width, List.replicate]

def assignment (v : List ℚ) (j : ℕ) : ℚ := v.getD j 0

theorem assignment_drop (v : List ℚ) (n j : ℕ) :
    assignment (v.drop n) j = assignment v (n + j) := by
  simp [assignment, List.getD_eq_getElem?_getD]

theorem assignment_append_left {v w : List ℚ} {j : ℕ} (hj : j < v.length) :
    assignment (v ++ w) j = assignment v j := by
  simp [assignment, List.getD_eq_getElem?_getD, List.getElem?_append_left hj]

theorem assignment_of_le {v : List ℚ} {j : ℕ} (hj : v.length ≤ j) : assignment v j = 0 := by
  simp [assignment, hj]

theorem assignment_nonneg {v : List ℚ} (hv : ∀ a ∈ v, 0 ≤ a) (j : ℕ) : 0 ≤ assignment v j := by
  rw [assignment, List.getD_eq_getElem?_getD]
  cases hj : v[j]? with
  | none => exact le_rfl
  | some a => exact hv a (List.mem_of_getElem? hj)

theorem sum_assignment {v : List ℚ} {n : ℕ} (h : v.length ≤ n) :
    ∑ j ∈ Finset.range n, assignment v j = v.sum := by
  induction v generalizing n with
  | nil => exact Finset.sum_eq_zero fun _ _ ↦ rfl
  | cons a v ih =>
    cases n with
    | zero => cases h
    | succ n =>
      rw [Finset.sum_range_succ', List.sum_cons, ← ih (Nat.le_of_succ_le_succ h), add_comm]
      rfl

theorem dot_spread (m : ColumnMap ℚ) (c : ℚ) (v : List ℚ) :
    dot (m.spread c) (assignment v) + m.shift 0 c = c * m.value v := by
  cases m with
  | shifted offset | reflected offset =>
    cases v with
    | nil => simp [spread, shift, value, assignment]
    | cons x v =>
      simp [spread, shift, value, assignment]
      ring
  | split =>
    rcases v with _ | ⟨x, _ | ⟨y, v⟩⟩
    · simp [spread, shift, value, assignment]
    · simp [spread, shift, value, assignment]
    · simp [spread, shift, value, assignment]
      ring
  | constant x => simp [spread, shift, value]

theorem dot_spreadAll {cs : List ℚ} {columns : List (ColumnMap ℚ)} (h : cs.length = columns.length)
    (v : List ℚ) :
    dot (spreadAll cs columns) (assignment v) + constantPart cs columns =
      dot cs (assignment (recover columns v)) := by
  induction columns generalizing cs v with
  | nil => cases cs with
    | nil => simp [spreadAll, constantPart]
    | cons c cs => cases h
  | cons m ms ih =>
    cases cs with
    | nil => cases h
    | cons c cs =>
      have hhead := dot_spread m c v
      have htail := ih (Nat.succ_injective h) (v.drop m.width)
      have hshift : (fun j ↦ assignment v ((m.spread c).length + j)) =
          assignment (v.drop m.width) := by
        funext j
        rw [assignment_drop, length_spread]
      rw [spreadAll, constantPart, dot_append, hshift, recover, dot_cons]
      have hrest : (fun j ↦ assignment (m.value v :: recover ms (v.drop m.width)) (j + 1)) =
          assignment (recover ms (v.drop m.width)) := rfl
      have hfirst : assignment (m.value v :: recover ms (v.drop m.width)) 0 = m.value v := rfl
      rw [hrest, hfirst]
      linarith

end ColumnMap

end LinProg
