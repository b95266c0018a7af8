import LinProg.Proofs.Tableau.Equation

namespace LinProg.Tableau

def slackEntry : Relation → ℚ
  | .le => 1
  | .ge => -1
  | .eq => 0

def artificialEntry : Relation → ℚ
  | .le => 0
  | .ge | .eq => 1

def layoutRow (numVars numSlack numArtificial : ℕ) (c : Constraint ℚ) (s a : ℕ) : BasicRow ℚ :=
  { basic := if c.relation = .le then numVars + s else numVars + numSlack + a
    equation := ⟨(c.coefficients ++ block numSlack s (slackEntry c.relation) ++
      block numArtificial a (artificialEntry c.relation)).toArray, c.rhs⟩ }

def hasSlack (c : Constraint ℚ) : Bool := c.relation != .eq

def hasArtificial (c : Constraint ℚ) : Bool := c.relation != .le

theorem getElem?_block (n i k : ℕ) (x : ℚ) :
    (block n i x)[k]? = if k < n then some (if k = i then x else 0) else none := by
  simp only [block, List.getElem?_set, List.length_replicate, List.getElem?_replicate]
  by_cases hk : k < n
  · by_cases hi : i = k
    · simp [hi, hk]
    · simp [hi, hk, Ne.symm hi]
  · by_cases hi : i = k <;> simp [hi, hk]

theorem block_zero (n i : ℕ) : block n i (0 : ℚ) = List.replicate n 0 := by
  apply List.ext_getElem?
  intro k
  rw [getElem?_block, List.getElem?_replicate]
  split_ifs <;> rfl

theorem dot_block {n i : ℕ} {c : ℚ} (h : c ≠ 0 → i < n) (x : ℕ → ℚ) :
    dot (block n i c) x = c * x i := by
  by_cases hc : c = 0
  · rw [hc, block_zero, dot_replicate_zero, zero_mul]
  · exact dot_set_replicate (h hc) c x

variable {numVars numSlack numArtificial : ℕ}

theorem layout_cons (c : Constraint ℚ) (cs : List (Constraint ℚ)) (s a : ℕ) :
    layout numVars numSlack numArtificial (c :: cs) s a =
      layoutRow numVars numSlack numArtificial c s a ::
        layout numVars numSlack numArtificial cs (s + [c].countP hasSlack)
          (a + [c].countP hasArtificial) := by
  cases hc : c.relation <;>
    simp [layout, layoutRow, hc, slackEntry, artificialEntry, block_zero, hasSlack, hasArtificial]

theorem getElem?_layout (cs : List (Constraint ℚ)) (s a i : ℕ) :
    (layout numVars numSlack numArtificial cs s a)[i]? =
      cs[i]?.map fun c ↦ layoutRow numVars numSlack numArtificial c
        (s + (cs.take i).countP hasSlack) (a + (cs.take i).countP hasArtificial) := by
  induction cs generalizing s a i with
  | nil => simp [layout]
  | cons c cs ih =>
    rw [layout_cons]
    cases i with
    | zero => simp
    | succ i =>
      simp only [List.getElem?_cons_succ, ih, List.take_succ_cons,
        ← List.singleton_append (l := cs.take i), List.countP_append, Nat.add_assoc]

theorem split_of_getElem? {α : Type} {cs : List α} {i : ℕ} {c : α} (hi : cs[i]? = some c) :
    cs = cs.take i ++ c :: cs.drop (i + 1) := by
  obtain ⟨hlt, rfl⟩ := List.getElem?_eq_some_iff.mp hi
  rw [List.getElem_cons_drop, List.take_append_drop]

theorem exists_ne_of_mem_take_drop {α : Type} {cs : List α} {i : ℕ} {d : α}
    (hd : d ∈ cs.take i ++ cs.drop (i + 1)) : ∃ k ≠ i, cs[k]? = some d := by
  rcases List.mem_append.mp hd with hd | hd
  · obtain ⟨k, hk⟩ := List.mem_iff_getElem?.mp hd
    rw [List.getElem?_take] at hk
    split_ifs at hk with hlt
    exact ⟨k, hlt.ne, hk⟩
  · obtain ⟨k, hk⟩ := List.mem_iff_getElem?.mp hd
    rw [List.getElem?_drop] at hk
    exact ⟨i + 1 + k, by omega, hk⟩

/-- A member that counts stands in the filtered list behind those counted before it. -/
theorem getElem?_filter_countP {p : Constraint ℚ → Bool} {cs : List (Constraint ℚ)} {i : ℕ}
    {c : Constraint ℚ} (hi : cs[i]? = some c) (hp : p c = true) :
    (cs.filter p)[(cs.take i).countP p]? = some c := by
  have hfilter := congrArg (List.filter p) (split_of_getElem? hi)
  rw [List.filter_append, List.filter_cons_of_pos hp] at hfilter
  rw [hfilter, List.countP_eq_length_filter, List.getElem?_append_right le_rfl, Nat.sub_self]
  rfl

theorem countP_take_lt {p : Constraint ℚ → Bool} {cs : List (Constraint ℚ)} {i : ℕ}
    {c : Constraint ℚ} (hi : cs[i]? = some c) (hp : p c = true) :
    (cs.take i).countP p < cs.countP p := by
  rw [List.countP_eq_length_filter (l := cs)]
  exact (List.getElem?_eq_some_iff.mp (getElem?_filter_countP hi hp)).1

theorem countP_take_injective {p : Constraint ℚ → Bool} {cs : List (Constraint ℚ)} {i k : ℕ}
    {c d : Constraint ℚ} (hi : cs[i]? = some c) (hk : cs[k]? = some d) (hc : p c = true)
    (hd : p d = true) (h : (cs.take i).countP p = (cs.take k).countP p) : i = k := by
  rcases lt_trichotomy i k with hlt | heq | hlt
  · have hlt' : ((cs.take k).take i).countP p < (cs.take k).countP p :=
      countP_take_lt (by rw [List.getElem?_take_of_lt hlt, hi]) hc
    rw [List.take_take, min_eq_left hlt.le] at hlt'
    omega
  · exact heq
  · have hlt' : ((cs.take i).take k).countP p < (cs.take i).countP p :=
      countP_take_lt (by rw [List.getElem?_take_of_lt hlt, hk]) hd
    rw [List.take_take, min_eq_left hlt.le] at hlt'
    omega

section

variable {c : Constraint ℚ} {s a : ℕ}

theorem size_layoutRow (hn : c.coefficients.length = numVars) :
    (layoutRow numVars numSlack numArtificial c s a).equation.coefficients.size =
      numVars + numSlack + numArtificial := by
  simp [layoutRow, hn, Nat.add_assoc]

theorem coefficient_layoutRow_slack (hn : c.coefficients.length = numVars) {k : ℕ}
    (hk : k < numSlack) :
    (layoutRow numVars numSlack numArtificial c s a).equation.coefficient (numVars + k) =
      if k = s then slackEntry c.relation else 0 := by
  simp only [Equation.coefficient, layoutRow, List.getElem?_toArray, List.append_assoc]
  rw [List.getElem?_append_right (by omega), hn, Nat.add_sub_cancel_left,
    List.getElem?_append_left (by simpa using hk), getElem?_block, if_pos hk]
  rfl

theorem coefficient_layoutRow_artificial (hn : c.coefficients.length = numVars) {k : ℕ}
    (hk : k < numArtificial) :
    (layoutRow numVars numSlack numArtificial c s a).equation.coefficient
        (numVars + numSlack + k) = if k = a then artificialEntry c.relation else 0 := by
  have hl : (c.coefficients ++ block numSlack s (slackEntry c.relation)).length =
      numVars + numSlack := by simp [hn]
  simp only [Equation.coefficient, layoutRow, List.getElem?_toArray]
  rw [List.getElem?_append_right (by omega), hl, Nat.add_sub_cancel_left, getElem?_block,
    if_pos hk]
  rfl

theorem slackEntry_ne_zero : slackEntry c.relation ≠ 0 ↔ hasSlack c = true := by
  cases hc : c.relation <;> simp [slackEntry, hasSlack, hc]

theorem artificialEntry_ne_zero : artificialEntry c.relation ≠ 0 ↔ hasArtificial c = true := by
  cases hc : c.relation <;> simp [artificialEntry, hasArtificial, hc]

theorem residual_layoutRow (hn : c.coefficients.length = numVars)
    (hs : hasSlack c = true → s < numSlack) (ha : hasArtificial c = true → a < numArtificial)
    (x : ℕ → ℚ) :
    (layoutRow numVars numSlack numArtificial c s a).equation.residual x =
      dot c.coefficients x + slackEntry c.relation * x (numVars + s) +
        artificialEntry c.relation * x (numVars + numSlack + a) - c.rhs := by
  rw [Equation.residual, layoutRow, Equation.form_mk, dot_append, dot_append, hn,
    dot_block fun h ↦ hs (slackEntry_ne_zero.mp h),
    dot_block fun h ↦ ha (artificialEntry_ne_zero.mp h), List.length_append, hn, length_block]

end

end LinProg.Tableau
