import LinProg.Proofs.Choice
import LinProg.Proofs.Rational
import LinProg.Proofs.Search.Steps

namespace LinProg.Search

def cutoff (incumbent : ℚ) : ℚ := incumbent - 1 / 10 ^ 9 * (1 + |incumbent|)

theorem cutoff_le (incumbent : ℚ) : cutoff incumbent ≤ incumbent := by
  have hnonneg := abs_nonneg incumbent
  unfold cutoff
  linarith

theorem improves_eq (score : Extended ℚ) (incumbent : ℚ) :
    improves score incumbent = score.below (.fin (cutoff incumbent)) := by
  have hslack : (Scalar.ofDecimal 1 true 9 : ℚ) = 1 / 10 ^ 9 := by decide +kernel
  rw [improves, hslack, Scalar.abs_rat]
  rfl

theorem prunes_eq_true {s : Search ℚ} {score : Extended ℚ} (h : s.prunes score = true) :
    ∃ inc, s.incumbent = some inc ∧ score.below (.fin (cutoff inc.score)) = false := by
  unfold prunes at h
  cases hi : s.incumbent with
  | none => simp [hi] at h
  | some inc =>
    rw [hi] at h
    exact ⟨inc, rfl, by simpa [improves_eq] using h⟩

theorem lt_cutoff_of_not_prunes {s : Search ℚ} {score : ℚ}
    (h : s.prunes (Scalar.extend score) = false) {inc : Incumbent ℚ}
    (hi : s.incumbent = some inc) : score < cutoff inc.score := by
  unfold prunes at h
  rw [hi] at h
  simpa [improves_eq, Scalar.extend, Extended.below] using h

section

variable {α : Type} [Scalar α] {columns : List ℕ} {values : Array α}

omit [Scalar α] in
theorem mem_integerColumns {p : Problem α} {j : ℕ} :
    j ∈ integerColumns p ↔ ∃ c, p.columns[j]? = some c ∧ c.kind.isInteger = true := by
  simp only [integerColumns, List.mem_filterMap, Prod.exists, List.mem_zipIdx_iff_getElem?,
    Array.getElem?_toList, Option.ite_none_right_eq_some, Option.some_inj]
  constructor
  · rintro ⟨c, i, hi, hc, rfl⟩
    exact ⟨c, hi, hc⟩
  · rintro ⟨c, hj, hc⟩
    exact ⟨c, j, hj, hc, rfl⟩

omit [Scalar α] in
theorem lt_numColumns {p : Problem α} {j : ℕ} (hj : j ∈ integerColumns p) : j < p.numColumns := by
  obtain ⟨c, hc, -⟩ := mem_integerColumns.mp hj
  exact (Array.getElem?_eq_some_iff.mp hc).1

def farther (best : Option (ℕ × α)) (c : ℕ × α) : Option (ℕ × α) :=
  match best with
  | none => some c
  | some b => if distanceFromHalf c.2 ≤ distanceFromHalf b.2 then some c else best

theorem foldl_farther (l : List (ℕ × α)) :
    (l.foldl farther none = none → ∀ c ∈ l, False) ∧
      ∀ c, l.foldl farther none = some c → c ∈ l := by
  refine foldl_choice (fun best hbest d hd c hc ↦ ?_) fun best d hd hc ↦ ?_
  · cases best with
    | none => exact Option.some_inj.mp hc ▸ hd
    | some b =>
      simp only [farther] at hc
      split_ifs at hc
      · exact Option.some_inj.mp hc ▸ hd
      · exact hbest c hc
  · cases best with
    | none => cases hc
    | some b =>
      simp only [farther] at hc
      split_ifs at hc

theorem mostFractional_eq (tolerance : α) (columns : List ℕ) (values : Array α) :
    mostFractional tolerance columns values =
      ((columns.map fun j ↦ (j, (values[j]?).getD 0)).filter fun c ↦
        tolerance < Scalar.abs (c.2 - Scalar.round c.2)).foldl farther none := by
  unfold mostFractional
  congr 1

theorem mem_of_mostFractional {tolerance : α} {j : ℕ} {x : α}
    (h : mostFractional tolerance columns values = some (j, x)) :
    j ∈ columns ∧ x = (values[j]?).getD 0 := by
  rw [mostFractional_eq] at h
  obtain ⟨hmem, -⟩ := List.mem_filter.mp ((foldl_farther _).2 _ h)
  obtain ⟨i, hi, he⟩ := List.mem_map.mp hmem
  obtain ⟨rfl, rfl⟩ := Prod.mk.inj he
  exact ⟨hi, rfl⟩

theorem lt_of_mostFractional {tolerance : α} {j : ℕ} {x : α}
    (h : mostFractional tolerance columns values = some (j, x)) :
    tolerance < Scalar.abs (x - Scalar.round x) := by
  rw [mostFractional_eq] at h
  exact of_decide_eq_true (List.mem_filter.mp ((foldl_farther _).2 _ h)).2

end

section

variable {columns : List ℕ} {values : Array ℚ}

theorem abs_sub_round_le {tolerance : ℚ} (h : mostFractional tolerance columns values = none)
    {j : ℕ} (hj : j ∈ columns) :
    |(values[j]?).getD 0 - Scalar.round ((values[j]?).getD 0)| ≤ tolerance := by
  rw [mostFractional_eq] at h
  by_contra hlt
  refine (foldl_farther _).1 h _ (List.mem_filter.mpr ⟨List.mem_map_of_mem hj, ?_⟩)
  rw [decide_eq_true_iff, Scalar.abs_rat]
  exact lt_of_not_ge hlt

theorem round_eq_of_mostFractional (h : mostFractional 0 columns values = none) {j : ℕ}
    (hj : j ∈ columns) : Scalar.round ((values[j]?).getD 0) = (values[j]?).getD 0 :=
  (sub_eq_zero.mp (abs_nonpos_iff.mp (abs_sub_round_le h hj))).symm

theorem ne_intCast_of_mostFractional {tolerance : ℚ} (ht : 0 ≤ tolerance) {j : ℕ} {x : ℚ}
    (h : mostFractional tolerance columns values = some (j, x)) (z : ℤ) : x ≠ z := by
  rintro rfl
  have hlt := lt_of_mostFractional h
  rw [Scalar.round_intCast, sub_self, Scalar.abs_rat, abs_zero] at hlt
  exact not_lt_of_ge ht hlt

theorem getD_modify_round (values : Array ℚ) (j i : ℕ) :
    ((values.modify j Scalar.round)[i]?).getD 0 =
      if j = i then Scalar.round ((values[i]?).getD 0) else (values[i]?).getD 0 := by
  rw [Array.getElem?_modify]
  split_ifs
  · cases values[i]? with
    | none => exact (Scalar.round_intCast 0).symm
    | some x => rfl
  · rfl

theorem getD_roundAt (columns : List ℕ) (values : Array ℚ) (i : ℕ) :
    ((roundAt columns values)[i]?).getD 0 =
      if i ∈ columns then Scalar.round ((values[i]?).getD 0) else (values[i]?).getD 0 := by
  unfold roundAt
  induction columns generalizing values with
  | nil => simp
  | cons j columns ih =>
    rw [List.foldl_cons, ih, getD_modify_round]
    by_cases hj : j = i
    · simp only [hj, if_true, Scalar.round_round, List.mem_cons_self, ite_self]
    · simp only [if_neg hj, List.mem_cons, Ne.symm hj, false_or]

theorem roundAt_eq_self
    (h : ∀ j ∈ columns, Scalar.round ((values[j]?).getD 0) = (values[j]?).getD 0) :
    roundAt columns values = values := by
  unfold roundAt
  induction columns with
  | nil => rfl
  | cons j columns ih =>
    have hj : values.modify j Scalar.round = values := by
      refine Array.ext_getElem? fun i ↦ ?_
      rw [Array.getElem?_modify]
      split_ifs with hji
      · subst hji
        have hround := h j List.mem_cons_self
        cases hv : values[j]? with
        | none => rfl
        | some x => simpa [hv] using hround
      · rfl
    rw [List.foldl_cons, hj]
    exact ih fun i hi ↦ h i (List.mem_cons_of_mem j hi)

end

theorem mem_ordered {down up node : Node ℚ} {x : ℚ} :
    node ∈ ordered down up x ↔ node = down ∨ node = up := by
  unfold ordered
  split_ifs
  · simp
  · simp [or_comm]

/-- A turn takes the next node off the stack, and puts at most two children of it there. -/
theorem Turn.stack_cases {oracle : Oracle ℚ} {p : Problem ℚ} {config : SolveConfig ℚ}
    {tolerance : ℚ} {s t : Search ℚ} (hturn : Turn oracle p config tolerance s t) :
    (s.stack = [] ∧ t.stack = []) ∨ ∃ node rest, s.stack = node :: rest ∧ (t.stack = rest ∨
      ∃ j x score values, mostFractional tolerance (integerColumns p) values = some (j, x) ∧
        t.stack =
          ordered (node.children p j x score).1 (node.children p j x score).2 x ++ rest) := by
  cases hturn with
  | exhausted hs => exact .inl ⟨hs, hs⟩
  | expired hs | pruned hs => exact .inr ⟨_, _, hs, .inl rfl⟩
  | unfinished ho | unbounded ho | unsettled ho | infeasible ho | dominated ho =>
    exact .inr ⟨_, _, ho.stack, .inl rfl⟩
  | improved ho => exact .inr ⟨_, _, ho.stack, .inl (stack_closed _ _)⟩
  | branched ho hlp hstatus hp hf =>
    exact .inr ⟨_, _, ho.stack, .inr ⟨_, _, _, _, hf, stack_closed _ _⟩⟩

end LinProg.Search
