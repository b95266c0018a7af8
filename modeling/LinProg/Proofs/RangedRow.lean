import LinProg.Proofs.Simplex.ShadowPrices
import LinProg.Proofs.Simplex.SameTableau
import LinProg.Proofs.Search.Mirrors
import LinProg.Proofs.Search.Nodes
import LinProg.Proofs.StandardForm.SplitRow

namespace LinProg

variable {α : Type} [Scalar α]

namespace Simplex

theorem multipliers_renumber (f : ℕ → ℕ) (s : Simplex ℚ) :
    (s.mapForm (.renumber f)).multipliers = s.multipliers.map (Prod.map (.renumber f) id) := by
  unfold multipliers mapForm StandardForm.renumber
  rw [List.zipWith_map_left, List.map_zipWith]
  rfl

/-- A row of the problem with a ranged row takes in what it takes in with two rows instead; the
row `i` also takes in the next one. -/
theorem rowTotal_renumber (i k : ℕ) (ms : List (Origin × ℚ)) :
    rowTotal (ms.map (Prod.map (.renumber (mergedIndex i)) id)) k =
      (if k ≤ i then rowTotal ms k else 0) + if i ≤ k then rowTotal ms (k + 1) else 0 := by
  have hentry (o : Origin) (y : ℚ) :
      (if o.renumber (mergedIndex i) = .row k then y else 0) =
        (if k ≤ i then if o = .row k then y else 0 else 0) +
          if i ≤ k then if o = .row (k + 1) then y else 0 else 0 := by
    cases o with
    | columnRange j => simp [Origin.renumber]
    | row m =>
      simp only [Origin.renumber, Origin.row.injEq, mergedIndex]
      split_ifs <;> first | omega | simp
  induction ms with
  | nil => simp [rowTotal]
  | cons m ms ih =>
    rw [rowTotal] at ih
    simp only [rowTotal, List.map_cons, List.sum_cons, Prod.map_fst, Prod.map_snd, id_eq, hentry,
      ih]
    split_ifs <;> ring

theorem abs_cutoff_sub_le {tolerance : ℚ} (ht : 0 ≤ tolerance) (d : ℚ) :
    |cutoff tolerance d - d| ≤ tolerance := by
  unfold cutoff
  split_ifs with hd
  · rw [zero_sub, abs_neg]
    exact hd.le
  · simpa using ht

theorem abs_cutoff_add_sub_le {tolerance : ℚ} (ht : 0 ≤ tolerance) (d e : ℚ) :
    |cutoff tolerance (d + e) - (cutoff tolerance d + cutoff tolerance e)| ≤ 3 * tolerance := by
  have h := abs_cutoff_sub_le ht
  have hsum := abs_le.mp (h (d + e))
  have hd := abs_le.mp (h d)
  have he := abs_le.mp (h e)
  rw [abs_le]
  constructor <;> linarith

section

variable (s : Simplex ℚ) (i k : ℕ)

theorem rowDual_renumber :
    (s.mapForm (.renumber (mergedIndex i))).rowDual k =
      if s.pastPhaseOne then cutoff s.tolerances.pivot (s.form.sense *
        ((if k ≤ i then rowTotal s.multipliers k else 0) +
          if i ≤ k then rowTotal s.multipliers (k + 1) else 0)) else 0 := by
  rw [rowDual, multipliers_renumber, rowTotal_renumber]
  rfl

theorem rowDual_renumber_of_lt (hk : k < i) :
    (s.mapForm (.renumber (mergedIndex i))).rowDual k = s.rowDual k := by
  rw [rowDual_renumber, if_pos hk.le, if_neg (Nat.not_le.mpr hk), add_zero, rowDual]

theorem rowDual_renumber_of_gt (hk : i < k) :
    (s.mapForm (.renumber (mergedIndex i))).rowDual k = s.rowDual (k + 1) := by
  rw [rowDual_renumber, if_neg (Nat.not_le.mpr hk), if_pos hk.le, zero_add, rowDual]

/-- What is below the tolerance is lost at most three times. -/
theorem abs_rowDual_renumber_sub_le (ht : 0 ≤ s.tolerances.pivot) :
    |(s.mapForm (.renumber (mergedIndex i))).rowDual i - (s.rowDual i + s.rowDual (i + 1))| ≤
      3 * s.tolerances.pivot := by
  rw [rowDual_renumber, if_pos le_rfl, if_pos le_rfl, mul_add, rowDual, rowDual]
  cases s.pastPhaseOne
  · simpa using ht
  · exact abs_cutoff_add_sub_le ht _ _

end

section

variable {p : Problem α} {i : ℕ} {r low high : Row α} (hr : p.rows[i]? = some r)
  (h : r.SplitsInto low high)

include hr h

theorem start_eq_mapForm_splitRow (config : SolveConfig α) (tolerances : Tolerances α) :
    (start p config tolerances).value =
      (start (p.splitRow i low high) config tolerances).value.mapForm
        (.renumber (mergedIndex i)) :=
  start_mapForm (StandardForm.ofProblem_eq_renumber_splitRow config.presolve tolerances.pivot h hr)
    (Tableau.ofForm_renumber _) fun _ ↦ Option.isSome_map

end

end Simplex

def Solution.withoutDuals (s : Solution α) : Solution α := { s with duals := none }

structure MergedDuals (i : ℕ) (ys zs : Array ℚ) : Prop where
  size_eq : zs.size = ys.size + 1
  before : ∀ k < i, ys[k]? = zs[k]?
  after : ∀ k > i, ys[k]? = zs[k + 1]?
  at_row : ∃ y z w, ys[i]? = some y ∧ zs[i]? = some z ∧ zs[i + 1]? = some w ∧
    |y - (z + w)| ≤ 3 / 10 ^ 9

theorem Simplex.mergedDuals {s : Simplex ℚ} (hs : s.tolerances = .standard) {i n : ℕ}
    (hi : i < n) :
    MergedDuals i ((s.mapForm (.renumber (mergedIndex i))).duals n) (s.duals (n + 1)) where
  size_eq := by rw [duals_eq_ofFn, duals_eq_ofFn, Array.size_ofFn, Array.size_ofFn]
  before k hk := by
    rw [getElem?_duals, getElem?_duals, rowDual_renumber_of_lt s i k hk, if_pos (by omega),
      if_pos (by omega)]
  after k hk := by
    simp only [getElem?_duals, rowDual_renumber_of_gt s i k hk, Nat.add_lt_add_iff_right]
  at_row := by
    have hpivot : s.tolerances.pivot = 1 / 10 ^ 9 := by rw [hs, standard_pivot_eq]
    have hmerged := abs_rowDual_renumber_sub_le s i (by rw [hpivot]; positivity)
    rw [hpivot, mul_one_div] at hmerged
    exact ⟨_, _, _, (getElem?_duals _ n i).trans (if_pos hi),
      (getElem?_duals s _ i).trans (if_pos (by omega)),
      (getElem?_duals s _ (i + 1)).trans (if_pos (by omega)), hmerged⟩

theorem Problem.setColumnBounds_splitRow (p : Problem α) (i : ℕ) (low high : Row α) (index : ℕ)
    (bounds : ColumnBounds α) :
    (p.splitRow i low high).setColumnBounds index bounds =
      (p.setColumnBounds index bounds).splitRow i low high := by
  unfold setColumnBounds modifyColumn
  split_ifs <;> rfl

namespace Node

theorem restrict_splitRow (node : Node α) (p : Problem α) (i : ℕ) (low high : Row α) :
    node.restrict (p.splitRow i low high) = (node.restrict p).splitRow i low high :=
  List.foldl_hom (Problem.splitRow · i low high) fun q change ↦
    q.setColumnBounds_splitRow i low high (change.column + 1) _

theorem rows_restrict (node : Node α) (p : Problem α) : (node.restrict p).rows = p.rows :=
  restrict_invariant (P := fun q ↦ q.rows = p.rows) node rfl fun _ _ _ h ↦ h

end Node

namespace Solver

section

variable (solver : Solver α) {p : Problem α} {i : ℕ} {r low high : Row α}
  (hr : p.rows[i]? = some r) (h : r.SplitsInto low high) (config : SolveConfig α)

include hr h

theorem exists_last_splitRow (d : Deadline) :
    ∃ (last : Option (Simplex α)) (d' : Deadline),
      (∀ s, last = some s → s.tolerances = solver.tolerances) ∧
      (solver.runLp (p.splitRow i low high) config d).value =
        (last.map (·.solution (p.splitRow i low high)), d') ∧
      (solver.runLp p config d).value =
        (last.map fun s ↦ (s.mapForm (.renumber (mergedIndex i))).solution p, d') :=
  runLp_mapForm (Simplex.start_eq_mapForm_splitRow hr h config solver.tolerances) d

theorem mirrors_splitRow :
    Search.Mirrors solver.runLp p solver.runLp (p.splitRow i low high) config where
  integerColumns := rfl
  numColumns := rfl
  children _ _ _ _ := rfl
  readings node d := by
    obtain ⟨last, d', -, hsplit, hranged⟩ := exists_last_splitRow solver
      ((node.rows_restrict p).symm ▸ hr) h config.forRelaxations d
    rw [node.restrict_splitRow, hsplit, hranged, Option.map_map, Option.map_map]
    rfl
  deadlines node d := by
    obtain ⟨last, d', -, hsplit, hranged⟩ := exists_last_splitRow solver
      ((node.rows_restrict p).symm ▸ hr) h config.forRelaxations d
    rw [node.restrict_splitRow, hsplit, hranged]

end

/-- A problem with a ranged row and the problem with two one-sided rows instead are solved alike:
with the same status, values, objective value and number of pivots, by the simplex method as by
branch-and-bound, in every arithmetic. In exact arithmetic the other rows have the same duals, and
that of the ranged row is the sum of the two but for what the tolerance rounds to zero. -/
theorem ranged_row_is_two_rows :
    (∀ {α : Type} [Scalar α] (solver : Solver α) (p : Problem α) (i : ℕ) (r low high : Row α)
      (config : SolveConfig α), p.rows[i]? = some r → r.SplitsInto low high →
        (solver.solveLp p config).value.map Solution.withoutDuals =
            (solver.solveLp (p.splitRow i low high) config).value.map .withoutDuals ∧
          (solver.solveMip p config).value =
            (solver.solveMip (p.splitRow i low high) config).value) ∧
    ∀ (solver : Solver ℚ) (p : Problem ℚ) (i : ℕ) (r low high : Row ℚ) (config : SolveConfig ℚ),
      solver.tolerances = .standard → p.rows[i]? = some r → r.SplitsInto low high →
        ∀ s t, (solver.solveLp p config).value = some s →
          (solver.solveLp (p.splitRow i low high) config).value = some t →
            ∃ ys zs, s.duals = some ys ∧ t.duals = some zs ∧ MergedDuals i ys zs := by
  constructor
  · intro α _ solver p i r low high config hr h
    constructor
    · obtain ⟨last, d', -, hsplit, hranged⟩ :=
        exists_last_splitRow solver hr h config (config.deadline solver.clock)
      simp only [solveLp, Logged.value_bind, hsplit, hranged, Logged.pure_eq, Option.map_map]
      rfl
    · exact (mirrors_splitRow solver hr h config).value_solve_eq (fun _ ↦ rfl) solver.fuel
  · intro solver p i r low high config htolerances hr h s t hs ht
    obtain ⟨last, d', hlast, hsplit, hranged⟩ :=
      exists_last_splitRow solver hr h config (config.deadline solver.clock)
    simp only [solveLp, Logged.value_bind, hsplit, hranged, Logged.pure_eq] at hs ht
    obtain ⟨final, rfl, rfl⟩ := Option.map_eq_some_iff.mp hs
    obtain rfl := Option.some_inj.mp ht
    refine ⟨_, _, rfl, rfl, ?_⟩
    -- both report on the last state of one run, and differ in the numbers of its constraints' rows
    have hi : i < p.numRows := (Array.getElem?_eq_some_iff.mp hr).1
    rw [Problem.numRows_splitRow hi]
    exact Simplex.mergedDuals ((hlast final rfl).trans htolerances) hi

end Solver

def Row.between : Row ℚ :=
  { name := "between", coefficients := ⟨#[some 0, some 1], #[⟨1, 6⟩, ⟨2, 4⟩]⟩
    boundType := .double, lower := .fin 2, upper := .fin 24 }

def Problem.betweenRows : Problem ℚ :=
  { name := "between rows", direction := .maximize
    columns := #[
      { name := "x", objective := 5, kind := .integer, bounds := .unset, boundType := .lower },
      { name := "y", objective := 4, kind := .integer, bounds := .unset, boundType := .lower }]
    rows := #[
      { name := "before", coefficients := ⟨#[some 0, some 1], #[⟨1, 1⟩, ⟨2, 2⟩]⟩
        boundType := .upper, lower := .negInf, upper := .fin 6 },
      Row.between,
      { name := "after", coefficients := ⟨#[some 0, some 1], #[⟨1, 1⟩, ⟨2, -1⟩]⟩
        boundType := .upper, lower := .negInf, upper := .fin 3 }] }

theorem Solver.ranged_row_is_two_rows_betweenRows :
    let solver : Solver ℚ := { Solver.standard with fuel := 20 }
    let p := Problem.betweenRows
    let low : Row ℚ := { Row.between with name := "low", boundType := .lower, upper := .posInf }
    let high : Row ℚ := { Row.between with name := "high", boundType := .upper, lower := .negInf }
    let q := p.splitRow 1 low high
    p.rows[1]? = some Row.between ∧ Row.between.SplitsInto low high ∧
      solver.tolerances = .standard ∧
      (solver.solveLp p .default).value.map Solution.withoutDuals =
        (solver.solveLp q .default).value.map .withoutDuals ∧
      (solver.solveMip p .default).value = (solver.solveMip q .default).value ∧
      (solver.solveMip q .default).value.map (·.values) = some #[3, 1] ∧
      MergedDuals 1 #[1 / 2, 3 / 4, 0] #[1 / 2, 0, 3 / 4, 0] := by
  intro solver p low high q
  have hr : p.rows[1]? = some Row.between := rfl
  have hsplits : Row.between.SplitsInto low high := ⟨rfl, rfl, rfl, rfl, rfl, rfl, rfl⟩
  obtain ⟨hlp, hmip⟩ := ranged_row_is_two_rows.1 solver p 1 Row.between low high .default hr hsplits
  have hduals : (solver.solveLp p .default).value.bind (·.duals) = some #[1 / 2, 3 / 4, 0] := by
    decide +kernel
  have hduals' : (solver.solveLp q .default).value.bind (·.duals) =
      some #[1 / 2, 0, 3 / 4, 0] := by
    decide +kernel
  obtain ⟨s, hs, hys⟩ := Option.bind_eq_some_iff.mp hduals
  obtain ⟨t, ht, hzs⟩ := Option.bind_eq_some_iff.mp hduals'
  obtain ⟨ys, zs, hys', hzs', hmerged⟩ :=
    ranged_row_is_two_rows.2 solver p 1 Row.between low high .default rfl hr hsplits s t hs ht
  obtain rfl := Option.some_inj.mp (hys.symm.trans hys')
  obtain rfl := Option.some_inj.mp (hzs.symm.trans hzs')
  exact ⟨hr, hsplits, rfl, hlp, hmip, by decide +kernel, hmerged⟩

end LinProg
