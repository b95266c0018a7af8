import LinProg.Proofs.Choice
import LinProg.Proofs.Tableau.Equation

namespace LinProg.Simplex

def better (threshold : ℚ) (best : Option (ℚ × ℕ)) (candidate : ℚ × ℕ) : Option (ℚ × ℕ) :=
  match best with
  | none => if threshold < candidate.1 then some candidate else none
  | some (y, _) => if y < candidate.1 then some candidate else best

theorem argmaxAbove_eq (threshold : ℚ) (xs : List ℚ) :
    argmaxAbove threshold xs = (xs.zipIdx.foldl (better threshold) none).map (·.2) := by
  unfold argmaxAbove
  congr 2
  funext best candidate
  cases best <;> rfl

theorem foldl_better (threshold : ℚ) (l : List (ℚ × ℕ)) :
    (l.foldl (better threshold) none = none → ∀ c ∈ l, c.1 ≤ threshold) ∧
      ∀ c, l.foldl (better threshold) none = some c → c ∈ l ∧ threshold < c.1 := by
  refine foldl_choice (fun best hbest d hd c hc ↦ ?_) fun best d hd hc ↦ ?_
  · cases best with
    | none =>
      obtain ⟨hlt, rfl⟩ : threshold < d.1 ∧ d = c := by simpa [better] using hc
      exact ⟨hd, hlt⟩
    | some b =>
      obtain ⟨hb, hlt⟩ := hbest b rfl
      simp only [better] at hc
      split_ifs at hc with hbetter
      · obtain rfl := Option.some_inj.mp hc
        exact ⟨hd, hlt.trans hbetter⟩
      · obtain rfl := Option.some_inj.mp hc
        exact ⟨hb, hlt⟩
  · cases best with
    | none => exact ⟨rfl, by simpa [better] using hc⟩
    | some b =>
      simp only [better] at hc
      split_ifs at hc

theorem argmaxAbove_spec (threshold : ℚ) (xs : List ℚ) :
    (argmaxAbove threshold xs = none → ∀ x ∈ xs, x ≤ threshold) ∧
      ∀ j, argmaxAbove threshold xs = some j → ∃ x, xs[j]? = some x ∧ threshold < x := by
  obtain ⟨hnone, hsome⟩ := foldl_better threshold xs.zipIdx
  rw [argmaxAbove_eq]
  constructor
  · intro h x hx
    obtain ⟨j, hj⟩ := List.mem_iff_getElem?.mp hx
    exact hnone (Option.map_eq_none_iff.mp h) (x, j) (List.mem_zipIdx_iff_getElem?.mpr hj)
  · intro j h
    obtain ⟨⟨x, i⟩, hc, rfl⟩ := Option.map_eq_some_iff.mp h
    obtain ⟨hmem, hlt⟩ := hsome _ hc
    exact ⟨x, List.mem_zipIdx_iff_getElem?.mp hmem, hlt⟩

variable {s : Simplex ℚ}

theorem reducedCost_le (ht : 0 ≤ s.tolerances.pivot) (h : s.enteringColumn = none) :
    ∀ j < s.numCandidates, s.tableau.objective.coefficient j ≤ s.tolerances.pivot := by
  intro j hj
  by_cases hlt : j < s.tableau.objective.coefficients.size
  · have hmem := Array.mem_toList_iff.mpr (Equation.mem_extract.mpr ⟨j, hj, hlt, rfl⟩)
    unfold enteringColumn at h
    simp only at h
    split_ifs at h
    · simpa using List.findIdx?_eq_none_iff.mp h _ hmem
    · exact (argmaxAbove_spec _ _).1 h _ hmem
  · rwa [Equation.coefficient_of_le (Nat.le_of_not_lt hlt)]

theorem lt_reducedCost {column : ℕ} (h : s.enteringColumn = some column) :
    column < s.numCandidates ∧
      s.tolerances.pivot < s.tableau.objective.coefficient column := by
  have hget : ∀ x,
      (s.tableau.objective.coefficients.extract 0 s.numCandidates).toList[column]? = some x →
        column < s.numCandidates ∧ s.tableau.objective.coefficient column = x := by
    intro x hx
    obtain ⟨hlt, rfl⟩ := List.getElem?_eq_some_iff.mp hx
    simp only [Array.length_toList, Array.size_extract] at hlt
    refine ⟨by omega, ?_⟩
    simp only [Array.getElem_toList, Array.getElem_extract, Nat.zero_add]
    exact Equation.coefficient_of_lt _
  unfold enteringColumn at h
  simp only at h
  split_ifs at h
  · obtain ⟨hlt, hx, -⟩ := List.findIdx?_eq_some_iff_getElem.mp h
    obtain ⟨hc, he⟩ := hget _ (List.getElem?_eq_getElem hlt)
    rw [← he, decide_eq_true_iff] at hx
    exact ⟨hc, hx⟩
  · obtain ⟨x, hx, hlt⟩ := (argmaxAbove_spec _ _).2 _ h
    obtain ⟨hc, rfl⟩ := hget x hx
    exact ⟨hc, hlt⟩

/-- After a long degenerate streak the first candidate enters. -/
theorem reducedCost_le_of_lt (hstreak : degenerateStreakLimit ≤ s.degenerateStreak) {column : ℕ}
    (h : s.enteringColumn = some column) {j : ℕ} (hj : j < column) :
    s.tableau.objective.coefficient j ≤ s.tolerances.pivot := by
  unfold enteringColumn at h
  rw [if_pos hstreak] at h
  obtain ⟨hlt, -, hbefore⟩ := List.findIdx?_eq_some_iff_getElem.mp h
  have hle := hbefore j hj
  simp only [Array.getElem_toList, Array.getElem_extract, Nat.zero_add, decide_eq_true_eq,
    not_lt] at hle
  simp only [Array.length_toList, Array.size_extract] at hlt
  rwa [Equation.coefficient_of_lt (by omega)]

theorem standard_pivot_eq : (Tolerances.standard : Tolerances ℚ).pivot = 1 / 10 ^ 9 := by
  decide +kernel

def ratio (column : ℕ) (r : BasicRow ℚ) : ℚ :=
  Scalar.positivePart r.equation.rhs / r.equation.coefficient column

def Leaving.Admits (tolerance : ℚ) (column : ℕ) (leaving : Leaving ℚ) (r : BasicRow ℚ) : Prop :=
  tolerance < r.equation.coefficient column ∧ leaving.basic = r.basic ∧
    leaving.ratio = Simplex.ratio column r

theorem considerRow_cases (tolerance : ℚ) (column : ℕ) (best : Option (Leaving ℚ))
    (r : BasicRow ℚ) (i : ℕ) :
    (considerRow tolerance column best (r, i) = best ∧
      (tolerance < r.equation.coefficient column →
        improvesOn tolerance (ratio column r) r.basic best = false)) ∨
    (considerRow tolerance column best (r, i) = some ⟨i, r.basic, ratio column r⟩ ∧
      tolerance < r.equation.coefficient column ∧
      improvesOn tolerance (ratio column r) r.basic best = true) := by
  by_cases ht : tolerance < r.equation.coefficient column
  · cases hi : improvesOn tolerance (ratio column r) r.basic best
    · refine .inl ⟨?_, fun _ ↦ rfl⟩
      simp only [considerRow, if_pos ht]
      exact if_neg (by rw [← ratio, hi]; exact Bool.false_ne_true)
    · refine .inr ⟨?_, ht, rfl⟩
      simp only [considerRow, if_pos ht]
      exact if_pos (by rw [← ratio, hi])
  · exact .inl ⟨by simp only [considerRow, if_neg ht], fun h ↦ absurd h ht⟩

theorem improvesOn_none (tolerance q : ℚ) (basic : ℕ) :
    improvesOn tolerance q basic none = true := by
  simp [improvesOn, Scalar.extend, Extended.below]

theorem le_add_of_improvesOn {tolerance q : ℚ} {basic : ℕ} {best : Leaving ℚ} (ht : 0 ≤ tolerance)
    (h : improvesOn tolerance q basic (some best) = true) : q ≤ best.ratio + tolerance := by
  simp only [improvesOn, Bool.or_eq_true, Bool.and_eq_true, decide_eq_true_eq] at h
  rcases h with hlt | ⟨hle, -⟩
  · linarith only [hlt, ht]
  · exact hle

theorem le_add_of_not_improvesOn {tolerance q : ℚ} {basic : ℕ} {best : Leaving ℚ}
    (h : improvesOn tolerance q basic (some best) = false) : best.ratio ≤ q + tolerance := by
  simp only [improvesOn, Bool.or_eq_false_iff, decide_eq_false_iff_not] at h
  exact sub_le_iff_le_add.mp (le_of_not_gt h.1)

theorem foldl_considerRow (tolerance : ℚ) (column : ℕ) (l : List (BasicRow ℚ × ℕ)) :
    (l.foldl (considerRow tolerance column) none = none →
      ∀ c ∈ l, c.1.equation.coefficient column ≤ tolerance) ∧
    ∀ leaving, l.foldl (considerRow tolerance column) none = some leaving →
      ∃ r, (r, leaving.row) ∈ l ∧ leaving.Admits tolerance column r := by
  refine foldl_choice (fun best hbest d hd leaving h ↦ ?_) fun best d hd h ↦ ?_
  · rcases considerRow_cases tolerance column best d.1 d.2 with ⟨he, -⟩ | ⟨he, ht, -⟩
    · exact hbest leaving (he.symm.trans h)
    · obtain rfl := Option.some_inj.mp (he.symm.trans h)
      exact ⟨d.1, hd, ht, rfl, rfl⟩
  · rcases considerRow_cases tolerance column best d.1 d.2 with ⟨he, hn⟩ | ⟨he, -⟩
    · obtain rfl : best = none := he.symm.trans h
      refine ⟨rfl, le_of_not_gt fun hlt ↦ ?_⟩
      exact Bool.noConfusion ((improvesOn_none tolerance _ _).symm.trans (hn hlt))
    · exact absurd (he.symm.trans h) (by simp)

/-- The comparison is not transitive, so the row kept may miss the smallest ratio seen. A further
row adds at most the tolerance to what it misses it by. -/
theorem considerRow_le_add {tolerance error : ℚ} {column : ℕ} {seen : List (BasicRow ℚ × ℕ)}
    {best : Option (Leaving ℚ)} (ht : 0 ≤ tolerance) (herror : 0 ≤ error)
    (hnone : best = none → ∀ c ∈ seen, c.1.equation.coefficient column ≤ tolerance)
    (hsome : ∀ leaving, best = some leaving → ∀ c ∈ seen,
      tolerance < c.1.equation.coefficient column → leaving.ratio ≤ ratio column c.1 + error)
    {r : BasicRow ℚ} {i : ℕ} {leaving : Leaving ℚ}
    (h : considerRow tolerance column best (r, i) = some leaving) :
    ∀ c ∈ seen ++ [(r, i)], tolerance < c.1.equation.coefficient column →
      leaving.ratio ≤ ratio column c.1 + (error + tolerance) := by
  intro c hc hentry
  rcases considerRow_cases tolerance column best r i with ⟨he, hn⟩ | ⟨he, -, himp⟩
  · rw [he] at h
    rcases List.mem_append.mp hc with hc | hc
    · have hle := hsome leaving h c hc hentry
      linarith only [hle, ht]
    · obtain rfl := List.mem_singleton.mp hc
      have hle := le_add_of_not_improvesOn (h ▸ hn hentry)
      linarith only [hle, herror]
  · obtain rfl := Option.some_inj.mp (he.symm.trans h)
    rcases List.mem_append.mp hc with hc | hc
    · cases best with
      | none => exact absurd hentry (not_lt_of_ge (hnone rfl c hc))
      | some b =>
        have hbest := hsome b rfl c hc hentry
        have hle : ratio column r ≤ b.ratio + tolerance := le_add_of_improvesOn ht himp
        linarith only [hle, hbest]
    · obtain rfl := List.mem_singleton.mp hc
      linarith only [herror, ht]

theorem foldl_considerRow_le_add {tolerance : ℚ} (ht : 0 ≤ tolerance) (column : ℕ)
    (l : List (BasicRow ℚ × ℕ)) (leaving : Leaving ℚ)
    (h : l.foldl (considerRow tolerance column) none = some leaving) :
    ∀ c ∈ l, tolerance < c.1.equation.coefficient column →
      leaving.ratio ≤ ratio column c.1 + l.length * tolerance := by
  induction l using List.reverseRecOn generalizing leaving with
  | nil => simp
  | append_singleton l c ih =>
    have hlength : ((l ++ [c]).length : ℚ) * tolerance = l.length * tolerance + tolerance := by
      rw [List.length_append, List.length_singleton, Nat.cast_add_one, add_one_mul]
    rw [List.foldl_append, List.foldl_cons, List.foldl_nil] at h
    rw [hlength]
    exact considerRow_le_add ht (mul_nonneg (Nat.cast_nonneg _) ht)
      (foldl_considerRow tolerance column l).1 ih h

theorem foldl_considerRow_le (column : ℕ) (l : List (BasicRow ℚ × ℕ)) (leaving : Leaving ℚ)
    (h : l.foldl (considerRow 0 column) none = some leaving) :
    ∀ c ∈ l, 0 < c.1.equation.coefficient column → leaving.ratio ≤ ratio column c.1 := by
  intro c hc hpos
  have hle := foldl_considerRow_le_add le_rfl column l leaving h c hc hpos
  rwa [mul_zero, add_zero] at hle

/-- Among the rows with the smallest ratio the search finds the one whose basic variable comes
first. -/
theorem foldl_considerRow_basic_le (column : ℕ) (l : List (BasicRow ℚ × ℕ)) (leaving : Leaving ℚ)
    (h : l.foldl (considerRow 0 column) none = some leaving) :
    ∀ c ∈ l, 0 < c.1.equation.coefficient column → ratio column c.1 ≤ leaving.ratio →
      leaving.basic ≤ c.1.basic := by
  induction l using List.reverseRecOn generalizing leaving with
  | nil => simp
  | append_singleton l c ih =>
    obtain ⟨r, i⟩ := c
    rw [List.foldl_append, List.foldl_cons, List.foldl_nil] at h
    intro c hc hpos hle
    rcases considerRow_cases 0 column (l.foldl (considerRow 0 column) none) r i with
      ⟨he, hn⟩ | ⟨he, -, himp⟩
    · rw [he] at h
      rcases List.mem_append.mp hc with hc | hc
      · exact ih leaving h c hc hpos hle
      · obtain rfl := List.mem_singleton.mp hc
        have hfalse := hn hpos
        rw [h] at hfalse
        simp only [improvesOn, Bool.or_eq_false_iff, Bool.and_eq_false_iff, add_zero,
          decide_eq_false_iff_not] at hfalse
        exact le_of_not_gt (hfalse.2.resolve_left (not_not_intro hle))
    · rw [he, Option.some_inj] at h
      subst h
      rcases List.mem_append.mp hc with hc | hc
      · cases hb : l.foldl (considerRow 0 column) none with
        | none => exact absurd hpos (not_lt_of_ge ((foldl_considerRow 0 column l).1 hb c hc))
        | some best =>
          have hbest := foldl_considerRow_le column l best hb c hc hpos
          rw [hb] at himp
          simp only [improvesOn, Bool.or_eq_true, Bool.and_eq_true, decide_eq_true_eq, sub_zero,
            add_zero] at himp
          rcases himp with hlt | ⟨hle', hbasic⟩
          · exact absurd (hlt.trans_le hbest) (not_lt_of_ge hle)
          · exact hbasic.le.trans (ih best hb c hc hpos (hle.trans hle'))
      · rw [List.mem_singleton.mp hc]

variable {t : Tableau ℚ} {tolerance : ℚ} {column : ℕ}

theorem mem_zipIdx_rows {r : BasicRow ℚ} {i : ℕ} :
    (r, i) ∈ t.rows.toList.zipIdx ↔ t.rows[i]? = some r := by
  rw [List.mem_zipIdx_iff_getElem?, Array.getElem?_toList]

theorem entry_le_of_leavingRow (h : leavingRow t tolerance column = none) {i : ℕ} {r : BasicRow ℚ}
    (hr : t.rows[i]? = some r) : r.equation.coefficient column ≤ tolerance :=
  (foldl_considerRow tolerance column _).1 h (r, i) (mem_zipIdx_rows.mpr hr)

theorem admits_of_leavingRow {leaving : Leaving ℚ}
    (h : leavingRow t tolerance column = some leaving) :
    ∃ r, t.rows[leaving.row]? = some r ∧ leaving.Admits tolerance column r := by
  obtain ⟨r, hr, hadmits⟩ := (foldl_considerRow tolerance column _).2 leaving h
  exact ⟨r, mem_zipIdx_rows.mp hr, hadmits⟩

theorem exists_entry_ne_zero (ht : 0 ≤ tolerance) {leaving : Leaving ℚ}
    (h : leavingRow t tolerance column = some leaving) :
    ∃ r, t.rows[leaving.row]? = some r ∧ r.equation.coefficient column ≠ 0 := by
  obtain ⟨r, hr, hentry, -⟩ := admits_of_leavingRow h
  exact ⟨r, hr, (ht.trans_lt hentry).ne'⟩

theorem ratio_le_of_leavingRow {leaving : Leaving ℚ} (h : leavingRow t 0 column = some leaving)
    {i : ℕ} {r : BasicRow ℚ} (hr : t.rows[i]? = some r)
    (hpos : 0 < r.equation.coefficient column) : leaving.ratio ≤ ratio column r :=
  foldl_considerRow_le column _ leaving h (r, i) (mem_zipIdx_rows.mpr hr) hpos

theorem basic_le_of_leavingRow {leaving : Leaving ℚ} (h : leavingRow t 0 column = some leaving)
    {i : ℕ} {r : BasicRow ℚ} (hr : t.rows[i]? = some r) (hpos : 0 < r.equation.coefficient column)
    (hle : ratio column r ≤ leaving.ratio) : leaving.basic ≤ r.basic :=
  foldl_considerRow_basic_le column _ leaving h (r, i) (mem_zipIdx_rows.mpr hr) hpos hle

end LinProg.Simplex
