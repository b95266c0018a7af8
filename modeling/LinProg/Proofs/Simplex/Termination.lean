import Mathlib.Data.Fintype.Pigeonhole
import Mathlib.Order.Interval.Finset.Nat
import LinProg.Proofs.Simplex.Progress
import LinProg.Proofs.Tableau.BlandRule

namespace LinProg

theorem exists_recurring {β : Type} {A : Finset β} {f : ℕ → β} (hf : ∀ n, f n ∈ A) :
    ∃ y, ∀ n, ∃ m, n < m ∧ f m = y := by
  obtain ⟨⟨y, hy⟩, hfiber⟩ := Finite.exists_infinite_fiber fun n ↦ (⟨f n, hf n⟩ : A)
  refine ⟨y, fun n ↦ ?_⟩
  obtain ⟨m, hm, hlt⟩ := (Set.infinite_coe_iff.mp hfiber).exists_gt n
  exact ⟨m, hlt, congrArg Subtype.val hm⟩

namespace Simplex

open Finset Tableau

variable {form : StandardForm ℚ} {s : Simplex ℚ} {S : ℕ → Simplex ℚ} {column : ℕ → ℕ}
  {leaving : ℕ → Leaving ℚ}

theorem Sound.blandChoice (h : Sound form s) (hstreak : degenerateStreakLimit ≤ s.degenerateStreak)
    {column : ℕ} {leaving : Leaving ℚ} {r : BasicRow ℚ} (hc : s.enteringColumn = some column)
    (hl : leavingRow s.tableau 0 column = some leaving)
    (hr : s.tableau.rows[leaving.row]? = some r) (hadmits : leaving.Admits 0 column r) :
    BlandChoice s.tableau leaving.row column r := by
  obtain ⟨-, hcost⟩ := lt_reducedCost hc
  have hfirst (j : ℕ) (hj : j < column) := reducedCost_le_of_lt hstreak hc hj
  rw [h.pivot_eq] at hcost hfirst
  obtain ⟨hentry, hbasic, hratio⟩ := hadmits
  refine ⟨hr, hcost, hfirst, hentry, fun i q hq hpos hle ↦ ?_⟩
  rw [← hbasic]
  apply basic_le_of_leavingRow hl hq hpos
  rwa [hratio, h.ratio_eq hq, h.ratio_eq hr]

structure PivotRun (form : StandardForm ℚ) (S : ℕ → Simplex ℚ) (column : ℕ → ℕ)
    (leaving : ℕ → Leaving ℚ) : Prop where
  sound : ∀ n, Sound form (S n)
  entering : ∀ n, (S n).enteringColumn = some (column n)
  leaves : ∀ n, leavingRow (S n).tableau 0 (column n) = some (leaving n)
  step : ∀ n, S (n + 1) = (S n).afterPivot (column n) (leaving n)

namespace PivotRun

variable (h : PivotRun form S column leaving)

include h

theorem objectiveInForce_eq (n : ℕ) : (S n).objectiveInForce = (S 0).objectiveInForce := by
  induction n with
  | zero => rfl
  | succ n ih =>
    rw [h.step, ← ih]
    rfl

theorem represents (n : ℕ) : (ofForm form).Represents (S 0).objectiveInForce (S n).tableau := by
  rw [← h.objectiveInForce_eq n]
  exact (h.sound n).faithful.represents

theorem exists_row (n : ℕ) :
    ∃ r, (S n).tableau.rows[(leaving n).row]? = some r ∧ (leaving n).Admits 0 (column n) r :=
  admits_of_leavingRow (h.leaves n)

theorem objective_rhs_succ (n : ℕ) :
    (S (n + 1)).tableau.objective.rhs = (S n).tableau.objective.rhs -
      (S n).tableau.objective.coefficient (column n) * (leaving n).ratio := by
  rw [h.step]
  exact (h.sound n).objective_rhs_afterPivot (h.leaves n)

theorem objective_rhs_antitone : Antitone fun n ↦ (S n).tableau.objective.rhs := by
  apply antitone_nat_of_succ_le
  intro n
  rw [h.step]
  exact (h.sound n).objective_rhs_afterPivot_le (h.entering n) (h.leaves n)

theorem objective_rhs_eq {n m : ℕ} (hbasis : (S n).tableau.basis = (S m).tableau.basis) :
    (S n).tableau.objective.rhs = (S m).tableau.objective.rhs := by
  have hn := (h.represents n).objective_rhs (h.sound n).priced
  have hm := (h.represents m).objective_rhs (h.sound m).priced
  rw [(h.represents n).basicAssignment_eq (h.represents m) hbasis, ← hm] at hn
  exact neg_injective hn

theorem exists_recurring_basis :
    ∃ basis, ∀ n, ∃ m, n < m ∧ (S m).tableau.basis = basis := by
  apply exists_recurring (A := (range (ofForm form).width).powerset)
  intro n
  rw [mem_powerset, ← (h.represents n).width]
  exact basis_subset (h.represents n).canonical

/-- Once a basis has come up that recurs for ever, the objective stays what it is. -/
theorem ratio_eq_zero {basis : Finset ℕ}
    (hbasis : ∀ n, ∃ m, n < m ∧ (S m).tableau.basis = basis) {a n : ℕ}
    (ha : (S a).tableau.basis = basis) (hn : a ≤ n) : (leaving n).ratio = 0 := by
  obtain ⟨m, hm, hrecurs⟩ := hbasis n
  have hdown := h.objective_rhs_antitone
  have hfirst := hdown hn
  have hlast := hdown (Nat.succ_le_of_lt hm)
  have hsame := h.objective_rhs_eq (ha.trans hrecurs.symm)
  have hstep := h.objective_rhs_succ n
  simp only [Nat.succ_eq_add_one] at hfirst hlast
  have hzero : (S n).tableau.objective.coefficient (column n) * (leaving n).ratio ≤ 0 := by
    linarith
  exact le_antisymm (nonpos_of_mul_nonpos_right hzero ((h.sound n).cost_pos (h.entering n)))
    ((h.sound n).ratio_nonneg (h.leaves n))

theorem degenerateStreak_succ {n : ℕ} (hn : (leaving n).ratio = 0) :
    (S (n + 1)).degenerateStreak = (S n).degenerateStreak + 1 := by
  rw [h.step, Simplex.afterPivot]
  simp only
  rw [hn, (h.sound n).pivot_eq, if_pos le_rfl]

theorem le_degenerateStreak {a : ℕ} (ha : ∀ n, a ≤ n → (leaving n).ratio = 0) (k : ℕ) :
    k ≤ (S (a + k)).degenerateStreak := by
  induction k with
  | zero => exact Nat.zero_le _
  | succ k ih =>
    rw [← Nat.add_assoc, h.degenerateStreak_succ (ha _ (Nat.le_add_right a k))]
    omega

theorem exists_blandRun {b : ℕ} (hratio : ∀ n, b ≤ n → (leaving n).ratio = 0)
    (hstreak : ∀ n, b ≤ n → degenerateStreakLimit ≤ (S n).degenerateStreak) :
    ∃ r, BlandRun (ofForm form) (S 0).objectiveInForce (fun n ↦ (S (b + n)).tableau)
      (fun n ↦ (leaving (b + n)).row) (fun n ↦ column (b + n)) r := by
  choose r hrow hadmits using h.exists_row
  refine ⟨fun n ↦ r (b + n), fun n ↦ h.represents _, fun n ↦ (h.sound _).priced, fun n ↦ ?_,
    fun n ↦ ?_, fun n ↦ ?_⟩
  · exact (h.sound _).blandChoice (hstreak _ (Nat.le_add_right b n)) (h.entering _) (h.leaves _)
      (hrow _) (hadmits _)
  · obtain ⟨hentry, -, heq⟩ := hadmits (b + n)
    rw [hratio _ (Nat.le_add_right b n), (h.sound _).ratio_eq (hrow _)] at heq
    exact (div_eq_zero_iff.mp heq.symm).resolve_right hentry.ne'
  · rw [← Nat.add_assoc, h.step]
    rfl

theorem false : False := by
  obtain ⟨basis, hbasis⟩ := h.exists_recurring_basis
  obtain ⟨a, -, ha⟩ := hbasis 0
  have hratio (n : ℕ) (hn : a ≤ n) : (leaving n).ratio = 0 := h.ratio_eq_zero hbasis ha hn
  obtain ⟨b, hb, hrecurs⟩ := hbasis (a + degenerateStreakLimit)
  obtain ⟨c, hc, hrecurs'⟩ := hbasis b
  have hstreak (n : ℕ) (hn : b ≤ n) : degenerateStreakLimit ≤ (S n).degenerateStreak := by
    have hle := h.le_degenerateStreak hratio (n - a)
    rw [Nat.add_sub_cancel' (by omega)] at hle
    omega
  obtain ⟨r, hbland⟩ := h.exists_blandRun (fun n hn ↦ hratio n (by omega)) hstreak
  apply hbland.basis_ne (n := c - b) (by omega)
  rw [Nat.add_sub_cancel' hc.le]
  exact hrecurs.trans hrecurs'.symm

end PivotRun

theorem Step.pivot_or_restore {t : Simplex ℚ} (h : Step s t) (ht : t.isDone = false) :
    (∃ column leaving, s.enteringColumn = some column ∧
      leavingRow s.tableau s.tolerances.pivot column = some leaving ∧
      t = s.afterPivot column leaving) ∨
    s.phase ≠ .two ∧ t.phase = .two := by
  cases h with
  | pivot hs hc hr => exact .inl ⟨_, _, hc, hr, rfl⟩
  | restore hs => exact .inr ⟨by simp [hs], rfl⟩
  | infeasible | contradictory | optimal | unbounded => cases ht

/-- Steps that never end pass to phase two or never do; after that they only pivot. -/
theorem exists_pivots (hS : ∀ n, Step (S n) (S (n + 1))) :
    ∃ m, ∀ n, ∃ column leaving, (S (m + n)).enteringColumn = some column ∧
      leavingRow (S (m + n)).tableau (S (m + n)).tolerances.pivot column = some leaving ∧
      S (m + (n + 1)) = (S (m + n)).afterPivot column leaving := by
  have hcases (n : ℕ) := (hS n).pivot_or_restore (hS (n + 1)).isDone_eq
  by_cases htwo : ∃ m, (S m).phase = .two
  · obtain ⟨m, hm⟩ := htwo
    have hphase (n : ℕ) : (S (m + n)).phase = .two := by
      induction n with
      | zero => exact hm
      | succ n ih =>
        rcases hcases (m + n) with ⟨column, leaving, -, -, he⟩ | ⟨hne, -⟩
        · rw [← Nat.add_assoc, he]
          exact ih
        · exact absurd ih hne
    exact ⟨m, fun n ↦ (hcases (m + n)).resolve_right fun hne ↦ hne.1 (hphase n)⟩
  · refine ⟨0, fun n ↦ ?_⟩
    rw [Nat.zero_add, Nat.zero_add]
    exact (hcases n).resolve_right fun hne ↦ htwo ⟨n + 1, hne.2⟩

theorem Sound.exists_not_step (h : Sound form (S 0)) (hshaped : form.Shaped) :
    ∃ n, ¬ Step (S n) (S (n + 1)) := by
  by_contra hnever
  have hS (n : ℕ) : Step (S n) (S (n + 1)) := by
    by_contra hn
    exact hnever ⟨n, hn⟩
  have hsound (n : ℕ) : Sound form (S n) := by
    induction n with
    | zero => exact h
    | succ n ih => exact ih.step hshaped (hS n)
  obtain ⟨m, hpivots⟩ := exists_pivots hS
  choose column leaving hc hl hstep using hpivots
  have hrun : PivotRun form (fun n ↦ S (m + n)) column leaving := by
    refine ⟨fun n ↦ hsound _, hc, fun n ↦ ?_, hstep⟩
    rw [← (hsound (m + n)).pivot_eq]
    exact hl n
  exact hrun.false

def advance (s : Simplex ℚ) : Simplex ℚ := Logged.turnWhile (fun s ↦ !s.isDone) turn s

theorem advance_of_done {s : Simplex ℚ} (hd : s.isDone = true) : s.advance = s :=
  Logged.turnWhile_of_not turn (by simp [hd])

theorem advance_step {s : Simplex ℚ} (hd : s.isDone = false) : Step s s.advance := by
  have hturn : s.advance = s.turn.value := Logged.turnWhile_of turn (by simp [hd])
  rw [hturn]
  exact turn_step hd

theorem iterate_advance_steps (s : Simplex ℚ) (n : ℕ) :
    Relation.ReflTransGen Step s (advance^[n] s) := by
  induction n with
  | zero => exact .refl
  | succ n ih =>
    rw [Function.iterate_succ_apply']
    cases hd : (advance^[n] s).isDone with
    | true => rwa [advance_of_done hd]
    | false => exact ih.tail (advance_step hd)

theorem Sound.exists_isDone {s : Simplex ℚ} (h : Sound form s) (hshaped : form.Shaped) :
    ∃ n, (advance^[n] s).isDone = true := by
  obtain ⟨n, hn⟩ := Sound.exists_not_step (S := fun n ↦ advance^[n] s) h hshaped
  refine ⟨n, ?_⟩
  by_contra hd
  rw [Function.iterate_succ_apply'] at hn
  exact hn (advance_step (Bool.not_eq_true _ ▸ hd))

theorem iterate_advance_of_le {s : Simplex ℚ} {n m : ℕ} (hd : (advance^[n] s).isDone = true)
    (hle : n ≤ m) : advance^[m] s = advance^[n] s := by
  obtain ⟨k, rfl⟩ := Nat.exists_eq_add_of_le' hle
  rw [Function.iterate_add_apply]
  exact Function.iterate_fixed (advance_of_done hd) k

theorem exists_iterate_run (s : Simplex ℚ) (budget : ℕ) (d : Deadline) :
    ∃ n, (s.run budget d).value.1 = advance^[n] s ∧
      (s.run budget d).value.1.iterations ≤ s.iterations + n := by
  refine run_invariant (P := fun r ↦ ∃ n, r.1 = advance^[n] s ∧ r.1.iterations ≤ s.iterations + n)
    (fun r hr hP ↦ ?_) ⟨0, rfl, Nat.le_refl _⟩
  obtain ⟨n, hn, hle⟩ := hP
  obtain ⟨hd, -⟩ := goesOn_eq_true.mp hr
  refine ⟨n + 1, ?_, ?_⟩
  · rw [Function.iterate_succ_apply', ← hn]
    exact (Logged.turnWhile_of turn (by simp [hd])).symm
  · rcases (turn_step hd).pivots_or_passes with ⟨hiter, -⟩ | ⟨hiter, -⟩ <;> dsimp only <;> omega

/-- With exact comparison a run that no time limit cuts short ends after some number of pivots, and
a larger budget makes no difference. -/
theorem run_terminates (p : Problem ℚ) (config : SolveConfig ℚ) (clock : Clock) (looks : ℕ) :
    let s := (start p config .exact).value
    let d : Deadline := { limit := none, clock, looks }
    ∃ n, (s.run n d).value.1.isDone = true ∧
      ∀ budget, n ≤ budget → (s.run budget d).value.1 = (s.run n d).value.1 := by
  intro s d
  have hlimit : d.limit = none := rfl
  obtain ⟨n, hn⟩ :=
    (sound_start p config).exists_isDone (StandardForm.shaped_ofProblem p config.presolve 0)
  have hdone : (s.run n d).value.1.isDone = true := by
    obtain ⟨m, hm, hle⟩ := exists_iterate_run s n d
    rcases isDone_or_iterations_run hlimit s n with hd | hiter
    · exact hd
    · rw [hm, iterate_advance_of_le hn (by omega)]
      exact hn
  refine ⟨n, hdone, fun budget hle ↦ ?_⟩
  obtain ⟨k, rfl⟩ := Nat.exists_eq_add_of_le hle
  rw [← run_add hlimit, value_run, iterateWhile_of_done hdone]

end Simplex

end LinProg
