import LinProg.Proofs.Tableau.Basis
import LinProg.Proofs.Tableau.ReducedCosts

namespace LinProg.Tableau

open Finset

/-- A row and a column that Bland's rule may choose. -/
structure BlandChoice (t : Tableau ℚ) (row column : ℕ) (r : BasicRow ℚ) : Prop where
  row_eq : t.rows[row]? = some r
  cost_pos : 0 < t.objective.coefficient column
  cost_nonpos : ∀ j < column, t.objective.coefficient j ≤ 0
  entry_pos : 0 < r.equation.coefficient column
  basic_le : ∀ (i : ℕ) (q : BasicRow ℚ), t.rows[i]? = some q → 0 < q.equation.coefficient column →
    q.equation.rhs / q.equation.coefficient column ≤
      r.equation.rhs / r.equation.coefficient column →
    r.basic ≤ q.basic

variable {t₀ : Tableau ℚ} {value : (ℕ → ℚ) → ℚ} {T : ℕ → Tableau ℚ} {row column : ℕ → ℕ}
  {r : ℕ → BasicRow ℚ}

/-- A sequence of degenerate pivots that follow Bland's rule. -/
structure BlandRun (t₀ : Tableau ℚ) (value : (ℕ → ℚ) → ℚ) (T : ℕ → Tableau ℚ) (row column : ℕ → ℕ)
    (r : ℕ → BasicRow ℚ) : Prop where
  represents : ∀ n, Represents t₀ value (T n)
  priced : ∀ n, (T n).Priced
  choice : ∀ n, BlandChoice (T n) (row n) (column n) (r n)
  degenerate : ∀ n, (r n).equation.rhs = 0
  pivot : ∀ n, T (n + 1) = (T n).pivot (row n) (column n)

namespace BlandRun

variable (h : BlandRun t₀ value T row column r)

include h

theorem mem_basis_succ (n : ℕ) {j : ℕ} :
    j ∈ (T (n + 1)).basis ↔ j = column n ∨ j ∈ (T n).basis ∧ j ≠ (r n).basic := by
  rw [h.pivot]
  exact mem_basis_pivot (h.represents n).canonical (h.choice n).row_eq

theorem column_not_mem (n : ℕ) : column n ∉ (T n).basis :=
  (h.priced n).not_mem_basis (h.choice n).cost_pos.ne'

theorem basic_mem (n : ℕ) : (r n).basic ∈ (T n).basis :=
  mem_basis.mpr ⟨row n, r n, (h.choice n).row_eq, rfl⟩

theorem basicAssignment_eq (n : ℕ) : (T n).basicAssignment = (T 0).basicAssignment := by
  induction n with
  | zero => rfl
  | succ n ih =>
    rw [h.pivot, basicAssignment_pivot (h.represents n).canonical (h.choice n).row_eq
      (h.choice n).entry_pos.ne' (h.degenerate n), ih]

theorem exists_enters {m n m' j : ℕ} (hcycle : (T 0).basis = (T n).basis) (hm : m ≤ n)
    (hm' : m' ≤ n) (hj : j ∈ (T m).basis) (hj' : j ∉ (T m').basis) : ∃ k < n, column k = j := by
  by_contra hnever
  have hback (k : ℕ) (hk : k < n) (hmem : j ∈ (T (k + 1)).basis) : j ∈ (T k).basis := by
    rcases (h.mem_basis_succ k).mp hmem with he | hmem
    · exact absurd ⟨k, hk, he.symm⟩ hnever
    · exact hmem.1
  have hdown (a b : ℕ) (hab : a ≤ b) (hb : b ≤ n) : j ∈ (T b).basis → j ∈ (T a).basis := by
    induction b, hab using Nat.le_induction with
    | base => exact id
    | succ b _ ih => exact fun hmem ↦ ih (by omega) (hback b (by omega) hmem)
  apply hj'
  apply hdown m' n hm' le_rfl
  rw [← hcycle]
  exact hdown 0 m (Nat.zero_le m) hm hj

theorem exists_leaves {m n m' j : ℕ} (hcycle : (T 0).basis = (T n).basis) (hm : m ≤ n)
    (hm' : m' ≤ n) (hj : j ∈ (T m).basis) (hj' : j ∉ (T m').basis) : ∃ k < n, (r k).basic = j := by
  by_contra hnever
  have hkeep (k : ℕ) (hk : k < n) (hmem : j ∈ (T k).basis) : j ∈ (T (k + 1)).basis := by
    rw [h.mem_basis_succ]
    exact .inr ⟨hmem, fun he ↦ hnever ⟨k, hk, he.symm⟩⟩
  have hup (a b : ℕ) (hab : a ≤ b) (hb : b ≤ n) : j ∈ (T a).basis → j ∈ (T b).basis := by
    induction b, hab using Nat.le_induction with
    | base => exact id
    | succ b _ ih => exact fun hmem ↦ hkeep b (by omega) (ih (by omega) hmem)
  apply hj'
  apply hup 0 m' (Nat.zero_le m') hm'
  rw [hcycle]
  exact hup m n hm le_rfl hj

/-- The last variable that enters during a cycle leaves at some time of it, for an earlier one. -/
theorem exists_last_entering {n : ℕ} (hn : 0 < n) (hcycle : (T 0).basis = (T n).basis) :
    ∃ enters < n, ∃ leaves < n, (∀ k < n, column k ≤ column enters) ∧
      (r leaves).basic = column enters ∧ column leaves < column enters := by
  obtain ⟨enters, henters, hlast⟩ :=
    exists_max_image (range n) column ⟨0, mem_range.mpr hn⟩
  rw [mem_range] at henters
  have hout : column enters ∉ (T enters).basis := h.column_not_mem enters
  have hin : column enters ∈ (T (enters + 1)).basis := (h.mem_basis_succ enters).mpr (.inl rfl)
  obtain ⟨leaves, hleaves, hq⟩ := h.exists_leaves hcycle henters henters.le hin hout
  refine ⟨enters, henters, leaves, hleaves, fun k hk ↦ hlast k (mem_range.mpr hk), hq, ?_⟩
  apply lt_of_le_of_ne (hlast leaves (mem_range.mpr hleaves))
  intro he
  apply h.column_not_mem leaves
  rw [he, ← hq]
  exact h.basic_mem leaves

/-- The reduced costs of the two times, compared at the variable that comes in for the last one,
show a row whose basic variable has a cost at the other time. -/
theorem exists_other_row {enters leaves : ℕ} (hq : (r leaves).basic = column enters)
    (hother : column leaves < column enters) :
    ∃ (i : ℕ) (q : BasicRow ℚ), (T leaves).rows[i]? = some q ∧ q.basic ≠ column enters ∧
      (T enters).objective.coefficient q.basic * q.equation.coefficient (column leaves) < 0 := by
  obtain ⟨i, q, hrow, hi⟩ := (h.represents leaves).exists_mul_neg (h.priced leaves)
    (h.represents enters) (h.choice leaves).cost_pos ((h.choice enters).cost_nonpos _ hother)
  refine ⟨i, q, hrow, fun he ↦ ?_, hi⟩
  have hpos := mul_pos (h.choice enters).cost_pos (h.choice leaves).entry_pos
  have hsame : i = row leaves := (h.represents leaves).canonical.basic_injective hrow
    (h.choice leaves).row_eq (he.trans hq.symm)
  have hqr : q = r leaves := by
    have hr := (h.choice leaves).row_eq
    rw [← hsame, hrow] at hr
    exact Option.some_inj.mp hr
  rw [he, hqr] at hi
  linarith

/-- The variable of the other row comes before the last one, and its row has the ratio zero: the
ratio test should have preferred it. -/
theorem basis_ne {n : ℕ} (hn : 0 < n) : (T 0).basis ≠ (T n).basis := by
  intro hcycle
  obtain ⟨enters, henters, leaves, hleaves, hlast, hq, hother⟩ := h.exists_last_entering hn hcycle
  obtain ⟨i, q, hrow, hne, hi⟩ := h.exists_other_row hq hother
  have hmem : q.basic ∈ (T leaves).basis := mem_basis.mpr ⟨i, q, hrow, rfl⟩
  have hnot : q.basic ∉ (T enters).basis :=
    (h.priced enters).not_mem_basis (left_ne_zero_of_mul hi.ne)
  have hearlier : q.basic < column enters := by
    obtain ⟨k, hk, hkq⟩ := h.exists_enters hcycle hleaves.le henters.le hmem hnot
    have hle := hlast k hk
    rw [hkq] at hle
    exact lt_of_le_of_ne hle hne
  have hentry : 0 < q.equation.coefficient (column leaves) :=
    pos_of_mul_neg_right hi ((h.choice enters).cost_nonpos _ hearlier)
  have hzero : q.equation.rhs = 0 := by
    rw [← basicAssignment_basic (h.represents leaves).canonical hrow, h.basicAssignment_eq leaves,
      ← h.basicAssignment_eq enters, basicAssignment_of_not_mem hnot]
  have hle := (h.choice leaves).basic_le i q hrow hentry (by
    rw [hzero, h.degenerate leaves, zero_div, zero_div])
  omega

end BlandRun

end LinProg.Tableau
