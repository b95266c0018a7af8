import Mathlib.Algebra.BigOperators.Group.List.Basic
import Mathlib.Algebra.Order.Ring.Rat
import Mathlib.Data.Rat.Floor
import Mathlib.Tactic.Linarith
import LinProg.Simplex

namespace LinProg.Scalar

theorem sum_rat (xs : List ℚ) : Scalar.sum xs = xs.sum := by
  rw [Scalar.sum, List.sum_eq_foldl]
  exact congrArg (fun z ↦ xs.foldl (· + ·) z) neg_zero

theorem abs_rat (x : ℚ) : Scalar.abs x = |x| := by
  change Rat.abs x = |x|
  unfold Rat.abs
  split_ifs with h
  · exact (abs_of_nonneg h).symm
  · exact (abs_of_neg (lt_of_not_ge h)).symm

theorem positivePart_rat (x : ℚ) : Scalar.positivePart x = max 0 x := by
  unfold Scalar.positivePart
  split_ifs with h
  · exact (max_eq_right h.le).symm
  · exact (max_eq_left (le_of_not_gt h)).symm

theorem floor_le (x : ℚ) : Scalar.floor x ≤ x := Rat.floor_le x

theorem le_ceil (x : ℚ) : x ≤ Scalar.ceil x := Rat.le_ceil

theorem intCast_le_floor_or_ceil_le (z : ℤ) (x : ℚ) :
    (z : ℚ) ≤ Scalar.floor x ∨ Scalar.ceil x ≤ z := by
  rcases le_total (z : ℚ) x with h | h
  · exact .inl (Rat.intCast_le_intCast.mpr (Rat.le_floor_iff.mpr h))
  · exact .inr (Rat.intCast_le_intCast.mpr (Rat.ceil_le_iff.mpr h))

theorem round_rat (x : ℚ) : ∃ z : ℤ, Scalar.round x = z := by
  change ∃ z : ℤ, roundRat x = z
  unfold roundRat
  split_ifs
  · exact ⟨_, rfl⟩
  · exact ⟨_, rfl⟩

theorem round_intCast (z : ℤ) : Scalar.round (z : ℚ) = z := by
  change roundRat (z : ℚ) = z
  unfold roundRat
  split_ifs with h
  · have hfloor : (z + 1 / 2 : ℚ).floor = z := by
      apply le_antisymm
      · rw [← Int.lt_add_one_iff, Rat.floor_lt_iff]
        push_cast
        linarith
      · rw [Rat.le_floor_iff]
        linarith
    rw [hfloor]
  · have hceil : (z - 1 / 2 : ℚ).ceil = z := by
      apply le_antisymm
      · rw [Rat.ceil_le_iff]
        linarith
      · rw [Int.le_iff_lt_add_one, ← sub_lt_iff_lt_add, Rat.lt_ceil_iff]
        push_cast
        linarith
    rw [hceil]

theorem round_round (x : ℚ) : Scalar.round (Scalar.round x) = Scalar.round x := by
  obtain ⟨z, hz⟩ := round_rat x
  rw [hz, round_intCast]

end LinProg.Scalar

namespace LinProg.Tolerances

theorem standard_pivot_pos : 0 < (Tolerances.standard : Tolerances ℚ).pivot := by decide +kernel

theorem standard_feasibility_pos : 0 < (Tolerances.standard : Tolerances ℚ).feasibility := by
  decide +kernel

end LinProg.Tolerances
