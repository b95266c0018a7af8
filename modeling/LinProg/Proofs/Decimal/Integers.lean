import Mathlib.Algebra.Order.Field.Rat
import Mathlib.Data.Rat.Cast.Order
import LinProg.Decimal.Binary64

namespace LinProg.Binary64

theorem toRat?_of_magnitude? {x : Float} {d : Dyadic} (h : magnitude? x = some d) :
    toRat? x = some (if isNegative x then -(d.significand * (2 : ℚ) ^ d.exponent)
      else d.significand * (2 : ℚ) ^ d.exponent) := by
  rw [toRat?, h]
  cases isNegative x <;> rfl

theorem dyadic_eq_div (s : ℕ) (e : ℤ) :
    (s : ℚ) * 2 ^ e = (s * 2 ^ e.toNat : ℕ) / (2 ^ (-e).toNat : ℕ) := by
  rcases le_total 0 e with he | he
  · obtain ⟨k, rfl⟩ := Int.eq_ofNat_of_zero_le he
    simp
  · obtain ⟨k, hk⟩ := Int.eq_ofNat_of_zero_le (Int.neg_nonneg_of_nonpos he)
    obtain rfl : e = -(k : ℤ) := by omega
    simp [zpow_neg, div_eq_mul_inv]

theorem dyadic_eq_intCast (s : ℕ) (e n : ℤ) : (s : ℚ) * 2 ^ e = n ↔
    s % 2 ^ (-e).toNat = 0 ∧ ((s / 2 ^ (-e).toNat * 2 ^ e.toNat : ℕ) : ℤ) = n := by
  have hunit : 0 < 2 ^ (-e).toNat := Nat.two_pow_pos _
  have hcast : (s : ℚ) * 2 ^ e = n ↔ ((s * 2 ^ e.toNat : ℕ) : ℤ) = n * (2 ^ (-e).toNat : ℕ) := by
    rw [dyadic_eq_div, div_eq_iff (Nat.cast_ne_zero.mpr hunit.ne')]
    exact_mod_cast Iff.rfl
  rw [hcast]
  rcases le_total 0 e with he | he
  · have hzero : (-e).toNat = 0 := by omega
    simp [hzero, Nat.mod_one]
  · have hzero : e.toNat = 0 := by omega
    rw [hzero, pow_zero, mul_one, mul_one]
    generalize 2 ^ (-e).toNat = unit at hunit
    constructor
    · intro h
      have hdvd : unit ∣ s := Int.natCast_dvd_natCast.mp ⟨n, by rw [h, mul_comm]⟩
      obtain ⟨k, rfl⟩ := hdvd
      rw [Nat.mul_div_cancel_left k hunit]
      refine ⟨Nat.mul_mod_right .., ?_⟩
      rw [Nat.cast_mul, mul_comm] at h
      exact mul_right_cancel₀ (Nat.cast_ne_zero.mpr hunit.ne') h
    · rintro ⟨hmod, rfl⟩
      rw [← Nat.cast_mul, Nat.div_mul_cancel (Nat.dvd_of_mod_eq_zero hmod)]

theorem toInt?_eq_some {x : Float} {n : ℤ} : toInt? x = some n ↔ toRat? x = some (n : ℚ) := by
  cases h : magnitude? x with
  | none => simp [toInt?, toRat?, h]
  | some d =>
    rw [toRat?_of_magnitude? h, Option.some_inj]
    have hint : toInt? x = if d.significand % 2 ^ (-d.exponent).toNat = 0 then
        some (if isNegative x then
          -((d.significand / 2 ^ (-d.exponent).toNat * 2 ^ d.exponent.toNat : ℕ) : ℤ)
          else (d.significand / 2 ^ (-d.exponent).toNat * 2 ^ d.exponent.toNat : ℕ)) else none := by
      simp only [toInt?, h, Option.bind_eq_bind, Option.bind_some, Nat.pow_eq, ne_eq, ite_not]
      rfl
    rw [hint, Option.ite_none_right_eq_some, Option.some_inj]
    cases isNegative x with
    | false => exact (dyadic_eq_intCast ..).symm
    | true =>
      have hneg := dyadic_eq_intCast d.significand d.exponent (-n)
      simp only [if_true]
      rw [neg_eq_iff_eq_neg, neg_eq_iff_eq_neg, ← Int.cast_neg, hneg]

end LinProg.Binary64
