import Mathlib.Tactic.LinearCombination
import LinProg.Decimal.Shortest
import LinProg.Proofs.Decimal.Rounding

namespace LinProg

namespace Decimal

def value (d : Decimal) : ℚ := d.digits * 10 ^ d.exponent

theorem value_strip (fuel : ℕ) (d : Decimal) : (strip fuel d).value = d.value := by
  induction fuel generalizing d with
  | zero => rfl
  | succ fuel ih =>
    rw [strip]
    split_ifs with h
    · rw [ih, value, value, zpow_add_one₀ (by norm_num)]
      obtain ⟨n, hn⟩ := Nat.dvd_of_mod_eq_zero h
      dsimp only
      rw [hn, Nat.mul_div_cancel_left n (by norm_num)]
      push_cast
      ring
    · rfl

theorem exponent_le_strip (fuel : ℕ) (d : Decimal) : d.exponent ≤ (strip fuel d).exponent := by
  induction fuel generalizing d with
  | zero => exact le_rfl
  | succ fuel ih =>
    rw [strip]
    split_ifs with h
    · exact (Int.le_add_one le_rfl).trans (ih _)
    · exact le_rfl

/-- The unit and the denominator of the grid test: a quarter of the last binary place, measured in
steps of the grid. -/
theorem grid_unit (e k : ℤ) :
    ((2 ^ (e - 2).toNat * 10 ^ (-k).toNat : ℕ) : ℚ) * 10 ^ k =
      2 ^ e / 4 * (2 ^ (2 - e).toNat * 10 ^ k.toNat : ℕ) := by
  have h := zpow_eq_div_toNat (b := 2) (by norm_num) (e - 2)
  rw [zpow_sub₀ two_ne_zero, neg_sub] at h
  rw [zpow_eq_div_toNat (by norm_num) k]
  norm_num at h
  rw [h]
  push_cast
  field_simp

section Grid

variable {d : Dyadic} {k : ℤ} {n den y : ℕ} {r : ℚ}

theorem le_grid_iff (hden : 0 < den) (h : (n : ℚ) * 10 ^ k = r * den) :
    n ≤ y * den ↔ r ≤ y * 10 ^ k := by
  have hden' : (0 : ℚ) < den := by exact_mod_cast hden
  have hpow : (0 : ℚ) < 10 ^ k := by positivity
  rw [← mul_le_mul_iff_left₀ hden', ← h, mul_right_comm, mul_le_mul_iff_left₀ hpow]
  norm_cast

theorem grid_le_iff (hden : 0 < den) (h : (n : ℚ) * 10 ^ k = r * den) :
    y * den ≤ n ↔ y * 10 ^ k ≤ r := by
  have hden' : (0 : ℚ) < den := by exact_mod_cast hden
  have hpow : (0 : ℚ) < 10 ^ k := by positivity
  rw [← mul_le_mul_iff_left₀ hden', ← h, mul_right_comm, mul_le_mul_iff_left₀ hpow]
  norm_cast

end Grid

theorem onGrid?_covers {tie : Tie} {d : Dyadic} (hd : d.Normal) {k : ℤ} {x : Decimal}
    (h : onGrid? tie d k = some x) : d.Covers x.value ∧ x.exponent = k := by
  have hunit := grid_unit d.exponent k
  have hden : 0 < 2 ^ (2 - d.exponent).toNat * 10 ^ k.toNat := by positivity
  unfold onGrid? at h
  extract_lets m unit den value narrow low high inside down rest nearer farther at h
  change (unit : ℚ) * 10 ^ k = 2 ^ d.exponent / 4 * den at hunit
  change 0 < den at hden
  have hlow : (low : ℚ) * 10 ^ k = (m - d.halfBelow) * 2 ^ d.exponent * den := by
    have hm : 1 ≤ m := hd.pos
    have hnarrow : d.halfBelow = ((if narrow then 1 else 2 : ℕ) : ℚ) / 4 := by
      simp only [Dyadic.halfBelow, narrow, m, decide_eq_true_eq]
      split_ifs <;> norm_num
    have hle : (if narrow then 1 else 2) * unit ≤ value :=
      Nat.mul_le_mul_right unit (by split_ifs <;> omega)
    rw [hnarrow]
    -- the subtraction is one of natural numbers, and does not fall short
    simp only [low]
    generalize (if narrow then 1 else 2) = c at hle ⊢
    rw [Nat.cast_sub hle]
    simp only [value]
    push_cast
    linear_combination (4 * (m : ℚ) - c) * hunit
  have hhigh : (high : ℚ) * 10 ^ k = (m + 1 / 2) * 2 ^ d.exponent * den := by
    simp only [high, value]
    push_cast
    linear_combination (4 * (m : ℚ) + 2) * hunit
  have hinside : ∀ y : ℕ, inside y = true → d.Covers (y * 10 ^ k) := by
    intro y hy
    simp only [inside] at hy
    split_ifs at hy with heven
    · obtain ⟨hge, hle⟩ := of_decide_eq_true hy
      exact ⟨(le_grid_iff hden hlow).mp hge, (grid_le_iff hden hhigh).mp hle, fun hodd ↦
        absurd hodd (by dsimp only [m] at heven; omega)⟩
    · obtain ⟨hge, hle⟩ := of_decide_eq_true hy
      have hge' := lt_of_not_ge fun h ↦ hge.not_ge ((grid_le_iff hden hlow).mpr h)
      have hle' := lt_of_not_ge fun h ↦ hle.not_ge ((le_grid_iff hden hhigh).mpr h)
      exact ⟨hge'.le, hle'.le, fun _ ↦ ⟨hge', hle'⟩⟩
  split_ifs at h with hnearer hfarther
  · obtain rfl := Option.some.inj h
    exact ⟨hinside nearer hnearer, rfl⟩
  · obtain rfl := Option.some.inj h
    exact ⟨hinside farther hfarther, rfl⟩

theorem neighbour_bounds {value den down rest n : ℕ} (hsplit : den * down + rest = value)
    (h : n = down ∧ 2 * rest ≤ den ∨ n = down + 1 ∧ den ≤ 2 * rest) (hrest : rest < den) :
    value ≤ n * den + den / 2 ∧ n * den ≤ value + den / 2 := by
  rw [mul_comm] at hsplit
  rcases h with ⟨rfl, hhalf⟩ | ⟨rfl, hhalf⟩
  · omega
  · rw [Nat.succ_mul]
    omega

theorem onGrid?_isSome (tie : Tie) {d : Dyadic} (hd : d.Normal) {k : ℤ}
    (h : 2 * (10 : ℚ) ^ k < 2 ^ d.exponent) : (onGrid? tie d k).isSome = true := by
  have hunit := grid_unit d.exponent k
  have hden : 0 < 2 ^ (2 - d.exponent).toNat * 10 ^ k.toNat := by positivity
  unfold onGrid?
  extract_lets m unit den value narrow low high inside down rest nearer farther
  change (unit : ℚ) * 10 ^ k = 2 ^ d.exponent / 4 * den at hunit
  change 0 < den at hden
  have hfine : den < 2 * unit := by
    have hden' : (0 : ℚ) < den := by exact_mod_cast hden
    have hpow : (0 : ℚ) < 10 ^ k := by positivity
    have : (den : ℚ) * 10 ^ k < 2 * unit * 10 ^ k := by nlinarith
    exact_mod_cast lt_of_mul_lt_mul_right this hpow.le
  have hvalue : 4 * unit ≤ value := Nat.mul_le_mul_right unit (Nat.le_mul_of_pos_right 4 hd.pos)
  have hlow : low ≤ value - unit := by
    refine Nat.sub_le_sub_left (Nat.le_mul_of_pos_left unit ?_) value
    split_ifs <;> norm_num
  have hcases : nearer = down ∧ 2 * rest ≤ den ∨ nearer = down + 1 ∧ den ≤ 2 * rest := by
    simp only [nearer]
    split_ifs with hlt hgt heven
    · exact .inl ⟨rfl, hlt.le⟩
    · exact .inr ⟨rfl, hgt.le⟩
    · cases tie with
      | toEven => exact .inl ⟨rfl, not_lt.mp hgt⟩
      | up => exact .inr ⟨rfl, not_lt.mp hlt⟩
    · cases tie with
      | toEven => exact .inr ⟨rfl, not_lt.mp hlt⟩
      | up => exact .inr ⟨rfl, not_lt.mp hlt⟩
  obtain ⟨hvalue_le, hle_value⟩ :=
    neighbour_bounds (Nat.div_add_mod value den) hcases (Nat.mod_lt value hden)
  have hinside : inside nearer = true := by
    have hstrict : low < nearer * den ∧ nearer * den < high := by
      simp only [high]
      clear_value nearer low value den unit
      omega
    simp only [inside]
    split_ifs
    · exact decide_eq_true ⟨hstrict.1.le, hstrict.2.le⟩
    · exact decide_eq_true hstrict
  rw [if_pos hinside]
  rfl

theorem search_hits {tie : Tie} {d : Dyadic} {fuel : ℕ} {k : ℤ} {j : ℕ} (hj : j < fuel)
    (h : (onGrid? tie d (k - j)).isSome = true) :
    ∃ i < fuel, onGrid? tie d (k - i) = some (search tie d fuel k) := by
  induction fuel generalizing k j with
  | zero => exact absurd hj (Nat.not_lt_zero j)
  | succ fuel ih =>
    rw [search]
    cases hk : onGrid? tie d k with
    | some x => exact ⟨0, Nat.succ_pos fuel, by simpa using hk⟩
    | none =>
      have hpos : j ≠ 0 := by
        rintro rfl
        simp [hk] at h
      obtain ⟨j, rfl⟩ := Nat.exists_eq_succ_of_ne_zero hpos
      obtain ⟨i, hi, hx⟩ := ih (Nat.lt_of_succ_lt_succ hj)
        (by rwa [show k - 1 - (j : ℤ) = k - (j.succ : ℕ) by push_cast; ring])
      refine ⟨i + 1, Nat.succ_lt_succ hi, ?_⟩
      rwa [show k - ((i + 1 : ℕ) : ℤ) = k - 1 - i by push_cast; ring]

/-- Over the exponents of doubles, `30103 / 100000` is the decimal logarithm of two up to a bit. -/
theorem ten_zpow_le_two_zpow {k n : ℤ} (hlow : -1074 ≤ n) (hhigh : n ≤ 1023)
    (h : k * 100000 ≤ n * 30103) : (10 : ℚ) ^ (k - 3) ≤ 2 ^ n := by
  by_cases hk : 3 ≤ k
  · obtain ⟨j, hj⟩ := Int.eq_ofNat_of_zero_le (show 0 ≤ k - 3 by omega)
    obtain ⟨n, rfl⟩ := Int.eq_ofNat_of_zero_le (show 0 ≤ n by omega)
    rw [hj]
    exact_mod_cast ten_pow_le_two_pow (by omega)
  · obtain ⟨j, hj⟩ := Int.eq_ofNat_of_zero_le (show 0 ≤ -(k - 3) by omega)
    rw [← neg_neg (k - 3), hj, zpow_neg, zpow_natCast]
    rcases le_total 0 n with hn | hn
    · exact (inv_le_one_of_one_le₀ (one_le_pow₀ (by norm_num))).trans (one_le_zpow₀ one_le_two hn)
    · obtain ⟨i, hi⟩ := Int.eq_ofNat_of_zero_le (show 0 ≤ -n by omega)
      rw [← neg_neg n, hi, zpow_neg, zpow_natCast]
      refine inv_anti₀ (by positivity) ?_
      exact_mod_cast two_pow_le_ten_pow (by omega)

theorem reaches_iff (d : Dyadic) (k : ℤ) :
    10 ^ k.toNat * 2 ^ (-d.exponent).toNat ≤
      d.significand * 2 ^ d.exponent.toNat * 10 ^ (-k).toNat ↔ (10 : ℚ) ^ k ≤ d.value := by
  rw [Dyadic.value, zpow_eq_div_toNat (by norm_num) k, zpow_eq_div_toNat two_ne_zero d.exponent,
    mul_div_assoc', div_le_div_iff₀ (by positivity) (by positivity)]
  norm_cast

theorem two_zpow_le_value {d : Dyadic} (hd : d.Normal) :
    (2 : ℚ) ^ (d.significand.log2 + d.exponent) ≤ d.value := by
  have hlog : (2 : ℚ) ^ d.significand.log2 ≤ d.significand := by
    exact_mod_cast Nat.log2_self_le hd.pos.ne'
  rw [zpow_add₀ two_ne_zero, zpow_natCast]
  exact mul_le_mul_of_nonneg_right hlog (by positivity)

theorem magnitudeOf_spec {d : Dyadic} (hd : d.Normal) :
    -325 ≤ magnitudeOf d ∧ (10 : ℚ) ^ (magnitudeOf d - 2) ≤ d.value := by
  have hvalue := two_zpow_le_value hd
  have hlog : d.significand.log2 < 53 := (Nat.log2_lt hd.pos.ne').mpr hd.lt
  have hleast : -1074 ≤ d.exponent := hd.least
  have hmost := hd.most
  have hmono : ∀ {m n : ℤ}, m ≤ n → (10 : ℚ) ^ m ≤ 10 ^ n :=
    zpow_le_zpow_right₀ (by norm_num)
  unfold magnitudeOf
  extract_lets reaches k
  have hk : k = (d.significand.log2 + d.exponent) * 30103 / 100000 :=
    Int.fdiv_eq_ediv_of_nonneg _ (by decide)
  have hreaches : ∀ j, reaches j = true ↔ (10 : ℚ) ^ j ≤ d.value := fun j ↦
    decide_eq_true_iff.trans (reaches_iff d j)
  clear_value k reaches
  simp only [hreaches]
  split_ifs with hnext hthis
  · exact ⟨by omega, (hmono (by omega)).trans hnext⟩
  · exact ⟨by omega, (hmono (by omega)).trans hthis⟩
  · rw [sub_sub, show (1 + 2 : ℤ) = 3 by norm_num]
    exact ⟨by omega, (ten_zpow_le_two_zpow (by omega) (by omega) (by omega)).trans hvalue⟩

/-- The shortest decimal lies among the fractions nearest to the double, twenty grids below its
first digit at most. -/
theorem shortest_covers (tie : Tie) {d : Dyadic} (hd : d.Normal) :
    d.Covers (shortest tie d).value ∧ -344 ≤ (shortest tie d).exponent := by
  obtain ⟨hlow, hvalue⟩ := magnitudeOf_spec hd
  have hfine : 2 * (10 : ℚ) ^ (magnitudeOf d - (19 : ℕ)) < 2 ^ d.exponent := by
    have hm : (d.significand : ℚ) < 2 ^ 53 := by
      exact_mod_cast (show d.significand < 2 ^ 53 from hd.lt)
    have hpow : (0 : ℚ) < 2 ^ d.exponent := by positivity
    calc 2 * (10 : ℚ) ^ (magnitudeOf d - (19 : ℕ))
        = 2 / 10 ^ 17 * 10 ^ (magnitudeOf d - 2) := by
          rw [show magnitudeOf d - (19 : ℕ) = magnitudeOf d - 2 - (17 : ℕ) by push_cast; ring,
            zpow_sub₀ (by norm_num) _ ((17 : ℕ) : ℤ), zpow_natCast]
          ring
      _ ≤ 2 / 10 ^ 17 * (d.significand * 2 ^ d.exponent) :=
        mul_le_mul_of_nonneg_left hvalue (by norm_num)
      _ < 1 * 2 ^ d.exponent := by
        rw [← mul_assoc]
        refine mul_lt_mul_of_pos_right ?_ hpow
        rw [div_mul_eq_mul_div, div_lt_one (by norm_num)]
        linarith
      _ = 2 ^ d.exponent := one_mul _
  obtain ⟨i, hi, hx⟩ := search_hits (j := 19) (by decide : 19 < 20) (onGrid?_isSome tie hd hfine)
  obtain ⟨hcovers, hexponent⟩ := onGrid?_covers hd hx
  rw [shortest, if_neg hd.pos.ne', value_strip]
  refine ⟨hcovers, le_trans ?_ (exponent_le_strip _ _)⟩
  omega

end Decimal
end LinProg
