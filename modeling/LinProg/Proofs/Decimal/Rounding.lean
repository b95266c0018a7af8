import Mathlib.Algebra.Order.Field.Power
import Mathlib.Data.Nat.Log
import Mathlib.Tactic.FieldSimp
import Mathlib.Tactic.Linarith
import Mathlib.Tactic.Positivity
import Mathlib.Tactic.Ring
import LinProg.Decimal.Binary64

namespace LinProg

theorem zpow_eq_div_toNat {b : ℚ} (hb : b ≠ 0) (e : ℤ) :
    b ^ e = b ^ e.toNat / b ^ (-e).toNat := by
  rw [eq_div_iff (pow_ne_zero _ hb), ← zpow_natCast, ← zpow_natCast, ← zpow_add₀ hb]
  congr 1
  omega

theorem ten_pow_le_two_pow {j n : ℕ} (h : 10 * j ≤ 3 * n) : 10 ^ j ≤ 2 ^ n := by
  rw [← Nat.pow_le_pow_iff_left three_ne_zero]
  calc (10 ^ j) ^ 3 = (10 ^ 3) ^ j := pow_right_comm ..
    _ ≤ (2 ^ 10) ^ j := Nat.pow_le_pow_left (by decide) j
    _ = 2 ^ (10 * j) := (pow_mul ..).symm
    _ ≤ 2 ^ (n * 3) := Nat.pow_le_pow_right two_pos (by omega)
    _ = (2 ^ n) ^ 3 := pow_mul ..

theorem two_pow_le_ten_pow {j n : ℕ} (h : 28 * n ≤ 93 * j) : 2 ^ n ≤ 10 ^ j := by
  rw [← Nat.pow_le_pow_iff_left (show 93 ≠ 0 by decide)]
  calc (2 ^ n) ^ 93 = (2 ^ 93) ^ n := pow_right_comm ..
    _ ≤ (10 ^ 28) ^ n := Nat.pow_le_pow_left (by decide) n
    _ = 10 ^ (28 * n) := (pow_mul ..).symm
    _ ≤ 10 ^ (j * 93) := Nat.pow_le_pow_right (by decide) (by omega)
    _ = (10 ^ j) ^ 93 := pow_mul ..

theorem roundDivEven_eq {num den m : ℕ} (hden : 0 < den) (hlow : m - 1 / 2 ≤ (num / den : ℚ))
    (hhigh : (num / den : ℚ) ≤ m + 1 / 2)
    (hodd : m % 2 = 1 → m - 1 / 2 < (num / den : ℚ) ∧ (num / den : ℚ) < m + 1 / 2) :
    roundDivEven num den = m := by
  have hden' : (0 : ℚ) < den := by exact_mod_cast hden
  rw [le_div_iff₀ hden'] at hlow
  rw [div_le_iff₀ hden'] at hhigh
  rw [lt_div_iff₀ hden', div_lt_iff₀ hden'] at hodd
  have hsplit : (den : ℚ) * (num / den : ℕ) + (num % den : ℕ) = num := by
    exact_mod_cast Nat.div_add_mod num den
  have hrest : ((num % den : ℕ) : ℚ) < den := by exact_mod_cast Nat.mod_lt num hden
  have hrest' : (0 : ℚ) ≤ (num % den : ℕ) := Nat.cast_nonneg _
  unfold roundDivEven
  generalize num / den = down at *
  generalize num % den = rest at *
  have hle : down ≤ m := by
    by_contra h
    have : (m : ℚ) + 1 ≤ down := by exact_mod_cast Nat.lt_of_not_le h
    nlinarith
  have hge : m ≤ down + 1 := by
    by_contra h
    have : (down : ℚ) + 2 ≤ m := by exact_mod_cast Nat.lt_of_not_le h
    nlinarith
  obtain rfl | rfl : m = down ∨ m = down + 1 := by omega
  · have hhalf : 2 * (rest : ℚ) ≤ den := by linarith
    have hhalf' : 2 * rest ≤ den := by exact_mod_cast hhalf
    refine if_neg ?_
    rintro (h | ⟨htie, h⟩)
    · omega
    · have : 2 * (rest : ℚ) < den := by linarith [(hodd h).2]
      have : 2 * rest < den := by exact_mod_cast this
      omega
  · push_cast at hlow hodd
    have hhalf : den ≤ 2 * (rest : ℚ) := by linarith
    have hhalf' : den ≤ 2 * rest := by exact_mod_cast hhalf
    refine if_pos ?_
    by_contra h
    have : (den : ℚ) < 2 * rest := by linarith [(hodd (by omega)).1]
    have : den < 2 * rest := by exact_mod_cast this
    omega

namespace Dyadic

def value (d : Dyadic) : ℚ := d.significand * 2 ^ d.exponent

/-- The significand and the exponent of a positive double: the leading bit is set unless the
exponent is the least one. -/
structure Normal (d : Dyadic) : Prop where
  pos : 0 < d.significand
  lt : d.significand < 2 * Binary64.leadingBit
  least : Binary64.minExponent ≤ d.exponent
  most : d.exponent ≤ 971
  leading : d.exponent = Binary64.minExponent ∨ Binary64.leadingBit ≤ d.significand

/-- Half the distance to the next double below, in units of the last binary place. Doubles are
closer together below a power of two. -/
def halfBelow (d : Dyadic) : ℚ :=
  if d.significand = Binary64.leadingBit ∧ Binary64.minExponent < d.exponent then 1 / 4 else 1 / 2

theorem halfBelow_le (d : Dyadic) : d.halfBelow ≤ 1 / 2 := by
  unfold halfBelow
  split_ifs <;> norm_num

/-- The fractions around a double to which no other double is nearer. Those halfway to a neighbour
belong to the even significand. -/
structure Covers (d : Dyadic) (r : ℚ) : Prop where
  low : (d.significand - d.halfBelow) * 2 ^ d.exponent ≤ r
  high : r ≤ (d.significand + 1 / 2) * 2 ^ d.exponent
  odd : d.significand % 2 = 1 → (d.significand - d.halfBelow) * 2 ^ d.exponent < r ∧
    r < (d.significand + 1 / 2) * 2 ^ d.exponent

namespace Covers

variable {d : Dyadic} {r : ℚ}

theorem lower (h : d.Covers r) (hd : d.Normal) : (10 : ℚ) ^ (-324 : ℤ) ≤ r := by
  have hm : (1 : ℚ) ≤ d.significand := by exact_mod_cast hd.pos
  have hhalf := d.halfBelow_le
  have hpow : (2 : ℚ) ^ (-1074 : ℤ) ≤ 2 ^ d.exponent := zpow_le_zpow_right₀ one_le_two hd.least
  have hten : (2 : ℚ) ^ 1075 ≤ 10 ^ 324 := by exact_mod_cast two_pow_le_ten_pow (by norm_num)
  calc (10 : ℚ) ^ (-324 : ℤ) ≤ 2 ^ (-1075 : ℤ) := by
        rw [zpow_neg, zpow_neg]
        exact inv_anti₀ (by positivity) hten
    _ = 1 / 2 * 2 ^ (-1074 : ℤ) := by
      rw [show (-1075 : ℤ) = -1 + -1074 by norm_num, zpow_add₀ two_ne_zero, zpow_neg_one, one_div]
    _ ≤ (d.significand - d.halfBelow) * 2 ^ d.exponent :=
      mul_le_mul (by linarith) hpow (by positivity) (by linarith)
    _ ≤ r := h.low

theorem upper (h : d.Covers r) (hd : d.Normal) : r ≤ (10 : ℚ) ^ (309 : ℤ) := by
  have hm : (d.significand : ℚ) + 1 ≤ 2 ^ 53 := by
    exact_mod_cast (show d.significand + 1 ≤ 2 ^ 53 from hd.lt)
  have hpow : (2 : ℚ) ^ d.exponent ≤ 2 ^ (971 : ℤ) := zpow_le_zpow_right₀ one_le_two hd.most
  have hten : (2 : ℚ) ^ 1024 ≤ 10 ^ 309 := by exact_mod_cast two_pow_le_ten_pow (by norm_num)
  calc r ≤ (d.significand + 1 / 2) * 2 ^ d.exponent := h.high
    _ ≤ 2 ^ 53 * 2 ^ (971 : ℤ) :=
      mul_le_mul (by linarith) hpow (by positivity) (by positivity)
    _ = 2 ^ 1024 := (pow_add (2 : ℚ) 53 971).symm
    _ ≤ 10 ^ (309 : ℤ) := hten

theorem digits_pos {n : ℕ} {b : ℚ} (h : d.Covers (n * b)) (hd : d.Normal) : 0 < n := by
  have hpos : (0 : ℚ) < n * b := lt_of_lt_of_le (by positivity) (h.lower hd)
  rw [Nat.pos_iff_ne_zero]
  rintro rfl
  rw [Nat.cast_zero, zero_mul] at hpos
  exact lt_irrefl _ hpos

end Covers

end Dyadic

namespace Binary64

theorem normal_decode {bits : ℕ} (hpos : 0 < bits) (hfinite : bits < infinityBits) :
    (decode bits).Normal := by
  have hsplit := Nat.div_add_mod bits leadingBit
  have hmod : bits % leadingBit < leadingBit := Nat.mod_lt _ (by decide)
  have hlt : bits / leadingBit < 2047 := Nat.div_lt_of_lt_mul (by rwa [mul_comm])
  simp only [decode]
  generalize bits / leadingBit = field at *
  split_ifs with hfield
  · rw [hfield] at hsplit
    exact ⟨by dsimp only; omega, by dsimp only; omega, le_rfl, show minExponent ≤ 971 by decide,
      .inl rfl⟩
  · exact ⟨Nat.add_pos_left (by decide) _, by dsimp only; omega,
      Int.le_add_of_nonneg_right (Int.natCast_nonneg _),
      show -1074 + ((field - 1 : ℕ) : ℤ) ≤ 971 by omega, .inr (Nat.le_add_right _ _)⟩

theorem decode_bits (bits : ℕ) :
    ((decode bits).exponent - minExponent).toNat * leadingBit + (decode bits).significand =
      bits := by
  have hsplit := Nat.div_add_mod bits leadingBit
  simp only [decode]
  split_ifs with hfield
  · rw [hfield] at hsplit
    simp only [sub_self]
    simpa using hsplit
  · dsimp only
    rw [add_sub_cancel_left, Int.toNat_natCast]
    obtain ⟨field, h⟩ := Nat.exists_eq_succ_of_ne_zero hfield
    rw [h] at hsplit ⊢
    rw [Nat.succ_sub_one]
    rw [Nat.mul_succ] at hsplit
    linarith

theorem lt_mul_two_zpow_iff {num den : ℕ} (hden : 0 < den) (n : ℕ) (e : ℤ) :
    num * 2 ^ (-e).toNat < den * 2 ^ e.toNat * n ↔ (num / den : ℚ) < n * 2 ^ e := by
  have hden' : (0 : ℚ) < den := by exact_mod_cast hden
  have hpow : (0 : ℚ) < 2 ^ (-e).toNat := by positivity
  rw [zpow_eq_div_toNat two_ne_zero, mul_div_assoc', div_lt_div_iff₀ hden' hpow,
    ← Nat.cast_lt (α := ℚ)]
  push_cast
  rw [mul_comm (n * _ : ℚ), mul_right_comm, ← mul_assoc]

theorem two_zpow_lt_div {num den : ℕ} (hnum : 0 < num) (hden : 0 < den) :
    (2 : ℚ) ^ ((num.log2 : ℤ) - den.log2 - 1) < num / den := by
  have hden' : (0 : ℚ) < den := by exact_mod_cast hden
  have hnum' : (2 : ℚ) ^ num.log2 ≤ num := by exact_mod_cast Nat.log2_self_le hnum.ne'
  have hlt : (den : ℚ) < 2 ^ (den.log2 + 1) := by exact_mod_cast Nat.lt_log2_self
  rw [sub_sub, zpow_sub₀ two_ne_zero, zpow_natCast, ← Nat.cast_succ, zpow_natCast]
  exact div_lt_div₀' hnum' hlt (by positivity) hden'

theorem div_lt_two_zpow (num : ℕ) {den : ℕ} (hden : 0 < den) :
    (num / den : ℚ) < (2 : ℚ) ^ ((num.log2 : ℤ) - den.log2 + 1) := by
  have hlt : (num : ℚ) < 2 ^ (num.log2 + 1) := by exact_mod_cast Nat.lt_log2_self
  have hden' : (2 : ℚ) ^ den.log2 ≤ den := by exact_mod_cast Nat.log2_self_le hden.ne'
  rw [sub_add_eq_add_sub, zpow_sub₀ two_ne_zero, zpow_natCast, ← Nat.cast_succ, zpow_natCast]
  exact div_lt_div₀ hlt hden' (by positivity) (by positivity)

theorem leadingBit_mul_zpow (e : ℤ) : (leadingBit : ℚ) * 2 ^ e = 2 ^ (52 + e) := by
  have h : (leadingBit : ℚ) = 2 ^ (52 : ℤ) := by norm_num [leadingBit]
  rw [h, zpow_add₀ two_ne_zero]

theorem exponentOf_spec {num den : ℕ} (hnum : 0 < num) (hden : 0 < den) :
    minExponent ≤ exponentOf num den ∧ (num / den : ℚ) < 2 ^ (53 + exponentOf num den) ∧
      (exponentOf num den = minExponent ∨ 2 ^ (52 + exponentOf num den) ≤ (num / den : ℚ)) := by
  have hlow := two_zpow_lt_div hnum hden
  have hhigh := div_lt_two_zpow num hden
  simp only [exponentOf, Nat.pow_eq, lt_mul_two_zpow_iff hden, leadingBit_mul_zpow]
  generalize (num : ℚ) / den = r at *
  obtain ⟨e, he⟩ : ∃ e : ℤ, e = (num.log2 : ℤ) - den.log2 - 52 := ⟨_, rfl⟩
  rw [show (num.log2 : ℤ) - den.log2 - 1 = 51 + e by omega] at hlow
  rw [show (num.log2 : ℤ) - den.log2 + 1 = 53 + e by omega] at hhigh
  rw [← he]
  have hmono : ∀ {m n : ℤ}, m ≤ n → (2 : ℚ) ^ m ≤ 2 ^ n := zpow_le_zpow_right₀ one_le_two
  refine ⟨le_max_left _ _, ?_, ?_⟩
  · split_ifs with h
    · exact h.trans_le (hmono (by omega))
    · exact hhigh.trans_le (hmono (by omega))
  · split_ifs with h
    · rcases max_cases minExponent (e - 1) with ⟨hm, -⟩ | ⟨hm, -⟩
      · exact .inl hm
      · rw [hm, show 52 + (e - 1) = 51 + e by omega]
        exact .inr hlow.le
    · rcases max_cases minExponent e with ⟨hm, -⟩ | ⟨hm, -⟩
      · exact .inl hm
      · rw [hm]
        exact .inr (not_lt.mp h)

theorem exponentOf_eq {num den : ℕ} (hnum : 0 < num) (hden : 0 < den) {e : ℤ}
    (hleast : minExponent ≤ e) (hhigh : (num / den : ℚ) < 2 ^ (53 + e))
    (hlow : e = minExponent ∨ 2 ^ (52 + e) ≤ (num / den : ℚ)) : exponentOf num den = e := by
  obtain ⟨hleast', hhigh', hlow'⟩ := exponentOf_spec hnum hden
  have hlt : ∀ {m n : ℤ}, (2 : ℚ) ^ m < 2 ^ n → m < n :=
    (zpow_lt_zpow_iff_right₀ one_lt_two).mp
  apply le_antisymm
  · rcases hlow' with h | h
    · omega
    · have := hlt (h.trans_lt hhigh)
      omega
  · rcases hlow with h | h
    · omega
    · have := hlt (h.trans_lt hhigh')
      omega

theorem nearestBits_eq {num den m : ℕ} (hnum : 0 < num) (hden : 0 < den) {e : ℤ}
    (he : exponentOf num den = e) (hlow : (m - 1 / 2) * 2 ^ e ≤ (num / den : ℚ))
    (hhigh : (num / den : ℚ) ≤ (m + 1 / 2) * 2 ^ e)
    (hodd : m % 2 = 1 → (m - 1 / 2) * 2 ^ e < (num / den : ℚ) ∧
      (num / den : ℚ) < (m + 1 / 2) * 2 ^ e) :
    nearestBits num den = (e - minExponent).toNat * leadingBit + m := by
  have hpow : (0 : ℚ) < 2 ^ e := by positivity
  have hscaled :
      ((num * 2 ^ (-e).toNat : ℕ) / (den * 2 ^ e.toNat : ℕ) : ℚ) = num / den / 2 ^ e := by
    rw [zpow_eq_div_toNat two_ne_zero]
    push_cast
    field_simp
  rw [nearestBits, if_neg hnum.ne']
  dsimp only
  rw [he, Nat.pow_eq, Nat.pow_eq, roundDivEven_eq (Nat.mul_pos hden (Nat.pow_pos two_pos))]
  · rwa [hscaled, le_div_iff₀ hpow]
  · rwa [hscaled, div_le_iff₀ hpow]
  · rwa [hscaled, lt_div_iff₀ hpow, div_lt_iff₀ hpow]

theorem lt_two_zpow {d : Dyadic} {r : ℚ} (hd : d.Normal) (h : d.Covers r) :
    r < 2 ^ (53 + d.exponent) := by
  have hm : (d.significand : ℚ) + 1 ≤ 2 * leadingBit := by exact_mod_cast hd.lt
  have hpow : (0 : ℚ) < 2 ^ d.exponent := by positivity
  calc r ≤ (d.significand + 1 / 2) * 2 ^ d.exponent := h.high
    _ < 2 * (leadingBit * 2 ^ d.exponent) := by nlinarith
    _ = 2 ^ (53 + d.exponent) := by
      rw [leadingBit_mul_zpow, ← zpow_one_add₀ two_ne_zero]
      congr 1
      ring

theorem significand_eq_of_lt {d : Dyadic} {r : ℚ} (hd : d.Normal) (h : d.Covers r)
    (hne : d.exponent ≠ minExponent) (hlt : r < 2 ^ (52 + d.exponent)) :
    d.significand = leadingBit := by
  by_contra hm
  have hm' : (leadingBit : ℚ) + 1 ≤ d.significand := by
    exact_mod_cast lt_of_le_of_ne (hd.leading.resolve_left hne) (Ne.symm hm)
  have hpow : (0 : ℚ) < 2 ^ d.exponent := by positivity
  rw [← leadingBit_mul_zpow] at hlt
  nlinarith [h.low, d.halfBelow_le]

/-- Just below a power of two the last place is half as large; the fraction is rounded up to the
power of two all the same. -/
theorem nearestBits_below {num den : ℕ} (hnum : 0 < num) (hden : 0 < den) {e : ℤ}
    (he : minExponent < e) (hlow : (leadingBit - 1 / 4) * 2 ^ e ≤ (num / den : ℚ))
    (hhigh : (num / den : ℚ) < 2 ^ (52 + e)) :
    nearestBits num den = (e - minExponent).toNat * leadingBit + leadingBit := by
  have hprev : (2 : ℚ) ^ e = 2 * 2 ^ (e - 1) := by
    rw [← zpow_one_add₀ two_ne_zero, add_sub_cancel]
  have hpow : (0 : ℚ) < 2 ^ (e - 1) := by positivity
  have hexponent : exponentOf num den = e - 1 := by
    refine exponentOf_eq hnum hden (by omega) ?_ (.inr ?_)
    · rwa [show 53 + (e - 1) = 52 + e by ring]
    · have hone : (1 : ℚ) ≤ leadingBit := by norm_num [leadingBit]
      rw [← leadingBit_mul_zpow]
      nlinarith
  rw [← leadingBit_mul_zpow] at hhigh
  rw [hprev] at hlow hhigh
  rw [nearestBits_eq hnum hden hexponent (m := 2 * leadingBit)]
  · have : (e - minExponent).toNat = (e - 1 - minExponent).toNat + 1 := by omega
    rw [this]
    ring
  · push_cast
    linarith
  · push_cast
    linarith
  · simp

/-- Every fraction nearest to a positive double is rounded to it. -/
theorem nearestBits_of_covers {num den bits : ℕ} (hnum : 0 < num) (hden : 0 < den)
    (hnormal : (decode bits).Normal) (h : (decode bits).Covers (num / den)) :
    nearestBits num den = bits := by
  rw [← decode_bits bits]
  generalize decode bits = d at *
  by_cases hbelow : d.exponent ≠ minExponent ∧ (num / den : ℚ) < 2 ^ (52 + d.exponent)
  · obtain ⟨hne, hbelow⟩ := hbelow
    have hm := significand_eq_of_lt hnormal h hne hbelow
    have hleast : minExponent < d.exponent := lt_of_le_of_ne hnormal.least hne.symm
    have hlow := h.low
    rw [Dyadic.halfBelow, if_pos ⟨hm, hleast⟩, hm] at hlow
    rw [hm, nearestBits_below hnum hden hleast hlow hbelow]
  · have he : exponentOf num den = d.exponent := by
      refine exponentOf_eq hnum hden hnormal.least (lt_two_zpow hnormal h) ?_
      rwa [not_and_or, not_not, not_lt] at hbelow
    have hmono : ((d.significand : ℚ) - 1 / 2) * 2 ^ d.exponent ≤
        (d.significand - d.halfBelow) * 2 ^ d.exponent :=
      mul_le_mul_of_nonneg_right (sub_le_sub_left d.halfBelow_le _) (by positivity)
    exact nearestBits_eq hnum hden he (hmono.trans h.low) h.high fun hodd ↦
      ⟨hmono.trans_lt (h.odd hodd).1, (h.odd hodd).2⟩

end Binary64
end LinProg
