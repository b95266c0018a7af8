import LinProg.Json.Infinity
import Mathlib

namespace LinProg.Binary64

open Float.Model

theorem toBits_toNat (x : Float) :
    (if isNegative x then signBit else 0) + magnitudeBits x = x.toBits.toNat := by
  have h := x.toBits.toNat_lt
  unfold isNegative magnitudeBits signBit
  split_ifs with hs
  · have := of_decide_eq_true hs
    omega
  · have : ¬ _ := fun h ↦ hs (decide_eq_true h)
    omega

@[simp]
theorem ofBits_magnitudeBits (x : Float) : ofBits (isNegative x) (magnitudeBits x) = x := by
  rw [ofBits, toBits_toNat, UInt64.ofNat_toNat, Float.ofBits_toBits]

theorem unpack_inj {x y : Float} : x.toModel.unpack = y.toModel.unpack ↔ x = y := by
  refine ⟨fun h ↦ ?_, fun h ↦ by rw [h]⟩
  rw [← Float.toBits_inj, ← UInt64.toBitVec_inj]
  exact (UnpackedFloat.unpack_inj_of_valid x.toModel.valid y.toModel.valid).mp h

theorem unpack_maxFinite : maxFinite.toModel.unpack =
    .finite .positive (2 ^ 53 - 1) 971 (by decide) := by
  rfl

theorem unpack_neg_maxFinite : (-maxFinite).toModel.unpack =
    .finite .negative (2 ^ 53 - 1) 971 (by decide) := by
  rfl
theorem unpack_inf : ((1 : Float) / 0).toModel.unpack = .infinity .positive := by
  rfl
theorem unpack_inf_neg : ((-1 : Float) / 0).toModel.unpack = .infinity .negative := by
  rfl
theorem unpack_bounds {x : Float} {s : UnpackedFloat.Sign} {m : ℕ} {e : ℤ} {hm : 0 < m}
    (h : x.toModel.unpack = .finite s m e hm) : m < 2 ^ 53 ∧ e ≤ 971 := by
  unfold Float.Model.unpack UnpackedFloat.unpack at h
  extract_lets mantissa exponent e₀ at h
  have hmantissa := mantissa.isLt
  have hexponent := exponent.isLt
  simp only [Format.binary64] at hmantissa hexponent
  split_ifs at h with hall hzero hnone hzero'
  · simp only [UnpackedFloat.finite.injEq] at h
    obtain ⟨-, rfl, rfl⟩ := h
    have : exponent.toNat = 0 := by simp [hnone]
    refine ⟨by omega, ?_⟩
    simp only [e₀, this]
    decide
  · simp only [UnpackedFloat.finite.injEq] at h
    obtain ⟨-, rfl, rfl⟩ := h
    have hlt : exponent.toNat ≠ 2047 := fun h ↦ hall (BitVec.eq_of_toNat_eq h)
    refine ⟨(1#1 ++ mantissa).isLt, ?_⟩
    have : e₀ = exponent.toNat - 1075 := rfl
    omega

theorem le_iff {x y : Float} : x ≤ y ↔ (x.toModel.unpack.le y.toModel.unpack) = true :=
  decide_eq_true_iff

theorem largest_compare {m : ℕ} {e : ℤ} (hm : m < 2 ^ 53) (he : e ≤ 971) :
    ((compare 971 e).then (compare (2 ^ 53 - 1) m)).isLE = true ↔ m = 2 ^ 53 - 1 ∧ e = 971 := by
  rw [Ordering.isLE_then_iff_and, Int.isLE_compare, Nat.isLE_compare, Int.compare_eq_lt]
  omega

theorem maxFinite_le_iff {x : Float} : maxFinite ≤ x ↔ x = maxFinite ∨ x = 1 / 0 := by
  rw [le_iff, ← unpack_inj, ← unpack_inj (y := 1 / 0), unpack_inf, unpack_maxFinite]
  cases hx : x.toModel.unpack with
  | infinity s => cases s <;> simp [UnpackedFloat.le, UnpackedFloat.compare]
  | notANumber => simp [UnpackedFloat.le, UnpackedFloat.compare]
  | zero s => simp [UnpackedFloat.le, UnpackedFloat.compare]
  | finite s m e hm =>
    obtain ⟨hm', he⟩ := unpack_bounds hx
    cases s with
    | negative => simp [UnpackedFloat.le, UnpackedFloat.compare]
    | positive => simpa [UnpackedFloat.le, UnpackedFloat.compare] using largest_compare hm' he

theorem le_neg_maxFinite_iff {x : Float} : x ≤ -maxFinite ↔ x = -maxFinite ∨ x = -1 / 0 := by
  rw [le_iff, ← unpack_inj, ← unpack_inj (y := -1 / 0), unpack_inf_neg, unpack_neg_maxFinite]
  cases hx : x.toModel.unpack with
  | infinity s => cases s <;> simp [UnpackedFloat.le, UnpackedFloat.compare]
  | notANumber => simp [UnpackedFloat.le, UnpackedFloat.compare]
  | zero s => simp [UnpackedFloat.le, UnpackedFloat.compare]
  | finite s m e hm =>
    obtain ⟨hm', he⟩ := unpack_bounds hx
    cases s with
    | positive => simp [UnpackedFloat.le, UnpackedFloat.compare]
    | negative =>
      simpa [UnpackedFloat.le, UnpackedFloat.compare, Ordering.swap_then, Nat.compare_swap,
        Int.compare_swap] using largest_compare hm' he

theorem unpackExponent_toNat (x : Float) :
    (@UnpackedFloat.unpackExponent Format.binary64 x.toBits.toBitVec).toNat =
      magnitudeBits x / leadingBit := by
  simp only [UnpackedFloat.unpackExponent, Format.binary64, BitVec.toNat_cast,
    BitVec.extractLsb_toNat, UInt64.toNat_toBitVec, Nat.shiftRight_eq_div_pow, magnitudeBits,
    signBit, leadingBit]
  omega

theorem unpack_of_not_isFinite {x : Float} (h : ¬ isFinite x = true) :
    (∃ s, x.toModel.unpack = .infinity s) ∨ x.toModel.unpack = .notANumber := by
  have hexponent := unpackExponent_toNat x
  have hlt : magnitudeBits x < signBit := Nat.mod_lt _ (by decide)
  have hge : infinityBits ≤ magnitudeBits x := not_lt.mp fun hlt ↦ h (decide_eq_true hlt)
  simp only [signBit, leadingBit, infinityBits] at hlt hexponent hge
  have hall : @UnpackedFloat.unpackExponent Format.binary64 x.toBits.toBitVec = -1#_ :=
    BitVec.eq_of_toNat_eq (hexponent.trans (show _ = 2047 by omega))
  change (∃ s, UnpackedFloat.unpack Format.binary64 x.toBits.toBitVec = .infinity s) ∨
    UnpackedFloat.unpack Format.binary64 x.toBits.toBitVec = .notANumber
  simp only [UnpackedFloat.unpack, hall, if_true]
  split_ifs
  · exact .inl ⟨_, rfl⟩
  · exact .inr rfl

theorem isFinite_of_ne {x : Float} (hnan : x.isNaN = false) (hinf : x ≠ 1 / 0)
    (hneg : x ≠ -1 / 0) : isFinite x = true := by
  by_contra h
  rcases unpack_of_not_isFinite h with ⟨s, hs⟩ | hs
  · cases s with
    | positive => exact hinf (unpack_inj.mp hs)
    | negative => exact hneg (unpack_inj.mp hs)
  · have : x.toModel.unpack.isNaN = false := hnan
    rw [hs] at this
    exact absurd this (by decide)

theorem isFinite_clamp {x : Float} (h : x.isNaN = false) : isFinite (Json.clamp x) = true := by
  unfold Json.clamp
  split_ifs with hinf hneg
  · rfl
  · rfl
  · refine isFinite_of_ne h ?_ ?_
    · rintro rfl
      exact hinf rfl
    · rintro rfl
      exact hneg rfl

theorem eq_of_beq {x y : Float} (hpos : y.toBits ≠ (0 : Float).toBits)
    (hneg : y.toBits ≠ (-0 : Float).toBits) (h : (x == y) = true) : x = y := by
  obtain ⟨-, -, rfl | ⟨-, rfl⟩ | ⟨-, rfl⟩⟩ := Float.beq_iff_ne_nan_and_eq.mp h
  · rfl
  · exact absurd rfl hneg
  · exact absurd rfl hpos

theorem widen_clamp {x : Float} (hmax : x ≠ maxFinite)
    (hmin : x ≠ -maxFinite) : Json.widen (Json.clamp x) = x := by
  unfold Json.clamp
  split_ifs with hinf hneg
  · rw [eq_of_beq (by decide) (by decide) hinf, Json.widen,
      if_pos (maxFinite_le_iff.mpr (.inl rfl))]
  · have hlt : ¬ maxFinite ≤ -maxFinite := by decide
    rw [eq_of_beq (by decide) (by decide) hneg, Json.widen, if_neg hlt,
      if_pos (le_neg_maxFinite_iff.mpr (.inl rfl))]
  · have hne : x ≠ 1 / 0 := by
      rintro rfl
      exact hinf rfl
    have hne' : x ≠ -1 / 0 := by
      rintro rfl
      exact hneg rfl
    have hle : ¬ maxFinite ≤ x := by simp [maxFinite_le_iff, hmax, hne]
    have hge : ¬ x ≤ -maxFinite := by simp [le_neg_maxFinite_iff, hmin, hne']
    rw [Json.widen, if_neg hle, if_neg hge]
end LinProg.Binary64
