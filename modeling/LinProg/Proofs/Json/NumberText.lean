import LinProg.Json.Token
import LinProg.Proofs.Decimal.Doubles
import LinProg.Proofs.Decimal.Rounding

namespace LinProg.Json

@[simp]
theorem spell_nil : spell [] = 0 := rfl

theorem foldl_spell (ds : List ℕ) (n : ℕ) :
    ds.foldl (fun n d ↦ 10 * n + d) n = n * 10 ^ ds.length + spell ds := by
  induction ds generalizing n with
  | nil => simp
  | cons d ds ih =>
    simp only [spell, List.foldl_cons, List.length_cons]
    rw [ih, ih (10 * 0 + d)]
    ring

theorem spell_append (ds ds' : List ℕ) :
    spell (ds ++ ds') = spell ds * 10 ^ ds'.length + spell ds' := by
  rw [spell, List.foldl_append, foldl_spell]
  rfl

@[simp]
theorem spell_cons (d : ℕ) (ds : List ℕ) : spell (d :: ds) = d * 10 ^ ds.length + spell ds := by
  rw [← List.singleton_append, spell_append]
  simp [spell]

theorem spell_of_zeros {ds : List ℕ} (h : ∀ d ∈ ds, d = 0) : spell ds = 0 := by
  induction ds with
  | nil => rfl
  | cons d ds ih =>
    rw [spell_cons, h d List.mem_cons_self, ih fun e he ↦ h e (List.mem_cons_of_mem d he)]
    simp

theorem spell_take_le (ds : List ℕ) (n : ℕ) : spell (ds.take n) ≤ spell ds := by
  conv_rhs => rw [← List.take_append_drop n ds, spell_append]
  exact (Nat.le_mul_of_pos_right _ (by positivity)).trans (Nat.le_add_right _ _)

theorem takeWhile_zeros (ds : List ℕ) : ∀ d ∈ ds.takeWhile (· == 0), d = 0 := fun d hd ↦ by
  simpa using List.mem_takeWhile_imp hd

theorem spell_dropWhile (ds : List ℕ) : spell (ds.dropWhile (· == 0)) = spell ds := by
  have hsplit := List.takeWhile_append_dropWhile (p := (· == 0)) (l := ds)
  conv_rhs => rw [← hsplit, spell_append, spell_of_zeros (takeWhile_zeros ds)]
  simp

theorem exists_zeros (ds : List ℕ) :
    ∃ zs : List ℕ, (∀ d ∈ zs, d = 0) ∧ (ds.reverse.dropWhile (· == 0)).reverse ++ zs = ds := by
  refine ⟨(ds.reverse.takeWhile (· == 0)).reverse, fun d hd ↦ ?_, ?_⟩
  · exact takeWhile_zeros _ d (List.mem_reverse.mp hd)
  · rw [← List.reverse_append, List.takeWhile_append_dropWhile, List.reverse_reverse]

theorem toDigits_bounds {n : ℕ} (hn : 0 < n) :
    10 ^ ((Nat.toDigits 10 n).length - 1) ≤ n ∧ n < 10 ^ (Nat.toDigits 10 n).length := by
  have hpos : 0 < (Nat.toDigits 10 n).length := Nat.length_toDigits_pos
  refine ⟨?_, (Nat.length_toDigits_le_iff (by decide) hpos).mp le_rfl⟩
  rcases Nat.eq_zero_or_pos ((Nat.toDigits 10 n).length - 1) with h | h
  · rw [h, pow_zero]
    exact hn
  · refine not_lt.mp fun hlt ↦ ?_
    have := (Nat.length_toDigits_le_iff (by decide) h).mpr hlt
    omega

theorem toDigits_size {n : ℕ} (hn : 0 < n) {e low high : ℤ} (hlow : (10 : ℚ) ^ low ≤ n * 10 ^ e)
    (hhigh : n * 10 ^ e ≤ (10 : ℚ) ^ high) :
    low < (Nat.toDigits 10 n).length + e ∧ (Nat.toDigits 10 n).length + e ≤ high + 1 := by
  obtain ⟨hge, hlt⟩ := toDigits_bounds hn
  have hpos : 0 < (Nat.toDigits 10 n).length := Nat.length_toDigits_pos
  have hge' : (10 : ℚ) ^ (((Nat.toDigits 10 n).length - 1 : ℕ) : ℤ) ≤ n := by exact_mod_cast hge
  have hlt' : (n : ℚ) < 10 ^ ((Nat.toDigits 10 n).length : ℤ) := by exact_mod_cast hlt
  have hpow : (0 : ℚ) < 10 ^ e := by positivity
  constructor
  · rw [← zpow_lt_zpow_iff_right₀ (show (1 : ℚ) < 10 by norm_num), zpow_add₀ (by norm_num)]
    exact hlow.trans_lt (mul_lt_mul_of_pos_right hlt' hpow)
  · have hle := (mul_le_mul_of_nonneg_right hge' hpow.le).trans hhigh
    rw [← zpow_add₀ (by norm_num), zpow_le_zpow_iff_right₀ (by norm_num)] at hle
    omega

namespace NumberText

def power (t : NumberText) : ℤ :=
  match t.exponent with
  | none => 0
  | some (down, ds, _) => if down then -(spell ds : ℤ) else spell ds

def magnitude (t : NumberText) : ℚ :=
  spell (t.whole ++ t.fraction) * 10 ^ (t.power - t.fraction.length)

variable {t : NumberText}

theorem significand_eq (h : (t.whole ++ t.fraction).length ≤ digitLimit) :
    (t.significand.1 : ℚ) * 10 ^ (t.power + t.significand.2) = t.magnitude := by
  obtain ⟨zs, hzs, hsplit⟩ := exists_zeros t.fraction
  unfold significand
  extract_lets fraction significant cut
  have hcount : t.fraction.length = fraction.length + zs.length := by
    rw [← hsplit, List.length_append]
  have hlength : significant.length ≤ digitLimit := by
    refine (List.dropWhile_suffix _).length_le.trans (le_trans ?_ h)
    rw [List.length_append, List.length_append, hcount]
    omega
  rw [if_pos hlength]
  simp only [significant]
  rw [spell_dropWhile, magnitude]
  have hspell : spell (t.whole ++ t.fraction) = spell (t.whole ++ fraction) * 10 ^ zs.length := by
    rw [← hsplit, ← List.append_assoc, spell_append, spell_of_zeros hzs]
    rfl
  rw [hspell, hcount]
  push_cast
  rw [← sub_sub, ← sub_eq_add_neg, zpow_sub₀ (by norm_num) _ (zs.length : ℤ), zpow_natCast]
  field_simp

theorem scaled_of_covers {negative : Bool} {n bits : ℕ} {e : ℤ}
    (hnormal : (Binary64.decode bits).Normal) (hfinite : bits < Binary64.infinityBits)
    (h : (Binary64.decode bits).Covers (n * 10 ^ e)) :
    scaled negative n e = Binary64.ofBits negative bits := by
  have hn := h.digits_pos hnormal
  obtain ⟨hlow, hhigh⟩ := toDigits_size hn (h.lower hnormal) (h.upper hnormal)
  have hratio : ((n * 10 ^ e.toNat : ℕ) / (10 ^ (-e).toNat : ℕ) : ℚ) = n * 10 ^ e := by
    rw [zpow_eq_div_toNat (by norm_num) e]
    push_cast
    ring
  have hbits : Binary64.nearestBits (n * 10 ^ e.toNat) (10 ^ (-e).toNat) = bits :=
    Binary64.nearestBits_of_covers (by positivity) (by positivity) hnormal (by rwa [hratio])
  unfold scaled
  extract_lets size
  rw [if_neg (by omega), if_neg (by omega), Binary64.nearest, Nat.pow_eq, Nat.pow_eq, hbits,
    min_eq_right hfinite.le]

theorem exponentOverflow?_eq_none {ds : List ℕ} (h : spell ds < exponentBound) :
    exponentOverflow? ds = none := by
  rw [exponentOverflow?, List.findSome?_eq_none_iff]
  intro i _
  exact if_neg (not_le.mpr ((spell_take_le ds (i + 1)).trans_lt h))

/-- What is needed for a literal to be read as a double by its magnitude. -/
structure Plain (t : NumberText) : Prop where
  int : t.int? = none
  length : (t.whole ++ t.fraction).length ≤ digitLimit
  exponent : ∀ down ds lead, t.exponent = some (down, ds, lead) → spell ds < exponentBound

theorem value_of_plain (h : t.Plain) {x : Float} (hx : Binary64.isFinite x = true)
    (hscaled : scaled t.negative t.significand.1 (t.power + t.significand.2) = x) (start : ℕ) :
    t.value start = .ok (.float x) := by
  unfold value
  rw [h.int]
  dsimp only
  unfold power at hscaled
  cases hexponent : t.exponent with
  | none =>
    rw [hexponent] at hscaled
    dsimp only at hscaled ⊢
    rw [zero_add] at hscaled
    rw [hscaled, if_pos hx]
  | some e =>
    obtain ⟨down, ds, lead⟩ := e
    rw [hexponent] at hscaled
    dsimp only at hscaled ⊢
    rw [exponentOverflow?_eq_none (h.exponent _ _ _ hexponent)]
    dsimp only
    rw [hscaled, if_pos hx]

/-- A literal whose number is nearest to a finite double is read as that double. -/
theorem value_of_magnitude (h : t.Plain) {x : Float} (hfinite : Binary64.isFinite x = true)
    (hnegative : t.negative = Binary64.isNegative x)
    (hmagnitude : Binary64.magnitudeBits x = 0 ∧ t.magnitude = 0 ∨
      0 < Binary64.magnitudeBits x ∧
        (Binary64.decode (Binary64.magnitudeBits x)).Covers t.magnitude) (start : ℕ) :
    t.value start = .ok (.float x) := by
  have hlt : Binary64.magnitudeBits x < Binary64.infinityBits := of_decide_eq_true hfinite
  have hx : Binary64.ofBits t.negative (Binary64.magnitudeBits x) = x := by
    rw [hnegative, Binary64.ofBits_magnitudeBits]
  refine value_of_plain h hfinite ?_ start
  rw [← significand_eq h.length] at hmagnitude
  rcases hmagnitude with ⟨hzero, hmagnitude⟩ | ⟨hpos, hcovers⟩
  · have hpow : (10 : ℚ) ^ (t.power + t.significand.2) ≠ 0 := by positivity
    have hn : t.significand.1 = 0 := by
      exact_mod_cast (mul_eq_zero.mp hmagnitude).resolve_right hpow
    rw [scaled, if_pos (.inl hn), ← hx, hzero]
  · rw [scaled_of_covers (Binary64.normal_decode hpos hlt) hlt hcovers, hx]

end NumberText

end LinProg.Json
