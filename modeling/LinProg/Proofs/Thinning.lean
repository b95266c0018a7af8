import Mathlib.Data.List.Basic
import Mathlib.Data.List.Induction
import Mathlib.Order.Monotone.Basic

namespace LinProg

variable {γ δ σ τ : Type} {f : ℕ → ℕ} {Kept : γ → δ → Prop} {Dropped : γ → Prop}

/-- The members of a list correspond to those of a longer one at the positions that a function
gives, and what the longer one has at other positions is of a kind that is dropped. -/
structure Thinned (f : ℕ → ℕ) (Kept : γ → δ → Prop) (Dropped : γ → Prop) (xs : List γ)
    (ys : List δ) : Prop where
  strictMono : StrictMono f
  lt_length_iff : ∀ i, f i < xs.length ↔ i < ys.length
  kept : ∀ (i : ℕ) (x : γ) (y : δ), xs[f i]? = some x → ys[i]? = some y → Kept x y
  dropped : ∀ k ∉ Set.range f, ∀ x, xs[k]? = some x → Dropped x

namespace Thinned

variable {xs : List γ} {ys : List δ}

theorem eq_nil (h : Thinned f Kept Dropped [] ys) : ys = [] := by
  rw [← List.length_eq_zero_iff]
  by_contra hne
  exact Nat.not_lt_zero _ ((h.lt_length_iff 0).mpr (Nat.pos_of_ne_zero hne))

theorem exists_kept (h : Thinned f Kept Dropped xs ys) {i : ℕ} {y : δ} (hy : ys[i]? = some y) :
    ∃ x, xs[f i]? = some x ∧ Kept x y := by
  have hlt := (h.lt_length_iff i).mpr (List.getElem?_eq_some_iff.mp hy).1
  exact ⟨xs[f i], List.getElem?_eq_getElem hlt, h.kept i _ y (List.getElem?_eq_getElem hlt) hy⟩

theorem exists_kept' (h : Thinned f Kept Dropped xs ys) {i : ℕ} {x : γ} (hx : xs[f i]? = some x) :
    ∃ y, ys[i]? = some y ∧ Kept x y := by
  have hlt := (h.lt_length_iff i).mp (List.getElem?_eq_some_iff.mp hx).1
  exact ⟨ys[i], List.getElem?_eq_getElem hlt, h.kept i x _ hx (List.getElem?_eq_getElem hlt)⟩

theorem with_mem (h : Thinned f Kept Dropped xs ys) :
    Thinned f (fun x y ↦ Kept x y ∧ x ∈ xs ∧ y ∈ ys) (fun x ↦ Dropped x ∧ x ∈ xs) xs ys :=
  ⟨h.strictMono, h.lt_length_iff, fun i x y hx hy ↦
    ⟨h.kept i x y hx hy, List.mem_of_getElem? hx, List.mem_of_getElem? hy⟩,
    fun k hk x hx ↦ ⟨h.dropped k hk x hx, List.mem_of_getElem? hx⟩⟩

/-- The last member of the longer list is the last one kept, or it was dropped. -/
theorem append_cases {x : γ} (h : Thinned f Kept Dropped (xs ++ [x]) ys) :
    (∃ zs y, ys = zs ++ [y] ∧ f zs.length = xs.length ∧ Kept x y ∧ Thinned f Kept Dropped xs zs) ∨
      Dropped x ∧ Thinned f Kept Dropped xs ys := by
  have hlength (i : ℕ) : f i < xs.length + 1 ↔ i < ys.length := by
    rw [← h.lt_length_iff i, List.length_append, List.length_singleton]
  have hlast : (xs ++ [x])[xs.length]? = some x := by simp
  have hfront {k : ℕ} {z : γ} (hz : xs[k]? = some z) : (xs ++ [x])[k]? = some z := by
    rw [List.getElem?_append_left (List.getElem?_eq_some_iff.mp hz).1, hz]
  have hdropped : ∀ k ∉ Set.range f, ∀ z, xs[k]? = some z → Dropped z :=
    fun k hk z hz ↦ h.dropped k hk z (hfront hz)
  by_cases hmem : xs.length ∈ Set.range f
  · obtain ⟨i, hi⟩ := hmem
    have hlt : i < ys.length := (hlength i).mp (by omega)
    rcases List.eq_nil_or_concat' ys with rfl | ⟨zs, y, rfl⟩
    · exact absurd hlt (Nat.not_lt_zero i)
    · -- the positions grow, so the last place in the longer list is that of the last member kept
      have hi' : i = zs.length := by
        rw [List.length_append, List.length_singleton] at hlt
        by_contra hne
        have hnext := (hlength (i + 1)).mpr (by simp; omega)
        have hstep := h.strictMono (Nat.lt_add_one i)
        omega
      subst hi'
      refine .inl ⟨zs, y, rfl, hi, h.kept zs.length x y (by rw [hi, hlast]) (by simp), ?_⟩
      refine ⟨h.strictMono, fun j ↦ ?_, fun j z w hz hw ↦ ?_, hdropped⟩
      · rw [← hi, h.strictMono.lt_iff_lt]
      · refine h.kept j z w (hfront hz) ?_
        rw [List.getElem?_append_left (List.getElem?_eq_some_iff.mp hw).1, hw]
  · refine .inr ⟨h.dropped _ hmem x hlast, h.strictMono, fun j ↦ ?_,
      fun j z w hz hw ↦ h.kept j z w (hfront hz) hw, hdropped⟩
    rw [← hlength j, Nat.lt_succ_iff, Nat.lt_iff_le_and_ne]
    exact and_iff_left fun hj ↦ hmem ⟨j, hj⟩

/-- A relation between the accumulators that every kept member preserves, and every dropped one
on its side, holds at the end of the two folds. -/
theorem foldl_zipIdx (h : Thinned f Kept Dropped xs ys) {R : σ → τ → Prop}
    {G : σ → γ × ℕ → σ} {g : τ → δ × ℕ → τ}
    (hkept : ∀ i x y s t, Kept x y → R s t → R (G s (x, f i)) (g t (y, i)))
    (hdropped : ∀ k x s t, Dropped x → R s t → R (G s (x, k)) t) {s : σ} {t : τ}
    (hs : R s t) : R (xs.zipIdx.foldl G s) (ys.zipIdx.foldl g t) := by
  -- from the end, so that the members before keep their positions
  induction xs using List.reverseRecOn generalizing ys with
  | nil =>
    rw [h.eq_nil]
    exact hs
  | append_singleton xs x ih =>
    rw [List.zipIdx_append, List.foldl_append]
    simp only [List.zipIdx_singleton, List.foldl_cons, List.foldl_nil, Nat.zero_add]
    rcases h.append_cases with ⟨zs, y, rfl, hlength, hxy, hthin⟩ | ⟨hx, hthin⟩
    · rw [List.zipIdx_append, List.foldl_append, ← hlength]
      simp only [List.zipIdx_singleton, List.foldl_cons, List.foldl_nil, Nat.zero_add]
      exact hkept _ x y _ _ hxy (ih hthin)
    · exact hdropped _ x _ _ hx (ih hthin)

theorem foldl (h : Thinned f Kept Dropped xs ys) {R : σ → τ → Prop} {G : σ → γ → σ}
    {g : τ → δ → τ} (hkept : ∀ x y s t, Kept x y → R s t → R (G s x) (g t y))
    (hdropped : ∀ x s t, Dropped x → R s t → R (G s x) t) {s : σ} {t : τ} (hs : R s t) :
    R (xs.foldl G s) (ys.foldl g t) := by
  have hfolds := h.foldl_zipIdx (G := fun s x ↦ G s x.1) (g := fun t y ↦ g t y.1)
    (fun _ x y s t ↦ hkept x y s t) (fun _ x s t ↦ hdropped x s t) hs
  rwa [← List.foldl_map (g := G), ← List.foldl_map (g := g), List.zipIdx_map_fst,
    List.zipIdx_map_fst] at hfolds

theorem findIdx? (h : Thinned f Kept Dropped xs ys) {P : γ → Bool} {p : δ → Bool}
    (hkept : ∀ x y, Kept x y → P x = p y) (hdropped : ∀ x, Dropped x → P x = false) :
    xs.findIdx? P = (ys.findIdx? p).map f := by
  induction xs using List.reverseRecOn generalizing ys with
  | nil => rw [h.eq_nil]; rfl
  | append_singleton xs x ih =>
    rcases h.append_cases with ⟨zs, y, rfl, hlength, hxy, hthin⟩ | ⟨hx, hthin⟩
    · simp only [List.findIdx?_append, List.findIdx?_singleton, ih hthin, hkept x y hxy, ← hlength]
      cases zs.findIdx? p <;> cases p y <;> simp
    · simp only [List.findIdx?_append, List.findIdx?_singleton, ih hthin, hdropped x hx]
      simp

end Thinned

theorem thinned_map_range {N n : ℕ} {F : ℕ → γ} {g : ℕ → δ} (hf : StrictMono f)
    (hlt : ∀ i, f i < N ↔ i < n) (hkept : ∀ i < n, Kept (F (f i)) (g i))
    (hdropped : ∀ k ∉ Set.range f, Dropped (F k)) :
    Thinned f Kept Dropped ((List.range N).map F) ((List.range n).map g) := by
  refine ⟨hf, by simpa using hlt, fun i x y hx hy ↦ ?_, fun k hk x hx ↦ ?_⟩
  · obtain ⟨hi, rfl⟩ : i < n ∧ g i = y := by simpa [List.getElem?_eq_some_iff] using hy
    obtain ⟨-, rfl⟩ : f i < N ∧ F (f i) = x := by simpa [List.getElem?_eq_some_iff] using hx
    exact hkept i hi
  · obtain ⟨-, rfl⟩ : k < N ∧ F k = x := by simpa [List.getElem?_eq_some_iff] using hx
    exact hdropped k hk

end LinProg
