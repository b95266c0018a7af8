import Mathlib.Logic.Function.Iterate
import LinProg.Logged

namespace LinProg.Logged

variable {E F σ τ : Type}

def turnWhile (p : σ → Bool) (f : σ → Logged E σ) (s : σ) : σ := if p s then (f s).value else s

theorem turnWhile_of_not {p : σ → Bool} (f : σ → Logged E σ) {s : σ} (h : p s = false) :
    turnWhile p f s = s := by simp [turnWhile, h]

theorem turnWhile_of {p : σ → Bool} (f : σ → Logged E σ) {s : σ} (h : p s = true) :
    turnWhile p f s = (f s).value := by simp [turnWhile, h]

theorem value_iterateWhile (p : σ → Bool) (f : σ → Logged E σ) (n : ℕ) (s : σ) :
    (iterateWhile p f n s).value = (turnWhile p f)^[n] s := by
  induction n generalizing s with
  | zero => rfl
  | succ n ih =>
    rw [iterateWhile_succ, Function.iterate_succ_apply]
    cases h : p s
    · rw [turnWhile_of_not f h, if_neg (by simp)]
      exact (Function.iterate_fixed (turnWhile_of_not f h) n).symm
    · rw [turnWhile_of f h, if_pos rfl, value_bind, ih]

theorem iterateWhile_of_le {p : σ → Bool} {f : σ → Logged E σ} {n m : ℕ} (h : n ≤ m) {s : σ}
    (hs : p (iterateWhile p f n s).value = false) :
    iterateWhile p f m s = iterateWhile p f n s := by
  induction n generalizing m s with
  | zero =>
    rw [iterateWhile_zero] at hs ⊢
    cases m with
    | zero => rfl
    | succ m => rw [iterateWhile_succ, if_neg (by simp [hs])]
  | succ n ih =>
    obtain ⟨m, rfl⟩ : ∃ k, m = k + 1 := ⟨m - 1, by omega⟩
    rw [iterateWhile_succ] at hs ⊢
    rw [iterateWhile_succ]
    split
    · next hp =>
      rw [if_pos hp, value_bind] at hs
      have hrest := ih (Nat.le_of_succ_le_succ h) hs
      exact ext (congrArg (·.value) hrest) (congrArg (fun r ↦ (f s).events ++ r.events) hrest)
    · rfl

/-- What every turn preserves of the state and of the events so far holds when the loop stops. -/
theorem iterateWhile_invariant {p : σ → Bool} {f : σ → Logged E σ} {P : σ → List E → Prop}
    (hstep : ∀ s log, p s = true → P s log → P (f s).value (log ++ (f s).events)) (n : ℕ) {s : σ}
    (log : List E) (h : P s log) :
    P (iterateWhile p f n s).value (log ++ (iterateWhile p f n s).events) := by
  induction n generalizing s log with
  | zero => simpa [iterateWhile_zero] using h
  | succ n ih =>
    rw [iterateWhile_succ]
    split
    · next hp =>
      rw [value_bind, events_bind, ← List.append_assoc]
      exact ih _ (hstep s log hp h)
    · simpa using h

theorem iterateWhile_related {p : σ → Bool} {q : τ → Bool} {f : σ → Logged E σ} {g : τ → Logged F τ}
    {R : σ → τ → Prop} (htest : ∀ s t, R s t → p s = q t)
    (hturn : ∀ s t, p s = true → R s t → R (f s).value (g t).value) (n : ℕ) {s : σ} {t : τ}
    (h : R s t) : R (iterateWhile p f n s).value (iterateWhile q g n t).value := by
  induction n generalizing s t with
  | zero => exact h
  | succ n ih =>
    rw [iterateWhile_succ, iterateWhile_succ, ← htest s t h]
    split
    · next hp => exact ih (hturn s t hp h)
    · exact h

theorem iterateWhile_stops {p : σ → Bool} {f : σ → Logged E σ} (μ : σ → ℕ)
    (hturn : ∀ s, p s = true → μ (f s).value < μ s) {n : ℕ} {s : σ} (hn : μ s ≤ n) :
    p (iterateWhile p f n s).value = false := by
  induction n generalizing s with
  | zero =>
    by_contra hp
    have hlt := hturn s (Bool.not_eq_false _ ▸ hp)
    omega
  | succ n ih =>
    rw [iterateWhile_succ]
    split
    · next hp =>
      have hlt := hturn s hp
      exact ih (by omega)
    · next hp => exact Bool.not_eq_true _ ▸ hp

/-- A loop passes where the same loop with a stricter test stops. -/
theorem exists_iterateWhile_add {p q : σ → Bool} (hpq : ∀ s, p s = true → q s = true)
    (f : σ → Logged E σ) (n : ℕ) (s : σ) :
    ∃ k, ∀ m, (iterateWhile q f (m + k) s).value =
      (iterateWhile q f m (iterateWhile p f n s).value).value := by
  induction n generalizing s with
  | zero => exact ⟨0, fun _ ↦ rfl⟩
  | succ n ih =>
    rw [iterateWhile_succ]
    split
    · next hp =>
      obtain ⟨k, hrest⟩ := ih (f s).value
      refine ⟨k + 1, fun m ↦ ?_⟩
      rw [← Nat.add_assoc, iterateWhile_succ, if_pos (hpq s hp), value_bind, hrest, value_bind]
    · exact ⟨0, fun _ ↦ rfl⟩

end LinProg.Logged
