import Mathlib.Algebra.BigOperators.Field
import Mathlib.Tactic.Ring
import LinProg.Proofs.Rational

namespace LinProg

open Finset

def dot (a : List ℚ) (x : ℕ → ℚ) : ℚ := ∑ j ∈ range a.length, a.getD j 0 * x j

@[simp] theorem dot_nil (x : ℕ → ℚ) : dot [] x = 0 := rfl

@[simp] theorem dot_cons (c : ℚ) (a : List ℚ) (x : ℕ → ℚ) :
    dot (c :: a) x = c * x 0 + dot a (fun j ↦ x (j + 1)) := by
  rw [dot, List.length_cons, sum_range_succ', add_comm]
  rfl

theorem dot_append (a b : List ℚ) (x : ℕ → ℚ) :
    dot (a ++ b) x = dot a x + dot b (fun j ↦ x (a.length + j)) := by
  induction a generalizing x with
  | nil => simp
  | cons c a ih =>
    simp only [List.cons_append, dot_cons, ih, List.length_cons]
    rw [add_assoc]
    congr 3
    funext j
    congr 1
    omega

theorem dot_map_mul (k : ℚ) (a : List ℚ) (x : ℕ → ℚ) : dot (a.map (k * ·)) x = k * dot a x := by
  induction a generalizing x with
  | nil => simp
  | cons c a ih =>
    simp only [List.map_cons, dot_cons, ih]
    ring

theorem dot_add_mul (a : List ℚ) (x d : ℕ → ℚ) (amount : ℚ) :
    dot a (fun j ↦ x j + amount * d j) = dot a x + amount * dot a d := by
  simp only [dot, mul_add, sum_add_distrib, mul_sum]
  congr 1
  exact sum_congr rfl fun j _ ↦ mul_left_comm _ _ _

theorem dot_replicate (n : ℕ) (c : ℚ) (x : ℕ → ℚ) :
    dot (List.replicate n c) x = c * ∑ j ∈ range n, x j := by
  induction n generalizing x with
  | zero => simp
  | succ n ih =>
    rw [List.replicate_succ, dot_cons, ih, sum_range_succ']
    ring

theorem dot_replicate_zero (n : ℕ) (x : ℕ → ℚ) : dot (List.replicate n 0) x = 0 := by
  rw [dot_replicate, zero_mul]

theorem dot_congr {a : List ℚ} {x y : ℕ → ℚ} (h : ∀ j < a.length, x j = y j) :
    dot a x = dot a y :=
  sum_congr rfl fun j hj ↦ by rw [h j (mem_range.mp hj)]

theorem dot_set_replicate {n i : ℕ} (h : i < n) (c : ℚ) (x : ℕ → ℚ) :
    dot ((List.replicate n 0).set i c) x = c * x i := by
  induction n generalizing i x with
  | zero => omega
  | succ n ih =>
    cases i with
    | zero => simp [List.replicate_succ, dot_replicate_zero]
    | succ i => simp [List.replicate_succ, ih (Nat.lt_of_succ_lt_succ h)]

end LinProg
