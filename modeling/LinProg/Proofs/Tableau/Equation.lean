import LinProg.Proofs.LinearForm

namespace LinProg.Equation

open Finset

def form (e : Equation ℚ) (x : ℕ → ℚ) : ℚ := ∑ j ∈ range e.coefficients.size, e.coefficient j * x j

def residual (e : Equation ℚ) (x : ℕ → ℚ) : ℚ := e.form x - e.rhs

theorem form_mk (a : List ℚ) (b : ℚ) (x : ℕ → ℚ) :
    (⟨a.toArray, b⟩ : Equation ℚ).form x = dot a x := by
  simp [form, dot, coefficient, List.getD_eq_getElem?_getD]

theorem coefficient_of_lt {e : Equation ℚ} {j : ℕ} (h : j < e.coefficients.size) :
    e.coefficient j = e.coefficients[j] := by simp [coefficient, h]

theorem coefficient_of_le {e : Equation ℚ} {j : ℕ} (h : e.coefficients.size ≤ j) :
    e.coefficient j = 0 := by simp [coefficient, h]

theorem lt_size_of_coefficient_ne {e : Equation ℚ} {j : ℕ} (h : e.coefficient j ≠ 0) :
    j < e.coefficients.size := by
  by_contra hj
  exact h (coefficient_of_le (Nat.le_of_not_lt hj))

theorem mem_extract {e : Equation ℚ} {n : ℕ} {a : ℚ} :
    a ∈ e.coefficients.extract 0 n ↔ ∃ j < n, j < e.coefficients.size ∧ e.coefficient j = a := by
  rw [Array.mem_extract_iff_getElem]
  constructor
  · rintro ⟨j, hj, rfl⟩
    simp only [Nat.zero_add]
    exact ⟨j, by omega, by omega, coefficient_of_lt _⟩
  · rintro ⟨j, hn, hj, rfl⟩
    simp only [Nat.zero_add]
    exact ⟨j, by omega, (coefficient_of_lt hj).symm⟩

@[simp] theorem size_divide (e : Equation ℚ) (d : ℚ) :
    (e.divide d).coefficients.size = e.coefficients.size := by simp [divide]

@[simp] theorem coefficient_divide (e : Equation ℚ) (d : ℚ) (j : ℕ) :
    (e.divide d).coefficient j = e.coefficient j / d := by
  by_cases h : j < e.coefficients.size <;> simp [coefficient, divide, h]

variable {e f : Equation ℚ}

@[simp] theorem size_add (h : f.coefficients.size = e.coefficients.size) :
    (e.add f).coefficients.size = e.coefficients.size := by simp [add, h]

@[simp] theorem coefficient_add (h : f.coefficients.size = e.coefficients.size) (j : ℕ) :
    (e.add f).coefficient j = e.coefficient j + f.coefficient j := by
  by_cases hj : j < e.coefficients.size <;> simp [coefficient, add, h, hj]

@[simp] theorem size_subScaled (h : f.coefficients.size = e.coefficients.size) (k : ℚ) :
    (e.subScaled k f).coefficients.size = e.coefficients.size := by simp [subScaled, h]

@[simp] theorem coefficient_subScaled (h : f.coefficients.size = e.coefficients.size) (k : ℚ)
    (j : ℕ) : (e.subScaled k f).coefficient j = e.coefficient j - k * f.coefficient j := by
  by_cases hj : j < e.coefficients.size <;> simp [coefficient, subScaled, h, hj]

theorem rhs_eliminate (e f : Equation ℚ) (j : ℕ) :
    (e.eliminate j f).rhs = e.rhs - e.coefficient j * f.rhs := by
  unfold eliminate
  by_cases hk : e.coefficient j = 0
  · simp [hk]
  · simp only [beq_iff_eq, hk, if_false]
    rfl

theorem eliminate_eq (h : f.coefficients.size = e.coefficients.size) (j : ℕ) :
    (e.eliminate j f).coefficients.size = e.coefficients.size ∧
      (e.eliminate j f).rhs = e.rhs - e.coefficient j * f.rhs ∧
      ∀ i, (e.eliminate j f).coefficient i =
        e.coefficient i - e.coefficient j * f.coefficient i := by
  have hrhs := rhs_eliminate e f j
  unfold eliminate at hrhs ⊢
  by_cases hk : e.coefficient j = 0
  · simp [hk]
  · simp only [beq_iff_eq, hk, if_false] at hrhs ⊢
    exact ⟨size_subScaled h _, hrhs, coefficient_subScaled h _⟩

theorem form_congr {x : ℕ → ℚ} {g : ℕ → ℚ} {n : ℕ} (hn : e.coefficients.size = n)
    (hg : ∀ j, e.coefficient j = g j) : e.form x = ∑ j ∈ range n, g j * x j := by
  rw [form, hn]
  exact sum_congr rfl fun j _ ↦ by rw [hg]

theorem residual_divide (e : Equation ℚ) (d : ℚ) (x : ℕ → ℚ) :
    (e.divide d).residual x = e.residual x / d := by
  have hform : (e.divide d).form x = e.form x / d := by
    rw [form_congr (size_divide e d) (coefficient_divide e d), form, sum_div]
    exact sum_congr rfl fun j _ ↦ by ring
  rw [residual, hform, residual, sub_div]
  rfl

theorem residual_add (h : f.coefficients.size = e.coefficients.size) (x : ℕ → ℚ) :
    (e.add f).residual x = e.residual x + f.residual x := by
  have hform : (e.add f).form x = e.form x + f.form x := by
    rw [form_congr (size_add h) (coefficient_add h), form, form, h, ← sum_add_distrib]
    exact sum_congr rfl fun j _ ↦ by ring
  have hrhs : (e.add f).rhs = e.rhs + f.rhs := rfl
  rw [residual, residual, residual, hform, hrhs]
  ring

theorem residual_of_sub {d : Equation ℚ} {k : ℚ} (hd : d.coefficients.size = e.coefficients.size)
    (hf : f.coefficients.size = e.coefficients.size) (hrhs : d.rhs = e.rhs - k * f.rhs)
    (hcoeff : ∀ j, d.coefficient j = e.coefficient j - k * f.coefficient j) (x : ℕ → ℚ) :
    d.residual x = e.residual x - k * f.residual x := by
  have hform : d.form x = e.form x - k * f.form x := by
    rw [form_congr hd hcoeff, form, form, hf, mul_sum, ← sum_sub_distrib]
    exact sum_congr rfl fun j _ ↦ by ring
  rw [residual, residual, residual, hform, hrhs]
  ring

theorem residual_subScaled (h : f.coefficients.size = e.coefficients.size) (k : ℚ) (x : ℕ → ℚ) :
    (e.subScaled k f).residual x = e.residual x - k * f.residual x :=
  residual_of_sub (size_subScaled h k) h rfl (coefficient_subScaled h k) x

theorem residual_eliminate (h : f.coefficients.size = e.coefficients.size) (j : ℕ) (x : ℕ → ℚ) :
    (e.eliminate j f).residual x = e.residual x - e.coefficient j * f.residual x :=
  residual_of_sub (eliminate_eq h j).1 h (eliminate_eq h j).2.1 (eliminate_eq h j).2.2 x

end LinProg.Equation
