import LinProg.Proofs.Model.Meaning

namespace LinProg

variable {α : Type} [Scalar α]

def Extended.isFinite : Extended α → Bool
  | .fin _ => true
  | .negInf | .posInf => false

/-- The bounds are normalized, and the type says which of them are finite. -/
structure Column.Classified (c : Column α) : Prop where
  lower_ne : c.lower ≠ .posInf
  upper_ne : c.upper ≠ .negInf
  free : c.boundType = .free ↔ c.lower.isFinite = false ∧ c.upper.isFinite = false
  lower : c.boundType = .lower ↔ c.lower.isFinite = true ∧ c.upper.isFinite = false
  upper : c.boundType = .upper ↔ c.lower.isFinite = false ∧ c.upper.isFinite = true
  double : c.boundType = .double ↔
    c.lower.isFinite = true ∧ c.upper.isFinite = true ∧ (c.lower == c.upper) = false
  fixed : c.boundType = .fixed ↔
    c.lower.isFinite = true ∧ c.upper.isFinite = true ∧ (c.lower == c.upper) = true

def Bounds.Proper (b : Bounds α) : Prop :=
  (b.type.apply b.lower b.upper).1 ≠ .posInf ∧ (b.type.apply b.lower b.upper).2 ≠ .negInf

theorem Column.classified_iff {c : Column α} (hc : c.boundType = .classify c.lower c.upper) :
    c.Classified ↔ c.lower ≠ .posInf ∧ c.upper ≠ .negInf := by
  constructor
  · intro h
    exact ⟨h.lower_ne, h.upper_ne⟩
  · rintro ⟨hl, hu⟩
    cases hlower : c.lower with
    | posInf => exact absurd hlower hl
    | negInf =>
      cases hupper : c.upper with
      | negInf => exact absurd hupper hu
      | posInf | fin u =>
        constructor <;>
          simp [hc, hlower, hupper, BoundType.classify, normalizeBounds, Extended.isFinite]
    | fin l =>
      cases hupper : c.upper with
      | negInf => exact absurd hupper hu
      | posInf =>
        constructor <;>
          simp [hc, hlower, hupper, BoundType.classify, normalizeBounds, Extended.isFinite]
      | fin u =>
        cases he : (Extended.fin l == Extended.fin u) <;> constructor <;>
          simp [hc, hlower, hupper, BoundType.classify, normalizeBounds, Extended.isFinite, bne, he]

namespace Problem

/-- The columns of a built problem carry normalized bounds that agree with their types, but for
those that are not binary and whose last bounds have a side in force at the wrong end. -/
theorem classified_build_iff (spec : ProblemSpec α) :
    ∃ p : Problem α, (Problem.build spec).value = .ok p ∧ ∀ c ∈ p.columns, c.Classified ↔
      (c.name ∉ spec.binaries → ∀ b, lastNamed ColumnBoundSpec.name spec.bounds c.name = some b →
        b.bounds.Proper) := by
  obtain ⟨p, hp, -, -, hcolumns, -⟩ := exists_build spec
  refine ⟨p, hp, fun c hc ↦ ?_⟩
  rw [← Array.mem_toList_iff, hcolumns] at hc
  obtain ⟨name, -, rfl⟩ := List.mem_map.mp hc
  rw [Column.classified_iff rfl]
  change (spec.boundsOf name).1 ≠ .posInf ∧ (spec.boundsOf name).2 ≠ .negInf ↔
    (name ∉ spec.binaries → ∀ b, lastNamed ColumnBoundSpec.name spec.bounds name = some b → _)
  unfold ProblemSpec.boundsOf
  by_cases hbinary : name ∈ spec.binaries
  · simp [hbinary]
  · cases lastNamed ColumnBoundSpec.name spec.bounds name with
    | none => simp [hbinary]
    | some b => simp [hbinary, Bounds.Proper]

theorem classified_build_iff_overlapping :
    ∃ p : Problem ℚ, (Problem.build overlapping).value = .ok p ∧ ∀ c ∈ p.columns, c.Classified := by
  obtain ⟨p, hp, hiff⟩ := classified_build_iff overlapping
  have hproper : ∀ b ∈ overlapping.bounds, b.bounds.Proper := by
    simp [overlapping, Bounds.Proper, BoundType.apply]
  refine ⟨p, hp, fun c hc ↦ (hiff c hc).mpr fun _ b hb ↦ hproper b ?_⟩
  exact List.mem_reverse.mp (List.mem_of_find?_eq_some hb)

/-- One column that is to have no value below `+∞`. -/
def infiniteLower : ProblemSpec ℚ :=
  { name := "infinite lower bound", objective := ⟨.minimize, [⟨"x", 1⟩]⟩, subjectTo := []
    bounds := [⟨"x", ⟨.lower, .posInf, .fin 0⟩⟩], generals := [], binaries := []
    options := .none }

theorem not_classified_infiniteLower :
    ∃ (p : Problem ℚ) (c : Column ℚ), (Problem.build infiniteLower).value = .ok p ∧
      c ∈ p.columns ∧ c.boundType = .lower ∧ c.lower = .posInf ∧ ¬ c.Classified := by
  obtain ⟨p, hp, -, -, hcolumns, -⟩ := exists_build infiniteLower
  have hlower : (infiniteLower.column "x").lower = .posInf := by decide +kernel
  refine ⟨p, infiniteLower.column "x", hp, ?_, by decide +kernel, hlower, ?_⟩
  · rw [← Array.mem_toList_iff, hcolumns]
    exact List.mem_map_of_mem
      (List.mem_eraseDups.mpr (by simp [ProblemSpec.mentions, infiniteLower]))
  · intro h
    exact h.lower_ne hlower

end Problem

end LinProg
