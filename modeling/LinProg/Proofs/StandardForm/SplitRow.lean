import Mathlib.Logic.Basic
import LinProg.Proofs.StandardForm.Renumbering

namespace LinProg

variable {α : Type}

/-- Two rows that have the terms of a ranged row and one of its sides each. Their names, and the
sides that are not in force, may be anything. -/
structure Row.SplitsInto (r low high : Row α) : Prop where
  boundType_eq : r.boundType = .double
  boundType_low : low.boundType = .lower
  boundType_high : high.boundType = .upper
  coefficients_low : low.coefficients = r.coefficients
  coefficients_high : high.coefficients = r.coefficients
  lower_low : low.lower = r.lower
  upper_high : high.upper = r.upper

def Problem.splitRow (p : Problem α) (i : ℕ) (low high : Row α) : Problem α :=
  { p with rows := p.rows.take i ++ #[low, high] ++ p.rows.drop (i + 1) }

/-- The index of a row when the rows `i` and `i + 1` become one. -/
def mergedIndex (i k : ℕ) : ℕ := if k ≤ i then k else k - 1

namespace Row.SplitsInto

variable {r low high : Row α} (h : r.SplitsInto low high)

include h

theorem sides_eq : r.sides = low.sides ++ high.sides := by
  unfold sides
  rw [h.boundType_eq, h.boundType_low, h.boundType_high, h.lower_low, h.upper_high]
  rfl

variable [Scalar α]

theorem isEmpty_low : low.isEmpty = r.isEmpty := by
  rw [isEmpty, isEmpty, h.coefficients_low]

theorem isEmpty_high : high.isEmpty = r.isEmpty := by
  rw [isEmpty, isEmpty, h.coefficients_high]

theorem shiftedSides_eq (columns : List (ColumnMap α)) :
    StandardForm.shiftedSides columns r =
      StandardForm.shiftedSides columns low ++ StandardForm.shiftedSides columns high := by
  unfold StandardForm.shiftedSides
  rw [h.sides_eq, h.coefficients_low, h.coefficients_high, List.map_append]

theorem rowConstraints_eq (columns : List (ColumnMap α)) (i : ℕ) :
    StandardForm.rowConstraints columns r i =
      StandardForm.rowConstraints columns low i ++ StandardForm.rowConstraints columns high i := by
  have hspread {s : Row α} (hs : s.coefficients = r.coefficients) :
      StandardForm.spreadRow columns s = StandardForm.spreadRow columns r := by
    rw [StandardForm.spreadRow, StandardForm.spreadRow, hs]
  unfold StandardForm.rowConstraints
  rw [hspread h.coefficients_low, hspread h.coefficients_high, h.shiftedSides_eq, List.map_append]

end Row.SplitsInto

theorem zipIdx_mergedIndex {β : Type} (as bs : List β) (x y : β) :
    (as ++ x :: y :: bs).zipIdx.map (Prod.map id (mergedIndex as.length)) =
      as.zipIdx ++ (x, as.length) :: (y, as.length) :: bs.zipIdx (as.length + 1) := by
  have hbefore : as.zipIdx.map (Prod.map id (mergedIndex as.length)) = as.zipIdx := by
    refine (List.map_congr_left fun c hc ↦ ?_).trans (List.map_id _)
    have hlt := List.snd_lt_of_mem_zipIdx hc
    exact Prod.ext rfl (if_pos (by omega))
  have hafter : (bs.zipIdx (as.length + 1 + 1)).map (Prod.map id (mergedIndex as.length)) =
      bs.zipIdx (as.length + 1) := by
    rw [List.zipIdx_succ, List.map_map]
    refine (List.map_congr_left fun c hc ↦ ?_).trans (List.map_id _)
    have hle := List.le_snd_of_mem_zipIdx hc
    exact Prod.ext rfl (if_neg (by rw [Nat.not_le]; exact Nat.lt_succ_of_le (by omega)))
  simp [List.zipIdx_append, hbefore, hafter, mergedIndex]

namespace Problem

variable {p : Problem α} {i : ℕ} {low high : Row α}

theorem toList_rows_splitRow :
    (p.splitRow i low high).rows.toList =
      p.rows.toList.take i ++ low :: high :: p.rows.toList.drop (i + 1) := by
  have hdrop : p.rows.toList.drop (i + 1) =
      (p.rows.toList.drop (i + 1)).take (p.rows.size - (i + 1)) :=
    (List.take_of_length_le (by simp)).symm
  rw [hdrop]
  simp [splitRow]

theorem exists_rows_splitRow {r : Row α} (hr : p.rows[i]? = some r) (low high : Row α) :
    ∃ as bs, as.length = i ∧ p.rows.toList = as ++ r :: bs ∧
      (p.splitRow i low high).rows.toList = as ++ low :: high :: bs := by
  obtain ⟨hi, rfl⟩ := Array.getElem?_eq_some_iff.mp hr
  refine ⟨p.rows.toList.take i, p.rows.toList.drop (i + 1), ?_, ?_, toList_rows_splitRow⟩
  · simp only [List.length_take, Array.length_toList]
    omega
  · rw [← Array.getElem_toList, ← List.drop_eq_getElem_cons, List.take_append_drop]

theorem numRows_splitRow (hi : i < p.numRows) :
    (p.splitRow i low high).numRows = p.numRows + 1 := by
  rw [numRows] at hi ⊢
  rw [numRows, ← Array.length_toList, toList_rows_splitRow]
  simp only [List.length_append, List.length_take, List.length_cons, List.length_drop,
    Array.length_toList]
  omega

end Problem

namespace StandardForm

variable [Scalar α] (presolve : Bool) (tolerance : α) (columns : List (ColumnMap α))

def constraintsAt (row : Row α × ℕ) : List (Constraint α) :=
  if presolve && row.1.isEmpty then [] else rowConstraints columns row.1 row.2

def faultAt (row : Row α × ℕ) : Option ℕ :=
  if (presolve && row.1.isEmpty) && (shiftedSides columns row.1).any (fun side ↦
    side.1.excludesZero tolerance side.2) then some row.2 else none

theorem map_renumber_constraintsAt (f : ℕ → ℕ) (row : Row α × ℕ) :
    (constraintsAt presolve columns row).map (.renumber f) =
      constraintsAt presolve columns (row.map id f) := by
  unfold constraintsAt rowConstraints
  rw [apply_ite (List.map (Constraint.renumber f)), List.map_map]
  rfl

theorem map_faultAt (f : ℕ → ℕ) (row : Row α × ℕ) :
    (faultAt presolve tolerance columns row).map f =
      faultAt presolve tolerance columns (row.map id f) := by
  unfold faultAt
  rw [apply_ite (Option.map f)]
  rfl

theorem map_renumber_rangeConstraint? (f : ℕ → ℕ) (c : Column α) (j : ℕ) :
    (rangeConstraint? columns c j).map (.renumber f) = rangeConstraint? columns c j := by
  unfold rangeConstraint?
  split_ifs <;> rfl

section

variable {r low high : Row α} (h : r.SplitsInto low high)

include h

theorem constraintsAt_eq_append (i : ℕ) :
    constraintsAt presolve columns (r, i) =
      constraintsAt presolve columns (low, i) ++ constraintsAt presolve columns (high, i) := by
  unfold constraintsAt
  simp only [h.isEmpty_low, h.isEmpty_high, h.rowConstraints_eq]
  split_ifs <;> rfl

theorem faultAt_eq_or (i : ℕ) :
    faultAt presolve tolerance columns (r, i) =
      (faultAt presolve tolerance columns (low, i)).or
        (faultAt presolve tolerance columns (high, i)) := by
  unfold faultAt
  simp only [h.isEmpty_low, h.isEmpty_high, h.shiftedSides_eq, List.any_append,
    Bool.and_or_distrib_left, Bool.or_eq_true]
  split_ifs <;> simp_all

/-- Up to the numbers of the rows, the two problems have the same standard form. -/
theorem ofProblem_eq_renumber_splitRow {p : Problem α} {i : ℕ} (hr : p.rows[i]? = some r) :
    ofProblem p presolve tolerance =
      (ofProblem (p.splitRow i low high) presolve tolerance).renumber (mergedIndex i) := by
  obtain ⟨as, bs, rfl, hp, hsplit⟩ := Problem.exists_rows_splitRow hr low high
  have hzip : p.rows.toList.zipIdx =
      as.zipIdx ++ (r, as.length) :: bs.zipIdx (as.length + 1) := by
    rw [hp, List.zipIdx_append, List.zipIdx_cons, Nat.zero_add]
  have hmerged := zipIdx_mergedIndex as bs low high
  rw [← hsplit] at hmerged
  let columns := p.columns.toList.map ColumnMap.ofColumn
  -- with the indices merged, both problems list their rows alike but for the one that is split
  have hconstraints : p.rows.toList.zipIdx.flatMap (constraintsAt presolve columns) =
      ((p.splitRow as.length low high).rows.toList.zipIdx.flatMap
        (constraintsAt presolve columns)).map (.renumber (mergedIndex as.length)) := by
    simp only [List.map_flatMap, map_renumber_constraintsAt]
    rw [← List.flatMap_map (Prod.map id _) (constraintsAt presolve columns), hmerged, hzip]
    simp only [List.flatMap_append, List.flatMap_cons, constraintsAt_eq_append presolve columns h,
      List.append_assoc]
  have hfault : p.rows.toList.zipIdx.findSome? (faultAt presolve tolerance columns) =
      ((p.splitRow as.length low high).rows.toList.zipIdx.findSome?
        (faultAt presolve tolerance columns)).map (mergedIndex as.length) := by
    have hcons (x : Row α × ℕ) (xs : List (Row α × ℕ)) :
        (x :: xs).findSome? (faultAt presolve tolerance columns) =
          (faultAt presolve tolerance columns x).or
            (xs.findSome? (faultAt presolve tolerance columns)) := by
      rw [List.findSome?_cons]
      cases faultAt presolve tolerance columns x <;> rfl
    rw [List.map_findSome?, show Option.map _ ∘ faultAt presolve tolerance columns =
      faultAt presolve tolerance columns ∘ Prod.map id _ from
        funext (map_faultAt presolve tolerance columns _), ← List.findSome?_map, hmerged, hzip]
    simp only [List.findSome?_append, hcons, faultAt_eq_or presolve tolerance columns h,
      Option.or_assoc]
  have hranges : p.columns.toList.zipIdx.filterMap (fun c ↦ rangeConstraint? columns c.1 c.2) =
      (p.columns.toList.zipIdx.filterMap fun c ↦ rangeConstraint? columns c.1 c.2).map
        (.renumber (mergedIndex as.length)) := by
    simp only [List.map_filterMap, map_renumber_rangeConstraint?]
  change StandardForm.mk .. = StandardForm.mk ..
  simp only [StandardForm.mk.injEq]
  refine ⟨rfl, rfl, ?_, rfl, hfault⟩
  exact (congrArg₂ (· ++ ·) hconstraints hranges).trans List.map_append.symm

end

end StandardForm

end LinProg
