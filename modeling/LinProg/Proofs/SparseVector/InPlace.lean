import LinProg.Proofs.SparseVector.Entries

namespace LinProg

open EStateM (Result)
open SparseVector (scaledPairs addScaled_eq addScaled_eq_error)

/-- Changes one vector, and keeps what has been changed when it stops with an error. -/
abbrev InPlace (α : Type) := EStateM VectorError (SparseVector α)

/-- What becomes of a value under an operation that either gives a new one or fails. -/
def settle {ν : Type} (v : ν) : Except VectorError ν → Result VectorError ν Unit
  | .ok w => .ok () w
  | .error e => .error e v

namespace InPlace

section

variable {α : Type}

def clear : InPlace α Unit := modify SparseVector.clear

def copyFrom (src : SparseVector α) : InPlace α Unit := do
  ofExcept ((← get).requireSameDim src)
  clear
  forM src.entries.toList fun e ↦ modify (·.append e)

end

section

variable {α : Type} [Scalar α]

def set (slot : ℕ) (value : α) : InPlace α Unit := do
  match ← ofExcept ((← get).locate slot) with
  | some k => modify (·.update k fun _ ↦ value)
  | none => if value != 0 then modify (·.append ⟨slot, value⟩)

def add (slot : ℕ) (delta : α) : InPlace α Unit := do
  match ← ofExcept ((← get).locate slot) with
  | some k => modify (·.update k (· + delta))
  | none => set slot delta

def clean (eps : α) : InPlace α Unit := modify (·.clean eps)

def addScaled (a : α) (y : SparseVector α) : InPlace α Unit := do
  ofExcept ((← get).requireSameDim y)
  if a == 0 then return
  forM y.toList fun p ↦ add p.1 (a * p.2)

end

section

variable {α : Type} {v w : SparseVector α}

theorem run_read {β : Type} (read : SparseVector α → Except VectorError β)
    (rest : β → InPlace α Unit) (v : SparseVector α) :
    (do rest (← ofExcept (read (← get))) : InPlace α Unit).run v =
      match read v with
      | .ok x => (rest x).run v
      | .error e => .error e v := by
  change (do rest (← ofExcept (read v)) : InPlace α Unit).run v = _
  cases read v <;> rfl

theorem run_forM_append (es : List (Entry α)) (v : SparseVector α) :
    (forM es fun e ↦ modify (·.append e) : InPlace α Unit).run v =
      .ok () (es.foldl SparseVector.append v) := by
  induction es generalizing v with
  | nil => rfl
  | cons e es ih => exact ih (v.append e)

theorem run_copyFrom (src v : SparseVector α) :
    (copyFrom src).run v = settle v (v.copyFrom src) := by
  unfold copyFrom SparseVector.copyFrom
  rw [run_read (·.requireSameDim src)]
  cases v.requireSameDim src with
  | error e => rfl
  | ok _ =>
    rw [← Array.foldl_toList]
    exact run_forM_append src.entries.toList v.clear

end

section

variable {α : Type} [Scalar α] {v w y : SparseVector α}

theorem run_set (slot : ℕ) (value : α) (v : SparseVector α) :
    (set slot value).run v = settle v (v.set slot value) := by
  unfold set SparseVector.set
  rw [run_read (·.locate slot)]
  cases v.locate slot with
  | error e => rfl
  | ok place =>
    cases place with
    | some k => rfl
    | none =>
      simp only [bind, Except.bind]
      split_ifs <;> rfl

theorem run_add (slot : ℕ) (delta : α) (v : SparseVector α) :
    (add slot delta).run v = settle v (v.add slot delta) := by
  unfold add SparseVector.add
  rw [run_read (·.locate slot)]
  cases v.locate slot with
  | error e => rfl
  | ok place =>
    cases place with
    | some k => rfl
    | none => exact run_set slot delta v

theorem run_forM_add {a : α} {pairs : List (ℕ × α)}
    (h : pairs.foldlM (fun v p ↦ v.add p.1 (a * p.2)) v = .ok w) :
    (forM pairs fun p ↦ add p.1 (a * p.2)).run v = .ok () w := by
  induction pairs generalizing v with
  | nil =>
    cases h
    rfl
  | cons p pairs ih =>
    rw [List.foldlM_cons] at h
    have hadd := run_add p.1 (a * p.2) v
    cases ha : v.add p.1 (a * p.2) with
    | error e => simp [ha, bind, Except.bind] at h
    | ok u =>
      rw [ha] at h hadd
      rw [List.forM_cons, EStateM.run_bind, hadd]
      exact ih h

/-- The loop over the entries of the other vector is never left half done. -/
theorem run_addScaled (hv : v.Valid) (hy : y.Valid) (a : α) :
    (addScaled a y).run v = settle v (v.addScaled a y) := by
  unfold addScaled
  rw [run_read (·.requireSameDim y)]
  by_cases hdim : v.dim = y.dim
  · have hsame : v.requireSameDim y = .ok () := if_pos hdim
    simp only [hsame]
    by_cases ha : (a == 0) = true
    · rw [addScaled_eq hdim, if_pos ha, if_pos ha]
      rfl
    · obtain ⟨w, hw⟩ := hv.exists_addScaled hy hdim a
      rw [hw, if_neg ha]
      rw [addScaled_eq hdim, if_neg ha, scaledPairs, List.foldlM_map] at hw
      exact run_forM_add hw
  · have hother : v.requireSameDim y = .error (.dimensionMismatch v.dim y.dim) := if_neg hdim
    rw [hother, addScaled_eq_error hdim]
    rfl

end

end InPlace

end LinProg
