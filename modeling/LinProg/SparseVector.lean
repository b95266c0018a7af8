import LinProg.Scalar

namespace LinProg

inductive VectorError where
  | invalidDimension (dim : Int)
  | outOfRange (slot dim : Nat)
  | dimensionMismatch (left right : Nat)
  | inconsistent (slot : Nat)
  deriving Repr, DecidableEq

def VectorError.message : VectorError → String
  | invalidDimension dim => s!"Invalid vector dimension: {dim}"
  | outOfRange slot dim => s!"Index {slot} out of range 1..={dim}"
  | dimensionMismatch left right => s!"Dimension mismatch: {left} vs {right}"
  | inconsistent slot => s!"Position index inconsistent at slot {slot}"

structure Entry (α : Type) where
  slot : Nat
  value : α
  deriving Repr, DecidableEq

instance {α : Type} [BEq α] : BEq (Entry α) where
  beq a b := a.slot == b.slot && a.value == b.value

/-- The entries keep the order in which their slots were first written, and the position table
leads from a slot, there counted from zero, to its entry. A stored entry may hold zero. -/
structure SparseVector (α : Type) where
  position : Array (Option Nat)
  entries : Array (Entry α)
  deriving Repr, DecidableEq

namespace SparseVector

variable {α : Type}

instance [BEq α] : BEq (SparseVector α) where
  beq v w := v.position == w.position && v.entries == w.entries

def zero (dim : Nat) : SparseVector α := ⟨Array.replicate dim none, #[]⟩

instance : Inhabited (SparseVector α) := ⟨zero 0⟩

def zero? (dim : Int) : Except VectorError (SparseVector α) :=
  if dim < 0 then .error (.invalidDimension dim) else .ok (zero dim.toNat)

def dim (v : SparseVector α) : Nat := v.position.size

def nnz (v : SparseVector α) : Nat := v.entries.size

def toList (v : SparseVector α) : List (Nat × α) :=
  v.entries.toList.map fun e ↦ (e.slot, e.value)

def locate (v : SparseVector α) (slot : Nat) : Except VectorError (Option Nat) :=
  if slot = 0 ∨ v.dim < slot then .error (.outOfRange slot v.dim)
  else .ok (v.position[slot - 1]?.join)

def append (v : SparseVector α) (e : Entry α) : SparseVector α :=
  ⟨v.position.setIfInBounds (e.slot - 1) (some v.entries.size), v.entries.push e⟩

def update (v : SparseVector α) (k : Nat) (f : α → α) : SparseVector α :=
  ⟨v.position, v.entries.modify k fun e ↦ ⟨e.slot, f e.value⟩⟩

def clear (v : SparseVector α) : SparseVector α :=
  ⟨v.entries.foldl (fun position e ↦ position.setIfInBounds (e.slot - 1) none) v.position, #[]⟩

/-- Keeps the entries that pass a test, in their order, and takes the others out of the position
table. The kept ones may have moved, so the table is right again only when they are renumbered. -/
def retain (v : SparseVector α) (keep : Entry α → Bool) : SparseVector α :=
  v.entries.foldl
    (fun w e ↦
      if keep e then { w with entries := w.entries.push e }
      else { w with position := w.position.setIfInBounds (e.slot - 1) none })
    ⟨v.position, #[]⟩

def renumber (v : SparseVector α) : SparseVector α :=
  let position := v.entries.zipIdx.foldl
    (fun position (e, k) ↦ position.setIfInBounds (e.slot - 1) (some k)) v.position
  { v with position }

def requireSameDim (v w : SparseVector α) : Except VectorError Unit :=
  if v.dim = w.dim then .ok () else .error (.dimensionMismatch v.dim w.dim)

def copyFrom (v src : SparseVector α) : Except VectorError (SparseVector α) := do
  v.requireSameDim src
  return src.entries.foldl append v.clear

/-- Checks that the entries lie on distinct slots and that the position table leads to them and
nowhere else. -/
def check (v : SparseVector α) : Except VectorError Unit := do
  for (e, k) in v.entries.toList.zipIdx do
    if e.slot = 0 ∨ v.dim < e.slot then throw (.outOfRange e.slot v.dim)
    if v.position[e.slot - 1]? ≠ some (some k) then throw (.inconsistent e.slot)
  for (place, j) in v.position.toList.zipIdx do
    if let some k := place then
      if (v.entries[k]?).map (·.slot) ≠ some (j + 1) then throw (.inconsistent (j + 1))

@[simp] theorem dim_zero (dim : Nat) : (zero dim : SparseVector α).dim = dim := by
  simp [zero, SparseVector.dim]

@[simp] theorem dim_append (v : SparseVector α) (e : Entry α) : (v.append e).dim = v.dim := by
  simp [append, dim]

theorem locate_eq_error (v : SparseVector α) (slot : Nat) (h : slot = 0 ∨ v.dim < slot) :
    v.locate slot = .error (.outOfRange slot v.dim) := if_pos h

theorem locate_eq_ok (v : SparseVector α) (slot : Nat) (h : ¬(slot = 0 ∨ v.dim < slot)) :
    v.locate slot = .ok (v.position[slot - 1]?.join) := if_neg h

variable [Scalar α]

def get (v : SparseVector α) (slot : Nat) : Except VectorError α := do
  let place ← v.locate slot
  return ((place.bind (v.entries[·]?)).map (·.value)).getD 0

def coefficient (v : SparseVector α) (slot : Nat) : α :=
  match v.get slot with
  | .ok x => x
  | .error _ => 0

/-- Overwrites a slot. Zero is not stored in a slot that has no entry. -/
def set (v : SparseVector α) (slot : Nat) (value : α) : Except VectorError (SparseVector α) := do
  match ← v.locate slot with
  | some k => return v.update k fun _ ↦ value
  | none => return if value != 0 then v.append ⟨slot, value⟩ else v

def add (v : SparseVector α) (slot : Nat) (delta : α) : Except VectorError (SparseVector α) := do
  match ← v.locate slot with
  | some k => return v.update k (· + delta)
  | none => v.set slot delta

def ofPairs (dim : Nat) (pairs : List (Nat × α)) : Except VectorError (SparseVector α) :=
  pairs.foldlM (fun v p ↦ v.add p.1 p.2) (zero dim)

def clean (v : SparseVector α) (eps : α) : SparseVector α :=
  (v.retain fun e ↦ eps < Scalar.abs e.value).renumber

def addScaled (v : SparseVector α) (a : α) (y : SparseVector α) :
    Except VectorError (SparseVector α) := do
  v.requireSameDim y
  if a == 0 then return v
  y.toList.foldlM (fun v p ↦ v.add p.1 (a * p.2)) v

end SparseVector

end LinProg
