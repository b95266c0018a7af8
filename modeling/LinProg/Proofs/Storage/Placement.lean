import Mathlib.Data.List.Basic
import Mathlib.Logic.Function.Basic
import LinProg.Proofs.Storage.Access
import LinProg.StandardForm

namespace LinProg.Storage

/-- How a column is expressed in standard variables, which it names by their numbers. -/
inductive Placed (α : Type) where
  | shifted (offset : α) (var : ℕ)
  | reflected (offset : α) (var : ℕ)
  | split (pos neg : ℕ)
  | constant (value : α)

variable {α : Type} [Scalar α]

namespace Placed

def addTo (v : Array α) (a : α) : Placed α → Option (Array α)
  | shifted _ var => change v var fun x ↦ some (x + a)
  | reflected _ var => change v var fun x ↦ some (x - a)
  | split pos neg => do
    let v ← change v pos fun x ↦ some (x + a)
    change v neg fun x ↦ some (x - a)
  | constant _ => some v

def shift (total a : α) : Placed α → α
  | shifted offset _ | reflected offset _ => total + a * offset
  | split _ _ => total
  | constant value => total + a * value

def value (v : Array α) : Placed α → Option α
  | shifted offset var => do return offset + (← v[var]?)
  | reflected offset var => do return offset - (← v[var]?)
  | split pos neg => do return (← v[pos]?) - (← v[neg]?)
  | constant value => some value

end Placed

def nextVar (numVars : ℕ) : Option (ℕ × ℕ) := do return (← minus (numVars + 1) 1, numVars + 1)

def placeColumn (c : Column α) (numVars : ℕ) : Option (Placed α × ℕ) := do
  match c.boundType with
  | .free =>
    let (pos, numVars) ← nextVar numVars
    let (neg, numVars) ← nextVar numVars
    return (.split pos neg, numVars)
  | .lower | .double =>
    let (var, numVars) ← nextVar numVars
    return (.shifted c.lower.toScalar var, numVars)
  | .upper =>
    let (var, numVars) ← nextVar numVars
    return (.reflected c.upper.toScalar var, numVars)
  | .fixed => return (.constant c.lower.toScalar, numVars)

def range? (c : Column α) (j : ℕ) : Placed α → Option (ℕ × ℕ × α)
  | .shifted _ var =>
    if c.boundType = .double then some (j, var, c.upper.toScalar - c.lower.toScalar) else none
  | _ => none

/-- The variables of the columns with indices from `j` on, their ranges and the number of
variables with them. -/
def number : List (Column α) → (j numVars : ℕ) →
    Option (List (Placed α) × List (ℕ × ℕ × α) × ℕ)
  | [], _, numVars => some ([], [], numVars)
  | c :: cs, j, numVars => do
    let (m, numVars) ← placeColumn c numVars
    let (ms, ranges, numVars) ← number cs (j + 1) numVars
    return (m :: ms, (range? c j m).toList ++ ranges, numVars)

def place (n : ℕ) : ColumnMap α → Placed α
  | .shifted offset => .shifted offset n
  | .reflected offset => .reflected offset n
  | .split => .split n (n + 1)
  | .constant value => .constant value

def placeAll : List (ColumnMap α) → ℕ → List (Placed α)
  | [], _ => []
  | m :: ms, n => place n m :: placeAll ms (n + m.width)

section Filled

def share (given : Option α) (m : ColumnMap α) : List α :=
  match given with
  | some a => m.spread a
  | none => List.replicate m.width 0

/-- A form over the standard variables in which the columns from `j` on have the coefficients that
have been given. -/
def filled (given : ℕ → Option α) : List (ColumnMap α) → (j : ℕ) → List α
  | [], _ => []
  | m :: ms, j => share (given j) m ++ filled given ms (j + 1)

theorem length_share (given : Option α) (m : ColumnMap α) : (share given m).length = m.width := by
  cases given <;> simp [share]

theorem length_filled (given : ℕ → Option α) (columns : List (ColumnMap α)) (j : ℕ) :
    (filled given columns j).length = ColumnMap.totalWidth columns := by
  induction columns generalizing j with
  | nil => rfl
  | cons m ms ih => rw [filled, List.length_append, length_share, ih, ColumnMap.totalWidth]

theorem filled_append (given : ℕ → Option α) (ms ms' : List (ColumnMap α)) (j : ℕ) :
    filled given (ms ++ ms') j = filled given ms j ++ filled given ms' (j + ms.length) := by
  induction ms generalizing j with
  | nil => rfl
  | cons m ms ih =>
    rw [List.cons_append, filled, filled, ih, List.append_assoc, List.length_cons]
    congr 3
    omega

theorem filled_congr {given given' : ℕ → Option α} {columns : List (ColumnMap α)} {j : ℕ}
    (h : ∀ k, j ≤ k → k < j + columns.length → given k = given' k) :
    filled given columns j = filled given' columns j := by
  induction columns generalizing j with
  | nil => rfl
  | cons m ms ih =>
    rw [List.length_cons] at h
    rw [filled, filled, h j (Nat.le_refl j) (by omega),
      ih fun k hk hk' ↦ h k (by omega) (by omega)]

theorem filled_none (columns : List (ColumnMap α)) (j : ℕ) :
    filled (fun _ ↦ none) columns j = List.replicate (ColumnMap.totalWidth columns) 0 := by
  induction columns generalizing j with
  | nil => rfl
  | cons m ms ih => rw [filled, ih, share, ColumnMap.totalWidth, List.replicate_add]

omit [Scalar α] in
theorem change_append {l r : List α} {x y : α} {f : α → Option α} (hf : f x = some y) :
    change (l ++ x :: r).toArray l.length f = some (l ++ y :: r).toArray := by
  rw [change_eq (x := x) (by simp) hf]
  simp [Array.setIfInBounds]

theorem addTo_append {l r : List α} (m : ColumnMap α) (a : α) :
    (place l.length m).addTo (l ++ share none m ++ r).toArray a =
      some (l ++ m.spread a ++ r).toArray := by
  cases m with
  | shifted offset | reflected offset =>
    simp only [place, Placed.addTo, share, ColumnMap.width, ColumnMap.spread, List.replicate,
      List.append_assoc, List.cons_append, List.nil_append]
    exact change_append rfl
  | split =>
    simp only [place, Placed.addTo, share, ColumnMap.width, ColumnMap.spread, List.replicate,
      List.append_assoc, List.cons_append, List.nil_append]
    have hfirst := change_append (l := l) (x := 0) (r := 0 :: r) (f := fun x ↦ some (x + a)) rfl
    rw [hfirst]
    have hsecond := change_append (l := l ++ [0 + a]) (x := 0) (r := r)
      (f := fun x ↦ some (x - a)) rfl
    simpa using hsecond
  | constant value =>
    simp [place, Placed.addTo, share, ColumnMap.width, ColumnMap.spread]

/-- Adding to a column that has no coefficient yet gives it one. -/
theorem addTo_filled {given : ℕ → Option α} {columns : List (ColumnMap α)} {j : ℕ}
    {m : ColumnMap α} (hm : columns[j]? = some m) (hj : given j = none) (a : α) :
    (place (ColumnMap.totalWidth (columns.take j)) m).addTo (filled given columns 0).toArray a =
      some (filled (Function.update given j (some a)) columns 0).toArray := by
  obtain ⟨hlt, rfl⟩ := List.getElem?_eq_some_iff.mp hm
  have hsplit (g : ℕ → Option α) : filled g columns 0 = filled g (columns.take j) 0 ++
      share (g j) columns[j] ++ filled g (columns.drop (j + 1)) (j + 1) := by
    have hparts : columns = columns.take j ++ columns[j] :: columns.drop (j + 1) := by
      rw [List.getElem_cons_drop, List.take_append_drop]
    conv_lhs => rw [hparts]
    rw [filled_append, filled, List.length_take, Nat.min_eq_left (Nat.le_of_lt hlt), Nat.zero_add,
      List.append_assoc]
  have hrest {ms : List (ColumnMap α)} {start : ℕ} (h : j < start ∨ start + ms.length ≤ j) :
      filled (Function.update given j (some a)) ms start = filled given ms start :=
    filled_congr fun k hk hk' ↦ Function.update_of_ne (by omega) _ _
  have hadd := addTo_append (l := filled given (columns.take j) 0)
    (r := filled given (columns.drop (j + 1)) (j + 1)) columns[j] a
  rw [length_filled] at hadd
  rw [hsplit, hsplit, hj, hadd, hrest (.inr (by simp [Nat.le_of_lt hlt])),
    hrest (.inl (Nat.lt_succ_self j)), Function.update_self]
  rfl

theorem flatMap_zipIdx_eq_filled {f : ColumnMap α × ℕ → List α} {g : ℕ → Option α}
    (h : ∀ m j, f (m, j) = share (g j) m) (columns : List (ColumnMap α)) (j : ℕ) :
    (columns.zipIdx j).flatMap f = filled g columns j := by
  induction columns generalizing j with
  | nil => rfl
  | cons m ms ih => rw [List.zipIdx_cons, List.flatMap_cons, h, ih, filled]

end Filled

section Number

theorem placeColumn_eq (c : Column α) (n : ℕ) :
    placeColumn c n = some (place n (.ofColumn c), n + (ColumnMap.ofColumn c).width) := by
  unfold placeColumn ColumnMap.ofColumn
  cases c.boundType <;> simp [nextVar, minus_eq, place, ColumnMap.width]

def rangesFrom : List (Column α) → (j n : ℕ) → List (ℕ × ℕ × α)
  | [], _, _ => []
  | c :: cs, j, n => (range? c j (place n (.ofColumn c))).toList ++
      rangesFrom cs (j + 1) (n + (ColumnMap.ofColumn c).width)

theorem number_eq (cs : List (Column α)) (j n : ℕ) :
    number cs j n = some (placeAll (cs.map .ofColumn) n, rangesFrom cs j n,
      n + ColumnMap.totalWidth (cs.map .ofColumn)) := by
  induction cs generalizing j n with
  | nil => rfl
  | cons c cs ih =>
    simp only [number, placeColumn_eq, Option.bind_eq_bind, Option.bind_some, ih, rangesFrom,
      List.map_cons, placeAll, ColumnMap.totalWidth, Nat.add_assoc]
    rfl

omit [Scalar α] in
theorem getElem?_placeAll (columns : List (ColumnMap α)) (n j : ℕ) :
    (placeAll columns n)[j]? =
      columns[j]?.map (place (n + ColumnMap.totalWidth (columns.take j))) := by
  induction columns generalizing n j with
  | nil => rfl
  | cons m ms ih =>
    cases j with
    | zero => rfl
    | succ j => simp [placeAll, ih, ColumnMap.totalWidth, Nat.add_assoc]

end Number

end LinProg.Storage
