import LinProg.Proofs.Problem.Made
import LinProg.Proofs.Storage.Placement

namespace LinProg

/-- The sums and differences of zero and one that vectors of zeros need. -/
class Scalar.Unital (α : Type) [Scalar α] : Prop where
  zero_add_zero : (0 : α) + 0 = 0
  zero_sub_zero : (0 : α) - 0 = 0
  zero_add_one : (0 : α) + 1 = 1

instance : Scalar.Unital Float := ⟨by decide, by decide, by decide⟩

instance : Scalar.Unital ℚ := ⟨by decide +kernel, by decide +kernel, by decide +kernel⟩

namespace Storage

structure Standard (α : Type) where
  numVars : ℕ
  objective : Array α
  constraints : List (Constraint α)
  columns : Array (Placed α)
  sense : α
  rowWithoutActivity : Option ℕ

variable {α : Type} [Scalar α]

/-- Adds an entry of a row to its coefficients over the standard variables and to what its offsets
add up to. -/
def gatherEntry (columns : Array (Placed α)) (form : Array α × α) (e : ℕ × α) :
    Option (Array α × α) := do
  let m ← columns[← minus e.1 1]?
  return (← m.addTo form.1 e.2, m.shift form.2 e.2)

def gather (columns : Array (Placed α)) (numVars : ℕ) (r : Row α) : Option (Array α × α) :=
  r.coefficients.toList.foldlM (gatherEntry columns) (Array.replicate numVars 0, 0)

/-- The constraints of the row with an index, and whether presolving finds that it has no feasible
activity. -/
def gatherRow (columns : Array (Placed α)) (numVars : ℕ) (presolve : Bool) (tolerance : α)
    (r : Row α) (i : ℕ) : Option (List (Constraint α) × Bool) := do
  if r.boundType = .free then return ([], false)
  let form ← gather columns numVars r
  let sides := r.sides.map fun side ↦ (side.1, side.2.toScalar - form.2)
  if presolve && r.isEmpty then
    return ([], sides.any fun side ↦ side.1.excludesZero tolerance side.2)
  return (sides.map fun side ↦ { origin := .row i, coefficients := form.1.toList
                                 relation := side.1, rhs := side.2 }, false)

def gatherRows (columns : Array (Placed α)) (numVars : ℕ) (presolve : Bool) (tolerance : α) :
    List (Row α) → (i : ℕ) → Option (List (Constraint α) × Option ℕ)
  | [], _ => some ([], none)
  | r :: rs, i => do
    let own ← gatherRow columns numVars presolve tolerance r i
    let rest ← gatherRows columns numVars presolve tolerance rs (i + 1)
    return (own.1 ++ rest.1, if own.2 then some i else rest.2)

def gatherRange (numVars : ℕ) (range : ℕ × ℕ × α) : Option (Constraint α) := do
  let (j, var, width) := range
  let coefficients ← write (Array.replicate numVars 0) var 1
  return { origin := .columnRange j, coefficients := coefficients.toList, relation := .le
           rhs := width }

def standardForm (p : Problem α) (presolve : Bool) (tolerance : α) : Option (Standard α) := do
  let sense : α := match p.direction with
    | .maximize => 1
    | .minimize => -1
  let (columns, ranges, numVars) ← number p.columns.toList 0 0
  let objective ← (p.columns.toList.zip columns).foldlM (fun v x ↦
    x.2.addTo v (sense * x.1.objective)) (Array.replicate numVars 0)
  let (constraints, rowWithoutActivity) ←
    gatherRows columns.toArray numVars presolve tolerance p.rows.toList 0
  let ranges ← ranges.mapM (gatherRange numVars)
  return { numVars, objective, constraints := constraints ++ ranges, columns := columns.toArray
           sense, rowWithoutActivity }

def Standard.recover (form : Standard α) (v : Array α) : Option (List α) :=
  form.columns.toList.mapM (·.value v)

def ofForm (form : StandardForm α) : Standard α :=
  { numVars := form.numVars, objective := form.objective.toArray
    constraints := form.constraints, columns := (placeAll form.columns 0).toArray
    sense := form.sense, rowWithoutActivity := form.rowWithoutActivity }

section Gather

theorem foldlM_addTo (sense : α) (cs : List (Column α)) (l : List α) :
    (cs.zip (placeAll (cs.map .ofColumn) l.length)).foldlM
        (fun v x ↦ x.2.addTo v (sense * x.1.objective))
        (l ++ List.replicate (ColumnMap.totalWidth (cs.map .ofColumn)) 0).toArray =
      some (l ++ (cs.zip (cs.map ColumnMap.ofColumn)).flatMap
        fun x ↦ x.2.spread (sense * x.1.objective)).toArray := by
  induction cs generalizing l with
  | nil => rfl
  | cons c cs ih =>
    have hadd := addTo_append (l := l)
      (r := List.replicate (ColumnMap.totalWidth (cs.map .ofColumn)) 0) (.ofColumn c)
      (sense * c.objective)
    have hrest := ih (l ++ (ColumnMap.ofColumn c).spread (sense * c.objective))
    rw [List.length_append, ColumnMap.length_spread] at hrest
    simp only [share] at hadd
    rw [List.map_cons, placeAll, List.zip_cons_cons, List.foldlM_cons, ColumnMap.totalWidth,
      List.replicate_add, ← List.append_assoc]
    dsimp only
    rw [hadd, Option.bind_eq_bind, Option.bind_some, hrest, List.zip_cons_cons, List.flatMap_cons,
      List.append_assoc]

theorem shift_place (m : ColumnMap α) (n : ℕ) (total a : α) :
    (place n m).shift total a = m.shift total a := by cases m <;> rfl

def rowShift (columns : List (ColumnMap α)) (entries : List (ℕ × α)) (total : α) : α :=
  entries.foldl (fun total (slot, a) ↦
    match columns.toArray[slot - 1]? with
    | some m => m.shift total a
    | none => total) total

/-- The value of the first entry for a column. -/
def entryAt (entries : List (ℕ × α)) (j : ℕ) : Option α :=
  (entries.find? (·.1 == j + 1)).map (·.2)

variable {columns : List (ColumnMap α)}

theorem gatherEntry_filled {slot : ℕ} (hpos : 0 < slot) (hle : slot ≤ columns.length)
    {given : ℕ → Option α} (hgiven : given (slot - 1) = none) (total a : α) :
    gatherEntry (placeAll columns 0).toArray ((filled given columns 0).toArray, total) (slot, a) =
      some ((filled (Function.update given (slot - 1) (some a)) columns 0).toArray,
        rowShift columns [(slot, a)] total) := by
  have hm : columns[slot - 1]? = some columns[slot - 1] := List.getElem?_eq_getElem (by omega)
  have hplace := getElem?_placeAll columns 0 (slot - 1)
  rw [hm, Option.map_some, Nat.zero_add] at hplace
  simp [gatherEntry, minus_eq hpos, hplace, addTo_filled hm hgiven a, shift_place, rowShift, hm]

omit [Scalar α] in
theorem entryAt_cons {entries : List (ℕ × α)} {slot : ℕ} (hpos : 0 < slot)
    (hnew : slot ∉ entries.map (·.1)) (given : ℕ → Option α) (a : α) (j : ℕ) :
    (entryAt entries j).or (Function.update given (slot - 1) (some a) j) =
      (entryAt ((slot, a) :: entries) j).or (given j) := by
  by_cases hj : slot = j + 1
  · have habsent : entryAt entries j = none := by
      simp only [entryAt, Option.map_eq_none_iff, List.find?_eq_none, beq_iff_eq]
      exact fun e he heq ↦ hnew (List.mem_map.mpr ⟨e, he, heq.trans hj.symm⟩)
    rw [habsent]
    simp [entryAt, hj]
  · rw [Function.update_of_ne (by omega)]
    simp [entryAt, hj]

theorem foldlM_gatherEntry {entries : List (ℕ × α)} (hnodup : (entries.map (·.1)).Nodup)
    (hrange : ∀ e ∈ entries, 0 < e.1 ∧ e.1 ≤ columns.length) (given : ℕ → Option α)
    (hgiven : ∀ e ∈ entries, given (e.1 - 1) = none) (total : α) :
    entries.foldlM (gatherEntry (placeAll columns 0).toArray)
        ((filled given columns 0).toArray, total) =
      some ((filled (fun j ↦ (entryAt entries j).or (given j)) columns 0).toArray,
        rowShift columns entries total) := by
  induction entries generalizing given total with
  | nil => rfl
  | cons e entries ih =>
    obtain ⟨slot, a⟩ := e
    obtain ⟨hpos, hle⟩ : 0 < slot ∧ slot ≤ columns.length := hrange _ List.mem_cons_self
    obtain ⟨hnew, hrest⟩ := List.nodup_cons.mp hnodup
    -- the slots are distinct, so the columns of the other entries still have no coefficient
    have hnone : ∀ e ∈ entries, Function.update given (slot - 1) (some a) (e.1 - 1) = none := by
      intro e he
      obtain ⟨hpos', -⟩ := hrange e (List.mem_cons_of_mem _ he)
      have hne : slot ≠ e.1 := fun heq ↦ hnew (List.mem_map.mpr ⟨e, he, heq.symm⟩)
      rw [Function.update_of_ne (by omega)]
      exact hgiven e (List.mem_cons_of_mem _ he)
    rw [List.foldlM_cons, gatherEntry_filled hpos hle (hgiven _ List.mem_cons_self),
      Option.bind_eq_bind, Option.bind_some,
      ih hrest (fun e he ↦ hrange e (List.mem_cons_of_mem _ he)) _ hnone,
      filled_congr fun j _ _ ↦ entryAt_cons hpos hnew given a j]
    rfl

theorem entryAt_cases {v : SparseVector α} (h : v.Valid) (j : ℕ) :
    entryAt v.toList j = some (v.coefficient (j + 1)) ∨
      entryAt v.toList j = none ∧ v.coefficient (j + 1) = 0 := by
  cases hfind : v.toList.find? (·.1 == j + 1) with
  | none =>
    refine .inr ⟨by simp [entryAt, hfind], h.coefficient_of_forall_ne fun e he hslot ↦ ?_⟩
    have hmem : (e.slot, e.value) ∈ v.toList := List.mem_map_of_mem (Array.mem_toList_iff.mpr he)
    exact List.find?_eq_none.mp hfind _ hmem (by simp [hslot])
  | some e =>
    obtain ⟨entry, hentry, rfl⟩ := List.mem_map.mp (List.mem_of_find?_eq_some hfind)
    have hslot : entry.slot = j + 1 := by simpa using List.find?_some hfind
    refine .inl ?_
    rw [← hslot, h.coefficient_of_mem (Array.mem_toList_iff.mp hentry)]
    simp [entryAt, hfind]

theorem spread_zero_eq [Scalar.Unital α] (m : ColumnMap α) :
    m.spread (0 : α) = List.replicate m.width 0 := by
  cases m <;> simp [ColumnMap.spread, ColumnMap.width, Scalar.Unital.zero_add_zero,
    Scalar.Unital.zero_sub_zero, List.replicate]

theorem filled_entryAt [Scalar.Unital α] {r : Row α} (h : r.coefficients.Valid) :
    filled (entryAt r.coefficients.toList) columns 0 = StandardForm.spreadRow columns r := by
  refine (flatMap_zipIdx_eq_filled (fun m j ↦ ?_) columns 0).symm
  rcases entryAt_cases h j with hsome | ⟨hnone, hzero⟩
  · rw [hsome]
    rfl
  · rw [hnone]
    exact (congrArg (fun a ↦ m.spread a) hzero).trans (spread_zero_eq m)

theorem gather_eq [Scalar.Unital α] {r : Row α} (h : RowIndexed columns.length r) :
    gather (placeAll columns 0).toArray (ColumnMap.totalWidth columns) r =
      some ((StandardForm.spreadRow columns r).toArray,
        rowShift columns r.coefficients.toList 0) := by
  have hfold := foldlM_gatherEntry h.nodup (fun e he ↦ h.slot_range he) (fun _ ↦ none)
    (fun _ _ ↦ rfl) 0
  simp only [filled_none, Option.or_none] at hfold
  rw [gather, ← filled_entryAt h.valid, ← List.toArray_replicate]
  exact hfold

theorem gatherRow_eq [Scalar.Unital α] (presolve : Bool) (tolerance : α) {r : Row α}
    (h : RowIndexed columns.length r) (i : ℕ) :
    gatherRow (placeAll columns 0).toArray (ColumnMap.totalWidth columns) presolve tolerance r i =
      some (if presolve && r.isEmpty then [] else StandardForm.rowConstraints columns r i,
        (presolve && r.isEmpty) && (StandardForm.shiftedSides columns r).any
          fun side ↦ side.1.excludesZero tolerance side.2) := by
  have hshifted : StandardForm.shiftedSides columns r = r.sides.map fun side ↦
      (side.1, side.2.toScalar - rowShift columns r.coefficients.toList 0) := rfl
  unfold gatherRow
  by_cases hfree : r.boundType = .free
  · have hnone : r.sides = [] := by rw [Row.sides, hfree]
    simp [hfree, StandardForm.rowConstraints, hshifted, hnone]
  · rw [if_neg hfree, gather_eq h]
    cases hdrop : presolve && r.isEmpty
    · simp [StandardForm.rowConstraints, hshifted]
    · simp [hshifted]

theorem gatherRows_eq [Scalar.Unital α] (presolve : Bool) (tolerance : α) {rs : List (Row α)}
    (h : ∀ r ∈ rs, RowIndexed columns.length r) (i : ℕ) :
    gatherRows (placeAll columns 0).toArray (ColumnMap.totalWidth columns) presolve tolerance rs i =
      some ((rs.zipIdx i).flatMap fun x ↦
          if presolve && x.1.isEmpty then [] else StandardForm.rowConstraints columns x.1 x.2,
        (rs.zipIdx i).findSome? fun x ↦
          if (presolve && x.1.isEmpty) && (StandardForm.shiftedSides columns x.1).any
            fun side ↦ side.1.excludesZero tolerance side.2 then some x.2 else none) := by
  induction rs generalizing i with
  | nil => rfl
  | cons r rs ih =>
    rw [gatherRows, gatherRow_eq presolve tolerance (h r List.mem_cons_self),
      Option.bind_eq_bind, Option.bind_some, ih fun r hr ↦ h r (List.mem_cons_of_mem _ hr),
      Option.bind_eq_bind, Option.bind_some, List.zipIdx_cons, List.flatMap_cons,
      List.findSome?_cons]
    refine congrArg some (Prod.ext rfl ?_)
    dsimp only
    generalize ((presolve && r.isEmpty) && _) = idle
    cases idle <;> rfl

theorem unitRow_eq_filled (columns : List (ColumnMap α)) (index : ℕ) :
    StandardForm.unitRow columns index =
      filled (fun j ↦ if j = index then some 1 else none) columns 0 := by
  refine flatMap_zipIdx_eq_filled (fun m j ↦ ?_) columns 0
  dsimp only
  split <;> rfl

theorem gatherRange_eq [Scalar.Unital α] {before rest : List (ColumnMap α)} {offset : α}
    (width : α) (hcolumns : columns = before ++ .shifted offset :: rest) :
    gatherRange (ColumnMap.totalWidth columns)
        (before.length, ColumnMap.totalWidth before, width) =
      some { origin := .columnRange before.length
             coefficients := StandardForm.unitRow columns before.length
             relation := .le, rhs := width } := by
  let unit (j : ℕ) : Option α := if j = before.length then some 1 else none
  have hunit : StandardForm.unitRow columns before.length = filled unit columns 0 :=
    unitRow_eq_filled columns before.length
  have hzero {ms : List (ColumnMap α)} {start : ℕ}
      (h : start + ms.length ≤ before.length ∨ before.length < start) :
      filled unit ms start = List.replicate (ColumnMap.totalWidth ms) 0 :=
    (filled_congr fun k _ _ ↦ if_neg (by omega)).trans (filled_none ms start)
  have hone : filled unit columns 0 = List.replicate (ColumnMap.totalWidth before) 0 ++
      1 :: List.replicate (ColumnMap.totalWidth rest) 0 := by
    rw [hcolumns, filled_append, filled, hzero (.inl (by omega)), hzero (.inr (by omega))]
    simp [unit, share, ColumnMap.spread, Scalar.Unital.zero_add_one]
  have hwidth : ColumnMap.totalWidth columns =
      ColumnMap.totalWidth before + (1 + ColumnMap.totalWidth rest) := by
    rw [← length_filled unit columns 0, hone]
    simp
    omega
  rw [gatherRange, hunit, hone, hwidth]
  simp [write, List.replicate_add, List.replicate_succ]

omit [Scalar α] in
theorem totalWidth_append (ms ms' : List (ColumnMap α)) :
    ColumnMap.totalWidth (ms ++ ms') = ColumnMap.totalWidth ms + ColumnMap.totalWidth ms' := by
  induction ms with
  | nil => simp [ColumnMap.totalWidth]
  | cons m ms ih => simp [ColumnMap.totalWidth, ih, Nat.add_assoc]

theorem range?_eq (c : Column α) (j n : ℕ) : range? c j (place n (.ofColumn c)) =
    if c.boundType = .double then some (j, n, c.upper.toScalar - c.lower.toScalar) else none := by
  cases hc : c.boundType <;> simp [ColumnMap.ofColumn, hc, place, range?]

theorem mapM_gatherRange [Scalar.Unital α] (before : List (ColumnMap α)) (cs : List (Column α))
    (hcolumns : columns = before ++ cs.map .ofColumn) :
    (rangesFrom cs before.length (ColumnMap.totalWidth before)).mapM
        (gatherRange (ColumnMap.totalWidth columns)) =
      some ((cs.zipIdx before.length).filterMap
        fun x ↦ StandardForm.rangeConstraint? columns x.1 x.2) := by
  induction cs generalizing before with
  | nil => rfl
  | cons c cs ih =>
    have hrest := ih (before ++ [.ofColumn c]) (by simp [hcolumns])
    rw [List.length_append, totalWidth_append] at hrest
    rw [rangesFrom, range?_eq, List.zipIdx_cons, List.filterMap_cons,
      StandardForm.rangeConstraint?]
    by_cases hdouble : c.boundType = .double
    · have hshifted : ColumnMap.ofColumn c = .shifted c.lower.toScalar := by
        simp [ColumnMap.ofColumn, hdouble]
      have hown := gatherRange_eq (c.upper.toScalar - c.lower.toScalar)
        (hcolumns.trans (by rw [List.map_cons, hshifted]))
      simp only [if_pos hdouble, Option.toList_some, List.singleton_append, List.mapM_cons, hown]
      exact congrArg (· >>= _) hrest
    · simp only [if_neg hdouble, Option.toList_none, List.nil_append]
      exact hrest

end Gather

section Form

/-- The standard form of a problem is gathered without an access outside of a vector. -/
theorem standardForm_eq [Scalar.Unital α] {p : Problem α}
    (hp : ∀ r ∈ p.rows, RowIndexed p.numColumns r) (presolve : Bool) (tolerance : α) :
    standardForm p presolve tolerance = some (ofForm (.ofProblem p presolve tolerance)) := by
  have hrows : ∀ r ∈ p.rows.toList,
      RowIndexed (p.columns.toList.map ColumnMap.ofColumn).length r := by
    intro r hr
    have hr := hp r (Array.mem_toList_iff.mp hr)
    simpa [Problem.numColumns] using hr
  have hobjective (sense : α) := foldlM_addTo sense p.columns.toList []
  have hranges := mapM_gatherRange [] p.columns.toList rfl
  simp only [List.length_nil, ColumnMap.totalWidth, List.nil_append] at hobjective hranges
  unfold standardForm
  simp only [number_eq, Nat.zero_add, Option.bind_eq_bind, Option.bind_some,
    ← List.toArray_replicate, hobjective, gatherRows_eq presolve tolerance hrows, hranges]
  rfl

/-- What the storage of a problem's standard form relies on. -/
structure Fits (p : Problem α) (form : StandardForm α) : Prop where
  objective : form.objective.length = form.numVars
  coefficients : ∀ c ∈ form.constraints, c.coefficients.length = form.numVars
  origin : ∀ c ∈ form.constraints, ∀ i, c.origin = .row i → i < p.numRows
  columns : form.columns.length = p.numColumns

theorem length_spreadRow (columns : List (ColumnMap α)) (r : Row α) :
    (StandardForm.spreadRow columns r).length = ColumnMap.totalWidth columns := by
  have hfilled := flatMap_zipIdx_eq_filled
    (f := fun x ↦ x.1.spread (r.coefficients.coefficient (x.2 + 1)))
    (g := fun j ↦ some (r.coefficients.coefficient (j + 1))) (fun _ _ ↦ rfl) columns 0
  rw [StandardForm.spreadRow, hfilled, length_filled]

theorem length_unitRow (columns : List (ColumnMap α)) (index : ℕ) :
    (StandardForm.unitRow columns index).length = ColumnMap.totalWidth columns := by
  rw [unitRow_eq_filled, length_filled]

theorem length_spreadAll (sense : α) (cs : List (Column α)) :
    ((cs.zip (cs.map ColumnMap.ofColumn)).flatMap
      fun x ↦ x.2.spread (sense * x.1.objective)).length =
        ColumnMap.totalWidth (cs.map .ofColumn) := by
  induction cs with
  | nil => rfl
  | cons c cs ih =>
    rw [List.map_cons, List.zip_cons_cons, List.flatMap_cons, List.length_append, ih,
      ColumnMap.length_spread, ColumnMap.totalWidth]

theorem fits_ofProblem (p : Problem α) (presolve : Bool) (tolerance : α) :
    Fits p (.ofProblem p presolve tolerance) := by
  have hconstraints : ∀ c ∈ (StandardForm.ofProblem p presolve tolerance).constraints,
      c.coefficients.length = (StandardForm.ofProblem p presolve tolerance).numVars ∧
        ∀ i, c.origin = .row i → i < p.numRows := by
    intro c hc
    rcases List.mem_append.mp hc with hc | hc
    · obtain ⟨⟨r, i⟩, hr, hc⟩ := List.mem_flatMap.mp hc
      dsimp only at hc
      split at hc
      · cases hc
      · obtain ⟨side, -, rfl⟩ := List.mem_map.mp hc
        refine ⟨length_spreadRow _ r, fun k hk ↦ ?_⟩
        obtain rfl := Origin.row.inj hk
        have hi := List.snd_lt_of_mem_zipIdx hr
        simpa [Problem.numRows] using hi
    · obtain ⟨⟨column, j⟩, -, hc⟩ := List.mem_filterMap.mp hc
      dsimp only [StandardForm.rangeConstraint?] at hc
      split at hc
      · obtain rfl := Option.some_inj.mp hc
        exact ⟨length_unitRow _ j, fun k hk ↦ by cases hk⟩
      · cases hc
  have hcolumns : (p.columns.toList.map ColumnMap.ofColumn).length = p.numColumns := by
    rw [List.length_map, Array.length_toList, Problem.numColumns]
  exact ⟨length_spreadAll _ _, fun c hc ↦ (hconstraints c hc).1, fun c hc ↦ (hconstraints c hc).2,
    hcolumns⟩

theorem value_place {m : ColumnMap α} {l w : List α} (h : m.width ≤ w.length) :
    (place l.length m).value (l ++ w).toArray = some (m.value w) := by
  cases m with
  | shifted offset | reflected offset =>
    obtain ⟨x, w, rfl⟩ := List.exists_cons_of_length_pos (show 0 < w.length from h)
    simp [place, Placed.value, ColumnMap.value]
  | split =>
    obtain ⟨x, w, rfl⟩ := List.exists_cons_of_length_pos (show 0 < w.length from Nat.lt_of_succ_le
      (Nat.le_of_succ_le h))
    obtain ⟨y, w, rfl⟩ := List.exists_cons_of_length_pos (show 0 < w.length from
      Nat.le_of_succ_le_succ h)
    simp [place, Placed.value, ColumnMap.value]
  | constant value => rfl

theorem mapM_value {ms : List (ColumnMap α)} {l w : List α}
    (h : ColumnMap.totalWidth ms ≤ w.length) :
    (placeAll ms l.length).mapM (·.value (l ++ w).toArray) = some (ColumnMap.recover ms w) := by
  induction ms generalizing l w with
  | nil => rfl
  | cons m ms ih =>
    rw [ColumnMap.totalWidth] at h
    have hrest := ih (l := l ++ w.take m.width) (w := w.drop m.width) (by simp; omega)
    rw [List.append_assoc, List.take_append_drop, List.length_append, List.length_take,
      Nat.min_eq_left (by omega)] at hrest
    rw [placeAll, List.mapM_cons, value_place (by omega), hrest]
    rfl

theorem recover_ofForm (form : StandardForm α) {v : Array α} (hv : v.size = form.numVars) :
    (ofForm form).recover v = some (form.recover v.toList) := by
  have hwidth : ColumnMap.totalWidth form.columns = v.toList.length := by
    rw [Array.length_toList, hv, StandardForm.numVars]
  exact mapM_value (l := []) (Nat.le_of_eq hwidth)

end Form

end Storage

end LinProg
