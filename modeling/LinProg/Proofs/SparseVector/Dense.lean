import LinProg.Proofs.SparseVector.History

namespace LinProg

namespace Cells

def changed : Change (List ℚ) ℚ → List ℚ → Except VectorError (List ℚ)
  | .set slot value, cells =>
    if slot = 0 ∨ cells.length < slot then .error (.outOfRange slot cells.length)
    else .ok (cells.set (slot - 1) value)
  | .add slot delta, cells =>
    if slot = 0 ∨ cells.length < slot then .error (.outOfRange slot cells.length)
    else .ok (cells.modify (slot - 1) (· + delta))
  | .clear, cells => .ok (cells.map fun _ ↦ 0)
  | .clean eps, cells => .ok (cells.map fun x ↦ if |x| ≤ eps then 0 else x)
  | .copyFrom src, cells =>
    if cells.length = src.length then .ok src
    else .error (.dimensionMismatch cells.length src.length)
  | .addScaled a y, cells =>
    if cells.length = y.length then .ok (List.zipWith (fun x z ↦ x + a * z) cells y)
    else .error (.dimensionMismatch cells.length y.length)

def ofPairs (dim : ℕ) (pairs : List (ℕ × ℚ)) : Except VectorError (List ℚ) :=
  match pairs.find? fun p ↦ p.1 = 0 ∨ dim < p.1 with
  | some p => .error (.outOfRange p.1 dim)
  | none => .ok <| (List.range' 1 dim).map fun slot ↦
      ((pairs.filter (·.1 == slot)).map (·.2)).sum

def ops : VectorOps (List ℚ) ℚ where
  ofPairs := ofPairs
  change c cells := settle cells (changed c cells)

end Cells

namespace SparseVector

def cells (v : SparseVector ℚ) : List ℚ := (List.range' 1 v.dim).map v.coefficient

variable {v w y : SparseVector ℚ}

@[simp] theorem length_cells (v : SparseVector ℚ) : v.cells.length = v.dim := by
  simp [cells]

theorem getElem?_cells {i : ℕ} (h : i < v.dim) : v.cells[i]? = some (v.coefficient (i + 1)) := by
  simp [cells, h, Nat.add_comm]

theorem cells_eq {l : List ℚ} (hlength : l.length = v.dim)
    (h : ∀ i < v.dim, l[i]? = some (v.coefficient (i + 1))) : v.cells = l := by
  apply List.ext_getElem?
  intro i
  by_cases hi : i < v.dim
  · rw [getElem?_cells hi, h i hi]
  · rw [List.getElem?_eq_none (by simpa using hi), List.getElem?_eq_none (by omega)]

theorem Valid.coefficient_set (h : v.Valid) {slot s : ℕ} {value : ℚ}
    (hw : v.set slot value = .ok w) (hs : 0 < s) :
    w.coefficient s = if s = slot then value else v.coefficient s := by
  rw [coefficient_eq_stored hs, coefficient_eq_stored hs, (h.set_eq_ok hw).2 s hs]
  split_ifs with hss hsome
  · rfl
  · have hvalue : value = 0 := by
      rw [Bool.or_eq_true, not_or] at hsome
      simpa using hsome.2
    rw [hvalue]
    rfl
  · rfl

theorem getD_plus (stored : Option ℚ) (delta : ℚ) :
    (plus stored delta).getD 0 = stored.getD 0 + delta := by
  cases stored with
  | some x => rfl
  | none =>
    by_cases h : delta = 0 <;> simp [plus, h]

theorem Valid.coefficient_add (h : v.Valid) {slot s : ℕ} {delta : ℚ}
    (hw : v.add slot delta = .ok w) (hs : 0 < s) :
    w.coefficient s = if s = slot then v.coefficient s + delta else v.coefficient s := by
  rw [coefficient_eq_stored hs, coefficient_eq_stored hs, (h.add_eq_ok hw).2 s hs]
  split_ifs with hss
  · rw [hss, getD_plus]
  · rfl

theorem Valid.coefficient_foldlM_add (h : v.Valid) {pairs : List (ℕ × ℚ)}
    (hw : pairs.foldlM (fun v p ↦ v.add p.1 p.2) v = .ok w) {s : ℕ} (hs : 0 < s) :
    w.coefficient s = v.coefficient s + ((pairs.filter (·.1 == s)).map (·.2)).sum := by
  rw [coefficient_eq_stored hs, coefficient_eq_stored hs, h.stored_foldlM_add hw hs]
  generalize (pairs.filter (·.1 == s)).map (·.2) = xs
  generalize v.stored s = start
  induction xs generalizing start with
  | nil => simp
  | cons x xs ih => rw [List.foldl_cons, ih, getD_plus, List.sum_cons, add_assoc]

/-- The values stored for a slot add up to what is read there. -/
theorem Valid.sum_filter_toList (h : v.Valid) {s : ℕ} (hs : 0 < s) :
    ((v.toList.filter (·.1 == s)).map (·.2)).sum = v.coefficient s := by
  have hfilter (l : List (ℕ × ℚ)) (hl : ∀ p ∈ l, 0 < p.1) :
      (l.map fun p ↦ p.2 * if p.1 - 1 + 1 = s then 1 else 0).sum =
        ((l.filter (·.1 == s)).map (·.2)).sum := by
    induction l with
    | nil => rfl
    | cons p l ih =>
      have hp : p.1 - 1 + 1 = p.1 := Nat.sub_add_cancel (hl p List.mem_cons_self)
      rw [List.map_cons, List.sum_cons, hp, ih fun q hq ↦ hl q (List.mem_cons_of_mem p hq)]
      by_cases hps : p.1 = s <;> simp [hps]
  rw [← hfilter v.toList fun p hp ↦ (h.toList_range hp).1,
    h.sum_toList (n := s) (g := fun j ↦ if j + 1 = s then 1 else 0) fun j hj ↦ if_neg (by omega),
    Finset.sum_eq_single (s - 1)]
  · rw [Nat.sub_add_cancel hs, if_pos rfl, mul_one]
  · intro j _ hj
    rw [if_neg (by omega), mul_zero]
  · intro hnot
    exact absurd (Finset.mem_range.mpr (by omega)) hnot

theorem Valid.coefficient_addScaled (hv : v.Valid) (hy : y.Valid) {a : ℚ}
    (hw : v.addScaled a y = .ok w) {s : ℕ} (hs : 0 < s) :
    w.coefficient s = v.coefficient s + a * y.coefficient s := by
  by_cases hdim : v.dim = y.dim
  · rw [addScaled_eq hdim] at hw
    split_ifs at hw with ha
    · cases hw
      rw [show a = 0 by simpa using ha, zero_mul, add_zero]
    · rw [hv.coefficient_foldlM_add hw hs, ← hy.sum_filter_toList hs, scaledPairs,
        List.filter_map, List.map_map, ← List.sum_map_mul_left]
      rfl
  · rw [addScaled_eq_error hdim] at hw
    cases hw

theorem Valid.coefficient_clean (h : v.Valid) (eps : ℚ) (s : ℕ) :
    (v.clean eps).coefficient s = if |v.coefficient s| ≤ eps then 0 else v.coefficient s := by
  obtain ⟨hclean, -, hentries⟩ := h.clean_eq eps
  have hkept (e : Entry ℚ) : e ∈ (v.clean eps).entries ↔ e ∈ v.entries ∧ ¬|e.value| ≤ eps := by
    rw [hentries, Array.mem_filter, decide_eq_true_eq, Scalar.abs_rat, not_le]
  by_cases hex : ∃ e ∈ v.entries, e.slot = s
  · obtain ⟨e, he, rfl⟩ := hex
    rw [h.coefficient_of_mem he]
    split_ifs with hsmall
    · apply hclean.coefficient_of_forall_ne
      intro f hf hslot
      obtain ⟨hmem, hlarge⟩ := (hkept f).mp hf
      have hfe : f = e := List.inj_on_of_nodup_map h.nodup_slots (Array.mem_toList_iff.mpr hmem)
        (Array.mem_toList_iff.mpr he) hslot
      exact hlarge (hfe ▸ hsmall)
    · exact hclean.coefficient_of_mem ((hkept e).mpr ⟨he, hsmall⟩)
  · have hnone : ∀ e ∈ v.entries, e.slot ≠ s := fun e he hslot ↦ hex ⟨e, he, hslot⟩
    rw [h.coefficient_of_forall_ne hnone, ite_self]
    exact hclean.coefficient_of_forall_ne fun e he ↦ hnone e ((hkept e).mp he).1

theorem Valid.cells_set (h : v.Valid) {slot : ℕ} {value : ℚ} (hslot : ¬(slot = 0 ∨ v.dim < slot))
    (hw : v.set slot value = .ok w) : w.cells = v.cells.set (slot - 1) value := by
  have hdim := (h.set_eq_ok hw).1
  refine cells_eq (by simp [hdim]) fun i hi ↦ ?_
  rw [hdim] at hi
  rw [h.coefficient_set hw i.succ_pos, List.getElem?_set, getElem?_cells hi, length_cells]
  by_cases his : slot - 1 = i
  · rw [if_pos his, if_pos (by omega), if_pos (by omega)]
  · rw [if_neg his, if_neg (by omega)]

theorem Valid.cells_add (h : v.Valid) {slot : ℕ} {delta : ℚ} (hslot : ¬(slot = 0 ∨ v.dim < slot))
    (hw : v.add slot delta = .ok w) : w.cells = v.cells.modify (slot - 1) (· + delta) := by
  have hdim := (h.add_eq_ok hw).1
  refine cells_eq (by simp [hdim]) fun i hi ↦ ?_
  rw [hdim] at hi
  rw [h.coefficient_add hw i.succ_pos, List.getElem?_modify, getElem?_cells hi]
  by_cases his : slot - 1 = i
  · simp [his, show i + 1 = slot by omega]
  · simp [his, show i + 1 ≠ slot by omega]

theorem Valid.cells_clear (h : v.Valid) : v.clear.cells = v.cells.map fun _ ↦ 0 := by
  rw [h.clear_eq]
  refine cells_eq (by simp) fun i hi ↦ ?_
  have hzero : (zero v.dim : SparseVector ℚ).coefficient (i + 1) = 0 :=
    (valid_zero v.dim).coefficient_of_forall_ne fun e he ↦ absurd he (Array.not_mem_empty e)
  rw [dim_zero] at hi
  rw [hzero, List.getElem?_map, getElem?_cells hi]
  rfl

theorem Valid.cells_clean (h : v.Valid) (eps : ℚ) :
    (v.clean eps).cells = v.cells.map fun x ↦ if |x| ≤ eps then 0 else x := by
  obtain ⟨-, hdim, -⟩ := h.clean_eq eps
  refine cells_eq (by simp [hdim]) fun i hi ↦ ?_
  rw [List.getElem?_map, getElem?_cells (by omega), h.coefficient_clean]
  rfl

theorem Valid.cells_addScaled (h : v.Valid) (hy : y.Valid) {a : ℚ} (hdim : v.dim = y.dim)
    (hw : v.addScaled a y = .ok w) :
    w.cells = List.zipWith (fun x z ↦ x + a * z) v.cells y.cells := by
  have hwdim := (Valid.addScaled h hw).2
  refine cells_eq (by simp [hwdim, hdim]) fun i hi ↦ ?_
  rw [h.coefficient_addScaled hy hw i.succ_pos]
  exact List.getElem?_zipWith_eq_some.mpr
    ⟨_, _, getElem?_cells (by omega), getElem?_cells (by omega), rfl⟩

theorem Valid.changed_cells {c : Change (SparseVector ℚ) ℚ} (hv : v.Valid)
    (hc : ∀ u ∈ c.operands, u.Valid) :
    Cells.changed (c.map cells) v.cells = (SparseVector.applied c v).map cells := by
  cases c with
  | set slot value =>
    simp only [Change.map, Cells.changed, SparseVector.applied, length_cells]
    split_ifs with hslot
    · rw [set_eq_error hslot]
      rfl
    · obtain ⟨w, hw⟩ := exists_set hslot value
      rw [hw, ← hv.cells_set hslot hw]
      rfl
  | add slot delta =>
    simp only [Change.map, Cells.changed, SparseVector.applied, length_cells]
    split_ifs with hslot
    · rw [add_eq_error hslot]
      rfl
    · obtain ⟨w, hw⟩ : ∃ w, v.add slot delta = .ok w := exists_add (by omega) (by omega) delta
      rw [hw, ← hv.cells_add hslot hw]
      rfl
  | clear => exact congrArg Except.ok hv.cells_clear.symm
  | clean eps => exact congrArg Except.ok (hv.cells_clean eps).symm
  | copyFrom src =>
    simp only [Change.map, Cells.changed, SparseVector.applied, length_cells]
    split_ifs with hdim
    · rw [hv.copyFrom_eq (hc src List.mem_cons_self) hdim]
      rfl
    · rw [copyFrom_eq_error hdim]
      rfl
  | addScaled a y =>
    simp only [Change.map, Cells.changed, SparseVector.applied, length_cells]
    split_ifs with hdim
    · have hy := hc y List.mem_cons_self
      obtain ⟨w, hw⟩ := hv.exists_addScaled hy hdim a
      rw [hw, ← hv.cells_addScaled hy hdim hw]
      rfl
    · rw [addScaled_eq_error hdim]
      rfl

theorem cells_ofPairs (dim : ℕ) (pairs : List (ℕ × ℚ)) :
    Cells.ofPairs dim pairs = (ofPairs dim pairs).map cells := by
  unfold Cells.ofPairs
  cases hp : pairs.find? (fun p ↦ p.1 = 0 ∨ dim < p.1) with
  | some p =>
    rw [ofPairs_eq_error hp]
    rfl
  | none =>
    obtain ⟨v, hv⟩ := exists_ofPairs_of_find? hp
    have hdim : v.dim = dim := ((valid_zero dim).dim_foldlM_add hv).trans (dim_zero dim)
    rw [hv]
    refine congrArg Except.ok ?_
    unfold cells
    rw [hdim]
    refine List.map_congr_left fun slot hslot ↦ ?_
    rw [coefficient_ofPairs hv (by simp at hslot; omega), Scalar.accumulate_rat]

theorem call_cells {vs : List (SparseVector ℚ)} (hvs : ∀ v ∈ vs, v.Valid) (c : Call ℚ) :
    Cells.ops.call (vs.map cells) c = ((ops.call vs c).1, (ops.call vs c).2.map cells) := by
  cases c with
  | ofPairs dim pairs =>
    have hcells : Cells.ops.ofPairs dim pairs = (ops.ofPairs dim pairs).map cells :=
      cells_ofPairs dim pairs
    unfold VectorOps.call
    dsimp only
    rw [hcells]
    cases ops.ofPairs dim pairs <;> simp [Except.map]
  | change k c =>
    unfold VectorOps.call
    simp only [List.getElem?_map, Change.resolve_map]
    cases hv : vs[k]? with
    | none => rfl
    | some v =>
      cases hd : c.resolve vs with
      | none => rfl
      | some d =>
        have hvalid := hvs v (List.mem_of_getElem? hv)
        have hoperands := fun u hu ↦ hvs u (Change.operands_resolve hd u hu)
        have hcells : Cells.ops.change (d.map cells) v.cells =
            settle v.cells ((SparseVector.applied d v).map cells) :=
          congrArg (settle v.cells) (hvalid.changed_cells hoperands)
        simp only [Option.map_some, hcells, hvalid.change_ops hoperands]
        cases SparseVector.applied d v <;> simp [Except.map, settle]

theorem run_cells (calls : List (Call ℚ)) :
    Cells.ops.run calls = (ops.run calls).map cells := by
  induction calls using List.reverseRecOn with
  | nil => rfl
  | append_singleton calls c ih =>
    rw [VectorOps.run_concat, VectorOps.run_concat, ih, call_cells (valid_run calls)]

/-- After the same history of calls every slot of a sparse vector reads as its cell. A call fails
on both alike, and exactly on a slot outside its vector or on vectors of different dimensions. -/
theorem histories_agree_with_cells (calls : List (Call ℚ)) :
    List.Forall₂ (fun (v : SparseVector ℚ) (cells : List ℚ) ↦ cells.length = v.dim ∧
        ∀ j, 1 ≤ j → j ≤ v.dim → ∃ x, cells[j - 1]? = some x ∧ v.get j = .ok x)
      (ops.run calls) (Cells.ops.run calls) ∧
    ∀ c : Call ℚ, (ops.call (ops.run calls) c).1 = (Cells.ops.call (Cells.ops.run calls) c).1 ∧
      ((∃ e, (ops.call (ops.run calls) c).1 = .error e) ↔ c.Fails ((ops.run calls).map dim)) := by
  have hvalid := valid_run calls
  refine ⟨?_, fun c ↦ ⟨?_, call_fails_iff hvalid c⟩⟩
  · rw [run_cells, List.forall₂_map_right_iff]
    apply List.forall₂_same.mpr
    intro v _
    refine ⟨length_cells v, fun j hpos hle ↦ ⟨v.coefficient j, ?_, ?_⟩⟩
    · rw [getElem?_cells (by omega), Nat.sub_add_cancel hpos]
    · exact get_eq_ok (by omega)
  · rw [run_cells, call_cells hvalid]

end SparseVector

end LinProg
