import LinProg.Proofs.SparseVector.Stored

namespace LinProg.SparseVector

section

variable {α : Type} {v w : SparseVector α}

theorem Valid.position_eq_some_iff (h : v.Valid) {j k : ℕ} :
    v.position[j]? = some (some k) ↔ (v.entries[k]?).map (·.slot) = some (j + 1) := by
  constructor
  · intro hj
    obtain ⟨e, he, hslot⟩ := h.entry_position j k hj
    rw [he, Option.map_some, hslot]
  · intro hk
    obtain ⟨e, he, hslot⟩ := Option.map_eq_some_iff.mp hk
    have hplace := h.position_slot k e he
    rwa [hslot, Nat.add_sub_cancel] at hplace

theorem Valid.eq_of_entries (hv : v.Valid) (hw : w.Valid) (hdim : v.dim = w.dim)
    (hentries : v.entries = w.entries) : v = w := by
  have hposition : v.position = w.position := by
    apply Array.ext hdim
    intro j hj hj'
    apply Option.ext
    intro k
    have hiff := hv.position_eq_some_iff (j := j) (k := k)
    rw [hentries, ← hw.position_eq_some_iff, Array.getElem?_eq_getElem hj,
      Array.getElem?_eq_getElem hj', Option.some_inj, Option.some_inj] at hiff
    exact hiff
  cases v
  cases w
  simp_all

theorem Valid.slot_range (h : v.Valid) {e : Entry α} (he : e ∈ v.entries) :
    0 < e.slot ∧ e.slot ≤ v.dim := by
  obtain ⟨k, hk⟩ := Array.mem_iff_getElem?.mp he
  exact ⟨h.slot_pos k e hk, h.slot_le hk⟩

theorem Valid.nnz_le_dim (h : v.Valid) : v.nnz ≤ v.dim := by
  have hsubset : v.entries.toList.map (·.slot) ⊆ List.range' 1 v.dim := by
    intro s hs
    obtain ⟨e, he, rfl⟩ := List.mem_map.mp hs
    obtain ⟨hpos, hle⟩ := h.slot_range (Array.mem_toList_iff.mp he)
    rw [List.mem_range'_1]
    omega
  have hle := (h.nodup_slots.subperm hsubset).length_le
  simpa [nnz] using hle

theorem Valid.position_eq_none (h : v.Valid) {slot : ℕ} (hpos : 0 < slot) (hle : slot ≤ v.dim)
    (hnone : ∀ e ∈ v.entries, e.slot ≠ slot) : v.position[slot - 1]? = some none := by
  have hlt : slot - 1 < v.position.size := by
    unfold dim at hle
    omega
  rw [Array.getElem?_eq_getElem hlt, Option.some_inj, Option.eq_none_iff_forall_ne_some]
  intro k hk
  obtain ⟨e, he, hslot⟩ := h.entry_position (slot - 1) k (by rw [Array.getElem?_eq_getElem hlt, hk])
  apply hnone e (Array.mem_of_getElem? he)
  omega

/-- Writes to the places of an array, of which those to one place agree on what they put there. -/
theorem getElem?_foldl_set {β : Type} {writes : List (ℕ × β)} {j : ℕ} {x : β}
    (h : ∀ w ∈ writes, w.1 = j → w.2 = x) (xs : Array β) :
    (writes.foldl (fun xs w ↦ xs.setIfInBounds w.1 w.2) xs)[j]? =
      if ∃ w ∈ writes, w.1 = j then (xs[j]?).map fun _ ↦ x else xs[j]? := by
  induction writes generalizing xs with
  | nil => simp
  | cons w writes ih =>
    rw [List.foldl_cons, ih fun w' hw' ↦ h w' (List.mem_cons_of_mem w hw')]
    by_cases hw : w.1 = j
    · obtain rfl := h w List.mem_cons_self hw
      subst hw
      rw [Array.getElem?_setIfInBounds_self]
      by_cases hlt : w.1 < xs.size <;> simp [hlt]
    · have hmem : (∃ w' ∈ w :: writes, w'.1 = j) ↔ ∃ w' ∈ writes, w'.1 = j := by
        rw [List.exists_mem_cons_iff, or_iff_right hw]
      rw [Array.getElem?_setIfInBounds_ne hw]
      simp only [hmem]

theorem size_foldl_set {β : Type} (writes : List (ℕ × β)) (xs : Array β) :
    (writes.foldl (fun xs w ↦ xs.setIfInBounds w.1 w.2) xs).size = xs.size := by
  induction writes generalizing xs with
  | nil => rfl
  | cons w writes ih => rw [List.foldl_cons, ih, Array.size_setIfInBounds]

/-- The writes that take the slots of entries out of a position table. -/
def unplacings (es : List (Entry α)) : List (ℕ × Option ℕ) := es.map fun e ↦ (e.slot - 1, none)

theorem getElem?_foldl_unplacings (es : List (Entry α)) (position : Array (Option ℕ)) (j : ℕ) :
    ((unplacings es).foldl (fun p w ↦ p.setIfInBounds w.1 w.2) position)[j]? =
      if ∃ e ∈ es, e.slot - 1 = j then (position[j]?).map fun _ ↦ none else position[j]? := by
  have hnone : ∀ w ∈ unplacings es, w.1 = j → w.2 = none := by
    intro w hw _
    obtain ⟨e, -, rfl⟩ := List.mem_map.mp hw
    rfl
  rw [getElem?_foldl_set hnone]
  simp [unplacings]

theorem Valid.clear_eq (h : v.Valid) : v.clear = zero v.dim := by
  have hposition : v.clear.position = Array.replicate v.dim none := by
    apply Array.ext_getElem?
    intro j
    have hfold := getElem?_foldl_unplacings v.entries.toList v.position j
    rw [unplacings, List.foldl_map, Array.foldl_toList] at hfold
    refine hfold.trans ?_
    rw [Array.getElem?_replicate]
    by_cases hj : j < v.dim
    · have hget : v.position[j]? = some v.position[j] := Array.getElem?_eq_getElem hj
      rw [if_pos hj]
      split_ifs with hex
      · rw [hget, Option.map_some]
      · have hfree := h.position_eq_none (Nat.succ_pos j) hj fun e he hslot ↦
          hex ⟨e, Array.mem_toList_iff.mpr he, by omega⟩
        exact hfree
    · have hget : v.position[j]? = none := Array.getElem?_eq_none (Nat.le_of_not_lt hj)
      rw [if_neg hj, hget, Option.map_none, ite_self]
  unfold zero
  rw [← hposition]
  rfl

theorem Valid.foldl_append (h : v.Valid) {es : List (Entry α)}
    (hrange : ∀ e ∈ es, 0 < e.slot ∧ e.slot ≤ v.dim)
    (hfree : ∀ e ∈ es, ∀ f ∈ v.entries, f.slot ≠ e.slot) (hnodup : (es.map (·.slot)).Nodup) :
    (es.foldl SparseVector.append v).Valid ∧
      (es.foldl SparseVector.append v).dim = v.dim ∧
      (es.foldl SparseVector.append v).entries = v.entries ++ es.toArray := by
  induction es generalizing v with
  | nil => exact ⟨h, rfl, by simp⟩
  | cons e es ih =>
    obtain ⟨hpos, hle⟩ := hrange e List.mem_cons_self
    rw [List.map_cons, List.nodup_cons] at hnodup
    have happend := h.append hpos (h.position_eq_none hpos hle (hfree e List.mem_cons_self))
    have hfree' : ∀ f ∈ es, ∀ g ∈ (v.append e).entries, g.slot ≠ f.slot := by
      intro f hf g hg
      rcases Array.mem_push.mp hg with hg | rfl
      · exact hfree f (List.mem_cons_of_mem e hf) g hg
      · intro hslot
        exact hnodup.1 (hslot ▸ List.mem_map_of_mem hf)
    obtain ⟨hvalid, hdim, hentries⟩ := ih happend
      (fun f hf ↦ (dim_append v e).symm ▸ hrange f (List.mem_cons_of_mem e hf)) hfree' hnodup.2
    refine ⟨hvalid, hdim.trans (dim_append v e), hentries.trans ?_⟩
    simp [SparseVector.append]

theorem Valid.rebuild (h : v.Valid) :
    v.entries.toList.foldl SparseVector.append (zero v.dim) = v := by
  have hrange (e : Entry α) (he : e ∈ v.entries.toList) : 0 < e.slot ∧ e.slot ≤ v.dim :=
    h.slot_range (Array.mem_toList_iff.mp he)
  have hzero : (zero v.dim : SparseVector α).entries = #[] := rfl
  obtain ⟨hvalid, hdim, hentries⟩ :=
    (valid_zero v.dim).foldl_append (by simpa using hrange) (by simp [hzero]) h.nodup_slots
  refine hvalid.eq_of_entries h (hdim.trans (dim_zero v.dim)) ?_
  rw [hentries, hzero, Array.empty_append, Array.toArray_toList]

theorem Valid.copyFrom_eq (hv : v.Valid) (hw : w.Valid) (hdim : v.dim = w.dim) :
    v.copyFrom w = .ok w := by
  unfold copyFrom requireSameDim
  rw [if_pos hdim, hv.clear_eq, hdim, ← Array.foldl_toList, hw.rebuild]
  rfl

theorem copyFrom_eq_error (hdim : v.dim ≠ w.dim) :
    v.copyFrom w = .error (.dimensionMismatch v.dim w.dim) := by
  unfold copyFrom requireSameDim
  rw [if_neg hdim]
  rfl

theorem Valid.toList_range (h : v.Valid) {p : ℕ × α} (hp : p ∈ v.toList) :
    0 < p.1 ∧ p.1 ≤ v.dim := by
  obtain ⟨e, he, rfl⟩ := List.mem_map.mp hp
  exact h.slot_range (Array.mem_toList_iff.mp he)

theorem forIn_eq_ok {β ε : Type} {xs : List β} {f : β → PUnit → Except ε (ForInStep PUnit)}
    (h : ∀ x ∈ xs, f x ⟨⟩ = .ok (.yield ⟨⟩)) : forIn xs ⟨⟩ f = .ok ⟨⟩ := by
  induction xs with
  | nil => rfl
  | cons x xs ih =>
    rw [List.forIn_cons, h x List.mem_cons_self]
    exact ih fun y hy ↦ h y (List.mem_cons_of_mem x hy)

theorem Valid.check_eq_ok (h : v.Valid) : v.check = .ok () := by
  have hentries : ∀ p ∈ v.entries.toList.zipIdx, ¬(p.1.slot = 0 ∨ v.dim < p.1.slot) ∧
      v.position[p.1.slot - 1]? = some (some p.2) := by
    rintro ⟨e, k⟩ hp
    have hk : v.entries[k]? = some e := by
      rw [← Array.getElem?_toList]
      exact List.mem_zipIdx_iff_getElem?.mp hp
    have hpos := h.slot_pos k e hk
    have hle := h.slot_le hk
    exact ⟨by dsimp only; omega, h.position_slot k e hk⟩
  have hplaces : ∀ p ∈ v.position.toList.zipIdx, ∀ k, p.1 = some k →
      (v.entries[k]?).map (·.slot) = some (p.2 + 1) := by
    rintro ⟨place, j⟩ hp k rfl
    rw [← h.position_eq_some_iff, ← Array.getElem?_toList]
    exact List.mem_zipIdx_iff_getElem?.mp hp
  unfold check
  rw [forIn_eq_ok fun p hp ↦ ?_]
  · change Except.bind (forIn v.position.toList.zipIdx _ _) _ = _
    rw [forIn_eq_ok]
    · rfl
    · rintro ⟨place, j⟩ hp
      cases place with
      | none => rfl
      | some k =>
        have hslot := hplaces _ hp k rfl
        simp only [hslot, ne_eq, not_true_eq_false, if_false]
        rfl
  · obtain ⟨hrange, hplace⟩ := hentries p hp
    simp only [hrange, hplace, ne_eq, not_true_eq_false, if_false]
    rfl

end

section

variable {α : Type} [Scalar α] {v w : SparseVector α}

theorem Valid.coefficient_of_mem (h : v.Valid) {e : Entry α} (he : e ∈ v.entries) :
    v.coefficient e.slot = e.value := by
  obtain ⟨k, hk⟩ := Array.mem_iff_getElem?.mp he
  exact h.coefficient_slot hk

theorem Valid.coefficient_of_forall_ne (h : v.Valid) {slot : ℕ}
    (hnone : ∀ e ∈ v.entries, e.slot ≠ slot) : v.coefficient slot = 0 :=
  h.coefficient_eq_zero fun _ e he ↦ hnone e (Array.mem_of_getElem? he)

/-- The slots and values that adding a multiple of a vector adds one by one. -/
def scaledPairs (a : α) (w : SparseVector α) : List (ℕ × α) :=
  w.toList.map fun p ↦ (p.1, a * p.2)

theorem addScaled_eq_error (hdim : v.dim ≠ w.dim) (a : α) :
    v.addScaled a w = .error (.dimensionMismatch v.dim w.dim) := by
  unfold addScaled requireSameDim
  rw [if_neg hdim]
  rfl

theorem addScaled_eq (hdim : v.dim = w.dim) (a : α) :
    v.addScaled a w = if a == 0 then .ok v
      else (scaledPairs a w).foldlM (fun v p ↦ v.add p.1 p.2) v := by
  unfold addScaled requireSameDim scaledPairs
  rw [if_pos hdim, List.foldlM_map]
  split_ifs <;> rfl

theorem Valid.exists_addScaled (hv : v.Valid) (hw : w.Valid) (hdim : v.dim = w.dim) (a : α) :
    ∃ u, v.addScaled a w = .ok u := by
  rw [addScaled_eq hdim]
  split_ifs
  · exact ⟨v, rfl⟩
  · apply hv.exists_foldlM_add
    intro p hp
    obtain ⟨q, hq, rfl⟩ := List.mem_map.mp hp
    have hrange := hw.toList_range hq
    rwa [← hdim] at hrange

theorem set_eq_error {slot : ℕ} (h : slot = 0 ∨ v.dim < slot) (value : α) :
    v.set slot value = .error (.outOfRange slot v.dim) := by
  unfold SparseVector.set
  rw [locate_eq_error v slot h]
  rfl

theorem exists_set {slot : ℕ} (h : ¬(slot = 0 ∨ v.dim < slot)) (value : α) :
    ∃ w, v.set slot value = .ok w := by
  unfold SparseVector.set
  rw [locate_eq_ok v slot h]
  cases v.position[slot - 1]?.join <;> exact ⟨_, rfl⟩

theorem add_eq_error {slot : ℕ} (h : slot = 0 ∨ v.dim < slot) (delta : α) :
    v.add slot delta = .error (.outOfRange slot v.dim) := by
  unfold SparseVector.add
  rw [locate_eq_error v slot h]
  rfl

theorem Valid.foldlM_add_eq_error (h : v.Valid) {pairs : List (ℕ × α)} {p : ℕ × α}
    (hp : pairs.find? (fun p ↦ p.1 = 0 ∨ v.dim < p.1) = some p) :
    pairs.foldlM (fun v p ↦ v.add p.1 p.2) v = .error (.outOfRange p.1 v.dim) := by
  induction pairs generalizing v with
  | nil => cases hp
  | cons q pairs ih =>
    rw [List.foldlM_cons]
    by_cases hq : q.1 = 0 ∨ v.dim < q.1
    · rw [List.find?_cons_of_pos (by simpa using hq)] at hp
      cases hp
      rw [add_eq_error hq]
      rfl
    · rw [List.find?_cons_of_neg (by simpa using hq)] at hp
      obtain ⟨u, hu⟩ : ∃ u, v.add q.1 q.2 = .ok u := exists_add (by omega) (by omega) q.2
      have hdim := (h.add_eq_ok hu).1
      rw [hu, ← hdim]
      exact ih (h.add hu) (by rw [hdim, hp])

theorem ofPairs_eq_error {dim : ℕ} {pairs : List (ℕ × α)} {p : ℕ × α}
    (hp : pairs.find? (fun p ↦ p.1 = 0 ∨ dim < p.1) = some p) :
    ofPairs dim pairs = .error (.outOfRange p.1 dim) := by
  have hzero : pairs.find? (fun p ↦ p.1 = 0 ∨ (zero dim : SparseVector α).dim < p.1) = some p := by
    rw [dim_zero, hp]
  have h := (valid_zero dim).foldlM_add_eq_error hzero
  rwa [dim_zero] at h

theorem exists_ofPairs_of_find? {dim : ℕ} {pairs : List (ℕ × α)}
    (hp : pairs.find? (fun p ↦ p.1 = 0 ∨ dim < p.1) = none) : ∃ v, ofPairs dim pairs = .ok v := by
  apply exists_ofPairs
  intro p hmem
  have hrange := List.find?_eq_none.mp hp p hmem
  simp only [decide_eq_true_eq] at hrange
  omega

theorem ofPairs_fails_iff {dim : ℕ} {pairs : List (ℕ × α)} :
    (∃ e, ofPairs dim pairs = .error e) ↔ ∃ p ∈ pairs, p.1 = 0 ∨ dim < p.1 := by
  cases hp : pairs.find? (fun p ↦ p.1 = 0 ∨ dim < p.1) with
  | none =>
    obtain ⟨v, hv⟩ := exists_ofPairs_of_find? hp
    simpa [hv] using hp
  | some p =>
    have hout := List.find?_some hp
    exact iff_of_true ⟨_, ofPairs_eq_error hp⟩
      ⟨p, List.mem_of_find?_eq_some hp, by simpa using hout⟩

theorem Valid.dim_foldlM_add (h : v.Valid) {pairs : List (ℕ × α)}
    (hw : pairs.foldlM (fun v p ↦ v.add p.1 p.2) v = .ok w) : w.dim = v.dim := by
  induction pairs generalizing v with
  | nil =>
    cases hw
    rfl
  | cons p pairs ih =>
    rw [List.foldlM_cons] at hw
    cases ha : v.add p.1 p.2 with
    | error e => simp [ha, bind, Except.bind] at hw
    | ok u =>
      simp only [ha, bind, Except.bind] at hw
      rw [ih (h.add ha) hw, (h.add_eq_ok ha).1]

theorem Valid.addScaled (hv : v.Valid) {a : α} {u : SparseVector α}
    (h : v.addScaled a w = .ok u) : u.Valid ∧ u.dim = v.dim := by
  by_cases hdim : v.dim = w.dim
  · rw [addScaled_eq hdim] at h
    split_ifs at h
    · cases h
      exact ⟨hv, rfl⟩
    · exact ⟨hv.foldlM_add h, hv.dim_foldlM_add h⟩
  · rw [addScaled_eq_error hdim] at h
    cases h

end

end LinProg.SparseVector
