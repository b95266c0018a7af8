import LinProg.Proofs.SparseVector.Entries

namespace LinProg.SparseVector

section

variable {α : Type} {v : SparseVector α}

theorem retain_eq (v : SparseVector α) (keep : Entry α → Bool) :
    v.retain keep =
      ⟨(unplacings (v.entries.toList.filter fun e ↦ !keep e)).foldl
        (fun p w ↦ p.setIfInBounds w.1 w.2) v.position, v.entries.filter keep⟩ := by
  have hpass (es : List (Entry α)) (w : SparseVector α) :
      es.foldl (fun w e ↦ if keep e then { w with entries := w.entries.push e }
        else { w with position := w.position.setIfInBounds (e.slot - 1) none }) w =
      ⟨(unplacings (es.filter fun e ↦ !keep e)).foldl (fun p w ↦ p.setIfInBounds w.1 w.2)
        w.position, w.entries ++ (es.filter keep).toArray⟩ := by
    induction es generalizing w with
    | nil => simp [unplacings]
    | cons e es ih =>
      rw [List.foldl_cons, ih]
      cases hkeep : keep e <;> simp [hkeep, unplacings]
  unfold retain
  rw [← Array.foldl_toList, hpass, Array.empty_append, ← Array.toList_filter (p := keep),
    Array.toArray_toList]

theorem entries_retain (v : SparseVector α) (keep : Entry α → Bool) :
    (v.retain keep).entries = v.entries.filter keep := by rw [retain_eq]

theorem dim_retain (v : SparseVector α) (keep : Entry α → Bool) :
    (v.retain keep).dim = v.dim := by
  rw [retain_eq]
  exact size_foldl_set ..

theorem position_retain (v : SparseVector α) (keep : Entry α → Bool) (j : ℕ) :
    (v.retain keep).position[j]? =
      if ∃ e ∈ v.entries, keep e = false ∧ e.slot - 1 = j then (v.position[j]?).map fun _ ↦ none
      else v.position[j]? := by
  rw [retain_eq, getElem?_foldl_unplacings]
  simp [and_assoc]

theorem renumber_eq (v : SparseVector α) :
    v.renumber = ⟨(v.entries.toList.zipIdx.map fun p ↦ (p.1.slot - 1, some p.2)).foldl
      (fun p w ↦ p.setIfInBounds w.1 w.2) v.position, v.entries⟩ := by
  unfold renumber
  rw [← Array.foldl_toList, Array.toList_zipIdx, List.foldl_map]

theorem dim_renumber (v : SparseVector α) : v.renumber.dim = v.dim := by
  rw [renumber_eq]
  exact size_foldl_set ..

theorem mem_renumber_writes {w : ℕ × Option ℕ} :
    w ∈ v.entries.toList.zipIdx.map (fun p ↦ (p.1.slot - 1, some p.2)) ↔
      ∃ k e, v.entries[k]? = some e ∧ w = (e.slot - 1, some k) := by
  simp only [List.mem_map, Prod.exists, List.mem_zipIdx_iff_getElem?, Array.getElem?_toList]
  exact ⟨fun ⟨e, k, he, hw⟩ ↦ ⟨k, e, he, hw.symm⟩, fun ⟨k, e, he, hw⟩ ↦ ⟨e, k, he, hw.symm⟩⟩

theorem position_renumber {k : ℕ} {e : Entry α} (he : v.entries[k]? = some e)
    (hunique : ∀ i f, v.entries[i]? = some f → f.slot - 1 = e.slot - 1 → i = k)
    (hlt : e.slot - 1 < v.dim) : v.renumber.position[e.slot - 1]? = some (some k) := by
  have hwrites : ∀ w ∈ v.entries.toList.zipIdx.map fun p ↦ (p.1.slot - 1, some p.2),
      w.1 = e.slot - 1 → w.2 = some k := by
    intro w hw hslot
    obtain ⟨i, f, hf, rfl⟩ := mem_renumber_writes.mp hw
    rw [hunique i f hf hslot]
  rw [renumber_eq, getElem?_foldl_set hwrites,
    if_pos ⟨_, mem_renumber_writes.mpr ⟨k, e, he, rfl⟩, rfl⟩, Array.getElem?_eq_getElem hlt,
    Option.map_some]

theorem position_renumber_of_forall_ne {j : ℕ}
    (hj : ∀ e ∈ v.entries, e.slot - 1 ≠ j) : v.renumber.position[j]? = v.position[j]? := by
  have hwrites : ∀ w ∈ v.entries.toList.zipIdx.map fun p ↦ (p.1.slot - 1, some p.2), w.1 ≠ j := by
    intro w hw
    obtain ⟨k, e, he, rfl⟩ := mem_renumber_writes.mp hw
    exact hj e (Array.mem_of_getElem? he)
  rw [renumber_eq, getElem?_foldl_set (x := none) fun w hw h ↦ absurd h (hwrites w hw),
    if_neg fun ⟨w, hw, h⟩ ↦ hwrites w hw h]

theorem entries_renumber_retain (v : SparseVector α) (keep : Entry α → Bool) :
    (v.retain keep).renumber.entries = v.entries.filter keep := entries_retain v keep

theorem mem_of_getElem?_filter {keep : Entry α → Bool} {k : ℕ} {e : Entry α}
    (he : (v.entries.filter keep)[k]? = some e) : e ∈ v.entries :=
  (Array.mem_filter.mp (Array.mem_of_getElem? he)).1

theorem eq_of_slot_eq {entries : Array (Entry α)} (h : (entries.toList.map (·.slot)).Nodup)
    {i k : ℕ} {e f : Entry α} (he : entries[i]? = some e) (hf : entries[k]? = some f)
    (hslot : e.slot = f.slot) : i = k := by
  rw [← Array.getElem?_toList] at he hf
  have hi : i < (entries.toList.map (·.slot)).length := by
    rw [List.length_map]
    exact (List.getElem?_eq_some_iff.mp he).1
  apply (List.getElem?_inj hi h).mp
  rw [List.getElem?_map, List.getElem?_map, he, hf, Option.map_some, Option.map_some, hslot]

variable {keep : Entry α → Bool}

/-- A kept entry is found where it has moved. -/
theorem Valid.position_kept (h : v.Valid) {k : ℕ} {e : Entry α}
    (he : (v.entries.filter keep)[k]? = some e) :
    (v.retain keep).renumber.position[e.slot - 1]? = some (some k) := by
  have hnodup : ((v.entries.filter keep).toList.map (·.slot)).Nodup := by
    rw [Array.toList_filter]
    exact h.nodup_slots.sublist (List.filter_sublist.map _)
  obtain ⟨hpos, hle⟩ := h.slot_range (mem_of_getElem?_filter he)
  refine position_renumber (entries_retain v keep ▸ he) (fun i f hf hslot ↦ ?_) ?_
  · rw [entries_retain] at hf
    have hfpos := (h.slot_range (mem_of_getElem?_filter hf)).1
    exact eq_of_slot_eq hnodup hf he (by omega)
  · rw [dim_retain]
    omega

/-- No place leads to where an entry was: if it is not the place of a kept entry, it has been
taken from a dropped one or has been free. -/
theorem Valid.position_not_kept (h : v.Valid) {j k : ℕ}
    (hj : ∀ e ∈ v.entries.filter keep, e.slot - 1 ≠ j) :
    (v.retain keep).renumber.position[j]? ≠ some (some k) := by
  intro hk
  rw [position_renumber_of_forall_ne fun e he ↦ hj e (entries_retain v keep ▸ he),
    position_retain] at hk
  split_ifs at hk with hdropped
  · cases hp : v.position[j]? <;> simp [hp] at hk
  · obtain ⟨e, he, hslot⟩ := h.entry_position j k hk
    have hmem := Array.mem_of_getElem? he
    cases hkeep : keep e with
    | true => exact hj e (Array.mem_filter.mpr ⟨hmem, hkeep⟩) (by omega)
    | false => exact hdropped ⟨e, hmem, hkeep, by omega⟩

theorem Valid.renumber_retain (h : v.Valid) (keep : Entry α → Bool) :
    (v.retain keep).renumber.Valid ∧ (v.retain keep).renumber.dim = v.dim ∧
      (v.retain keep).renumber.entries = v.entries.filter keep := by
  have hentries := entries_renumber_retain v keep
  refine ⟨⟨fun k e he ↦ ?_, fun k e he ↦ ?_, fun j k hk ↦ ?_⟩, ?_, hentries⟩
  · exact (h.slot_range (mem_of_getElem?_filter (hentries ▸ he))).1
  · exact h.position_kept (hentries ▸ he)
  · by_cases hkept : ∃ e ∈ v.entries.filter keep, e.slot - 1 = j
    · obtain ⟨e, he, rfl⟩ := hkept
      obtain ⟨i, hi⟩ := Array.mem_iff_getElem?.mp he
      rw [h.position_kept hi, Option.some_inj, Option.some_inj] at hk
      subst hk
      have hpos := (h.slot_range (mem_of_getElem?_filter hi)).1
      exact ⟨e, hentries ▸ hi, by omega⟩
    · exact absurd hk (h.position_not_kept fun e he hslot ↦ hkept ⟨e, he, hslot⟩)
  · rw [dim_renumber, dim_retain]

end

theorem Valid.clean_eq {α : Type} [Scalar α] {v : SparseVector α} (h : v.Valid) (eps : α) :
    (v.clean eps).Valid ∧ (v.clean eps).dim = v.dim ∧
      (v.clean eps).entries = v.entries.filter fun e ↦ eps < Scalar.abs e.value :=
  h.renumber_retain fun e ↦ eps < Scalar.abs e.value

end LinProg.SparseVector
