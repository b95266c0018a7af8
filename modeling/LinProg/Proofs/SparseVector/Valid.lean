import Mathlib.Algebra.BigOperators.Ring.Finset
import LinProg.Proofs.Rational
import LinProg.SparseVector

namespace LinProg.SparseVector

section

variable {α : Type}

/-- The entries and the position table agree. -/
structure Valid (v : SparseVector α) : Prop where
  slot_pos : ∀ (k : ℕ) (e : Entry α), v.entries[k]? = some e → 0 < e.slot
  position_slot : ∀ (k : ℕ) (e : Entry α), v.entries[k]? = some e →
    v.position[e.slot - 1]? = some (some k)
  entry_position : ∀ j k : ℕ, v.position[j]? = some (some k) →
    ∃ e, v.entries[k]? = some e ∧ e.slot = j + 1

variable {v : SparseVector α}

theorem Valid.slot_le (h : v.Valid) {k : ℕ} {e : Entry α} (he : v.entries[k]? = some e) :
    e.slot ≤ v.dim := by
  have hpos := h.slot_pos k e he
  obtain ⟨hlt, -⟩ := Array.getElem?_eq_some_iff.mp (h.position_slot k e he)
  unfold dim
  omega

theorem Valid.slot_injective (h : v.Valid) {i k : ℕ} {e f : Entry α}
    (he : v.entries[i]? = some e) (hf : v.entries[k]? = some f) (hs : e.slot = f.slot) :
    i = k := by
  have hi := h.position_slot i e he
  rw [hs, h.position_slot k f hf, Option.some_inj, Option.some_inj] at hi
  exact hi.symm

theorem Valid.nodup_slots (h : v.Valid) : (v.entries.toList.map (·.slot)).Nodup := by
  rw [List.nodup_iff_injective_getElem]
  intro i k hik
  simp only [List.getElem_map, Array.getElem_toList] at hik
  exact Fin.ext (h.slot_injective (Array.getElem?_eq_getElem _) (Array.getElem?_eq_getElem _) hik)

theorem valid_zero (dim : ℕ) : (zero dim : SparseVector α).Valid := by
  refine ⟨fun k e he ↦ ?_, fun k e he ↦ ?_, fun j k hk ↦ ?_⟩
  · simp [zero] at he
  · simp [zero] at he
  · simp [zero, Array.getElem?_replicate] at hk

theorem Valid.append (h : v.Valid) {e : Entry α} (hs : 0 < e.slot)
    (hfree : v.position[e.slot - 1]? = some none) : (v.append e).Valid := by
  obtain ⟨hlt, -⟩ := Array.getElem?_eq_some_iff.mp hfree
  have hentry (k : ℕ) (f : Entry α) (hf : (v.entries.push e)[k]? = some f) :
      (v.entries[k]? = some f ∧ k ≠ v.entries.size) ∨ k = v.entries.size ∧ f = e := by
    rw [Array.getElem?_push] at hf
    split_ifs at hf with hk
    · exact .inr ⟨hk, (Option.some_inj.mp hf).symm⟩
    · exact .inl ⟨hf, hk⟩
  refine ⟨fun k f hf ↦ ?_, fun k f hf ↦ ?_, fun j k hk ↦ ?_⟩
  · rcases hentry k f hf with ⟨hf, -⟩ | ⟨-, rfl⟩
    · exact h.slot_pos k f hf
    · exact hs
  · change (v.position.setIfInBounds _ _)[_]? = _
    rcases hentry k f hf with ⟨hf, -⟩ | ⟨rfl, rfl⟩
    · rw [Array.getElem?_setIfInBounds_ne, h.position_slot k f hf]
      intro he
      have hk := h.position_slot k f hf
      rw [← he, hfree] at hk
      cases hk
    · exact Array.getElem?_setIfInBounds_self_of_lt hlt
  · change (v.position.setIfInBounds _ _)[j]? = _ at hk
    change ∃ f, (v.entries.push e)[k]? = _ ∧ _
    by_cases hj : e.slot - 1 = j
    · subst hj
      rw [Array.getElem?_setIfInBounds_self_of_lt hlt, Option.some_inj, Option.some_inj] at hk
      subst hk
      exact ⟨e, Array.getElem?_push_size, by omega⟩
    · rw [Array.getElem?_setIfInBounds_ne hj] at hk
      obtain ⟨f, hf, hslot⟩ := h.entry_position j k hk
      obtain ⟨hlt', -⟩ := Array.getElem?_eq_some_iff.mp hf
      refine ⟨f, ?_, hslot⟩
      rw [Array.getElem?_push, if_neg hlt'.ne, hf]

theorem Valid.update (h : v.Valid) (k : ℕ) (f : α → α) : (v.update k f).Valid := by
  have hentry (i : ℕ) : (v.update k f).entries[i]? =
      v.entries[i]?.map fun e ↦ if k = i then ⟨e.slot, f e.value⟩ else e := by
    change (v.entries.modify k _)[i]? = _
    rw [Array.getElem?_modify]
    split_ifs
    · rfl
    · simp
  have hslot (i : ℕ) (e' : Entry α) (he' : (v.update k f).entries[i]? = some e') :
      ∃ e, v.entries[i]? = some e ∧ e'.slot = e.slot := by
    rw [hentry, Option.map_eq_some_iff] at he'
    obtain ⟨e, he, rfl⟩ := he'
    exact ⟨e, he, by split_ifs <;> rfl⟩
  refine ⟨fun i e' he' ↦ ?_, fun i e' he' ↦ ?_, fun j i hj ↦ ?_⟩
  · obtain ⟨e, he, hs⟩ := hslot i e' he'
    rw [hs]
    exact h.slot_pos i e he
  · obtain ⟨e, he, hs⟩ := hslot i e' he'
    rw [hs]
    exact h.position_slot i e he
  · obtain ⟨e, he, hs⟩ := h.entry_position j i hj
    refine ⟨_, by rw [hentry, he]; rfl, ?_⟩
    split_ifs <;> exact hs

theorem locate_cases {slot : ℕ} {place : Option ℕ} (h : v.locate slot = .ok place) :
    0 < slot ∧ v.position[slot - 1]? = some place := by
  unfold locate at h
  split_ifs at h with hs
  cases h
  have hlt : slot - 1 < v.position.size := by
    unfold dim at hs
    omega
  refine ⟨by omega, ?_⟩
  rw [Array.getElem?_eq_getElem hlt]
  rfl

end

section

variable {α : Type} [Scalar α] {v w : SparseVector α}

theorem Valid.set (h : v.Valid) {slot : ℕ} {value : α} (hw : v.set slot value = .ok w) :
    w.Valid := by
  unfold SparseVector.set at hw
  cases hl : v.locate slot with
  | error e => simp [hl, bind, Except.bind] at hw
  | ok place =>
    obtain ⟨hpos, hplace⟩ := locate_cases hl
    cases place with
    | some k =>
      simp only [hl, bind, Except.bind, pure, Except.pure, Except.ok.injEq] at hw
      exact hw ▸ h.update k _
    | none =>
      simp only [hl, bind, Except.bind, pure, Except.pure, Except.ok.injEq] at hw
      subst hw
      split_ifs
      · exact h.append hpos hplace
      · exact h

theorem Valid.add (h : v.Valid) {slot : ℕ} {delta : α} (hw : v.add slot delta = .ok w) :
    w.Valid := by
  unfold SparseVector.add at hw
  cases hl : v.locate slot with
  | error e => simp [hl, bind, Except.bind] at hw
  | ok place =>
    cases place with
    | some k =>
      simp only [hl, bind, Except.bind, pure, Except.pure, Except.ok.injEq] at hw
      exact hw ▸ h.update k _
    | none =>
      simp only [hl, bind, Except.bind] at hw
      exact h.set hw

theorem Valid.foldlM_add (h : v.Valid) {pairs : List (ℕ × α)}
    (hw : pairs.foldlM (fun v p ↦ v.add p.1 p.2) v = .ok w) : w.Valid := by
  induction pairs generalizing v with
  | nil =>
    cases hw
    exact h
  | cons p pairs ih =>
    rw [List.foldlM_cons] at hw
    cases ha : v.add p.1 p.2 with
    | error e => simp [ha, bind, Except.bind] at hw
    | ok u =>
      simp only [ha, bind, Except.bind] at hw
      exact ih (h.add ha) hw

theorem valid_ofPairs {dim : ℕ} {pairs : List (ℕ × α)} (h : ofPairs dim pairs = .ok v) :
    v.Valid := (valid_zero dim).foldlM_add h

theorem Valid.coefficient_slot (h : v.Valid) {k : ℕ} {e : Entry α}
    (he : v.entries[k]? = some e) : v.coefficient e.slot = e.value := by
  have hpos := h.slot_pos k e he
  have hle := h.slot_le he
  have hl : v.locate e.slot = .ok (some k) := by
    rw [locate_eq_ok v e.slot (by omega), h.position_slot k e he]
    rfl
  simp [coefficient, SparseVector.get, hl, he, bind, Except.bind, pure, Except.pure]

theorem Valid.coefficient_eq_zero (h : v.Valid) {slot : ℕ}
    (hnone : ∀ (k : ℕ) (e : Entry α), v.entries[k]? = some e → e.slot ≠ slot) :
    v.coefficient slot = 0 := by
  cases hl : v.locate slot with
  | error e => simp [coefficient, SparseVector.get, hl, bind, Except.bind]
  | ok place =>
    obtain ⟨hpos, hplace⟩ := locate_cases hl
    cases place with
    | none => simp [coefficient, SparseVector.get, hl, bind, Except.bind, pure, Except.pure]
    | some k =>
      obtain ⟨e, he, hslot⟩ := h.entry_position _ _ hplace
      exact absurd (by omega) (hnone k e he)

end

section

open Finset

variable {v : SparseVector ℚ}

theorem Valid.sum_toList (h : v.Valid) {n : ℕ} {g : ℕ → ℚ} (hg : ∀ j, n ≤ j → g j = 0) :
    (v.toList.map fun p ↦ p.2 * g (p.1 - 1)).sum =
      ∑ j ∈ range n, v.coefficient (j + 1) * g j := by
  have hterm : v.toList.map (fun p ↦ p.2 * g (p.1 - 1)) =
      (v.entries.toList.map (·.slot)).map fun s ↦ v.coefficient s * g (s - 1) := by
    rw [toList, List.map_map, List.map_map]
    refine List.map_congr_left fun e he ↦ ?_
    obtain ⟨k, hk⟩ := Array.mem_iff_getElem?.mp (Array.mem_toList_iff.mp he)
    simp only [Function.comp_apply, h.coefficient_slot hk]
  rw [hterm, ← List.sum_toFinset _ h.nodup_slots]
  have hsubset : (v.entries.toList.map (·.slot)).toFinset ⊆ range (max n v.dim + 1) := by
    intro s hs
    obtain ⟨e, he, rfl⟩ := List.mem_map.mp (List.mem_toFinset.mp hs)
    obtain ⟨k, hk⟩ := Array.mem_iff_getElem?.mp (Array.mem_toList_iff.mp he)
    have hle := h.slot_le hk
    rw [mem_range]
    omega
  rw [sum_subset hsubset, sum_range_succ']
  · have hzero : v.coefficient 0 = 0 := by
      refine h.coefficient_eq_zero fun k e he ↦ ?_
      have hpos := h.slot_pos k e he
      omega
    rw [hzero, zero_mul, add_zero]
    refine (sum_subset (range_subset_range.mpr (le_max_left n v.dim)) fun j _ hj ↦ ?_).symm
    rw [Nat.add_sub_cancel, hg j (Nat.le_of_not_lt fun hlt ↦ hj (mem_range.mpr hlt)), mul_zero]
  · intro s _ hs
    rw [h.coefficient_eq_zero fun k e he hes ↦ hs ?_, zero_mul]
    rw [List.mem_toFinset, ← hes]
    exact List.mem_map_of_mem (Array.mem_toList_iff.mpr (Array.mem_of_getElem? he))

end

end LinProg.SparseVector
