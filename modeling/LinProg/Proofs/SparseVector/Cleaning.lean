import LinProg.Proofs.SparseVector.History

namespace LinProg.SparseVector

section

variable {α : Type}

def Stores (v : SparseVector α) (slot : ℕ) : Prop := ∃ e ∈ v.entries, e.slot = slot

instance (v : SparseVector α) (slot : ℕ) : Decidable (v.Stores slot) :=
  inferInstanceAs (Decidable (∃ e ∈ v.entries, e.slot = slot))

/-- What a write of a number to a slot comes to: the value of the slot's entry is changed, or the
slot has none and gets one, unless the number is zero. -/
inductive Write [Scalar α] (slot : ℕ) (x : α) (v : SparseVector α) : SparseVector α → Prop
  | changed {k : ℕ} {e : Entry α} (f : α → α) (he : v.entries[k]? = some e)
      (hslot : e.slot = slot) : Write slot x v (v.update k f)
  | appended (hfree : ¬ v.Stores slot) (hx : (x != 0) = true) :
      Write slot x v (v.append ⟨slot, x⟩)
  | nothing (hfree : ¬ v.Stores slot) (hx : ¬ (x != 0) = true) : Write slot x v v

end

variable {α : Type} [Scalar α] {v w : SparseVector α} {slot : ℕ} {x : α}

omit [Scalar α] in
theorem Valid.not_stores (h : v.Valid) (hpos : 0 < slot)
    (hplace : v.position[slot - 1]? = some none) : ¬ v.Stores slot := by
  rintro ⟨e, he, rfl⟩
  obtain ⟨k, hk⟩ := Array.mem_iff_getElem?.mp he
  rw [h.position_slot k e hk] at hplace
  cases hplace

theorem Valid.write_set (h : v.Valid) (hw : v.set slot x = .ok w) : Write slot x v w := by
  unfold SparseVector.set at hw
  cases hl : v.locate slot with
  | error e => simp [hl, bind, Except.bind] at hw
  | ok place =>
    obtain ⟨hpos, hplace⟩ := locate_cases hl
    cases place with
    | some k =>
      obtain ⟨e, he, hslot⟩ := h.entry_position _ _ hplace
      simp only [hl, bind, Except.bind, pure, Except.pure, Except.ok.injEq] at hw
      exact hw ▸ .changed _ he (by omega)
    | none =>
      simp only [hl, bind, Except.bind, pure, Except.pure, Except.ok.injEq] at hw
      subst hw
      split_ifs with hx
      · exact .appended (h.not_stores hpos hplace) hx
      · exact .nothing (h.not_stores hpos hplace) hx

theorem Valid.write_add (h : v.Valid) (hw : v.add slot x = .ok w) : Write slot x v w := by
  unfold SparseVector.add at hw
  cases hl : v.locate slot with
  | error e => simp [hl, bind, Except.bind] at hw
  | ok place =>
    cases place with
    | some k =>
      obtain ⟨hpos, hplace⟩ := locate_cases hl
      obtain ⟨e, he, hslot⟩ := h.entry_position _ _ hplace
      simp only [hl, bind, Except.bind, pure, Except.pure, Except.ok.injEq] at hw
      exact hw ▸ .changed _ he (by omega)
    | none =>
      simp only [hl, bind, Except.bind] at hw
      exact h.write_set hw

theorem Write.getElem?_of_ne (hw : Write slot x v w) {i : ℕ} {e : Entry α}
    (he : v.entries[i]? = some e) (hne : e.slot ≠ slot) : w.entries[i]? = some e := by
  cases hw with
  | @changed k f _ hk hslot =>
    change (v.entries.modify k _)[i]? = _
    have hki : k ≠ i := by
      rintro rfl
      rw [he, Option.some_inj] at hk
      exact hne (hk ▸ hslot)
    rw [Array.getElem?_modify, if_neg hki, he]
  | appended =>
    change (v.entries.push _)[i]? = _
    obtain ⟨hlt, -⟩ := Array.getElem?_eq_some_iff.mp he
    rw [Array.getElem?_push, if_neg hlt.ne, he]
  | nothing => exact he

theorem Write.entries_of_free (hw : Write slot x v w) (hfree : ¬ v.Stores slot) :
    w.entries = if x != 0 then v.entries.push ⟨slot, x⟩ else v.entries := by
  cases hw with
  | changed f he hslot => exact absurd ⟨_, Array.mem_of_getElem? he, hslot⟩ hfree
  | appended _ hx => exact (if_pos hx).symm
  | nothing _ hx => exact (if_neg hx).symm

theorem Valid.clean_clean (h : v.Valid) (eps : α) : (v.clean eps).clean eps = v.clean eps := by
  obtain ⟨hvalid, hdim, hentries⟩ := h.clean_eq eps
  obtain ⟨hvalid', hdim', hentries'⟩ := hvalid.clean_eq eps
  refine hvalid'.eq_of_entries hvalid hdim' ?_
  rw [hentries', hentries, Array.filter_filter]
  simp only [Bool.and_self]

theorem Valid.get_clean (h : v.Valid) (eps : α) (slot : ℕ) :
    ((v.clean eps).Stores slot → (v.clean eps).get slot = v.get slot) ∧
      (¬ (v.clean eps).Stores slot → (v.clean eps).get slot =
        if slot = 0 ∨ v.dim < slot then .error (.outOfRange slot v.dim) else .ok 0) := by
  obtain ⟨hvalid, hdim, hentries⟩ := h.clean_eq eps
  constructor
  · rintro ⟨e, he, rfl⟩
    have hmem : e ∈ v.entries := by
      rw [hentries] at he
      exact (Array.mem_filter.mp he).1
    obtain ⟨hpos, hle⟩ := h.slot_range hmem
    rw [get_eq_ok (by omega), get_eq_ok (by omega), hvalid.coefficient_of_mem he,
      h.coefficient_of_mem hmem]
  · intro hfree
    split_ifs with hslot
    · rw [get_eq_error (by rwa [hdim]), hdim]
    · rw [get_eq_ok (by rwa [hdim]),
        hvalid.coefficient_of_forall_ne fun e he hs ↦ hfree ⟨e, he, hs⟩]

theorem dim_run_append (calls later : List (Call α)) :
    (ops.run calls).map dim <+: (ops.run (calls ++ later)).map dim := by
  induction later using List.reverseRecOn with
  | nil => rw [List.append_nil]
  | append_singleton later c ih =>
    rw [← List.append_assoc, VectorOps.run_concat]
    exact ih.trans (call_keeps (valid_run (calls ++ later)) c).1

theorem dim_later {calls later : List (Call α)} {k : ℕ} (hv : (ops.run calls)[k]? = some v)
    (hw : (ops.run (calls ++ later))[k]? = some w) : w.dim = v.dim := by
  have hk : k < ((ops.run calls).map dim).length := by
    rw [List.length_map]
    exact (List.getElem?_eq_some_iff.mp hv).1
  obtain ⟨rest, hrest⟩ := dim_run_append calls later
  have hsame : ((ops.run (calls ++ later)).map dim)[k]? = ((ops.run calls).map dim)[k]? := by
    rw [← hrest, List.getElem?_append_left hk]
  rw [List.getElem?_map, List.getElem?_map, hv, hw, Option.map_some, Option.map_some,
    Option.some_inj] at hsame
  exact hsame

theorem run_clean {calls : List (Call α)} {k : ℕ} (hv : (ops.run calls)[k]? = some v) (eps : α) :
    (ops.run (calls ++ [.change k (.clean eps)]))[k]? = some (v.clean eps) := by
  have hcall : (ops.call (ops.run calls) (.change k (.clean eps))).2 =
      (ops.run calls).set k (v.clean eps) := by
    unfold VectorOps.call
    simp only [hv, Change.resolve]
    rfl
  rw [VectorOps.run_concat, hcall, List.getElem?_set_self (List.getElem?_eq_some_iff.mp hv).1]

/-- Cleaning is a filter that keeps the order, and nothing points any longer to where an entry was.
In particular a later write to the slot of a dropped entry leaves the kept ones alone, and appends
an entry if there is none yet and the number is not zero. -/
theorem clean_filters {calls : List (Call α)} {k : ℕ} {v : SparseVector α}
    (hv : (ops.run calls)[k]? = some v) (eps : α) :
    (ops.run (calls ++ [.change k (.clean eps)]))[k]? = some (v.clean eps) ∧
    (v.clean eps).entries = v.entries.filter (fun e ↦ eps < Scalar.abs e.value) ∧
    (∀ slot, ((v.clean eps).Stores slot → (v.clean eps).get slot = v.get slot) ∧
      (¬ (v.clean eps).Stores slot → (v.clean eps).get slot =
        if slot = 0 ∨ v.dim < slot then .error (.outOfRange slot v.dim) else .ok 0)) ∧
    (v.clean eps).check = .ok () ∧
    (v.clean eps).clean eps = v.clean eps ∧
    ∀ later u, (ops.run (calls ++ .change k (.clean eps) :: later))[k]? = some u →
      ∀ slot x, 0 < slot → slot ≤ v.dim → ¬ (v.clean eps).Stores slot →
        (∃ w, u.set slot x = .ok w) ∧ (∃ w, u.add slot x = .ok w) ∧
        ∀ w, u.set slot x = .ok w ∨ u.add slot x = .ok w →
          (∀ (i : ℕ) e, u.entries[i]? = some e → (v.clean eps).Stores e.slot →
            w.entries[i]? = some e) ∧
          (¬ u.Stores slot →
            w.entries = if x != 0 then u.entries.push ⟨slot, x⟩ else u.entries) := by
  have hvalid := valid_run calls v (List.mem_of_getElem? hv)
  obtain ⟨hclean, -, hentries⟩ := hvalid.clean_eq eps
  refine ⟨run_clean hv eps, hentries, hvalid.get_clean eps, hclean.check_eq_ok,
    hvalid.clean_clean eps, fun later u hu slot x hpos hle hdropped ↦ ?_⟩
  have hdim : u.dim = v.dim := dim_later hv hu
  have hu' := valid_run _ u (List.mem_of_getElem? hu)
  refine ⟨exists_set (by omega) x, exists_add hpos (by omega) x, fun w hw ↦ ?_⟩
  have hwrite : Write slot x u w := hw.elim hu'.write_set hu'.write_add
  refine ⟨fun i e he hkept ↦ hwrite.getElem?_of_ne he ?_, hwrite.entries_of_free⟩
  rintro rfl
  exact hdropped hkept

def interleaved : SparseVector ℚ :=
  ⟨#[some 0, none, some 1, none, some 2, some 3], #[⟨1, 1 / 8⟩, ⟨3, 7⟩, ⟨5, -1 / 8⟩, ⟨6, -4⟩]⟩

def interleavedCalls : List (Call ℚ) :=
  [.ofPairs 6 [(1, 1 / 8), (3, 2), (5, -1 / 8), (6, -4)], .change 0 (.set 3 0),
   .change 0 (.add 3 7)]

theorem clean_filters_interleaved :
    (ops.run interleavedCalls)[0]? = some interleaved ∧
    (interleaved.clean (1 / 2)).entries = #[⟨3, 7⟩, ⟨6, -4⟩] ∧
    ∃ u w, (ops.run (interleavedCalls ++ [.change 0 (.clean (1 / 2)), .change 0 (.set 6 1)]))[0]? =
        some u ∧
      u.add 5 9 = .ok w ∧ w.entries = #[⟨3, 7⟩, ⟨6, 1⟩, ⟨5, 9⟩] := by
  have hrun : (ops.run interleavedCalls)[0]? = some interleaved := by decide +kernel
  obtain ⟨-, hentries, -, -, -, hlater⟩ := clean_filters hrun (1 / 2)
  let u : SparseVector ℚ :=
    ⟨#[none, none, some 0, none, none, some 1], #[⟨3, 7⟩, ⟨6, 1⟩]⟩
  have hu : (ops.run (interleavedCalls ++ [.change 0 (.clean (1 / 2)), .change 0 (.set 6 1)]))[0]? =
      some u := by decide +kernel
  have hdropped : ¬ (interleaved.clean (1 / 2)).Stores 5 := by decide +kernel
  obtain ⟨-, ⟨w, hw⟩, hwrite⟩ := hlater _ u hu 5 9 (by decide) (by decide) hdropped
  refine ⟨hrun, hentries.trans (by decide +kernel), u, w, hu, hw, ?_⟩
  rw [(hwrite w (.inr hw)).2 (by decide +kernel)]
  decide +kernel

/-- Nothing is appended for a zero: it is not stored in a slot that has no entry. -/
theorem not_appended_zero : ¬ ∀ (calls : List (Call ℚ)) (k : ℕ) (v : SparseVector ℚ) (eps : ℚ),
    (ops.run calls)[k]? = some v → ∀ slot, v.Stores slot → ¬ (v.clean eps).Stores slot →
      ∀ x w, (v.clean eps).set slot x = .ok w →
        w.entries = (v.clean eps).entries.push ⟨slot, x⟩ := by
  intro h
  have hpushed := h [.ofPairs 1 [(1, 1)]] 0 ⟨#[some 0], #[⟨1, 1⟩]⟩ 2 (by decide +kernel) 1
    (by decide +kernel) (by decide +kernel) 0 ⟨#[none], #[]⟩ (by decide +kernel)
  exact absurd hpushed (by decide +kernel)

end LinProg.SparseVector
