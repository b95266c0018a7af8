import LinProg.Proofs.SparseVector.Valid

namespace LinProg

variable {α : Type} [Scalar α]

/-- Adds from left to right, beginning with the first number that is not zero. -/
def Scalar.accumulate (xs : List α) : α :=
  match xs.dropWhile (· == 0) with
  | [] => 0
  | x :: xs => xs.foldl (· + ·) x

theorem Scalar.accumulate_rat (xs : List ℚ) : Scalar.accumulate xs = xs.sum := by
  induction xs with
  | nil => rfl
  | cons x xs ih =>
    by_cases hx : x = 0
    · subst hx
      rw [List.sum_cons, zero_add, ← ih]
      rfl
    · have hdrop : (x :: xs).dropWhile (· == 0) = x :: xs := by simp [hx]
      have hsum : (x :: xs).sum = xs.foldl (· + ·) (0 + x) := List.sum_eq_foldl
      rw [zero_add] at hsum
      rw [hsum, Scalar.accumulate, hdrop]

namespace SparseVector

def stored (v : SparseVector α) (slot : ℕ) : Option α :=
  (v.position[slot - 1]?.join.bind (v.entries[·]?)).map (·.value)

def plus (stored : Option α) (delta : α) : Option α :=
  match stored with
  | some x => some (x + delta)
  | none => if delta != 0 then some delta else none

variable {v w : SparseVector α} {slot : ℕ}

theorem get_eq_ok (h : ¬(slot = 0 ∨ v.dim < slot)) : v.get slot = .ok (v.coefficient slot) := by
  unfold coefficient SparseVector.get
  rw [locate_eq_ok v slot h]
  rfl

theorem get_eq_error (h : slot = 0 ∨ v.dim < slot) :
    v.get slot = .error (.outOfRange slot v.dim) := by
  unfold SparseVector.get
  rw [locate_eq_error v slot h]
  rfl

theorem coefficient_eq_stored (hs : 0 < slot) : v.coefficient slot = (v.stored slot).getD 0 := by
  unfold coefficient SparseVector.get
  by_cases hd : v.dim < slot
  · have hnone : v.position[slot - 1]? = none := by
      apply Array.getElem?_eq_none
      unfold dim at hd
      omega
    rw [locate_eq_error v slot (.inr hd)]
    simp [stored, hnone, bind, Except.bind]
  · rw [locate_eq_ok v slot (by omega)]
    rfl

omit [Scalar α] in
theorem Valid.stored_append (h : v.Valid) {e : Entry α} (he : 0 < e.slot) (hd : e.slot ≤ v.dim)
    (hs : 0 < slot) :
    (v.append e).stored slot = if slot = e.slot then some e.value else v.stored slot := by
  unfold stored
  change (((v.position.setIfInBounds _ _)[slot - 1]?.join.bind ((v.entries.push e)[·]?)).map _) = _
  by_cases hse : slot = e.slot
  · have hlt : e.slot - 1 < v.position.size := by
      unfold dim at hd
      omega
    rw [if_pos hse, hse, Array.getElem?_setIfInBounds_self_of_lt hlt]
    simp
  · rw [if_neg hse, Array.getElem?_setIfInBounds_ne (by omega)]
    cases hp : v.position[slot - 1]?.join with
    | none => rfl
    | some k =>
      obtain ⟨f, hf, -⟩ := h.entry_position _ _ (Option.join_eq_some_iff.mp hp)
      obtain ⟨hlt, -⟩ := Array.getElem?_eq_some_iff.mp hf
      rw [Option.bind_some, Option.bind_some, Array.getElem?_push, if_neg hlt.ne]

omit [Scalar α] in
theorem Valid.stored_update (h : v.Valid) {k : ℕ} (hs : 0 < slot)
    (hk : v.position[slot - 1]? = some (some k)) (f : α → α) {s : ℕ} (hpos : 0 < s) :
    (v.update k f).stored s = if s = slot then (v.stored slot).map f else v.stored s := by
  unfold stored
  change ((v.position[s - 1]?.join.bind ((v.entries.modify k _)[·]?)).map _) = _
  by_cases hss : s = slot
  · rw [if_pos hss, hss, hk, Option.join_some, Option.bind_some, Option.bind_some,
      Array.getElem?_modify, if_pos rfl, Option.map_map, Option.map_map]
    rfl
  · rw [if_neg hss]
    cases hp : v.position[s - 1]?.join with
    | none => rfl
    | some i =>
      have hne : k ≠ i := by
        rintro rfl
        obtain ⟨e, he, hslot⟩ := h.entry_position _ _ hk
        obtain ⟨e', he', hslot'⟩ := h.entry_position _ _ (Option.join_eq_some_iff.mp hp)
        rw [he, Option.some_inj] at he'
        subst he'
        omega
      rw [Option.bind_some, Option.bind_some, Array.getElem?_modify, if_neg hne]

omit [Scalar α] in
theorem stored_of_locate {place : Option ℕ} (h : v.locate slot = .ok place) :
    v.stored slot = (place.bind (v.entries[·]?)).map (·.value) := by
  rw [stored, (locate_cases h).2, Option.join_some]

theorem Valid.set_eq_ok (h : v.Valid) {value : α} (hw : v.set slot value = .ok w) :
    w.dim = v.dim ∧ ∀ s, 0 < s → w.stored s =
      if s = slot then (if (v.stored slot).isSome || value != 0 then some value else none)
      else v.stored s := by
  unfold SparseVector.set at hw
  cases hl : v.locate slot with
  | error e => simp [hl, bind, Except.bind] at hw
  | ok place =>
    obtain ⟨hpos, hplace⟩ := locate_cases hl
    have hstored := stored_of_locate hl
    cases place with
    | some k =>
      obtain ⟨e, he, -⟩ := h.entry_position _ _ hplace
      simp only [hl, bind, Except.bind, pure, Except.pure, Except.ok.injEq] at hw
      subst hw
      refine ⟨rfl, fun s hs ↦ ?_⟩
      rw [h.stored_update hpos hplace _ hs, hstored]
      simp [he]
    | none =>
      have hle : slot ≤ v.dim := by
        obtain ⟨hlt, -⟩ := Array.getElem?_eq_some_iff.mp hplace
        unfold dim
        omega
      simp only [hl, bind, Except.bind, pure, Except.pure, Except.ok.injEq] at hw
      subst hw
      by_cases hvalue : (value != 0) = true
      · rw [if_pos hvalue]
        refine ⟨dim_append v _, fun s hs ↦ ?_⟩
        rw [h.stored_append (e := ⟨slot, value⟩) hpos hle hs]
        simp [hvalue]
      · rw [if_neg hvalue]
        refine ⟨rfl, fun s _ ↦ ?_⟩
        split_ifs with hss hsome
        · simp [hstored, hvalue] at hsome
        · rw [hss, hstored]
          rfl
        · rfl

theorem Valid.add_eq_ok (h : v.Valid) {delta : α} (hw : v.add slot delta = .ok w) :
    w.dim = v.dim ∧ ∀ s, 0 < s → w.stored s =
      if s = slot then plus (v.stored slot) delta else v.stored s := by
  unfold SparseVector.add at hw
  cases hl : v.locate slot with
  | error e => simp [hl, bind, Except.bind] at hw
  | ok place =>
    obtain ⟨hpos, hplace⟩ := locate_cases hl
    have hstored := stored_of_locate hl
    cases place with
    | some k =>
      obtain ⟨e, he, -⟩ := h.entry_position _ _ hplace
      simp only [hl, bind, Except.bind, pure, Except.pure, Except.ok.injEq] at hw
      subst hw
      refine ⟨rfl, fun s hs ↦ ?_⟩
      rw [h.stored_update hpos hplace _ hs, hstored]
      simp [he, plus]
    | none =>
      simp only [hl, bind, Except.bind] at hw
      obtain ⟨hdim, hset⟩ := h.set_eq_ok hw
      refine ⟨hdim, fun s hs ↦ ?_⟩
      rw [hset s hs, hstored]
      simp [plus]

theorem exists_add (hs : 0 < slot) (hd : slot ≤ v.dim) (delta : α) :
    ∃ w, v.add slot delta = .ok w := by
  unfold SparseVector.add SparseVector.set
  rw [locate_eq_ok v slot (by omega)]
  cases v.position[slot - 1]?.join with
  | some k => exact ⟨_, rfl⟩
  | none => exact ⟨_, rfl⟩

theorem Valid.exists_foldlM_add (h : v.Valid) {pairs : List (ℕ × α)}
    (hp : ∀ p ∈ pairs, 0 < p.1 ∧ p.1 ≤ v.dim) :
    ∃ w, pairs.foldlM (fun v p ↦ v.add p.1 p.2) v = .ok w := by
  induction pairs generalizing v with
  | nil => exact ⟨v, rfl⟩
  | cons p pairs ih =>
    obtain ⟨hpos, hle⟩ := hp p List.mem_cons_self
    obtain ⟨u, hu⟩ := exists_add hpos hle p.2
    have hdim := (h.add_eq_ok hu).1
    obtain ⟨w, hw⟩ := ih (h.add hu) fun q hq ↦ hdim.symm ▸ hp q (List.mem_cons_of_mem p hq)
    refine ⟨w, ?_⟩
    rw [List.foldlM_cons, hu]
    exact hw

theorem exists_ofPairs {dim : ℕ} {pairs : List (ℕ × α)} (hp : ∀ p ∈ pairs, 0 < p.1 ∧ p.1 ≤ dim) :
    ∃ v, ofPairs dim pairs = .ok v :=
  (valid_zero dim).exists_foldlM_add fun p hmem ↦ (dim_zero (α := α) dim).symm ▸ hp p hmem

theorem Valid.stored_foldlM_add (h : v.Valid) {pairs : List (ℕ × α)}
    (hw : pairs.foldlM (fun v p ↦ v.add p.1 p.2) v = .ok w) (hs : 0 < slot) :
    w.stored slot =
      ((pairs.filter (·.1 == slot)).map (·.2)).foldl plus (v.stored slot) := by
  induction pairs generalizing v with
  | nil =>
    cases hw
    rfl
  | cons p pairs ih =>
    rw [List.foldlM_cons] at hw
    cases ha : v.add p.1 p.2 with
    | error e => simp [ha, bind, Except.bind] at hw
    | ok u =>
      simp only [ha, bind, Except.bind] at hw
      rw [ih (h.add ha) hw, (h.add_eq_ok ha).2 slot hs]
      by_cases hp : p.1 = slot
      · simp [hp]
      · simp [hp, Ne.symm hp]

theorem foldl_plus (xs : List α) : (xs.foldl plus none).getD 0 = Scalar.accumulate xs := by
  have hsome (ys : List α) (y : α) : ys.foldl plus (some y) = some (ys.foldl (· + ·) y) := by
    induction ys generalizing y with
    | nil => rfl
    | cons z ys ih => exact ih (y + z)
  induction xs with
  | nil => rfl
  | cons x xs ih =>
    by_cases hx : (x == 0) = true
    · simpa [Scalar.accumulate, plus, hx, bne] using ih
    · simp [Scalar.accumulate, plus, hx, bne, hsome]

/-- At each slot the values that were given for it are added up in their order. -/
theorem coefficient_ofPairs {dim : ℕ} {pairs : List (ℕ × α)} (hv : ofPairs dim pairs = .ok v)
    (hs : 0 < slot) :
    v.coefficient slot = Scalar.accumulate ((pairs.filter (·.1 == slot)).map (·.2)) := by
  have hnone : (zero dim : SparseVector α).stored slot = none := by
    simp [stored, zero, Array.getElem?_replicate]
  rw [coefficient_eq_stored hs, (valid_zero dim).stored_foldlM_add hv hs, hnone, foldl_plus]

end SparseVector

end LinProg
