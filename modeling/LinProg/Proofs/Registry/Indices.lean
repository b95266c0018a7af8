import LinProg.Proofs.Registry.Declarations

namespace LinProg

open EStateM (Result)

section

variable {β : Type} {xs : Array β} {i : ℕ}

theorem getElem?_pred_push (xs : Array β) (x : β) (i : ℕ) :
    (if i = 0 then none else (xs.push x)[i - 1]?) =
      if i = xs.size + 1 then some x else if i = 0 then none else xs[i - 1]? := by
  rw [Array.getElem?_push]
  by_cases hi : i = xs.size + 1
  · rw [if_pos hi, if_neg (by omega), if_pos (by omega)]
  · rw [if_neg hi]
    split_ifs with hzero hlast
    · rfl
    · omega
    · rfl

theorem exists_getElem?_pred_iff :
    (∃ x, (if i = 0 then none else xs[i - 1]?) = some x) ↔ 0 < i ∧ i ≤ xs.size := by
  by_cases hi : i = 0
  · simp [hi]
  · simp only [if_neg hi, Array.getElem?_eq_some_iff]
    constructor
    · rintro ⟨x, hlt, -⟩
      omega
    · intro h
      exact ⟨_, by omega, rfl⟩

end

namespace Problem

variable {α : Type} {p : Problem α} {i j : ℕ}

theorem exists_column?_iff : (∃ c, p.column? j = some c) ↔ 0 < j ∧ j ≤ p.numColumns :=
  exists_getElem?_pred_iff

theorem exists_row?_iff : (∃ r, p.row? i = some r) ↔ 0 < i ∧ i ≤ p.numRows :=
  exists_getElem?_pred_iff

end Problem

namespace Draft

variable {α : Type}

/-- The registry and the problem agree on what the names stand for. -/
structure Indexed (d : Draft α) : Prop where
  column : ∀ (name : String) (j : ℕ), d.registry.findColumn? name = some j ↔
    ∃ c, d.problem.column? j = some c ∧ c.name = name
  sorted : ∀ name : String, (d.registry.findRows name).Pairwise (· < ·)
  row : ∀ (name : String) (i : ℕ), i ∈ d.registry.findRows name ↔
    ∃ r, d.problem.row? i = some r ∧ r.name = name
  coefficients : ∀ r ∈ d.problem.rows, RowIndexed d.problem.numColumns r

/-- The second draft has all that the first one has, at the same indices. -/
structure Extends (d e : Draft α) : Prop where
  column : ∀ (j : ℕ) (c : Column α), d.problem.column? j = some c → e.problem.column? j = some c
  row : ∀ (i : ℕ) (r : Row α), d.problem.row? i = some r → e.problem.row? i = some r
  findColumn : ∀ (name : String) (j : ℕ), d.registry.findColumn? name = some j →
    e.registry.findColumn? name = some j
  findRows : ∀ name : String, d.registry.findRows name <+: e.registry.findRows name

namespace Extends

variable {d e f : Draft α}

theorem refl (d : Draft α) : d.Extends d :=
  ⟨fun _ _ h ↦ h, fun _ _ h ↦ h, fun _ _ h ↦ h, fun _ ↦ List.prefix_rfl⟩

theorem trans (h : d.Extends e) (h' : e.Extends f) : d.Extends f :=
  ⟨fun j c hj ↦ h'.column j c (h.column j c hj), fun i r hi ↦ h'.row i r (h.row i r hi),
    fun name j hj ↦ h'.findColumn name j (h.findColumn name j hj),
    fun name ↦ (h.findRows name).trans (h'.findRows name)⟩

end Extends

namespace Indexed

variable {d : Draft α}

theorem nodup (h : d.Indexed) : (d.problem.columns.toList.map (·.name)).Nodup := by
  have hfind {i : ℕ} (hi : i < d.problem.columns.size) :
      d.registry.findColumn? d.problem.columns[i].name = some (i + 1) :=
    (h.column _ _).mpr ⟨_, by simp [Problem.column?, hi], rfl⟩
  rw [List.nodup_iff_injective_getElem]
  rintro ⟨i, hi⟩ ⟨k, hk⟩ hik
  simp only [List.length_map, Array.length_toList, List.getElem_map, Array.getElem_toList]
    at hi hk hik
  have hsame := hfind hi
  rw [hik, hfind hk, Option.some_inj] at hsame
  exact Fin.ext (Nat.succ_injective hsame.symm)

theorem le_numRows (h : d.Indexed) {name : String} {i : ℕ} (hi : i ∈ d.registry.findRows name) :
    i ≤ d.problem.numRows := by
  obtain ⟨r, hr, -⟩ := (h.row name i).mp hi
  exact (Problem.exists_row?_iff.mp ⟨r, hr⟩).2

theorem exists_column (h : d.Indexed) {r : Row α} (hr : r ∈ d.problem.rows) {t : ℕ × α}
    (ht : t ∈ r.coefficients.toList) : ∃ c, d.problem.column? t.1 = some c :=
  Problem.exists_column?_iff.mpr ((h.coefficients r hr).slot_range ht)

end Indexed

section

variable (d : Draft α) (r : Row α) (n : String) (i : ℕ)

theorem row?_withRow :
    (d.withRow r).problem.row? i = if i = d.problem.numRows + 1 then some r else d.problem.row? i :=
  getElem?_pred_push d.problem.rows r i

theorem findRows_withRow :
    (d.withRow r).registry.findRows n =
      if r.name = n then d.registry.findRows n ++ [d.problem.numRows + 1]
      else d.registry.findRows n := by
  change ((d.registry.rows.insert r.name _)[n]?).getD [] = _
  rw [Std.HashMap.getElem?_insert]
  by_cases h : r.name = n
  · rw [if_pos (beq_iff_eq.mpr h), if_pos h, h, Option.getD_some]
  · rw [if_neg (by simpa using h), if_neg h]
    rfl

variable [Scalar α] (name : String)

theorem column?_withColumn :
    (d.withColumn name).problem.column? i =
      if i = d.problem.numColumns + 1 then some (.named name) else d.problem.column? i :=
  getElem?_pred_push d.problem.columns (.named name) i

theorem numColumns_withColumn :
    (d.withColumn name).problem.numColumns = d.problem.numColumns + 1 := Array.size_push _

theorem findColumn?_withColumn :
    (d.withColumn name).registry.findColumn? n =
      if name = n then some (d.problem.numColumns + 1) else d.registry.findColumn? n := by
  change (d.registry.columns.insert name _)[n]? = _
  rw [Std.HashMap.getElem?_insert]
  simp only [beq_iff_eq]
  rfl

end

theorem indexed_empty (name : String) (direction : Direction) :
    (Draft.empty name direction : Draft α).Indexed := by
  refine ⟨fun n j ↦ ?_, fun n ↦ ?_, fun n i ↦ ?_, ?_⟩
  · simp [Draft.empty, Registry.empty, Registry.findColumn?, Problem.empty, Problem.column?]
  · simp [Draft.empty, Registry.empty, Registry.findRows]
  · simp [Draft.empty, Registry.empty, Registry.findRows, Problem.empty, Problem.row?]
  · exact fun r hr ↦ absurd hr (Array.not_mem_empty r)

variable {d : Draft α}

theorem extends_withRow (r : Row α) : d.Extends (d.withRow r) := by
  refine ⟨fun _ _ hj ↦ hj, fun i q hi ↦ ?_, fun _ _ hj ↦ hj, fun n ↦ ?_⟩
  · have hle := (Problem.exists_row?_iff.mp ⟨q, hi⟩).2
    rw [row?_withRow, if_neg (by omega), hi]
  · rw [findRows_withRow]
    split_ifs
    · exact List.prefix_append _ _
    · exact List.prefix_rfl

theorem Indexed.withRow (h : d.Indexed) {r : Row α} (hr : RowIndexed d.problem.numColumns r) :
    (d.withRow r).Indexed := by
  refine ⟨h.column, fun n ↦ ?_, fun n i ↦ ?_, fun q hq ↦ ?_⟩
  · rw [findRows_withRow]
    split_ifs
    · refine List.pairwise_append.mpr ⟨h.sorted n, List.pairwise_singleton _ _, fun i hi k hk ↦ ?_⟩
      rw [List.mem_singleton.mp hk]
      exact Nat.lt_succ_of_le (h.le_numRows hi)
    · exact h.sorted n
  · rw [findRows_withRow, row?_withRow]
    by_cases hi : i = d.problem.numRows + 1
    · -- the index is new, so only the new row can have it
      have hnot : i ∉ d.registry.findRows n := fun hmem ↦ by
        have hle := h.le_numRows hmem
        omega
      rw [if_pos hi]
      split_ifs with hn
      · exact iff_of_true (List.mem_append_right _ (List.mem_singleton.mpr hi)) ⟨r, rfl, hn⟩
      · refine iff_of_false hnot ?_
        rintro ⟨q, hq, hname⟩
        obtain rfl := Option.some_inj.mp hq
        exact hn hname
    · rw [if_neg hi, ← h.row]
      split_ifs <;> simp [hi]
  · rcases Array.mem_push.mp hq with hq | rfl
    · exact h.coefficients q hq
    · exact hr

variable [Scalar α]

theorem extends_withColumn {name : String} (hnew : d.registry.findColumn? name = none) :
    d.Extends (d.withColumn name) := by
  refine ⟨fun j c hj ↦ ?_, fun _ _ hi ↦ hi, fun n j hj ↦ ?_, fun _ ↦ List.prefix_rfl⟩
  · have hle := (Problem.exists_column?_iff.mp ⟨c, hj⟩).2
    rw [column?_withColumn, if_neg (by omega), hj]
  · have hne : name ≠ n := by
      rintro rfl
      rw [hnew] at hj
      cases hj
    rw [findColumn?_withColumn, if_neg hne, hj]

theorem Indexed.withColumn (h : d.Indexed) {name : String}
    (hnew : d.registry.findColumn? name = none) : (d.withColumn name).Indexed := by
  refine ⟨fun n j ↦ ?_, h.sorted, h.row, fun r hr ↦ ?_⟩
  · rw [findColumn?_withColumn, column?_withColumn]
    by_cases hj : j = d.problem.numColumns + 1
    · have hnot : d.registry.findColumn? n ≠ some j := fun hfind ↦ by
        have hle := (Problem.exists_column?_iff.mp
          (((h.column n j).mp hfind).imp fun _ hc ↦ hc.1)).2
        omega
      rw [if_pos hj]
      split_ifs with hn
      · exact iff_of_true (by rw [hj]) ⟨_, rfl, hn⟩
      · refine iff_of_false hnot ?_
        rintro ⟨c, hc, hname⟩
        obtain rfl := Option.some_inj.mp hc
        exact hn hname
    · rw [if_neg hj, ← h.column]
      split_ifs with hn
      · -- the name is new, so it does not stand for an old column
        rw [← hn, hnew, Option.some_inj]
        exact iff_of_false (Ne.symm hj) nofun
      · rfl
  · rw [numColumns_withColumn]
    exact ⟨(h.coefficients r hr).valid, (h.coefficients r hr).dim_le.trans (Nat.le_succ _)⟩

end Draft

namespace Declaration.Outcome

variable {α : Type} [Scalar α] {d : Draft α} {c : Declaration α}
  {result : Result VectorError (Draft α) ℕ}

theorem extends_left (h : Outcome d c result) : d.Extends (Drafting.left result) := by
  cases h with
  | known | refused => exact .refl d
  | added hnew => exact Draft.extends_withColumn hnew
  | declared hv => exact Draft.extends_withRow _

theorem indexed_left (h : Outcome d c result) (hd : d.Indexed) :
    (Drafting.left result).Indexed := by
  cases h with
  | known | refused => exact hd
  | added hnew => exact hd.withColumn hnew
  | declared hv => exact hd.withRow (rowIndexed_ofPairs hv)

end Declaration.Outcome

namespace Declaration

variable {α : Type} [Scalar α]

def Names (numColumns : ℕ) (index : ℕ) (e : Draft α) : Declaration α → Prop
  | column name => ∃ c, e.problem.column? index = some c ∧ c.name = name
  | row name terms boundType lower upper =>
    ∃ v, SparseVector.ofPairs numColumns terms = .ok v ∧
      e.problem.row? index = some ⟨name, v, boundType, lower, upper⟩

variable {d : Draft α} (c : Declaration α)

/-- A declaration stops at the first column that is not there, before it has changed anything. -/
theorem perform_eq_error {slot : ℕ}
    (hslot : c.slots.find? (fun s ↦ s = 0 ∨ d.problem.numColumns < s) = some slot) :
    c.perform.run d = .error (.outOfRange slot d.problem.numColumns) d := by
  cases c with
  | column name => cases hslot
  | row name terms boundType lower upper =>
    rw [slots, List.find?_map, Option.map_eq_some_iff] at hslot
    obtain ⟨t, ht, rfl⟩ := hslot
    have he := SparseVector.ofPairs_eq_error ht
    rw [run_perform, applied, Draft.declareRow, Problem.addRow_eq, he]
    rfl

theorem exists_perform_eq_ok (hd : d.Indexed)
    (hslots : ∀ s ∈ c.slots, 0 < s ∧ s ≤ d.problem.numColumns) :
    ∃ i e, c.perform.run d = .ok i e ∧ c.Names d.problem.numColumns i e := by
  have houtcome := perform_outcome d c
  generalize c.perform.run d = result at houtcome
  cases houtcome with
  | @known name j hj => exact ⟨_, _, rfl, (hd.column name j).mp hj⟩
  | added hnew => exact ⟨_, _, rfl, _, by rw [Draft.column?_withColumn, if_pos rfl], rfl⟩
  | declared hv => exact ⟨_, _, rfl, _, hv, by rw [Draft.row?_withRow, if_pos rfl]⟩
  | refused he =>
    obtain ⟨t, ht, hout⟩ := SparseVector.ofPairs_fails_iff.mp ⟨_, he⟩
    have hrange := hslots t.1 (List.mem_map_of_mem ht)
    omega

end Declaration

namespace Draft

variable {α : Type} [Scalar α] {d : Draft α}

def after (d : Draft α) (calls : List (Declaration α)) : Draft α :=
  calls.foldl (fun d c ↦ Drafting.left (c.perform.run d)) d

theorem extends_after (d : Draft α) (calls : List (Declaration α)) : d.Extends (d.after calls) := by
  induction calls generalizing d with
  | nil => exact .refl d
  | cons c calls ih => exact (Declaration.perform_outcome d c).extends_left.trans (ih _)

theorem Indexed.after (hd : d.Indexed) (calls : List (Declaration α)) :
    (d.after calls).Indexed := by
  induction calls generalizing d with
  | nil => exact hd
  | cons c calls ih => exact ih ((Declaration.perform_outcome d c).indexed_left hd)

/-- After every sequence of declarations, refused ones among them: column names are distinct and
lead to their columns, row names to their rows in order, and coefficients belong to columns that
are there. Further declarations move nothing; one over columns that are there gets an index for
what it declares, and any other one is refused and changes nothing. -/
theorem names_match_indices (name : String) (direction : Direction)
    (calls : List (Declaration α)) :
    let d := (Draft.empty name direction : Draft α).after calls
    (d.problem.columns.toList.map (·.name)).Nodup ∧
    (∀ (n : String) (j : ℕ), d.registry.findColumn? n = some j ↔
      ∃ c, d.problem.column? j = some c ∧ c.name = n) ∧
    (∀ n : String, (d.registry.findRows n).Pairwise (· < ·) ∧
      ∀ i, i ∈ d.registry.findRows n ↔ ∃ r, d.problem.row? i = some r ∧ r.name = n) ∧
    (∀ r ∈ d.problem.rows, ∀ t ∈ r.coefficients.toList, ∃ c, d.problem.column? t.1 = some c) ∧
    (∀ more, d.Extends (d.after more)) ∧
    ∀ c : Declaration α, c.perform.run d = d.settle (c.applied d) ∧
      (∀ slot, c.slots.find? (fun s ↦ s = 0 ∨ d.problem.numColumns < s) = some slot →
        c.perform.run d = .error (.outOfRange slot d.problem.numColumns) d) ∧
      ((∀ s ∈ c.slots, 0 < s ∧ s ≤ d.problem.numColumns) →
        ∃ i e, c.perform.run d = .ok i e ∧ c.Names d.problem.numColumns i e) := by
  intro d
  have h : d.Indexed := (indexed_empty name direction).after calls
  exact ⟨h.nodup, h.column, fun n ↦ ⟨h.sorted n, h.row n⟩, fun r hr t ↦ h.exists_column hr,
    d.extends_after,
    fun c ↦ ⟨c.run_perform d, fun slot ↦ c.perform_eq_error, c.exists_perform_eq_ok h⟩⟩

end Draft

end LinProg
