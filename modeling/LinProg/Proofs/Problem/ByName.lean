import LinProg.Proofs.SparseVector.Entries
import LinProg.Proofs.Problem.Feasible
import LinProg.LpText

namespace LinProg

/-- What a form over names gives for a name, and zero where it gives nothing. -/
def valueOf (form : List (String × ℚ)) (name : String) : ℚ :=
  ((form.find? (·.1 == name)).map (·.2)).getD 0

theorem valueOf_eq {form : List (String × ℚ)} {name : String} {x : ℚ}
    (hmem : x ≠ 0 → (name, x) ∈ form) (hunique : ∀ y, (name, y) ∈ form → y = x) :
    valueOf form name = x := by
  unfold valueOf
  cases hfind : form.find? (·.1 == name) with
  | none =>
    have hzero : x = 0 := by
      by_contra hx
      exact List.find?_eq_none.mp hfind _ (hmem hx) (beq_self_eq_true name)
    exact hzero.symm
  | some t =>
    have hname : t.1 = name := by simpa using List.find?_some hfind
    exact hunique t.2 (hname ▸ List.mem_of_find?_eq_some hfind)

def named (names : List String) (form : List (ℕ × ℚ)) : List (String × ℚ) :=
  form.map fun (slot, a) ↦ ((names[slot - 1]?).getD "", a)

theorem mem_named {names : List String} {form : List (ℕ × ℚ)} {name : String} {a : ℚ} :
    (name, a) ∈ named names form ↔
      ∃ slot, (slot, a) ∈ form ∧ (names[slot - 1]?).getD "" = name := by
  simp [named]

namespace Problem

variable {p q : Problem ℚ} {name : String}

def names (p : Problem ℚ) : List String := p.columns.toList.map (·.name)

def columnNamed (p : Problem ℚ) (name : String) : Column ℚ :=
  (p.columns.toList.find? (·.name == name)).getD (.named name)

/-- The coefficient of a row at the column with a name. -/
def coefficientOf (p : Problem ℚ) (r : Row ℚ) (name : String) : ℚ :=
  match p.names.idxOf? name with
  | some j => r.coefficients.coefficient (j + 1)
  | none => 0

/-- The same direction and objective, the same rows in order, and the same columns up to their
order and up to columns that one problem lacks. -/
structure SameModel (p q : Problem ℚ) : Prop where
  direction : p.direction = q.direction
  objective : ∀ name, (p.columnNamed name).objective = (q.columnNamed name).objective
  numRows : p.numRows = q.numRows
  rows : ∀ (i : ℕ) (r r' : Row ℚ), p.rows[i]? = some r → q.rows[i]? = some r' →
    (∀ name, p.coefficientOf r name = q.coefficientOf r' name) ∧
      r.boundType = r'.boundType ∧ r.effectiveBounds = r'.effectiveBounds
  columns : ∀ name, (p.columnNamed name).kind = (q.columnNamed name).kind ∧
    (p.columnNamed name).lower = (q.columnNamed name).lower ∧
      (p.columnNamed name).upper = (q.columnNamed name).upper

theorem columnNamed_cases (p : Problem ℚ) (name : String) :
    p.columnNamed name ∈ p.columns.toList ∧ (p.columnNamed name).name = name ∨
      name ∉ p.names ∧ p.columnNamed name = .named name := by
  unfold columnNamed
  cases hfind : p.columns.toList.find? (·.name == name) with
  | none =>
    refine .inr ⟨fun hmem ↦ ?_, rfl⟩
    obtain ⟨c, hc, hname⟩ := List.mem_map.mp hmem
    exact List.find?_eq_none.mp hfind c hc (beq_iff_eq.mpr hname)
  | some c =>
    exact .inl ⟨List.mem_of_find?_eq_some hfind, by simpa using List.find?_some hfind⟩

theorem name_columnNamed (p : Problem ℚ) (name : String) : (p.columnNamed name).name = name := by
  rcases p.columnNamed_cases name with ⟨-, hname⟩ | ⟨-, hnamed⟩
  · exact hname
  · rw [hnamed]
    rfl

theorem columnNamed_of_mem (hnodup : p.names.Nodup) {c : Column ℚ} (hc : c ∈ p.columns.toList) :
    p.columnNamed c.name = c := by
  rcases p.columnNamed_cases c.name with ⟨hmem, hname⟩ | ⟨hnot, -⟩
  · exact List.inj_on_of_nodup_map hnodup hmem hc hname
  · exact absurd (List.mem_map_of_mem hc) hnot

def objectiveForm (p : Problem ℚ) : List (ℕ × ℚ) :=
  p.columns.toList.zipIdx.map fun (c, j) ↦ (j + 1, c.objective)

theorem mem_named_objectiveForm {a : ℚ} :
    (name, a) ∈ named p.names (LpText.nonzeros p.objectiveForm) ↔
      a ≠ 0 ∧ ∃ c ∈ p.columns.toList, c.name = name ∧ c.objective = a := by
  rw [mem_named, LpText.nonzeros]
  constructor
  · rintro ⟨slot, hmem, hname⟩
    obtain ⟨hmem, hne⟩ := List.mem_filter.mp hmem
    obtain ⟨⟨c, j⟩, hc, heq⟩ := List.mem_map.mp hmem
    obtain ⟨rfl, rfl⟩ := Prod.mk.inj heq
    have hj := List.mk_mem_zipIdx_iff_getElem?.mp hc
    refine ⟨by simpa using hne, c, List.mem_of_getElem? hj, ?_, rfl⟩
    rw [Nat.add_sub_cancel, names, List.getElem?_map, hj] at hname
    exact hname
  · rintro ⟨hne, c, hc, rfl, rfl⟩
    obtain ⟨j, hj⟩ := List.mem_iff_getElem?.mp hc
    refine ⟨j + 1, List.mem_filter.mpr ⟨List.mem_map.mpr ⟨(c, j), ?_, rfl⟩, by simpa using hne⟩, ?_⟩
    · exact List.mk_mem_zipIdx_iff_getElem?.mpr hj
    · rw [Nat.add_sub_cancel, names, List.getElem?_map, hj]
      rfl

theorem valueOf_objectiveForm (hnodup : p.names.Nodup) (name : String) :
    valueOf (named p.names (LpText.nonzeros p.objectiveForm)) name =
      (p.columnNamed name).objective := by
  apply valueOf_eq
  · intro hne
    rw [mem_named_objectiveForm]
    rcases p.columnNamed_cases name with ⟨hmem, hname⟩ | ⟨-, hnamed⟩
    · exact ⟨hne, _, hmem, hname, rfl⟩
    · rw [hnamed] at hne
      exact absurd rfl hne
  · intro y hy
    obtain ⟨-, c, hc, rfl, rfl⟩ := mem_named_objectiveForm.mp hy
    rw [columnNamed_of_mem hnodup hc]

theorem idxOf?_eq_some_iff_getElem? (hnodup : p.names.Nodup) {j : ℕ} :
    p.names.idxOf? name = some j ↔ p.names[j]? = some name := by
  rw [List.idxOf?_eq_some_iff]
  constructor
  · rintro ⟨hj, rfl, -⟩
    exact List.getElem?_eq_getElem hj
  · intro h
    obtain ⟨hj, rfl⟩ := List.getElem?_eq_some_iff.mp h
    refine ⟨hj, rfl, fun i hi heq ↦ ?_⟩
    exact hi.ne (hnodup.getElem_inj_iff.mp heq)

theorem exists_entry_of_named {r : Row ℚ} (hr : r.coefficients.Valid)
    (hslots : ∀ e ∈ LpText.nonzeros r.coefficients.toList, e.1 ≤ p.names.length) {name : String}
    {y : ℚ} (hy : (name, y) ∈ named p.names (LpText.nonzeros r.coefficients.toList)) :
    ∃ e ∈ r.coefficients.entries, p.names[e.slot - 1]? = some name ∧ 0 < e.slot ∧
      e.value = y := by
  obtain ⟨slot, hmem, hname⟩ := mem_named.mp hy
  have hle := hslots _ hmem
  obtain ⟨e, he, heq⟩ := List.mem_map.mp (List.mem_filter.mp hmem).1
  obtain ⟨rfl, rfl⟩ := Prod.mk.inj heq
  rw [Array.mem_toList_iff] at he
  obtain ⟨hpos, -⟩ := hr.slot_range he
  have hlt : e.slot - 1 < p.names.length := by
    dsimp only at hle
    omega
  rw [List.getElem?_eq_getElem hlt, Option.getD_some] at hname
  exact ⟨e, he, by rw [List.getElem?_eq_getElem hlt, hname], hpos, rfl⟩

theorem valueOf_row (hnodup : p.names.Nodup) {r : Row ℚ} (hr : r.coefficients.Valid)
    (hslots : ∀ e ∈ LpText.nonzeros r.coefficients.toList, e.1 ≤ p.names.length) (name : String) :
    valueOf (named p.names (LpText.nonzeros r.coefficients.toList)) name =
      p.coefficientOf r name := by
  unfold coefficientOf
  cases hidx : p.names.idxOf? name with
  | none =>
    refine valueOf_eq (fun hne ↦ absurd rfl hne) fun y hy ↦ ?_
    obtain ⟨e, -, hname, -⟩ := exists_entry_of_named hr hslots hy
    exact absurd (List.mem_of_getElem? hname) (List.idxOf?_eq_none_iff.mp hidx)
  | some j =>
    rw [idxOf?_eq_some_iff_getElem? hnodup] at hidx
    dsimp only
    refine valueOf_eq (fun hne ↦ ?_) fun y hy ↦ ?_
    · have hstored : ∃ e ∈ r.coefficients.entries, e.slot = j + 1 := by
        by_contra hnone
        exact hne (hr.coefficient_of_forall_ne fun e he hslot ↦ hnone ⟨e, he, hslot⟩)
      obtain ⟨e, he, hslot⟩ := hstored
      rw [← hslot, hr.coefficient_of_mem he] at hne ⊢
      refine mem_named.mpr ⟨e.slot, List.mem_filter.mpr ⟨?_, by simpa using hne⟩, ?_⟩
      · exact List.mem_map_of_mem (Array.mem_toList_iff.mpr he)
      · rw [hslot, Nat.add_sub_cancel, hidx, Option.getD_some]
    · obtain ⟨e, he, hname, hpos, rfl⟩ := exists_entry_of_named hr hslots hy
      have hslot : e.slot - 1 = j := by
        obtain ⟨hlt, hname⟩ := List.getElem?_eq_some_iff.mp hname
        obtain ⟨hlt', hidx⟩ := List.getElem?_eq_some_iff.mp hidx
        exact hnodup.getElem_inj_iff.mp (hname.trans hidx.symm)
      have hvalue := hr.coefficient_of_mem he
      rw [show e.slot = j + 1 by omega] at hvalue
      exact hvalue.symm

end Problem

end LinProg
