import LinProg.Proofs.Model.Classified
import LinProg.Proofs.Problem.ByName

namespace LinProg

def Bounds.Finite (b : Bounds ℚ) : Prop :=
  match b.type with
  | .free => True
  | .lower | .fixed => b.lower.isFinite = true
  | .upper => b.upper.isFinite = true
  | .double => b.lower.isFinite = true ∧ b.upper.isFinite = true

theorem Extended.isFinite_iff {x : Extended ℚ} : x.isFinite = true ↔ ∃ a, x = .fin a := by
  cases x <;> simp [isFinite]

theorem Bounds.Finite.proper {b : Bounds ℚ} (h : b.Finite) : b.Proper := by
  obtain ⟨type, lower, upper⟩ := b
  cases type with
  | free => exact ⟨nofun, nofun⟩
  | lower | fixed =>
    obtain ⟨l, rfl⟩ := Extended.isFinite_iff.mp h
    exact ⟨nofun, nofun⟩
  | upper =>
    obtain ⟨u, rfl⟩ := Extended.isFinite_iff.mp h
    exact ⟨nofun, nofun⟩
  | double =>
    obtain ⟨l, rfl⟩ := Extended.isFinite_iff.mp h.1
    obtain ⟨u, rfl⟩ := Extended.isFinite_iff.mp h.2
    exact ⟨nofun, nofun⟩

/-- The bounds of rows and columns are numbers where they are used, and the names can be written
down and are not those of range variables. -/
structure ProblemSpec.Writable (spec : ProblemSpec ℚ) : Prop where
  name : '\n' ∉ spec.name.toList
  rows : ∀ c ∈ spec.subjectTo, c.bounds.Finite
  columns : ∀ b ∈ spec.bounds, b.bounds.Finite
  legal : ∀ n ∈ spec.mentions, LpText.isLegalName n = true
  not_range : ∀ n ∈ spec.mentions, ∀ index, n ≠ LpText.rangeName index

structure Problem.Writable (p : Problem ℚ) : Prop extends p.WellPosed where
  name : '\n' ∉ p.name.toList
  nodup : p.names.Nodup
  legal : ∀ n ∈ p.names, LpText.isLegalName n = true
  not_range : ∀ n ∈ p.names, ∀ index, n ≠ LpText.rangeName index
  slots : ∀ r ∈ p.rows, ∀ e ∈ LpText.nonzeros r.coefficients.toList, e.1 ≤ p.names.length
  binary : ∀ c ∈ p.columns, c.kind = .binary → c.lower = .fin 0 ∧ c.upper = .fin 1

namespace ConstraintSpec.DeclaredAs

variable {names : List String} {c : ConstraintSpec ℚ} {r : Row ℚ}

theorem valid (h : c.DeclaredAs names r) : r.coefficients.Valid := by
  obtain ⟨dim, slots, hv, -⟩ := h.coefficients
  exact SparseVector.valid_ofPairs hv

theorem bounded (h : c.DeclaredAs names r) (hfinite : c.bounds.Finite) : r.Bounded := by
  unfold Row.Bounded Row.sides
  rw [h.boundType, h.lower, h.upper]
  obtain ⟨name, terms, type, lower, upper⟩ := c
  cases type with
  | free => exact fun _ hside ↦ absurd hside List.not_mem_nil
  | lower | upper | double | fixed => simpa [Extended.isFinite_iff, Bounds.Finite] using hfinite

/-- The slots of a row's coefficients other than zero are those of names. -/
theorem slot_le (h : c.DeclaredAs names r) {e : ℕ × ℚ}
    (he : e ∈ LpText.nonzeros r.coefficients.toList) : e.1 ≤ names.length := by
  obtain ⟨hmem, hne⟩ := List.mem_filter.mp he
  obtain ⟨entry, hentry, rfl⟩ := List.mem_map.mp hmem
  rw [Array.mem_toList_iff] at hentry
  obtain ⟨hpos, -⟩ := h.valid.slot_range hentry
  have hvalue := h.valid.coefficient_of_mem hentry
  obtain ⟨dim, slots, hv, hslots⟩ := h.coefficients
  have hgiven : entry.slot ∈ slots := by
    by_contra hnot
    have hnone : (slots.zip (c.terms.map (·.coef))).filter (·.1 == entry.slot) = [] := by
      rw [List.filter_eq_nil_iff]
      intro p hp hslot
      exact hnot (beq_iff_eq.mp hslot ▸ (List.of_mem_zip hp).1)
    rw [SparseVector.coefficient_ofPairs hv hpos, hnone, Scalar.accumulate_rat] at hvalue
    exact (by simpa using hne : entry.value ≠ 0) hvalue.symm
  obtain ⟨i, hi, hget⟩ := List.mem_iff_getElem.mp hgiven
  obtain ⟨hlength, hall⟩ := List.forall₂_iff_get.mp hslots
  obtain ⟨-, hplaced⟩ := hall i hi (hlength ▸ hi)
  obtain ⟨hlt, -⟩ := List.getElem?_eq_some_iff.mp hplaced
  rw [List.get_eq_getElem, hget] at hlt
  dsimp only
  omega

end ConstraintSpec.DeclaredAs

namespace ProblemSpec

theorem matched_column {spec : ProblemSpec ℚ} (h : ∀ b ∈ spec.bounds, b.bounds.Finite)
    (name : String) : (spec.column name).Matched := by
  have hproper : (spec.boundsOf name).1 ≠ .posInf ∧ (spec.boundsOf name).2 ≠ .negInf := by
    unfold boundsOf
    split_ifs
    · exact ⟨nofun, nofun⟩
    · cases hb : lastNamed ColumnBoundSpec.name spec.bounds name with
      | none => exact ⟨nofun, nofun⟩
      | some b => exact (h b (List.mem_reverse.mp (List.mem_of_find?_eq_some hb))).proper
  exact Column.matched_setBounds
    { name, objective := spec.objectiveOf name, kind := spec.kindOf name, bounds := .unset,
      boundType := .lower } hproper.1 hproper.2

theorem Writable.build {spec : ProblemSpec ℚ} (h : spec.Writable) {p : Problem ℚ}
    (hp : (Problem.build spec).value = .ok p) : p.Writable := by
  obtain ⟨p', hp', hname, -, hcolumns, hrows⟩ := Problem.exists_build spec
  obtain rfl : p' = p := Except.ok.inj (hp'.symm.trans hp)
  have hnames : p'.names = spec.mentions.eraseDups := by
    rw [Problem.names, hcolumns, List.map_map]
    exact List.map_id _
  have hcolumn : ∀ c ∈ p'.columns, ∃ n, spec.column n = c := by
    intro c hc
    rw [← Array.mem_toList_iff, hcolumns] at hc
    obtain ⟨n, -, hn⟩ := List.mem_map.mp hc
    exact ⟨n, hn⟩
  have hrow : ∀ r ∈ p'.rows, ∃ c ∈ spec.subjectTo, c.DeclaredAs p'.names r := by
    intro r hr
    rw [← Array.mem_toList_iff] at hr
    obtain ⟨i, hi, rfl⟩ := List.mem_iff_getElem.mp hr
    have hi' := hrows.length_eq ▸ hi
    exact ⟨_, List.getElem_mem hi', hnames ▸ hrows.get hi' hi⟩
  refine ⟨⟨fun r hr ↦ ?_, fun r hr ↦ ?_, fun c hc ↦ ?_⟩, hname ▸ h.name, ?_, fun n hn ↦ ?_,
    fun n hn ↦ ?_, fun r hr e he ↦ ?_, fun c hc hkind ↦ ?_⟩
  · obtain ⟨c, -, hc⟩ := hrow r hr
    exact hc.valid
  · obtain ⟨c, hmem, hc⟩ := hrow r hr
    exact hc.bounded (h.rows c hmem)
  · obtain ⟨n, rfl⟩ := hcolumn c hc
    exact matched_column h.columns n
  · rw [hnames]
    exact nodup_eraseDups _
  · exact h.legal n (List.mem_eraseDups.mp (hnames ▸ hn))
  · exact h.not_range n (List.mem_eraseDups.mp (hnames ▸ hn))
  · obtain ⟨c, -, hc⟩ := hrow r hr
    exact hc.slot_le he
  · obtain ⟨n, rfl⟩ := hcolumn c hc
    have hbinary : n ∈ spec.binaries := by
      by_contra hnot
      change spec.kindOf n = .binary at hkind
      unfold kindOf at hkind
      split_ifs at hkind
    have hbounds : spec.boundsOf n = (.fin 0, .fin 1) := if_pos hbinary
    exact Prod.mk.inj hbounds

end ProblemSpec

end LinProg
