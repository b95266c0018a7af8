import LinProg.Proofs.LpText.Rows

namespace LinProg

/-- Among lines that are each about the key of the item they come from, the line of an item is
found by its key. -/
theorem find?_filterMap_about {β γ κ : Type} [BEq κ] [LawfulBEq κ] {line : β → Option γ}
    {key : β → κ} {about : γ → κ} {items : List β} (habout : ∀ b, ∀ w ∈ line b, about w = key b)
    (hnodup : (items.map key).Nodup) {b : β} (hb : b ∈ items) :
    (items.filterMap line).find? (about · == key b) = line b := by
  induction items with
  | nil => cases hb
  | cons c items ih =>
    rw [List.map_cons, List.nodup_cons] at hnodup
    rcases List.mem_cons.mp hb with rfl | hb
    · cases hline : line b with
      | none =>
        rw [List.filterMap_cons_none hline, List.find?_eq_none]
        intro w hw hkey
        obtain ⟨c, hc, hw⟩ := List.mem_filterMap.mp hw
        rw [habout c w hw, beq_iff_eq] at hkey
        exact hnodup.1 (hkey ▸ List.mem_map_of_mem hc)
      | some w =>
        rw [List.filterMap_cons_some hline, List.find?_cons_of_pos]
        exact beq_iff_eq.mpr (habout b w hline)
    · have hne : key c ≠ key b := fun hkey ↦ hnodup.1 (hkey ▸ List.mem_map_of_mem hb)
      cases hline : line c with
      | none => rw [List.filterMap_cons_none hline, ih hnodup.2 hb]
      | some w =>
        rw [List.filterMap_cons_some hline, List.find?_cons_of_neg, ih hnodup.2 hb]
        rw [habout c w hline, beq_iff_eq]
        exact hne

namespace LpText

variable (format : ℚ → String)

def columnWords (c : Column ℚ) : Option (List String) :=
  match c.boundType with
  | .free => some [c.name, "free"]
  | .lower => if c.lower == .fin 0 then none else some [c.name, ">=", bound format c.lower]
  | .upper => some ["-inf", "<=", c.name, "<=", bound format c.upper]
  | .double =>
    if c.kind == .binary && c.lower == .fin 0 && c.upper == .fin 1 then none
    else some [bound format c.lower, "<=", c.name, "<=", bound format c.upper]
  | .fixed => some [c.name, "=", bound format c.lower]

def subject : List String → String
  | [_, _, name, _, _] => name
  | name :: _ => name
  | [] => ""

theorem subject_columnWords (c : Column ℚ) :
    ∀ words ∈ columnWords format c, subject words = c.name := by
  intro words h
  unfold columnWords at h
  cases htype : c.boundType <;> simp only [htype] at h
  case lower | double =>
    split_ifs at h
    · cases h
    · cases h
      rfl
  all_goals
    cases h
    rfl

theorem subject_rangeWords (r : Row ℚ) (index : ℕ) :
    ∀ words ∈ rangeWords format r index, subject words = rangeName index := by
  intro words h
  unfold rangeWords at h
  split_ifs at h
  · cases h
    rfl
  · cases h

def boundsWords (p : Problem ℚ) : List (List String) :=
  p.columns.toList.filterMap (columnWords format) ++
    p.rows.toList.zipIdx.filterMap fun (r, i) ↦ rangeWords format r (i + 1)

variable {format} {p q : Problem ℚ}

/-- The line about a name is that of the column with the name, and none where there is no column. -/
theorem find?_boundsWords_column (hp : p.Writable) {name : String}
    (hrange : ∀ index, name ≠ rangeName index) :
    (boundsWords format p).find? (subject · == name) = columnWords format (p.columnNamed name) := by
  have hrows : (p.rows.toList.zipIdx.filterMap fun (r, i) ↦ rangeWords format r (i + 1)).find?
      (subject · == name) = none := by
    rw [List.find?_eq_none]
    intro words hwords hsubject
    obtain ⟨⟨r, i⟩, -, hwords⟩ := List.mem_filterMap.mp hwords
    rw [subject_rangeWords format r (i + 1) words hwords, beq_iff_eq] at hsubject
    exact hrange (i + 1) hsubject.symm
  rw [boundsWords, List.find?_append, hrows, Option.or_none]
  rcases p.columnNamed_cases name with ⟨hmem, hname⟩ | ⟨hnot, hnamed⟩
  · have hfound := find?_filterMap_about (subject_columnWords format) hp.nodup hmem
    rwa [hname] at hfound
  · rw [hnamed, List.find?_eq_none.mpr]
    · rfl
    · intro words hwords hsubject
      obtain ⟨c, hc, hwords⟩ := List.mem_filterMap.mp hwords
      rw [subject_columnWords format c words hwords, beq_iff_eq] at hsubject
      exact hnot (hsubject ▸ List.mem_map_of_mem hc)

theorem find?_boundsWords_row (hp : p.Writable) {r : Row ℚ} {i : ℕ} (hr : p.rows[i]? = some r) :
    (boundsWords format p).find? (subject · == rangeName (i + 1)) =
      rangeWords format r (i + 1) := by
  have hcolumns : (p.columns.toList.filterMap (columnWords format)).find?
      (subject · == rangeName (i + 1)) = none := by
    rw [List.find?_eq_none]
    intro words hwords hsubject
    obtain ⟨c, hc, hwords⟩ := List.mem_filterMap.mp hwords
    rw [subject_columnWords format c words hwords, beq_iff_eq] at hsubject
    exact hp.not_range _ (List.mem_map_of_mem hc) (i + 1) hsubject
  have hnodup : (p.rows.toList.zipIdx.map fun b ↦ rangeName (b.2 + 1)).Nodup := by
    have hindices : (p.rows.toList.zipIdx.map Prod.snd).Nodup := by
      rw [List.zipIdx_map_snd]
      exact List.nodup_range'
    have hnames := hindices.map (f := fun i ↦ rangeName (i + 1)) fun i j hij ↦ by
      have h := rangeName_injective hij
      omega
    rwa [List.map_map] at hnames
  have hmem : (r, i) ∈ p.rows.toList.zipIdx :=
    List.mk_mem_zipIdx_iff_getElem?.mpr (by rwa [Array.getElem?_toList])
  have habout : ∀ b : Row ℚ × ℕ, ∀ words ∈ rangeWords format b.1 (b.2 + 1),
      subject words = rangeName (b.2 + 1) := fun b ↦ subject_rangeWords format b.1 (b.2 + 1)
  have hfound := find?_filterMap_about habout hnodup hmem
  rw [boundsWords, List.find?_append, hcolumns, Option.none_or]
  exact hfound

theorem eq_fin_of_beq {x : Extended ℚ} {y : ℚ} (h : (x == .fin y) = true) : x = .fin y := by
  cases x with
  | negInf | posInf => cases h
  | fin x => exact congrArg _ (of_decide_eq_true h)

/-- What no line says: the default bounds, or those of a binary column. -/
theorem bounds_of_columnWords_none {c : Column ℚ} (hmatched : c.Matched)
    (hbinary : c.kind = .binary → c.lower = .fin 0 ∧ c.upper = .fin 1)
    (h : columnWords format c = none) :
    c.lower = .fin 0 ∧ c.upper = if c.kind = .binary then .fin 1 else .posInf := by
  unfold columnWords at h
  unfold Column.Matched at hmatched
  split_ifs with hkind
  · exact hbinary hkind
  cases htype : c.boundType with
  | free | upper | fixed => simp [htype] at h
  | lower =>
    simp only [htype] at h hmatched
    split_ifs at h with hzero
    exact ⟨eq_fin_of_beq hzero, hmatched.2⟩
  | double => simp [htype, hkind] at h

inductive States (format : ℚ → String) (name : String) :
    List String → Extended ℚ → Extended ℚ → Prop
  | free : States format name [name, "free"] .negInf .posInf
  | lower (l : ℚ) : States format name [name, ">=", format l] (.fin l) .posInf
  | upper (u : ℚ) : States format name ["-inf", "<=", name, "<=", format u] .negInf (.fin u)
  | double (l u : ℚ) :
    States format name [format l, "<=", name, "<=", format u] (.fin l) (.fin u)
  | fixed (l : ℚ) : States format name [name, "=", format l] (.fin l) (.fin l)

theorem states_columnWords {c : Column ℚ} (hmatched : c.Matched) {words : List String}
    (h : columnWords format c = some words) : States format c.name words c.lower c.upper := by
  unfold columnWords at h
  unfold Column.Matched at hmatched
  cases htype : c.boundType with
  | free =>
    simp only [htype, Option.some_inj] at h hmatched
    rw [hmatched.1, hmatched.2, ← h]
    exact .free
  | lower =>
    simp only [htype] at h hmatched
    split_ifs at h
    obtain ⟨⟨l, hl⟩, hu⟩ := hmatched
    rw [hu, ← Option.some.inj h, hl]
    exact .lower l
  | upper =>
    simp only [htype, Option.some_inj] at h hmatched
    obtain ⟨hl, u, hu⟩ := hmatched
    rw [hl, ← h, hu]
    exact .upper u
  | double =>
    simp only [htype] at h hmatched
    split_ifs at h
    obtain ⟨⟨l, hl⟩, u, hu⟩ := hmatched
    rw [← Option.some.inj h, hl, hu]
    exact .double l u
  | fixed =>
    simp only [htype, Option.some_inj] at h hmatched
    obtain ⟨l, hl, hu⟩ := hmatched
    rw [hu, ← h, hl]
    exact .fixed l

theorem States.unique (hformat : Legible format) {name : String} {words words' : List String}
    {l u l' u' : Extended ℚ} (h : States format name words l u)
    (h' : States format name words' l' u') (hwords : words = words') : l = l' ∧ u = u' := by
  cases h with
  | free => cases h' <;> simp_all
  | lower l => cases h' <;> simp_all [hformat.injective.eq_iff]
  | upper u =>
    cases h' with
    | upper u' => simp_all [hformat.injective.eq_iff]
    | double l' u' => exact absurd (List.cons.inj hwords).1.symm (hformat.ne_negInf l')
    | free | lower | fixed => simp at hwords
  | double l u =>
    cases h' with
    | upper u' => exact absurd (List.cons.inj hwords).1 (hformat.ne_negInf l)
    | double l' u' => simp_all [hformat.injective.eq_iff]
    | free | lower | fixed => simp at hwords
  | fixed l => cases h' <;> simp_all [hformat.injective.eq_iff]

theorem columnBounds_eq (hformat : Legible format) {c d : Column ℚ} (hname : c.name = d.name)
    (hkind : c.kind = d.kind) (hc : c.Matched) (hd : d.Matched)
    (hcb : c.kind = .binary → c.lower = .fin 0 ∧ c.upper = .fin 1)
    (hdb : d.kind = .binary → d.lower = .fin 0 ∧ d.upper = .fin 1)
    (h : columnWords format c = columnWords format d) : c.lower = d.lower ∧ c.upper = d.upper := by
  cases hwords : columnWords format c with
  | none =>
    obtain ⟨hl, hu⟩ := bounds_of_columnWords_none hc hcb hwords
    obtain ⟨hl', hu'⟩ := bounds_of_columnWords_none hd hdb (h ▸ hwords)
    rw [hl, hl', hu, hu', hkind]
    exact ⟨rfl, rfl⟩
  | some words =>
    have hstates := states_columnWords hd (h ▸ hwords)
    rw [← hname] at hstates
    exact (states_columnWords hc hwords).unique hformat hstates rfl

end LpText

end LinProg
