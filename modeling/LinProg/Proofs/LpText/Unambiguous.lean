import LinProg.Proofs.LpText.Bounds

namespace LinProg.LpText

variable (format : ℚ → String)

def directionLine : Direction → String
  | .minimize => "Minimize"
  | .maximize => "Maximize"

def objectiveLines (p : Problem ℚ) : List String :=
  wrap " obj:" (expression format p.names.toArray (nonzeros p.objectiveForm))

def rowBlocks (p : Problem ℚ) : List (List String) :=
  p.rows.toList.zipIdx.map fun (r, i) ↦ rowLines format p.names.toArray r (i + 1)

def boundsLines (p : Problem ℚ) : List String :=
  p.columns.toList.filterMap (fun c ↦ columnBound format c c.name) ++
    p.rows.toList.zipIdx.filterMap fun (r, i) ↦ rangeBound format r (i + 1)

def namesOfKind (p : Problem ℚ) (kind : ColumnKind) : List String :=
  (p.columns.toList.filter (·.kind = kind)).map (·.name)

def kindLines (p : Problem ℚ) (kind : ColumnKind) : List String :=
  (namesOfKind p kind).map (" " ++ ·)

def sectionLines (p : Problem ℚ) : List String :=
  titled "Subject To" (rowBlocks format p).flatten ++ (titled "Bounds" (boundsLines format p) ++
    (titled "Generals" (kindLines p .integer) ++ (titled "Binaries" (kindLines p .binary) ++
      ["End"])))

theorem bodyLines_eq {p : Problem ℚ} (hp : p.Writable) :
    bodyLines format p = "" :: directionLine p.direction ::
      (objectiveLines format p ++ "" :: sectionLines format p) := by
  have hcolumns : (p.columns.toList.zipIdx.map fun b ↦ (b.1, columnName b.1.name (b.2 + 1))) =
      p.columns.toList.map fun c ↦ (c, c.name) := by
    have hlegal : ∀ b ∈ p.columns.toList.zipIdx,
        (b.1, columnName b.1.name (b.2 + 1)) = (b.1, b.1.name) := by
      intro b hb
      have hname : b.1.name ∈ p.names := List.mem_map_of_mem (List.fst_mem_of_mem_zipIdx hb)
      rw [columnName, if_pos (hp.legal _ hname)]
    conv_rhs => rw [← List.zipIdx_map_fst 0 p.columns.toList, List.map_map]
    exact List.map_congr_left hlegal
  have hkind (kind : ColumnKind) : (p.columns.toList.map fun c ↦ (c, c.name)).filterMap
      (fun b ↦ if b.1.kind = kind then some (" " ++ b.2) else none) = kindLines p kind := by
    rw [List.filterMap_map, kindLines, namesOfKind, List.map_map, ← List.filterMap_eq_map,
      List.filterMap_filter]
    simp only [Function.comp_def, decide_eq_true_eq]
  have hnames : (p.columns.toList.map fun c ↦ (c, c.name)).map (·.2) = p.names := by
    rw [List.map_map]
    rfl
  have hobjective : ((p.columns.toList.map fun c ↦ (c, c.name)).zipIdx.map fun b ↦
      (b.2 + 1, b.1.1.objective)) = p.objectiveForm := by
    rw [List.zipIdx_map, List.map_map]
    rfl
  have hrows : (p.rows.toList.zipIdx.map fun b ↦ (b.1, b.2 + 1)).flatMap
      (fun b ↦ rowLines format p.names.toArray b.1 b.2) = (rowBlocks format p).flatten := by
    rw [List.flatMap_map, List.flatMap_def]
    rfl
  have hbounds : (p.columns.toList.map fun c ↦ (c, c.name)).filterMap
        (fun b ↦ columnBound format b.1 b.2) ++
      (p.rows.toList.zipIdx.map fun b ↦ (b.1, b.2 + 1)).filterMap
        (fun b ↦ rangeBound format b.1 b.2) = boundsLines format p := by
    rw [List.filterMap_map, List.filterMap_map]
    rfl
  unfold bodyLines
  simp only [hcolumns, hkind, hnames, hobjective, hrows, hbounds, List.append_assoc]
  rfl

structure IsSectionLine (line : String) : Prop where
  indented : Indented line
  newline : '\n' ∉ line.toList

theorem isSectionLine_of_spaced {line : String} {words : List String} (hne : words ≠ [])
    (h : line.toList = spaced words) (hwords : ∀ w ∈ words, IsWord w) : IsSectionLine line := by
  refine ⟨indented_of_toList hne h, ?_⟩
  rw [h]
  exact not_mem_spaced hwords (.inl rfl)

theorem isSectionLine_wrap {head : String} {terms words : List String} (hhead : IsSectionLine head)
    (h : spaced terms = spaced words) (hwords : ∀ w ∈ words, IsWord w) :
    ∀ l ∈ wrap head terms, IsSectionLine l := by
  intro l hl
  refine ⟨indented_wrap hhead.indented hl, fun hnewline ↦ ?_⟩
  rcases mem_wrap hl hnewline with hmem | hmem
  · exact hhead.newline hmem
  · rw [h] at hmem
    exact not_mem_spaced hwords (.inl rfl) hmem

theorem mem_titled {title : String} {lines : List String} {l : String}
    (h : l ∈ titled title lines) : l = title ∨ l ∈ lines ∨ l = "" := by
  unfold titled at h
  split_ifs at h
  · cases h
  · simpa using h

theorem eq_of_map_spaced_eq {lines lines' : List (List String)}
    (hlines : ∀ words ∈ lines, ∀ w ∈ words, IsWord w)
    (hlines' : ∀ words ∈ lines', ∀ w ∈ words, IsWord w)
    (h : lines.map spaced = lines'.map spaced) : lines = lines' := by
  induction lines generalizing lines' with
  | nil => exact (List.map_eq_nil_iff.mp h.symm).symm
  | cons words lines ih =>
    cases lines' with
    | nil => cases h
    | cons words' lines' =>
      obtain ⟨hhead, htail⟩ := List.cons.inj h
      rw [spaced_injective (hlines words List.mem_cons_self) (hlines' words' List.mem_cons_self)
        hhead, ih (fun l hl ↦ hlines l (List.mem_cons_of_mem _ hl))
        (fun l hl ↦ hlines' l (List.mem_cons_of_mem _ hl)) htail]

section Objective

variable {format} (hformat : Legible format) {p q : Problem ℚ}

def objectiveWords (format : ℚ → String) (p : Problem ℚ) : List String :=
  expressionWords format p.names.head? (named p.names (nonzeros p.objectiveForm))

include hformat in
theorem isWord_objectiveWords (hp : p.Writable) : ∀ w ∈ objectiveWords format p, IsWord w :=
  isWord_expressionWords hformat (fun n hn ↦ isWord_of_isLegalName (head_names hp n hn))
    (isWord_named hp _)

include hformat in
theorem isSectionLine_objectiveLines (hp : p.Writable) :
    ∀ l ∈ objectiveLines format p, IsSectionLine l :=
  isSectionLine_wrap ⟨rfl, by decide⟩ (spaced_expression format _ _)
    (isWord_objectiveWords hformat hp)

include hformat in
theorem objective_eq (hp : p.Writable) (hq : q.Writable)
    (h : objectiveLines format p = objectiveLines format q) (name : String) :
    (p.columnNamed name).objective = (q.columnNamed name).objective := by
  have hchars := congrArg (List.flatMap String.toList) h
  rw [objectiveLines, objectiveLines, wrap, wrap, flatMap_wrapFrom, flatMap_wrapFrom,
    List.append_cancel_left_eq, spaced_expression, spaced_expression] at hchars
  have hwords := spaced_injective (isWord_objectiveWords hformat hp)
    (isWord_objectiveWords hformat hq) hchars
  have hno (p : Problem ℚ) (hp : p.Writable) :
      ∀ t ∈ named p.names (nonzeros p.objectiveForm) ++ [], t.1 ∉ operators := by
    rw [List.append_nil]
    exact named_not_mem_operators hp _
  have hsame : objectiveWords format p ++ (termsWords format [] ++ []) =
      objectiveWords format q ++ (termsWords format [] ++ []) := congrArg (· ++ []) hwords
  obtain ⟨hforms, -⟩ := expressionWords_append_injective hformat
    (fun n hn ↦ not_mem_operators_of_isLegalName (head_names hp n hn))
    (fun n hn ↦ not_mem_operators_of_isLegalName (head_names hq n hn))
    (hno p hp) (hno q hq) (by simp) (by simp) hsame
  rw [List.append_nil, List.append_nil] at hforms
  rw [← Problem.valueOf_objectiveForm hp.nodup, ← Problem.valueOf_objectiveForm hq.nodup, hforms]

end Objective

section Rows

variable {format} (hformat : Legible format) {p q : Problem ℚ}

theorem isSectionLine_rowHead (name : String) (index : ℕ) :
    IsSectionLine (" " ++ rowName name index ++ ":") := by
  refine ⟨indented_append (indented_append (show Indented " " from rfl) _) _, fun hmem ↦ ?_⟩
  rw [String.toList_append, String.toList_append, List.mem_append, List.mem_append] at hmem
  rcases hmem with (hmem | hmem) | hmem
  · exact absurd hmem (by decide)
  · exact (isWord_rowName name index _ hmem).2.1 rfl
  · exact absurd hmem (by decide)

include hformat in
theorem isSectionLine_rowLines (hp : p.Writable) (r : Row ℚ) (index : ℕ) :
    ∀ l ∈ rowLines format p.names.toArray r index, IsSectionLine l :=
  isSectionLine_wrap (isSectionLine_rowHead r.name index) (spaced_rowTerms format _ r index)
    (isWord_rowWords hformat hp r index)

include hformat in
/-- Of the lines of a row, the first one and no other has a colon. -/
theorem rowLines_cons (hp : p.Writable) (r : Row ℚ) (index : ℕ) :
    ∃ x rest, rowLines format p.names.toArray r index = x :: rest ∧ ':' ∈ x.toList ∧
      ∀ y ∈ rest, ':' ∉ y.toList := by
  obtain ⟨more, rest, hwrap, hrest⟩ := wrapFrom_cons (" " ++ rowName r.name index ++ ":")
    (expression format p.names.toArray (nonzeros r.coefficients.toList) ++ rowSide format r index)
  refine ⟨_, rest, hwrap, ?_, fun y hy hcolon ↦ ?_⟩
  · simp [String.toList_append]
  · have hmem := (hrest y hy).2 ':' hcolon
    rw [spaced_rowTerms] at hmem
    exact not_mem_spaced (isWord_rowWords hformat hp r index) (.inr rfl) hmem

include hformat in
theorem rowWords_eq (hp : p.Writable) (hq : q.Writable) {r r' : Row ℚ} {index : ℕ}
    (h : rowLines format p.names.toArray r index = rowLines format q.names.toArray r' index) :
    rowWords format p.names r index = rowWords format q.names r' index := by
  have hchars := congrArg (List.flatMap String.toList) h
  have hjoined (p : Problem ℚ) (r : Row ℚ) :
      (rowLines format p.names.toArray r index).flatMap String.toList =
        (" " ++ rowName r.name index).toList ++
          ':' :: spaced (rowWords format p.names r index) := by
    rw [rowLines, wrap, flatMap_wrapFrom, spaced_rowTerms]
    simp [String.toList_append, ToString.toString]
  have hname (name : String) : ∀ c ∈ (" " ++ rowName name index).toList, c ≠ ':' := by
    intro c hc
    rw [String.toList_append, List.mem_append] at hc
    rcases hc with hc | hc
    · obtain rfl := List.mem_singleton.mp hc
      decide
    · exact (isWord_rowName name index c hc).2.2
  have hcolon (chars : List Char) : ∀ c ∈ (':' :: chars).head?, ¬ c ≠ ':' := by
    intro c hc
    exact not_not.mpr (Option.some.inj hc).symm
  rw [hjoined, hjoined] at hchars
  obtain ⟨-, hwords⟩ := append_cut (hname r.name) (hname r'.name) (hcolon _) (hcolon _) hchars
  exact spaced_injective (isWord_rowWords hformat hp r index) (isWord_rowWords hformat hq r' index)
    (List.cons.inj hwords).2

include hformat in
theorem rowBlocks_eq (hp : p.Writable) (hq : q.Writable)
    (h : (rowBlocks format p).flatten = (rowBlocks format q).flatten) :
    rowBlocks format p = rowBlocks format q := by
  have hblock (p : Problem ℚ) (hp : p.Writable) : ∀ b ∈ rowBlocks format p,
      ∃ x rest, b = x :: rest ∧ ':' ∈ x.toList ∧ ∀ y ∈ rest, ':' ∉ y.toList := by
    intro b hb
    obtain ⟨⟨r, i⟩, -, rfl⟩ := List.mem_map.mp hb
    exact rowLines_cons hformat hp r (i + 1)
  exact eq_of_flatten_eq (hblock p hp) (hblock q hq) h

end Rows

section Bounds

variable {format} (hformat : Legible format) {p q : Problem ℚ}

theorem toList_columnBound (c : Column ℚ) :
    (columnBound format c c.name).map String.toList = (columnWords format c).map spaced := by
  unfold columnBound columnWords
  cases c.boundType with
  | free | upper | fixed => simp [spaced, ToString.toString]
  | lower | double => split_ifs <;> simp [spaced, ToString.toString]

theorem toList_rangeBound (r : Row ℚ) (index : ℕ) :
    (rangeBound format r index).map String.toList = (rangeWords format r index).map spaced := by
  unfold rangeBound rangeWords
  split_ifs
  · simp [spaced, ToString.toString, number_eq]
  · rfl

theorem toList_boundsLines (p : Problem ℚ) :
    (boundsLines format p).map String.toList = (boundsWords format p).map spaced := by
  rw [boundsLines, boundsWords, List.map_append, List.map_append, List.map_filterMap,
    List.map_filterMap, List.map_filterMap, List.map_filterMap]
  simp only [toList_columnBound, toList_rangeBound]

include hformat in
theorem isWord_boundsWords (hp : p.Writable) :
    ∀ words ∈ boundsWords format p, words ≠ [] ∧ ∀ w ∈ words, IsWord w := by
  have hfixed : IsWord "free" ∧ IsWord "-inf" ∧ IsWord "0" ∧ IsWord ">=" ∧ IsWord "<=" ∧
    IsWord "=" := by decide
  have hbound := isWord_bound hformat
  intro words hwords
  rcases List.mem_append.mp hwords with hwords | hwords
  · obtain ⟨c, hc, hwords⟩ := List.mem_filterMap.mp hwords
    have hname := isWord_of_isLegalName (hp.legal c.name (List.mem_map_of_mem hc))
    unfold columnWords at hwords
    cases htype : c.boundType <;> simp only [htype] at hwords
    case lower | double =>
      split_ifs at hwords
      cases hwords
      simp [hname, hfixed, hbound]
    all_goals
      cases hwords
      simp [hname, hfixed, hbound]
  · obtain ⟨⟨r, i⟩, -, hwords⟩ := List.mem_filterMap.mp hwords
    dsimp only [rangeWords] at hwords
    split_ifs at hwords
    cases hwords
    simp [hfixed, isWord_rangeName, hformat.isWord]

include hformat in
theorem isSectionLine_boundsLines (hp : p.Writable) :
    ∀ l ∈ boundsLines format p, IsSectionLine l := by
  intro l hl
  have hmem := List.mem_map_of_mem (f := String.toList) hl
  rw [toList_boundsLines] at hmem
  obtain ⟨words, hwords, heq⟩ := List.mem_map.mp hmem
  obtain ⟨hne, hall⟩ := isWord_boundsWords hformat hp words hwords
  exact isSectionLine_of_spaced hne heq.symm hall

include hformat in
theorem boundsWords_eq (hp : p.Writable) (hq : q.Writable)
    (h : boundsLines format p = boundsLines format q) :
    boundsWords format p = boundsWords format q := by
  have hchars := congrArg (List.map String.toList) h
  rw [toList_boundsLines, toList_boundsLines] at hchars
  exact eq_of_map_spaced_eq (fun words hwords ↦ (isWord_boundsWords hformat hp words hwords).2)
    (fun words hwords ↦ (isWord_boundsWords hformat hq words hwords).2) hchars

theorem isSectionLine_kindLines (hp : p.Writable) (kind : ColumnKind) :
    ∀ l ∈ kindLines p kind, IsSectionLine l := by
  intro l hl
  obtain ⟨name, hname, rfl⟩ := List.mem_map.mp hl
  obtain ⟨c, hc, rfl⟩ := List.mem_map.mp hname
  have hword := isWord_of_isLegalName
    (hp.legal c.name (List.mem_map_of_mem (List.mem_filter.mp hc).1))
  refine isSectionLine_of_spaced (List.cons_ne_nil c.name []) ?_ (by simpa using hword)
  simp [spaced]

theorem mem_namesOfKind (hp : p.Writable) {kind : ColumnKind} (hkind : kind ≠ .continuous)
    (name : String) : name ∈ namesOfKind p kind ↔ (p.columnNamed name).kind = kind := by
  constructor
  · intro hname
    obtain ⟨c, hc, rfl⟩ := List.mem_map.mp hname
    obtain ⟨hmem, hc⟩ := List.mem_filter.mp hc
    rw [Problem.columnNamed_of_mem hp.nodup hmem]
    exact of_decide_eq_true hc
  · intro h
    rcases p.columnNamed_cases name with ⟨hmem, hname⟩ | ⟨-, hnamed⟩
    · exact List.mem_map.mpr ⟨_, List.mem_filter.mpr ⟨hmem, decide_eq_true h⟩, hname⟩
    · rw [hnamed] at h
      exact absurd h.symm hkind

theorem namesOfKind_eq {kind : ColumnKind} (h : kindLines p kind = kindLines q kind) :
    namesOfKind p kind = namesOfKind q kind :=
  List.map_injective_iff.mpr (fun _ _ heq ↦ (String.append_right_inj " ").mp heq) h

theorem kind_eq (hp : p.Writable) (hq : q.Writable)
    (hgenerals : kindLines p .integer = kindLines q .integer)
    (hbinaries : kindLines p .binary = kindLines q .binary) (name : String) :
    (p.columnNamed name).kind = (q.columnNamed name).kind := by
  have hinteger : (p.columnNamed name).kind = .integer ↔ (q.columnNamed name).kind = .integer := by
    rw [← mem_namesOfKind hp (by decide), ← mem_namesOfKind hq (by decide),
      namesOfKind_eq hgenerals]
  have hbinary : (p.columnNamed name).kind = .binary ↔ (q.columnNamed name).kind = .binary := by
    rw [← mem_namesOfKind hp (by decide), ← mem_namesOfKind hq (by decide),
      namesOfKind_eq hbinaries]
  cases hk : (p.columnNamed name).kind <;> cases hk' : (q.columnNamed name).kind <;> simp_all

end Bounds

section Text

variable {format} (hformat : Legible format) {p q : Problem ℚ}

include hformat in
theorem bounds_eq (hp : p.Writable) (hq : q.Writable)
    (hkind : ∀ name, (p.columnNamed name).kind = (q.columnNamed name).kind)
    (h : boundsWords format p = boundsWords format q) (name : String) :
    (p.columnNamed name).lower = (q.columnNamed name).lower ∧
      (p.columnNamed name).upper = (q.columnNamed name).upper := by
  have hcolumn (p : Problem ℚ) (hp : p.Writable) : (p.columnNamed name).Matched ∧
      ((p.columnNamed name).kind = .binary →
        (p.columnNamed name).lower = .fin 0 ∧ (p.columnNamed name).upper = .fin 1) := by
    rcases p.columnNamed_cases name with ⟨hmem, -⟩ | ⟨-, hnamed⟩
    · rw [Array.mem_toList_iff] at hmem
      exact ⟨hp.columns_matched _ hmem, hp.binary _ hmem⟩
    · rw [hnamed]
      exact ⟨Column.matched_named name, nofun⟩
  obtain ⟨hmatched, hbinary⟩ := hcolumn p hp
  obtain ⟨hmatched', hbinary'⟩ := hcolumn q hq
  by_cases hrange : ∃ index, name = rangeName index
  · -- no column of either problem has the name of a range variable
    obtain ⟨index, rfl⟩ := hrange
    have habsent (p : Problem ℚ) (hp : p.Writable) :
        p.columnNamed (rangeName index) = .named (rangeName index) := by
      rcases p.columnNamed_cases (rangeName index) with ⟨hmem, hname⟩ | ⟨-, hnamed⟩
      · exact absurd hname (hp.not_range _ (List.mem_map_of_mem hmem) index)
      · exact hnamed
    rw [habsent p hp, habsent q hq]
    exact ⟨rfl, rfl⟩
  · rw [not_exists] at hrange
    apply columnBounds_eq hformat _ (hkind name) hmatched hmatched' hbinary hbinary'
    · rw [← find?_boundsWords_column hp hrange, ← find?_boundsWords_column hq hrange, h]
    · rw [p.name_columnNamed, q.name_columnNamed]

include hformat in
theorem row_eq (hp : p.Writable) (hq : q.Writable)
    (hbounds : boundsWords format p = boundsWords format q) {i : ℕ} {r r' : Row ℚ}
    (hr : p.rows[i]? = some r) (hr' : q.rows[i]? = some r')
    (h : rowLines format p.names.toArray r (i + 1) = rowLines format q.names.toArray r' (i + 1)) :
    (∀ name, p.coefficientOf r name = q.coefficientOf r' name) ∧
      r.boundType = r'.boundType ∧ r.effectiveBounds = r'.effectiveBounds := by
  have hmem := Array.mem_of_getElem? hr
  have hmem' := Array.mem_of_getElem? hr'
  obtain ⟨hform, hslack, hrelation⟩ := rowWords_injective hformat hp hq
    (rowWords_eq hformat hp hq h)
  have hrange : rangeWords format r (i + 1) = rangeWords format r' (i + 1) := by
    rw [← find?_boundsWords_row hp hr, ← find?_boundsWords_row hq hr', hbounds]
  refine ⟨fun name ↦ ?_, sides_eq hformat (hp.rows_bounded r hmem) (hq.rows_bounded r' hmem')
    hslack hrelation hrange⟩
  rw [← Problem.valueOf_row hp.nodup (hp.rows_valid r hmem) (hp.slots r hmem),
    ← Problem.valueOf_row hq.nodup (hq.rows_valid r' hmem') (hq.slots r' hmem'), hform]

include hformat in
theorem sections_eq (hp : p.Writable) (hq : q.Writable)
    (h : sectionLines format p = sectionLines format q) :
    rowBlocks format p = rowBlocks format q ∧ boundsLines format p = boundsLines format q ∧
      kindLines p .integer = kindLines q .integer ∧ kindLines p .binary = kindLines q .binary := by
  have hrows (p : Problem ℚ) (hp : p.Writable) :
      ∀ l ∈ (rowBlocks format p).flatten, Indented l := by
    intro l hl
    obtain ⟨b, hb, hl⟩ := List.mem_flatten.mp hl
    obtain ⟨⟨r, i⟩, -, rfl⟩ := List.mem_map.mp hb
    exact (isSectionLine_rowLines hformat hp r (i + 1) l hl).indented
  have hkinds (p : Problem ℚ) (hp : p.Writable) (kind : ColumnKind) :
      ∀ l ∈ kindLines p kind, Indented l :=
    fun l hl ↦ (isSectionLine_kindLines hp kind l hl).indented
  have hend {title : String} (htitle : title ≠ "End") : title ∉ ["End"].head? := by
    simpa using htitle.symm
  have hnext {title title' : String} {lines rest : List String} (htitle : title ≠ title')
      (hrest : title ∉ rest.head?) : title ∉ (titled title' lines ++ rest).head? := by
    intro hmem
    exact (head_titled_append hmem).elim htitle hrest
  unfold sectionLines at h
  obtain ⟨hrow, h⟩ := titled_append_injective (hrows p hp) (hrows q hq)
    (hnext (by decide) (hnext (by decide) (hnext (by decide) (hend (by decide)))))
    (hnext (by decide) (hnext (by decide) (hnext (by decide) (hend (by decide))))) h
  obtain ⟨hbound, h⟩ := titled_append_injective
    (fun l hl ↦ (isSectionLine_boundsLines hformat hp l hl).indented)
    (fun l hl ↦ (isSectionLine_boundsLines hformat hq l hl).indented)
    (hnext (by decide) (hnext (by decide) (hend (by decide))))
    (hnext (by decide) (hnext (by decide) (hend (by decide)))) h
  obtain ⟨hgenerals, h⟩ := titled_append_injective (hkinds p hp _) (hkinds q hq _)
    (hnext (by decide) (hend (by decide))) (hnext (by decide) (hend (by decide))) h
  obtain ⟨hbinaries, -⟩ := titled_append_injective (hkinds p hp _) (hkinds q hq _)
    (hend (by decide)) (hend (by decide)) h
  exact ⟨rowBlocks_eq hformat hp hq hrow, hbound, hgenerals, hbinaries⟩

include hformat in
theorem not_newline_bodyLines (hp : p.Writable) : ∀ l ∈ bodyLines format p, '\n' ∉ l.toList := by
  have hsection {title : String} {lines : List String} (htitle : '\n' ∉ title.toList)
      (hlines : ∀ l ∈ lines, IsSectionLine l) : ∀ l ∈ titled title lines, '\n' ∉ l.toList := by
    intro l hl
    rcases mem_titled hl with rfl | hl | rfl
    · exact htitle
    · exact (hlines l hl).newline
    · decide
  have hrows : ∀ l ∈ (rowBlocks format p).flatten, IsSectionLine l := by
    intro l hl
    obtain ⟨b, hb, hl⟩ := List.mem_flatten.mp hl
    obtain ⟨⟨r, i⟩, -, rfl⟩ := List.mem_map.mp hb
    exact isSectionLine_rowLines hformat hp r (i + 1) l hl
  have hdirection : '\n' ∉ (directionLine p.direction).toList := by
    cases p.direction <;> decide
  intro l hl
  rw [bodyLines_eq format hp, sectionLines] at hl
  simp only [List.mem_cons, List.mem_append, List.not_mem_nil, or_false] at hl
  rcases hl with rfl | rfl | hl | rfl | hl | hl | hl | hl | rfl
  · decide
  · exact hdirection
  · exact (isSectionLine_objectiveLines hformat hp l hl).newline
  · decide
  · exact hsection (by decide) hrows l hl
  · exact hsection (by decide) (isSectionLine_boundsLines hformat hp) l hl
  · exact hsection (by decide) (isSectionLine_kindLines hp _) l hl
  · exact hsection (by decide) (isSectionLine_kindLines hp _) l hl
  · decide

include hformat in
theorem sameModel_of_bodyLines (hp : p.Writable) (hq : q.Writable)
    (h : bodyLines format p = bodyLines format q) : p.SameModel q := by
  rw [bodyLines_eq format hp, bodyLines_eq format hq, List.cons.injEq, List.cons.injEq] at h
  obtain ⟨-, hdirection, h⟩ := h
  have hempty (rest : List String) : ∀ l ∈ ("" :: rest).head?, ¬ IsSectionLine l := by
    intro l hl hline
    obtain rfl := Option.some.inj hl
    exact absurd hline.indented nofun
  obtain ⟨hobjective, hsections⟩ := append_cut (isSectionLine_objectiveLines hformat hp)
    (isSectionLine_objectiveLines hformat hq) (hempty _) (hempty _) h
  obtain ⟨hrows, hboundLines, hgenerals, hbinaries⟩ := sections_eq hformat hp hq
    (List.cons.inj hsections).2
  have hbounds := boundsWords_eq hformat hp hq hboundLines
  have hkind := kind_eq hp hq hgenerals hbinaries
  refine ⟨?_, objective_eq hformat hp hq hobjective, ?_, fun i r r' hr hr' ↦ ?_,
    fun name ↦ ⟨hkind name, bounds_eq hformat hp hq hkind hbounds name⟩⟩
  · cases hp' : p.direction <;> cases hq' : q.direction <;>
      simp_all [directionLine]
  · have hlength := congrArg List.length hrows
    simpa [rowBlocks, Problem.numRows] using hlength
  · have hblock := congrArg (·[i]?) hrows
    rw [← Array.getElem?_toList] at hr hr'
    simp only [rowBlocks, List.getElem?_map, List.getElem?_zipIdx, hr, hr', Option.map_some,
      Nat.zero_add, Option.some_inj] at hblock
    rw [Array.getElem?_toList] at hr hr'
    exact row_eq hformat hp hq hbounds hr hr' hblock

/-- Two problems built from descriptions with numbers for all used bounds and with names that the
format can carry are the same model if their texts agree behind the first line. -/
theorem write_determines {format : ℚ → String} (hformat : Legible format)
    {spec spec' : ProblemSpec ℚ} (hspec : spec.Writable) (hspec' : spec'.Writable)
    {p q : Problem ℚ} (hp : (Problem.build spec).value = .ok p)
    (hq : (Problem.build spec').value = .ok q)
    (h : (write format p).toList.dropWhile (· ≠ '\n') =
      (write format q).toList.dropWhile (· ≠ '\n')) : p.SameModel q := by
  have hp := hspec.build hp
  have hq := hspec'.build hq
  rw [dropWhile_write format hp.name, dropWhile_write format hq.name] at h
  exact sameModel_of_bodyLines hformat hp hq (eq_of_unlines_eq (not_newline_bodyLines hformat hp)
    (not_newline_bodyLines hformat hq) (String.toList_injective (List.cons.inj h).2))

end Text

def ranged : ProblemSpec ℚ :=
  { name := "ranged", objective := ⟨.maximize, [⟨"x", 3⟩]⟩
    subjectTo := [⟨"band", [⟨"x", 1⟩, ⟨"y", -2⟩], ⟨.double, .fin 2, .fin 5⟩⟩]
    bounds := [⟨"y", ⟨.upper, .negInf, .fin 7⟩⟩], generals := ["y"], binaries := []
    options := .none }

/-- The same model under another name, with repeated terms and a column that nothing uses. -/
def rangedAgain : ProblemSpec ℚ :=
  { name := "ranged again", objective := ⟨.maximize, [⟨"x", 1⟩, ⟨"x", 3⟩]⟩
    subjectTo := [⟨"band", [⟨"x", 1⟩, ⟨"y", 1⟩, ⟨"y", -3⟩], ⟨.double, .fin 2, .fin 5⟩⟩]
    bounds := [⟨"y", ⟨.upper, .negInf, .fin 7⟩⟩, ⟨"z", ⟨.lower, .fin 0, .posInf⟩⟩]
    generals := ["y"], binaries := [], options := .none }

def rangedRows : Array (Row ℚ) :=
  #[⟨"band", ⟨#[some 0, some 1], #[⟨1, 1⟩, ⟨2, -2⟩]⟩, .double, .fin 2, .fin 5⟩]

def rangedProblem : Problem ℚ :=
  { name := "ranged", direction := .maximize
    columns := #[ranged.column "x", ranged.column "y"], rows := rangedRows }

def rangedAgainProblem : Problem ℚ :=
  { name := "ranged again", direction := .maximize
    columns := #[rangedAgain.column "x", rangedAgain.column "y", rangedAgain.column "z"]
    rows := rangedRows }

theorem build_ranged : (Problem.build ranged).value = .ok rangedProblem ∧
    (Problem.build rangedAgain).value = .ok rangedAgainProblem := by
  have hv : SparseVector.ofPairs 2 [(1, (1 : ℚ)), (2, -2)] =
      .ok ⟨#[some 0, some 1], #[⟨1, 1⟩, ⟨2, -2⟩]⟩ := by decide +kernel
  have hv' : SparseVector.ofPairs 2 [(1, (1 : ℚ)), (2, 1), (2, -3)] =
      .ok ⟨#[some 0, some 1], #[⟨1, 1⟩, ⟨2, -2⟩]⟩ := by decide +kernel
  -- the registry is a hash map over strings, which evaluation alone does not open
  simp [Problem.build, Problem.ofSpec, Draft.ofSpec, ranged, rangedAgain,
    Draft.addObjectiveTerm, Draft.modifyColumn, Draft.resolveColumn, Registry.findColumn?,
    Draft.empty, Registry.empty, Draft.addConstraint, Draft.resolveColumns, Draft.declareRow, bind,
    Except.bind, pure, Except.pure, Problem.addColumn, Problem.empty, Problem.numColumns,
    Problem.modifyColumn, Problem.addRow, Draft.addColumnBound, Draft.addGeneral, hv, hv',
    Std.HashMap.getElem_insert]
  decide +kernel

theorem writable_ranged : ranged.Writable ∧ rangedAgain.Writable := by
  have hnames : ∀ n ∈ ["x", "y", "z"], isLegalName n = true ∧ n.toList.head? ≠ some '~' := by
    decide
  have hmentions : (∀ n ∈ ranged.mentions, n ∈ ["x", "y", "z"]) ∧
      ∀ n ∈ rangedAgain.mentions, n ∈ ["x", "y", "z"] := by decide
  refine ⟨⟨by decide, ?_, ?_, fun n hn ↦ (hnames n (hmentions.1 n hn)).1,
    fun n hn ↦ ne_rangeName (hnames n (hmentions.1 n hn)).2⟩, ⟨by decide, ?_, ?_,
    fun n hn ↦ (hnames n (hmentions.2 n hn)).1,
    fun n hn ↦ ne_rangeName (hnames n (hmentions.2 n hn)).2⟩⟩ <;>
    simp [ranged, rangedAgain, Bounds.Finite, Extended.isFinite]

theorem write_determines_ranged :
    (Problem.build ranged).value = .ok rangedProblem ∧
      (Problem.build rangedAgain).value = .ok rangedAgainProblem ∧
      (write fraction rangedProblem).toList.dropWhile (· ≠ '\n') =
        (write fraction rangedAgainProblem).toList.dropWhile (· ≠ '\n') ∧
      rangedProblem ≠ rangedAgainProblem ∧ rangedProblem.SameModel rangedAgainProblem := by
  have htext : (write fraction rangedProblem).toList.dropWhile (· ≠ '\n') =
      (write fraction rangedAgainProblem).toList.dropWhile (· ≠ '\n') := by
    have hbody : bodyLines fraction rangedProblem = bodyLines fraction rangedAgainProblem := by
      decide +kernel
    rw [dropWhile_write fraction (by decide), dropWhile_write fraction (by decide), hbody]
  obtain ⟨hp, hq⟩ := build_ranged
  obtain ⟨hspec, hspec'⟩ := writable_ranged
  exact ⟨hp, hq, htext, by decide, write_determines legible_fraction hspec hspec' hp hq htext⟩

end LinProg.LpText
