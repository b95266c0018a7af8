import LinProg.Proofs.LpText.Words
import LinProg.Proofs.LpText.Writable

namespace LinProg.LpText

variable {α : Type}

def columnIdentifiers (p : Problem α) : List String :=
  p.columns.toList.zipIdx.map fun (c, j) ↦ columnName c.name (j + 1)

def rangeIdentifiers (p : Problem α) : List String :=
  p.rows.toList.zipIdx.filterMap fun (r, i) ↦
    if r.boundType = .double then some (rangeName (i + 1)) else none

def identifiers (p : Problem α) : List String := columnIdentifiers p ++ rangeIdentifiers p

theorem zip_columnIdentifiers (p : Problem α) :
    p.columns.toList.zip (columnIdentifiers p) =
      p.columns.toList.zipIdx.map fun (c, j) ↦ (c, columnName c.name (j + 1)) := by
  refine List.ext_getElem (by simp [columnIdentifiers]) fun i _ _ ↦ ?_
  simp [columnIdentifiers]

variable [Scalar α]

def bodyUnder (format : α → String) (p : Problem α) (names : List String) : List String :=
  let columns := p.columns.toList.zip names
  let rows := p.rows.toList.zipIdx.map fun (r, i) ↦ (r, i + 1)
  let kind (kind : ColumnKind) : List String :=
    columns.filterMap fun (c, name) ↦ if c.kind = kind then some (" " ++ name) else none
  [""] ++
  [match p.direction with | .minimize => "Minimize" | .maximize => "Maximize"] ++
  wrap " obj:" (expression format (columns.map (·.2)).toArray
    (nonzeros (columns.zipIdx.map fun ((c, _), j) ↦ (j + 1, c.objective)))) ++
  [""] ++
  titled "Subject To" (rows.flatMap fun (r, i) ↦
    rowLines format (columns.map (·.2)).toArray r i) ++
  titled "Bounds"
    (columns.filterMap (fun (c, name) ↦ columnBound format c name) ++
      rows.filterMap fun (r, i) ↦ rangeBound format r i) ++
  titled "Generals" (kind .integer) ++
  titled "Binaries" (kind .binary) ++
  ["End"]

theorem bodyLines_eq_bodyUnder (format : α → String) (p : Problem α) :
    bodyLines format p = bodyUnder format p (columnIdentifiers p) := by
  unfold bodyUnder
  rw [zip_columnIdentifiers]
  rfl

/-- What a column without a legal name is called. -/
def substitute (index : ℕ) : String := s!"x_{index}"

theorem columnName_of_legal {name : String} (h : isLegalName name = true) (index : ℕ) :
    columnName name index = name := if_pos h

theorem columnName_of_illegal {name : String} (h : isLegalName name = false) (index : ℕ) :
    columnName name index = substitute index := if_neg (by simp [h])

theorem substitute_injective : Function.Injective substitute := by
  intro i j h
  have happend : "x_" ++ Nat.repr i = "x_" ++ Nat.repr j := h
  rw [String.append_right_inj] at happend
  exact repr_injective (congrArg String.toList happend)

theorem substitute_ne_rangeName (i j : ℕ) : substitute i ≠ rangeName j := by
  refine ne_rangeName ?_ j
  rw [show substitute i = "x_" ++ Nat.repr i from rfl, String.toList_append]
  exact fun h ↦ absurd (Option.some.inj h) (by decide)

end LpText

/-- No column has the name that another variable is given for its place. -/
structure ProblemSpec.NamedApart {α : Type} (spec : ProblemSpec α) : Prop where
  substitutes : ∀ n ∈ spec.mentions, LpText.isLegalName n = true →
    ∀ m ∈ spec.mentions.eraseDups.zipIdx, LpText.isLegalName m.1 = false →
      n ≠ LpText.substitute (m.2 + 1)
  ranges : ∀ n ∈ spec.mentions, LpText.isLegalName n = true →
    ∀ c ∈ spec.subjectTo.zipIdx, c.1.bounds.type = .double → n ≠ LpText.rangeName (c.2 + 1)

namespace LpText

variable {α : Type}

theorem pairwise_zipIdx {β : Type} (xs : List β) : xs.zipIdx.Pairwise (·.2 ≠ ·.2) := by
  refine List.pairwise_map.mp (?_ : (xs.zipIdx.map Prod.snd).Nodup)
  rw [List.zipIdx_map_snd]
  exact List.nodup_range'

theorem nodup_columnNames_iff {names : List String} (hnames : names.Nodup) :
    (names.zipIdx.map fun m ↦ columnName m.1 (m.2 + 1)).Nodup ↔
      ∀ n ∈ names, isLegalName n = true → ∀ m ∈ names.zipIdx, isLegalName m.1 = false →
        n ≠ substitute (m.2 + 1) := by
  have hpairs : names.zipIdx.Nodup := (pairwise_zipIdx names).imp fun hne heq ↦ hne (by rw [heq])
  rw [List.nodup_map_iff_inj_on hpairs]
  constructor
  · intro h n hn hlegal m hm hillegal heq
    obtain ⟨j, hj⟩ := List.mem_iff_getElem?.mp hn
    have hsame := h (n, j) (List.mem_zipIdx_iff_getElem?.mpr hj) m hm
      (by rw [columnName_of_legal hlegal, columnName_of_illegal hillegal, heq])
    rw [← hsame, hlegal] at hillegal
    exact nomatch hillegal
  · intro h x hx y hy hxy
    have hx' := List.mem_zipIdx_iff_getElem?.mp hx
    have hy' := List.mem_zipIdx_iff_getElem?.mp hy
    have hmem {z : String × ℕ} (hz : z ∈ names.zipIdx) : z.1 ∈ names :=
      List.mem_of_getElem? (List.mem_zipIdx_iff_getElem?.mp hz)
    cases hlx : isLegalName x.1 <;> cases hly : isLegalName y.1
    · -- Two substitutes tell their places.
      rw [columnName_of_illegal hlx, columnName_of_illegal hly] at hxy
      have hplace : x.2 = y.2 := Nat.succ_injective (substitute_injective hxy)
      refine Prod.ext ?_ hplace
      rw [hplace, hy'] at hx'
      exact (Option.some.inj hx').symm
    · rw [columnName_of_illegal hlx, columnName_of_legal hly] at hxy
      exact absurd hxy.symm (h y.1 (hmem hy) hly x hx hlx)
    · rw [columnName_of_legal hlx, columnName_of_illegal hly] at hxy
      exact absurd hxy (h x.1 (hmem hx) hlx y hy hly)
    · rw [columnName_of_legal hlx, columnName_of_legal hly] at hxy
      refine Prod.ext hxy ?_
      obtain ⟨hi, hxi⟩ := List.getElem?_eq_some_iff.mp hx'
      obtain ⟨hj, hyj⟩ := List.getElem?_eq_some_iff.mp hy'
      exact hnames.getElem_inj_iff.mp (hxi.trans (hxy.trans hyj.symm))

theorem nodup_rangeIdentifiers (p : Problem α) : (rangeIdentifiers p).Nodup := by
  refine List.pairwise_filterMap.mpr ((pairwise_zipIdx p.rows.toList).imp ?_)
  rintro x y hne name hx _ hy rfl
  have hname {z : Row α × ℕ}
      (h : (if z.1.boundType = .double then some (rangeName (z.2 + 1)) else none) = some name) :
      rangeName (z.2 + 1) = name := by
    split at h
    · exact Option.some.inj h
    · exact nomatch h
  exact hne (Nat.succ_injective (rangeName_injective ((hname hx).trans (hname hy).symm)))

theorem mem_rangeIdentifiers {p : Problem α} {name : String} :
    name ∈ rangeIdentifiers p ↔
      ∃ t ∈ (p.rows.toList.map (·.boundType)).zipIdx,
        t.1 = .double ∧ name = rangeName (t.2 + 1) := by
  simp only [rangeIdentifiers, List.zipIdx_map, List.mem_filterMap, List.mem_map]
  constructor
  · rintro ⟨x, hx, hname⟩
    split at hname
    · next htype => exact ⟨_, ⟨x, hx, rfl⟩, htype, (Option.some.inj hname).symm⟩
    · exact nomatch hname
  · rintro ⟨-, ⟨x, hx, rfl⟩, htype, rfl⟩
    exact ⟨x, hx, if_pos htype⟩

/-- No two variables of a built problem share an identifier exactly if no column has the name that
another variable is given for its place. -/
theorem nodup_identifiers_iff [Scalar α] (spec : ProblemSpec α) :
    ∃ p : Problem α, (Problem.build spec).value = .ok p ∧
      (∀ format, bodyLines format p = bodyUnder format p (columnIdentifiers p)) ∧
      ((identifiers p).Nodup ↔ spec.NamedApart) := by
  obtain ⟨p, hp, -, -, hcolumns, hrows⟩ := Problem.exists_build spec
  refine ⟨p, hp, fun format ↦ bodyLines_eq_bodyUnder format p, ?_⟩
  have hidentifiers : columnIdentifiers p =
      spec.mentions.eraseDups.zipIdx.map fun m ↦ columnName m.1 (m.2 + 1) := by
    rw [columnIdentifiers, hcolumns, List.zipIdx_map, List.map_map]
    rfl
  have hnames := nodup_columnNames_iff (nodup_eraseDups spec.mentions)
  have hranged (name : String) : name ∈ rangeIdentifiers p ↔
      ∃ c ∈ spec.subjectTo.zipIdx, c.1.bounds.type = .double ∧ name = rangeName (c.2 + 1) := by
    have htypes : p.rows.toList.map (·.boundType) = spec.subjectTo.map (·.bounds.type) := by
      rw [← List.forall₂_eq_eq_eq, List.forall₂_map_left_iff, List.forall₂_map_right_iff]
      exact hrows.flip.imp fun _ _ h ↦ h.boundType
    rw [mem_rangeIdentifiers, htypes, List.zipIdx_map]
    simp only [List.mem_map, exists_exists_and_eq_and, Prod.map_fst, Prod.map_snd, id]
  rw [identifiers, List.nodup_append, hidentifiers, hnames]
  simp only [List.mem_eraseDups]
  constructor
  · rintro ⟨hsubstitutes, -, hapart⟩
    refine ⟨hsubstitutes, fun n hn hlegal c hc htype heq ↦ ?_⟩
    obtain ⟨j, hj⟩ := List.mem_iff_getElem?.mp (List.mem_eraseDups.mpr hn)
    refine hapart n (List.mem_map.mpr ⟨(n, j), List.mem_zipIdx_iff_getElem?.mpr hj, ?_⟩) n
      ((hranged n).mpr ⟨c, hc, htype, heq⟩) rfl
    exact columnName_of_legal hlegal _
  · intro h
    refine ⟨h.substitutes, nodup_rangeIdentifiers p, fun a ha b hb hab ↦ ?_⟩
    obtain ⟨m, hm, rfl⟩ := List.mem_map.mp ha
    obtain ⟨c, hc, htype, rfl⟩ := (hranged b).mp hb
    have hmem : m.1 ∈ spec.mentions :=
      List.mem_eraseDups.mp (List.mem_of_getElem? (List.mem_zipIdx_iff_getElem?.mp hm))
    cases hlegal : isLegalName m.1 with
    | true =>
      rw [columnName_of_legal hlegal] at hab
      exact h.ranges m.1 hmem hlegal c hc htype hab
    | false =>
      rw [columnName_of_illegal hlegal] at hab
      exact substitute_ne_rangeName _ _ hab

def homonyms (a b : ℚ) : ProblemSpec ℚ :=
  { name := "homonyms", objective := ⟨.minimize, [⟨"x_2", a⟩, ⟨"1st col", b⟩]⟩, subjectTo := []
    bounds := [], generals := [], binaries := [], options := .none }

def homonymsProblem (a b : ℚ) : Problem ℚ :=
  { name := "homonyms", direction := .minimize
    columns := #[(homonyms a b).column "x_2", (homonyms a b).column "1st col"], rows := #[] }

theorem build_homonyms (a b : ℚ) :
    (Problem.build (homonyms a b)).value = .ok (homonymsProblem a b) := by
  have hnames : (homonyms a b).mentions.eraseDups = ["x_2", "1st col"] := by
    change ["x_2", "1st col"].eraseDups = _
    decide
  rw [Problem.build_of_subjectTo_eq_nil rfl, hnames]
  rfl

/-- Two columns are written as one variable, and which of them it is the text does not tell. -/
theorem merged_homonyms :
    (Problem.build (homonyms 1 2)).value = .ok (homonymsProblem 1 2) ∧
      columnIdentifiers (homonymsProblem 1 2) = ["x_2", "x_2"] ∧
      ¬ (identifiers (homonymsProblem 1 2)).Nodup ∧
      " obj: + x_2 + 2 x_2" ∈ bodyLines fraction (homonymsProblem 1 2) ∧
      (Problem.build (homonyms 1 0)).value = .ok (homonymsProblem 1 0) ∧
      (Problem.build (homonyms 0 1)).value = .ok (homonymsProblem 0 1) ∧
      homonymsProblem 1 0 ≠ homonymsProblem 0 1 ∧
      write fraction (homonymsProblem 1 0) = write fraction (homonymsProblem 0 1) := by
  refine ⟨build_homonyms 1 2, by decide +kernel, by decide +kernel, by decide +kernel,
    build_homonyms 1 0, build_homonyms 0 1, by decide +kernel, ?_⟩
  have hbody : bodyLines fraction (homonymsProblem 1 0) =
      bodyLines fraction (homonymsProblem 0 1) := by decide +kernel
  rw [write, write, hbody]
  rfl

end LinProg.LpText
