import LinProg.Proofs.LpText.Lines
import LinProg.Proofs.LpText.Writable

namespace LinProg.LpText

variable (format : ℚ → String)

def expressionWords (first : Option String) : List (String × ℚ) → List String
  | [] => "0" :: first.toList
  | t :: terms => termsWords format (t :: terms)

/-- The range variable of a row, as a term behind the row's form. -/
def slack (r : Row ℚ) (index : ℕ) : List (String × ℚ) :=
  if r.boundType = .double then [(rangeName index, -1)] else []

def relationWords (r : Row ℚ) : List String :=
  match r.boundType with
  | .free => [">=", "-inf"]
  | .lower => [">=", bound format r.lower]
  | .upper => ["<=", bound format r.upper]
  | .double | .fixed => ["=", bound format r.lower]

def rowWords (names : List String) (r : Row ℚ) (index : ℕ) : List String :=
  expressionWords format names.head? (named names (nonzeros r.coefficients.toList)) ++
    (termsWords format (slack r index) ++ relationWords format r)

def rangeWords (r : Row ℚ) (index : ℕ) : Option (List String) :=
  if r.boundType = .double then
    some ["0", "<=", rangeName index, "<=", format (r.upper.toScalar - r.lower.toScalar)]
  else none

theorem spaced_terms (names : List String) (form : List (ℕ × ℚ)) :
    spaced (form.map fun (j, a) ↦ term format ((names.toArray[j - 1]?).getD "") a) =
      spaced (termsWords format (named names form)) := by
  induction form with
  | nil => rfl
  | cons e form ih =>
    obtain ⟨j, a⟩ := e
    rw [named, List.map_cons, List.map_cons, termsWords_cons, spaced_append, ← spaced_term,
      ← named, ← ih, ← spaced_append]
    simp only [List.getElem?_toArray]
    rfl

theorem spaced_expression (names : List String) (form : List (ℕ × ℚ)) :
    spaced (expression format names.toArray form) =
      spaced (expressionWords format names.head? (named names form)) := by
  cases form with
  | nil =>
    cases names with
    | nil => rfl
    | cons n names => simp [expression, expressionWords, named, spaced, ToString.toString]
  | cons e form => exact spaced_terms format names (e :: form)

theorem spaced_rowSide (r : Row ℚ) (index : ℕ) :
    spaced (rowSide format r index) =
      spaced (termsWords format (slack r index) ++ relationWords format r) := by
  have hrange : termWords format (rangeName index, -1) = ["-", rangeName index] := by
    simp [termWords, sign]
  unfold rowSide slack relationWords
  cases r.boundType with
  | free => rfl
  | lower | upper | fixed => simp [termsWords, spaced, ToString.toString]
  | double => simp [termsWords, spaced, hrange, ToString.toString]

theorem spaced_rowTerms (names : List String) (r : Row ℚ) (index : ℕ) :
    spaced (expression format names.toArray (nonzeros r.coefficients.toList) ++
      rowSide format r index) = spaced (rowWords format names r index) := by
  rw [rowWords, spaced_append, spaced_append, spaced_expression, spaced_rowSide]

section Words

variable {format} (hformat : Legible format)

include hformat in
theorem isWord_bound (x : Extended ℚ) : IsWord (bound format x) := by
  cases x with
  | negInf => exact (by decide : IsWord "-inf")
  | posInf => exact (by decide : IsWord "+inf")
  | fin x => exact hformat.isWord x

theorem isWord_sign (a : ℚ) : IsWord (sign a) := by
  unfold sign
  split_ifs <;> decide

include hformat in
theorem isWord_termsWords {terms : List (String × ℚ)} (h : ∀ t ∈ terms, IsWord t.1) :
    ∀ w ∈ termsWords format terms, IsWord w := by
  intro w hw
  obtain ⟨t, ht, hw⟩ := List.mem_flatMap.mp hw
  unfold termWords at hw
  split_ifs at hw <;> simp only [List.mem_cons, List.not_mem_nil, or_false] at hw
  · rcases hw with rfl | rfl
    · exact isWord_sign t.2
    · exact h t ht
  · rcases hw with rfl | rfl | rfl
    · exact isWord_sign t.2
    · exact hformat.isWord _
    · exact h t ht

include hformat in
theorem isWord_expressionWords {first : Option String} (hfirst : ∀ n ∈ first, IsWord n)
    {terms : List (String × ℚ)} (h : ∀ t ∈ terms, IsWord t.1) :
    ∀ w ∈ expressionWords format first terms, IsWord w := by
  cases terms with
  | nil =>
    intro w hw
    rcases List.mem_cons.mp hw with rfl | hw
    · decide
    · exact hfirst w (Option.mem_toList.mp hw)
  | cons t terms => exact isWord_termsWords hformat h

include hformat in
theorem isWord_relationWords (r : Row ℚ) : ∀ w ∈ relationWords format r, IsWord w := by
  have hoperator : IsWord ">=" ∧ IsWord "<=" ∧ IsWord "=" := by decide
  have hinf : IsWord "-inf" := by decide
  unfold relationWords
  cases r.boundType <;> simp [isWord_bound hformat, hoperator, hinf]

theorem head_relationWords (r : Row ℚ) :
    ∀ w ∈ (relationWords format r).head?, w ∈ [">=", "<=", "="] := by
  unfold relationWords
  cases r.boundType <;> simp

include hformat in
/-- A form and the terms and the relation behind it are told from their words. A form without terms
is told by its zero, which no sign is. -/
theorem expressionWords_append_injective {first first' : Option String}
    {form form' more more' : List (String × ℚ)} {rest rest' : List String}
    (hfirst : ∀ n ∈ first, n ∉ operators) (hfirst' : ∀ n ∈ first', n ∉ operators)
    (hterms : ∀ t ∈ form ++ more, t.1 ∉ operators)
    (hterms' : ∀ t ∈ form' ++ more', t.1 ∉ operators)
    (hrest : ∀ w ∈ rest.head?, w ∈ [">=", "<=", "="])
    (hrest' : ∀ w ∈ rest'.head?, w ∈ [">=", "<=", "="])
    (h : expressionWords format first form ++ (termsWords format more ++ rest) =
      expressionWords format first' form' ++ (termsWords format more' ++ rest')) :
    form ++ more = form' ++ more' ∧ rest = rest' := by
  have hrelations : ∀ w ∈ [">=", "<=", "="], w ∈ operators := by decide
  have hzero (a : ℚ) : sign a ≠ "0" := by
    unfold sign
    split_ifs <;> decide
  have hhead (first : Option String) (t : String × ℚ) (terms : List (String × ℚ))
      (words : List String) :
      (expressionWords format first (t :: terms) ++ words).head? = some (sign t.2) := by
    rw [expressionWords, termsWords_cons, List.append_assoc, List.head?_append, head_termWords]
    rfl
  cases form with
  | nil =>
    cases form' with
    | nil =>
      obtain ⟨-, htail⟩ := append_cut (P := (· ∉ operators))
        (fun n hn ↦ hfirst n (Option.mem_toList.mp hn))
        (fun n hn ↦ hfirst' n (Option.mem_toList.mp hn))
        (fun w hw ↦ not_not.mpr
          (head_termsWords_append (fun v hv ↦ hrelations v (hrest v hv)) w hw))
        (fun w hw ↦ not_not.mpr
          (head_termsWords_append (fun v hv ↦ hrelations v (hrest' v hv)) w hw))
        (List.cons.inj h).2
      exact termsWords_append_injective hformat hterms hterms' hrest hrest' htail
    | cons t' form' =>
      have hsign := congrArg List.head? h
      rw [hhead] at hsign
      exact absurd (Option.some.inj hsign).symm (hzero t'.2)
  | cons t form =>
    cases form' with
    | nil =>
      have hsign := congrArg List.head? h
      rw [hhead] at hsign
      exact absurd (Option.some.inj hsign) (hzero t.2)
    | cons t' form' =>
      rw [expressionWords, expressionWords, ← List.append_assoc, ← List.append_assoc, termsWords,
        termsWords, ← List.flatMap_append, termsWords, termsWords, ← List.flatMap_append] at h
      exact termsWords_append_injective hformat hterms hterms' hrest hrest' h

include hformat in
theorem bound_injective {x y : Extended ℚ} (hx : ∃ a, x = .fin a) (hy : ∃ b, y = .fin b)
    (h : bound format x = bound format y) : x = y := by
  obtain ⟨a, rfl⟩ := hx
  obtain ⟨b, rfl⟩ := hy
  rw [hformat.injective h]

include hformat in
theorem boundType_eq {r r' : Row ℚ} (hr : r.Bounded) (hr' : r'.Bounded) {index : ℕ}
    (hslack : slack r index = slack r' index)
    (hrelation : relationWords format r = relationWords format r') :
    r.boundType = r'.boundType := by
  have hlower (r : Row ℚ) (hr : r.Bounded) (htype : r.boundType = .lower) :
      bound format r.lower ≠ "-inf" := by
    obtain ⟨l, hl⟩ := hr (.ge, r.lower) (by simp [Row.sides, htype])
    rw [show r.lower = .fin l from hl]
    exact hformat.ne_negInf l
  have hl := hlower r hr
  have hl' := hlower r' hr'
  unfold slack at hslack
  unfold relationWords at hrelation
  cases htype : r.boundType <;> cases htype' : r'.boundType <;> simp_all

include hformat in
/-- The type of a row and its sides in force are told from what stands behind its form and from the
bounds of its range variable. -/
theorem sides_eq {r r' : Row ℚ} (hr : r.Bounded) (hr' : r'.Bounded) {index : ℕ}
    (hslack : slack r index = slack r' index)
    (hrelation : relationWords format r = relationWords format r')
    (hrange : rangeWords format r index = rangeWords format r' index) :
    r.boundType = r'.boundType ∧ r.effectiveBounds = r'.effectiveBounds := by
  have htype := boundType_eq hformat hr hr' hslack hrelation
  refine ⟨htype, ?_⟩
  unfold Row.Bounded Row.sides at hr hr'
  unfold relationWords at hrelation
  unfold rangeWords at hrange
  unfold Row.effectiveBounds BoundType.apply
  rw [← htype] at hr' hrelation hrange ⊢
  cases hcase : r.boundType with
  | free => rfl
  | lower | upper | fixed =>
    simp only [hcase, List.mem_singleton, forall_eq, List.cons.injEq, true_and, and_true]
      at hr hr' hrelation
    rw [bound_injective hformat hr hr' hrelation]
  | double =>
    simp only [hcase, List.forall_mem_cons, List.cons.injEq, true_and, and_true, if_true,
      Option.some_inj] at hr hr' hrelation hrange
    obtain ⟨hlower, ⟨u, hu⟩, -⟩ := hr
    obtain ⟨hlower', ⟨u', hu'⟩, -⟩ := hr'
    have hl := bound_injective hformat hlower hlower' hrelation
    have hwidth := hformat.injective hrange
    rw [hl, hu, hu', Extended.toScalar, Extended.toScalar] at hwidth
    rw [hl, hu, hu', sub_left_injective hwidth]

end Words

section Names

variable {format : ℚ → String} {p q : Problem ℚ}

theorem named_cases {names : List String} {form : List (ℕ × ℚ)} {t : String × ℚ}
    (h : t ∈ named names form) : t.1 ∈ names ∨ t.1 = "" := by
  obtain ⟨e, -, rfl⟩ := List.mem_map.mp h
  cases hname : names[e.1 - 1]? with
  | none => exact .inr (by simp [hname])
  | some n => exact .inl (by simpa [hname] using List.mem_of_getElem? hname)

theorem isWord_named (hp : p.Writable) (form : List (ℕ × ℚ)) :
    ∀ t ∈ named p.names form, IsWord t.1 := by
  intro t ht
  rcases named_cases ht with hmem | hempty
  · exact isWord_of_isLegalName (hp.legal t.1 hmem)
  · rw [hempty]
    decide

theorem named_not_mem_operators (hp : p.Writable) (form : List (ℕ × ℚ)) :
    ∀ t ∈ named p.names form, t.1 ∉ operators := by
  intro t ht
  rcases named_cases ht with hmem | hempty
  · exact not_mem_operators_of_isLegalName (hp.legal t.1 hmem)
  · rw [hempty]
    decide

theorem named_ne_rangeName (hp : p.Writable) (form : List (ℕ × ℚ)) (index : ℕ) :
    ∀ t ∈ named p.names form, t.1 ≠ rangeName index := by
  intro t ht
  rcases named_cases ht with hmem | hempty
  · exact hp.not_range t.1 hmem index
  · rw [hempty]
    exact ne_rangeName (by decide) index

theorem slack_name {r : Row ℚ} {index : ℕ} : ∀ t ∈ slack r index, t.1 = rangeName index := by
  unfold slack
  split_ifs
  · simp
  · simp

theorem head_names (hp : p.Writable) : ∀ n ∈ p.names.head?, isLegalName n = true :=
  fun n hn ↦ hp.legal n (List.mem_of_mem_head? hn)

theorem isWord_rowWords (hformat : Legible format) (hp : p.Writable) (r : Row ℚ) (index : ℕ) :
    ∀ w ∈ rowWords format p.names r index, IsWord w := by
  intro w hw
  rcases List.mem_append.mp hw with hw | hw
  · exact isWord_expressionWords hformat (fun n hn ↦ isWord_of_isLegalName (head_names hp n hn))
      (isWord_named hp _) w hw
  rcases List.mem_append.mp hw with hw | hw
  · refine isWord_termsWords hformat (fun t ht ↦ ?_) w hw
    rw [slack_name t ht]
    exact isWord_rangeName index
  · exact isWord_relationWords hformat r w hw

theorem rowWords_injective (hformat : Legible format) (hp : p.Writable) (hq : q.Writable)
    {r r' : Row ℚ} {index : ℕ}
    (h : rowWords format p.names r index = rowWords format q.names r' index) :
    named p.names (nonzeros r.coefficients.toList) =
        named q.names (nonzeros r'.coefficients.toList) ∧
      slack r index = slack r' index ∧ relationWords format r = relationWords format r' := by
  have hterms (p : Problem ℚ) (hp : p.Writable) (r : Row ℚ) :
      ∀ t ∈ named p.names (nonzeros r.coefficients.toList) ++ slack r index, t.1 ∉ operators := by
    intro t ht
    rcases List.mem_append.mp ht with ht | ht
    · exact named_not_mem_operators hp _ t ht
    · rw [slack_name t ht]
      exact not_mem_operators_rangeName index
  have hslack (r : Row ℚ) : ∀ t ∈ (slack r index).head?, ¬ t.1 ≠ rangeName index := by
    intro t ht
    exact not_not.mpr (slack_name t (List.mem_of_mem_head? ht))
  obtain ⟨hforms, hrelation⟩ := expressionWords_append_injective hformat
    (fun n hn ↦ not_mem_operators_of_isLegalName (head_names hp n hn))
    (fun n hn ↦ not_mem_operators_of_isLegalName (head_names hq n hn))
    (hterms p hp r) (hterms q hq r') (head_relationWords r) (head_relationWords r') h
  -- the range variable is told from the columns by its name
  obtain ⟨hform, hslack⟩ := append_cut (named_ne_rangeName hp _ index)
    (named_ne_rangeName hq _ index) (hslack r) (hslack r') hforms
  exact ⟨hform, hslack, hrelation⟩

end Names

end LinProg.LpText
