import LinProg.Proofs.LpText.Words

namespace LinProg

/-- Blocks that each start with an element with a property, and have no further one, are told apart
in the sequence they make up. -/
theorem eq_of_flatten_eq {β : Type} {P : β → Prop} {bs cs : List (List β)}
    (hbs : ∀ b ∈ bs, ∃ x rest, b = x :: rest ∧ P x ∧ ∀ y ∈ rest, ¬ P y)
    (hcs : ∀ c ∈ cs, ∃ x rest, c = x :: rest ∧ P x ∧ ∀ y ∈ rest, ¬ P y)
    (h : bs.flatten = cs.flatten) : bs = cs := by
  have hstart (ds : List (List β))
      (hds : ∀ d ∈ ds, ∃ x rest, d = x :: rest ∧ P x ∧ ∀ y ∈ rest, ¬ P y) :
      ∀ y ∈ ds.flatten.head?, ¬¬ P y := by
    intro y hy
    cases ds with
    | nil => cases hy
    | cons d ds =>
      obtain ⟨x, rest, rfl, hx, -⟩ := hds d List.mem_cons_self
      obtain rfl := Option.some.inj hy
      exact not_not.mpr hx
  induction bs generalizing cs with
  | nil =>
    cases cs with
    | nil => rfl
    | cons c cs =>
      obtain ⟨x, rest, rfl, -, -⟩ := hcs c List.mem_cons_self
      cases h
  | cons b bs ih =>
    obtain ⟨x, rest, rfl, -, hrest⟩ := hbs b List.mem_cons_self
    cases cs with
    | nil => cases h
    | cons c cs =>
      obtain ⟨y, rest', rfl, -, hrest'⟩ := hcs c List.mem_cons_self
      have hbs' := fun b hb ↦ hbs b (List.mem_cons_of_mem _ hb)
      have hcs' := fun c hc ↦ hcs c (List.mem_cons_of_mem _ hc)
      rw [List.flatten_cons, List.flatten_cons, List.cons_append, List.cons_append,
        List.cons.injEq] at h
      obtain ⟨rfl, htail⟩ := append_cut hrest hrest' (hstart bs hbs') (hstart cs hcs') h.2
      rw [h.1, ih hbs' hcs' htail]

namespace LpText

def Indented (line : String) : Prop := line.toList.head? = some ' '

theorem indented_append {line : String} (h : Indented line) (more : String) :
    Indented (line ++ more) := by
  unfold Indented at h ⊢
  rw [String.toList_append, List.head?_append, h]
  rfl

theorem flatMap_wrapFrom (line : String) (terms : List String) :
    (wrapFrom line terms).flatMap String.toList = line.toList ++ spaced terms := by
  induction terms generalizing line with
  | nil => simp [wrapFrom, spaced]
  | cons term terms ih =>
    unfold wrapFrom
    split_ifs
    · rw [List.flatMap_cons, ih, String.toList_append, spaced_cons]
      rfl
    · rw [ih, String.toList_append, String.toList_append, spaced_cons, List.append_assoc,
        List.append_assoc]
      rfl

/-- The first line of an expression starts with its head; the further ones hold terms only. -/
theorem wrapFrom_cons (line : String) (terms : List String) :
    ∃ more rest, wrapFrom line terms = (line ++ more) :: rest ∧
      ∀ l ∈ rest, Indented l ∧ ∀ c ∈ l.toList, c ∈ spaced terms := by
  induction terms generalizing line with
  | nil => exact ⟨"", [], by simp [wrapFrom], by simp⟩
  | cons term terms ih =>
    have hterm : ∀ c ∈ (" " ++ term).toList, c ∈ spaced (term :: terms) := by
      intro c hc
      rw [spaced_cons, ← List.cons_append]
      exact List.mem_append_left _ (by simpa using hc)
    have hterms : ∀ c ∈ spaced terms, c ∈ spaced (term :: terms) := by
      intro c hc
      rw [spaced_cons, ← List.cons_append]
      exact List.mem_append_right _ hc
    unfold wrapFrom
    split_ifs
    · refine ⟨"", wrapFrom (" " ++ term) terms, by rw [String.append_empty], fun l hl ↦ ⟨?_, ?_⟩⟩
      · obtain ⟨more, rest, hwrap, hrest⟩ := ih (" " ++ term)
        rw [hwrap] at hl
        rcases List.mem_cons.mp hl with rfl | hl
        · rw [String.append_assoc]
          exact indented_append (show Indented " " from rfl) _
        · exact (hrest l hl).1
      · intro c hc
        have hmem := List.mem_flatMap.mpr ⟨l, hl, hc⟩
        rw [flatMap_wrapFrom, List.mem_append] at hmem
        exact hmem.elim (hterm c) (hterms c)
    · obtain ⟨more, rest, hwrap, hrest⟩ := ih (line ++ " " ++ term)
      refine ⟨" " ++ term ++ more, rest, ?_, fun l hl ↦ ⟨(hrest l hl).1, fun c hc ↦ ?_⟩⟩
      · rw [hwrap]
        simp only [String.append_assoc]
      · exact hterms c ((hrest l hl).2 c hc)

theorem indented_wrap {head : String} (h : Indented head) {terms : List String} {l : String}
    (hl : l ∈ wrap head terms) : Indented l := by
  obtain ⟨more, rest, hwrap, hrest⟩ := wrapFrom_cons head terms
  rw [wrap, hwrap] at hl
  rcases List.mem_cons.mp hl with rfl | hl
  · exact indented_append h more
  · exact (hrest l hl).1

theorem mem_wrap {head : String} {terms : List String} {l : String} (hl : l ∈ wrap head terms)
    {c : Char} (hc : c ∈ l.toList) : c ∈ head.toList ∨ c ∈ spaced terms := by
  rw [← List.mem_append, ← flatMap_wrapFrom]
  exact List.mem_flatMap.mpr ⟨l, hl, hc⟩

theorem not_mem_spaced {words : List String} (h : ∀ w ∈ words, IsWord w) {c : Char}
    (hc : c = '\n' ∨ c = ':') : c ∉ spaced words := by
  intro hmem
  rcases mem_spaced hmem with rfl | ⟨w, hw, hcw⟩
  · revert hc
    decide
  · obtain ⟨-, hnewline, hcolon⟩ := h w hw c hcw
    exact hc.elim hnewline hcolon

theorem eq_of_unlines_eq {lines lines' : List String} (hlines : ∀ l ∈ lines, '\n' ∉ l.toList)
    (hlines' : ∀ l ∈ lines', '\n' ∉ l.toList) (h : unlines lines = unlines lines') :
    lines = lines' := by
  have hcons (l : String) (ls : List String) :
      (unlines (l :: ls)).toList = l.toList ++ '\n' :: (unlines ls).toList := by
    simp [unlines]
  have hmark (rest : List Char) : ∀ c ∈ ('\n' :: rest).head?, ¬ c ≠ '\n' := by
    intro c hc
    obtain rfl := Option.some.inj hc
    exact not_not.mpr rfl
  induction lines generalizing lines' with
  | nil =>
    cases lines' with
    | nil => rfl
    | cons l' lines' =>
      have hempty := congrArg String.toList h
      rw [hcons] at hempty
      simp [unlines] at hempty
  | cons l lines ih =>
    cases lines' with
    | nil =>
      have hempty := congrArg String.toList h
      rw [hcons] at hempty
      simp [unlines] at hempty
    | cons l' lines' =>
      have hchars := congrArg String.toList h
      rw [hcons, hcons] at hchars
      obtain ⟨hl, htail⟩ := append_cut (P := (· ≠ '\n'))
        (fun c hc hnewline ↦ hlines l List.mem_cons_self (hnewline ▸ hc))
        (fun c hc hnewline ↦ hlines' l' List.mem_cons_self (hnewline ▸ hc))
        (hmark _) (hmark _) hchars
      rw [String.toList_injective hl, ih (fun k hk ↦ hlines k (List.mem_cons_of_mem l hk))
        (fun k hk ↦ hlines' k (List.mem_cons_of_mem l' hk))
        (String.toList_injective (List.cons.inj htail).2)]

section

variable {α : Type} [Scalar α]

theorem toList_write (format : α → String) (p : Problem α) :
    (write format p).toList =
      (headLine p.name).toList ++ '\n' :: (unlines (bodyLines format p)).toList := by
  simp [write, unlines]

theorem ne_newline_of_not_mem {cs : List Char} (h : '\n' ∉ cs) :
    ∀ c ∈ cs, decide (c ≠ '\n') = true :=
  fun _ hc ↦ decide_eq_true fun heq ↦ h (heq ▸ hc)

theorem not_mem_headLine {name : String} (hname : '\n' ∉ name.toList) :
    '\n' ∉ (headLine name).toList := by
  rw [headLine, String.toList_append, String.toList_append, List.mem_append, List.mem_append]
  rintro ((hc | hc) | hc)
  · exact absurd hc (by decide)
  · exact hname hc
  · exact absurd hc (by decide)

theorem dropWhile_write (format : α → String) {p : Problem α} (hname : '\n' ∉ p.name.toList) :
    (write format p).toList.dropWhile (· ≠ '\n') =
      '\n' :: (unlines (bodyLines format p)).toList := by
  rw [toList_write,
    List.dropWhile_append_of_pos (ne_newline_of_not_mem (not_mem_headLine hname))]
  rfl

end

theorem indented_of_toList {line : String} {words : List String} (hne : words ≠ [])
    (h : line.toList = spaced words) : Indented line := by
  cases words with
  | nil => exact absurd rfl hne
  | cons w words =>
    rw [Indented, h]
    rfl

/-- A section and what follows it are told apart. -/
theorem titled_append_injective {title : String} {lines lines' rest rest' : List String}
    (hlines : ∀ l ∈ lines, Indented l) (hlines' : ∀ l ∈ lines', Indented l)
    (hrest : title ∉ rest.head?) (hrest' : title ∉ rest'.head?)
    (h : titled title lines ++ rest = titled title lines' ++ rest') :
    lines = lines' ∧ rest = rest' := by
  have hempty (more : List String) : ∀ l ∈ ("" :: more).head?, ¬ Indented l := by
    intro l hl
    obtain rfl := Option.some.inj hl
    exact nofun
  unfold titled at h
  split_ifs at h with hnil hnil' hnil'
  · rw [List.isEmpty_iff] at hnil hnil'
    exact ⟨hnil.trans hnil'.symm, h⟩
  · rw [List.nil_append] at h
    exact absurd (by rw [h]; rfl) hrest
  · rw [List.nil_append] at h
    exact absurd (by rw [← h]; rfl) hrest'
  · simp only [List.cons_append, List.append_assoc, List.cons.injEq, true_and,
      List.nil_append] at h
    obtain ⟨hsame, htail⟩ := append_cut hlines hlines' (hempty rest) (hempty rest') h
    exact ⟨hsame, (List.cons.inj htail).2⟩

theorem head_titled_append {title : String} {lines rest : List String} {l : String}
    (h : l ∈ (titled title lines ++ rest).head?) : l = title ∨ l ∈ rest.head? := by
  unfold titled at h
  split_ifs at h
  · exact .inr h
  · exact .inl (Option.some.inj h).symm

end LpText

end LinProg
