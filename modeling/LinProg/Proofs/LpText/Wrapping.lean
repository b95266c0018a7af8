import LinProg.Proofs.LpText.Lines

namespace LinProg.LpText

def joined (terms : List String) : String := String.join (terms.map (" " ++ ·))

@[simp]
theorem joined_nil : joined [] = "" := rfl

@[simp]
theorem joined_cons (term : String) (terms : List String) :
    joined (term :: terms) = " " ++ term ++ joined terms := String.join_cons

theorem toList_joined (terms : List String) : (joined terms).toList = spaced terms := by
  rw [joined, String.toList_join, List.flatMap_map, spaced]
  exact congrArg (List.flatMap · terms) (funext fun term ↦ String.toList_append)

theorem join_wrap (head : String) (terms : List String) :
    String.join (wrap head terms) = head ++ joined terms := by
  apply String.toList_injective
  rw [String.toList_join, wrap, flatMap_wrapFrom, String.toList_append, toList_joined]

def groupLines (line : String) (first : List String) (groups : List (List String)) :
    List String := (line ++ joined first) :: groups.map joined

/-- How terms are cut into groups, those for a line begun and those for the further lines. -/
structure Grouped (line : String) (terms first : List String) (groups : List (List String)) :
    Prop where
  terms : terms = first ++ groups.flatten
  ne_nil : ∀ group ∈ groups, group ≠ []
  first_fits : first = [] ∨ (line ++ joined first).utf8ByteSize ≤ lineWidth
  fits : ∀ group ∈ groups, group.length = 1 ∨ (joined group).utf8ByteSize ≤ lineWidth
  full : ∀ (i : ℕ) (l term : String), (groupLines line first groups)[i]? = some l →
    (groups[i]?).bind List.head? = some term →
      lineWidth < l.utf8ByteSize + 1 + term.utf8ByteSize

namespace Grouped

variable {line term : String} {terms first : List String} {groups : List (List String)}

theorem nil (line : String) : Grouped line [] [] [] where
  terms := rfl
  ne_nil := fun _ h ↦ nomatch h
  first_fits := .inl rfl
  fits := fun _ h ↦ nomatch h
  full := fun _ _ _ _ h ↦ nomatch h

/-- A term for which a line has no room starts the next one. -/
theorem start (hroom : lineWidth < line.utf8ByteSize + 1 + term.utf8ByteSize)
    (h : Grouped (" " ++ term) terms first groups) :
    Grouped line (term :: terms) [] ((term :: first) :: groups) where
  terms := congrArg (term :: ·) h.terms
  ne_nil := List.forall_mem_cons.mpr ⟨List.cons_ne_nil _ _, h.ne_nil⟩
  first_fits := .inl rfl
  fits := by
    refine List.forall_mem_cons.mpr ⟨?_, h.fits⟩
    rw [joined_cons]
    exact h.first_fits.imp_left fun hfirst ↦ by rw [hfirst, List.length_singleton]
  full := by
    intro i l t hl ht
    cases i with
    | zero =>
      obtain rfl : line = l := by simpa [groupLines] using hl
      obtain rfl := Option.some.inj ht
      exact hroom
    | succ i =>
      refine h.full i l t ?_ ht
      rwa [groupLines, List.getElem?_cons_succ, List.map_cons, joined_cons] at hl

theorem extend (hroom : (line ++ " " ++ term).utf8ByteSize ≤ lineWidth)
    (h : Grouped (line ++ " " ++ term) terms first groups) :
    Grouped line (term :: terms) (term :: first) groups := by
  have hline : line ++ joined (term :: first) = line ++ " " ++ term ++ joined first := by
    simp only [joined_cons, String.append_assoc]
  have hfits : (line ++ " " ++ term ++ joined first).utf8ByteSize ≤ lineWidth := by
    rcases h.first_fits with rfl | hfirst
    · simpa using hroom
    · exact hfirst
  exact
    { terms := congrArg (term :: ·) h.terms
      ne_nil := h.ne_nil
      first_fits := .inr (by rwa [hline])
      fits := h.fits
      full := by
        rw [groupLines, hline]
        exact h.full }

theorem mem_lines (h : Grouped line terms first groups) {l : String}
    (hl : l ∈ groupLines line first groups) :
    l.utf8ByteSize ≤ lineWidth ∨ l = line ∨ ∃ term ∈ terms, l = " " ++ term := by
  rcases List.mem_cons.mp hl with rfl | hl
  · rcases h.first_fits with rfl | hfits
    · exact .inr (.inl String.append_empty)
    · exact .inl hfits
  · obtain ⟨group, hgroup, rfl⟩ := List.mem_map.mp hl
    rcases h.fits group hgroup with hone | hfits
    · obtain ⟨term, rfl⟩ := List.length_eq_one_iff.mp hone
      have hterm : term ∈ groups.flatten :=
        List.mem_flatten.mpr ⟨[term], hgroup, List.mem_singleton_self term⟩
      exact .inr (.inr ⟨term, h.terms ▸ List.mem_append_right first hterm, by simp⟩)
    · exact .inl hfits

theorem empty_not_mem_lines (h : Grouped line terms first groups) (hline : line ≠ "") :
    "" ∉ groupLines line first groups := by
  intro hl
  rcases List.mem_cons.mp hl with hfirst | hl
  · exact hline (String.append_eq_empty_iff.mp hfirst.symm).1
  · obtain ⟨group, hgroup, hempty⟩ := List.mem_map.mp hl
    obtain ⟨term, rest, rfl⟩ := List.exists_cons_of_ne_nil (h.ne_nil group hgroup)
    simp at hempty

end Grouped

theorem exists_grouped (line : String) (terms : List String) :
    ∃ first groups, wrapFrom line terms = groupLines line first groups ∧
      Grouped line terms first groups := by
  induction terms generalizing line with
  | nil => exact ⟨[], [], by simp [wrapFrom, groupLines], .nil line⟩
  | cons term terms ih =>
    unfold wrapFrom
    split_ifs with hroom
    · obtain ⟨first, groups, hlines, h⟩ := ih (" " ++ term)
      refine ⟨[], (term :: first) :: groups, ?_, h.start hroom⟩
      simp [hlines, groupLines]
    · obtain ⟨first, groups, hlines, h⟩ := ih (line ++ " " ++ term)
      refine ⟨term :: first, groups, ?_, h.extend ?_⟩
      · rw [hlines]
        simp [groupLines, String.append_assoc]
      · have hblank : " ".utf8ByteSize = 1 := rfl
        rw [String.utf8ByteSize_append, String.utf8ByteSize_append, hblank]
        omega

/-- An expression is wrapped without loss, and only where it must be. -/
theorem wrap_breaks_when_full (head : String) (terms : List String) :
    String.join (wrap head terms) = head ++ joined terms ∧
      (∃ first groups, wrap head terms = groupLines head first groups ∧
        Grouped head terms first groups) ∧
      (∀ line ∈ wrap head terms, line.utf8ByteSize ≤ lineWidth ∨ line = head ∨
        ∃ term ∈ terms, line = " " ++ term) ∧
      (head ≠ "" → "" ∉ wrap head terms) := by
  obtain ⟨first, groups, hlines, h⟩ := exists_grouped head terms
  refine ⟨join_wrap head terms, ⟨first, groups, hlines, h⟩, fun line hline ↦ ?_, fun hhead ↦ ?_⟩
  · rw [wrap, hlines] at hline
    exact h.mem_lines hline
  · rw [wrap, hlines]
    exact h.empty_not_mem_lines hhead

/-- Terms of which one fills a line to its last byte and one is longer than a line. -/
def boundaryTerms : List String :=
  [String.ofList (List.replicate 66 'a'), "+ b", String.ofList (List.replicate 90 'c'), "- d"]

theorem wrap_breaks_when_full_boundary :
    " obj:" ≠ "" ∧ "" ∉ wrap " obj:" boundaryTerms ∧
      (wrap " obj:" boundaryTerms).map String.utf8ByteSize = [72, 4, 91, 4] :=
  ⟨by decide, (wrap_breaks_when_full " obj:" boundaryTerms).2.2.2 (by decide), by decide⟩

end LinProg.LpText
