import LinProg.Proofs.Rational
import LinProg.LpText

namespace LinProg

/-- Two sequences agree up to the first element without a property if each is cut there. -/
theorem append_cut {β : Type} {P : β → Prop} {a b s t : List β} (ha : ∀ x ∈ a, P x)
    (hb : ∀ x ∈ b, P x) (hs : ∀ x ∈ s.head?, ¬ P x) (ht : ∀ x ∈ t.head?, ¬ P x)
    (h : a ++ s = b ++ t) : a = b ∧ s = t := by
  induction a generalizing b with
  | nil =>
    cases b with
    | nil => exact ⟨rfl, h⟩
    | cons y b =>
      rw [List.nil_append] at h
      exact absurd (hb y List.mem_cons_self) (hs y (by rw [h]; rfl))
  | cons x a ih =>
    cases b with
    | nil =>
      rw [List.nil_append] at h
      exact absurd (ha x List.mem_cons_self) (ht x (by rw [← h]; rfl))
    | cons y b =>
      rw [List.cons_append, List.cons_append, List.cons.injEq] at h
      obtain ⟨rfl, htail⟩ := h
      obtain ⟨rfl, rfl⟩ := ih (fun z hz ↦ ha z (List.mem_cons_of_mem x hz))
        (fun z hz ↦ hb z (List.mem_cons_of_mem x hz)) htail
      exact ⟨rfl, rfl⟩

namespace LpText

/-- What the rest of the text relies on: number formatting that tells numbers apart and writes
digits, points, signs and exponents. -/
structure Legible (format : ℚ → String) : Prop where
  injective : Function.Injective format
  characters : ∀ x, ∀ c ∈ (format x).toList, c.isDigit ∨ c ∈ ['.', 'e', '-']

def IsWordChar (c : Char) : Prop := c ≠ ' ' ∧ c ≠ '\n' ∧ c ≠ ':'

instance (c : Char) : Decidable (IsWordChar c) := inferInstanceAs (Decidable (_ ∧ _))

def IsWord (w : String) : Prop := ∀ c ∈ w.toList, IsWordChar c

instance (w : String) : Decidable (IsWord w) := List.decidableBAll _ w.toList

def spaced (words : List String) : List Char := words.flatMap fun w ↦ ' ' :: w.toList

theorem spaced_cons (w : String) (words : List String) :
    spaced (w :: words) = ' ' :: (w.toList ++ spaced words) := rfl

theorem spaced_append (words words' : List String) :
    spaced (words ++ words') = spaced words ++ spaced words' := List.flatMap_append

theorem head?_spaced {words : List String} {c : Char} (h : c ∈ (spaced words).head?) : c = ' ' := by
  cases words with
  | nil => cases h
  | cons w words => exact (Option.some.inj h).symm

theorem mem_spaced {words : List String} {c : Char} (h : c ∈ spaced words) :
    c = ' ' ∨ ∃ w ∈ words, c ∈ w.toList := by
  obtain ⟨w, hw, hc⟩ := List.mem_flatMap.mp h
  exact (List.mem_cons.mp hc).imp_right fun hc ↦ ⟨w, hw, hc⟩

theorem spaced_injective {words words' : List String} (hwords : ∀ w ∈ words, IsWord w)
    (hwords' : ∀ w ∈ words', IsWord w) (h : spaced words = spaced words') : words = words' := by
  induction words generalizing words' with
  | nil =>
    cases words' with
    | nil => rfl
    | cons w words' => cases h
  | cons w words ih =>
    cases words' with
    | nil => cases h
    | cons w' words' =>
      rw [spaced_cons, spaced_cons, List.cons.injEq] at h
      have hblank (ws : List String) : ∀ c ∈ (spaced ws).head?, ¬ IsWordChar c := by
        intro c hc hword
        exact hword.1 (head?_spaced hc)
      obtain ⟨hw, htail⟩ := append_cut (hwords w List.mem_cons_self)
        (hwords' w' List.mem_cons_self) (hblank words) (hblank words') h.2
      rw [String.toList_injective hw, ih (fun u hu ↦ hwords u (List.mem_cons_of_mem w hu))
        (fun u hu ↦ hwords' u (List.mem_cons_of_mem w' hu)) htail]

section Characters

variable {format : ℚ → String}

theorem isWordChar_of_isDigit {c : Char} (h : c.isDigit) : IsWordChar c := by
  refine ⟨?_, ?_, ?_⟩ <;> rintro rfl <;> cases h

theorem Legible.isWord (h : Legible format) (x : ℚ) : IsWord (format x) := by
  intro c hc
  rcases h.characters x c hc with hdigit | hmark
  · exact isWordChar_of_isDigit hdigit
  · simp only [List.mem_cons, List.not_mem_nil, or_false] at hmark
    rcases hmark with rfl | rfl | rfl <;> decide

theorem Legible.ne_negInf (h : Legible format) (x : ℚ) : format x ≠ "-inf" := by
  intro hx
  have hi := h.characters x 'i' (by rw [hx]; decide)
  revert hi
  decide

theorem isWordChar_of_isNameChar {c : Char} (h : isNameChar c = true) : IsWordChar c := by
  refine ⟨?_, ?_, ?_⟩ <;> rintro rfl <;> revert h <;> decide

theorem all_of_isLegalName {name : String} (h : isLegalName name = true) :
    name.toList.all isNameChar = true := by
  unfold isLegalName at h
  cases hname : name.toList with
  | nil => rfl
  | cons first rest =>
    rw [hname] at h
    simp only [Bool.and_eq_true] at h
    exact h.1.1.1

theorem isWord_of_isLegalName {name : String} (h : isLegalName name = true) : IsWord name :=
  fun c hc ↦ isWordChar_of_isNameChar (List.all_eq_true.mp (all_of_isLegalName h) c hc)

theorem repr_injective {m n : ℕ} (h : (Nat.repr m).toList = (Nat.repr n).toList) : m = n := by
  rw [Nat.toList_repr, Nat.toList_repr] at h
  rw [← Nat.ofDigitChars_ten_toDigits (n := m), h, Nat.ofDigitChars_ten_toDigits]

theorem isDigit_of_mem_repr {n : ℕ} {c : Char} (h : c ∈ (Nat.repr n).toList) : c.isDigit := by
  rw [Nat.toList_repr] at h
  exact Nat.isDigit_of_mem_toDigits (by omega) le_rfl h

theorem rangeName_eq (index : ℕ) : rangeName index = "~r_" ++ Nat.repr index := rfl

theorem ne_rangeName {name : String} (h : name.toList.head? ≠ some '~') (index : ℕ) :
    name ≠ rangeName index := by
  rintro rfl
  rw [rangeName_eq, String.toList_append] at h
  exact h rfl

theorem isWord_append_repr {w : String} (h : IsWord w) (index : ℕ) :
    IsWord (w ++ Nat.repr index) := by
  intro c hc
  rw [String.toList_append, List.mem_append] at hc
  rcases hc with hc | hc
  · exact h c hc
  · exact isWordChar_of_isDigit (isDigit_of_mem_repr hc)

theorem isWord_rangeName (index : ℕ) : IsWord (rangeName index) :=
  isWord_append_repr (by decide : IsWord "~r_") index

theorem isWord_rowName (name : String) (index : ℕ) : IsWord (rowName name index) := by
  unfold rowName
  split_ifs with h
  · exact isWord_of_isLegalName h
  · exact isWord_append_repr (by decide : IsWord "r_") index

theorem rangeName_injective : Function.Injective rangeName := by
  intro i j h
  rw [rangeName_eq, rangeName_eq, String.append_right_inj] at h
  exact repr_injective (congrArg String.toList h)

end Characters

section Fraction

def fraction (x : ℚ) : String :=
  (if x.num < 0 then "-" else "") ++
    (Nat.repr x.num.natAbs ++ if x.den = 1 then "" else "e" ++ Nat.repr x.den)

theorem sign_chars (z : ℤ) : ∀ c ∈ (if z < 0 then "-" else "").toList, c = '-' := by
  split_ifs <;> simp

theorem denominator_chars (d : ℕ) :
    ∀ c ∈ (if d = 1 then "" else "e" ++ Nat.repr d).toList, c.isDigit ∨ c = 'e' := by
  intro c hc
  split_ifs at hc
  · cases hc
  · rw [String.toList_append] at hc
    rcases List.mem_append.mp hc with hc | hc
    · exact .inr (List.mem_singleton.mp hc)
    · exact .inl (isDigit_of_mem_repr hc)

theorem denominator_injective {d d' : ℕ}
    (h : (if d = 1 then "" else "e" ++ Nat.repr d).toList =
      (if d' = 1 then "" else "e" ++ Nat.repr d').toList) : d = d' := by
  split_ifs at h with hd hd' hd'
  · rw [hd, hd']
  · simp at h
  · simp at h
  · rw [String.toList_append, String.toList_append, List.append_cancel_left_eq] at h
    exact repr_injective h

theorem fraction_injective : Function.Injective fraction := by
  intro x y h
  have hchars := congrArg String.toList h
  simp only [fraction, String.toList_append] at hchars
  have hnumber (x : ℚ) : ∀ c ∈ ((Nat.repr x.num.natAbs).toList ++
      (if x.den = 1 then "" else "e" ++ Nat.repr x.den).toList).head?, c ≠ '-' := by
    intro c hc
    rcases List.mem_append.mp (List.mem_of_mem_head? hc) with hc | hc
    · rintro rfl
      exact absurd (isDigit_of_mem_repr hc) (by decide)
    · rintro rfl
      exact absurd (denominator_chars x.den _ hc) (by decide)
  have hexponent (x : ℚ) : ∀ c ∈ (if x.den = 1 then "" else "e" ++ Nat.repr x.den).toList.head?,
      ¬ c.isDigit = true := by
    intro c hc
    split_ifs at hc
    · cases hc
    · rw [String.toList_append] at hc
      obtain rfl := Option.some.inj hc
      decide
  obtain ⟨hsigns, hrest⟩ :=
    append_cut (sign_chars x.num) (sign_chars y.num) (hnumber x) (hnumber y) hchars
  obtain ⟨hdigits, hden⟩ := append_cut (fun c hc ↦ isDigit_of_mem_repr hc)
    (fun c hc ↦ isDigit_of_mem_repr hc) (hexponent x) (hexponent y) hrest
  have hnum : x.num = y.num := by
    have habs := repr_injective hdigits
    split_ifs at hsigns with hx hy hy
    · omega
    · exact absurd hsigns (by decide)
    · exact absurd hsigns (by decide)
    · omega
  exact Rat.ext hnum (denominator_injective hden)

theorem legible_fraction : Legible fraction := by
  refine ⟨fraction_injective, fun x c hc ↦ ?_⟩
  simp only [fraction, String.toList_append, List.mem_append] at hc
  rcases hc with hc | hc | hc
  · obtain rfl := sign_chars x.num c hc
    exact .inr (by decide)
  · exact .inl (isDigit_of_mem_repr hc)
  · refine (denominator_chars x.den c hc).imp_right ?_
    rintro rfl
    decide

end Fraction

def operators : List String := ["+", "-", ">=", "<=", "="]

theorem not_mem_operators_of_isLegalName {name : String} (h : isLegalName name = true) :
    name ∉ operators := by
  have hall := all_of_isLegalName h
  have hoperators : ∀ w ∈ operators, w.toList.all isNameChar = false := by decide
  intro hmem
  rw [hoperators name hmem] at hall
  cases hall

theorem not_mem_operators_rangeName (index : ℕ) : rangeName index ∉ operators := by
  intro h
  have hoperators : ∀ w ∈ operators, w.toList.head? ≠ some '~' := by decide
  exact ne_rangeName (hoperators _ h) index rfl

section Terms

variable (format : ℚ → String)

def sign (a : ℚ) : String := if a < 0 then "-" else "+"

def termWords (t : String × ℚ) : List String :=
  if |t.2| = 1 then [sign t.2, t.1] else [sign t.2, format |t.2|, t.1]

def termsWords (terms : List (String × ℚ)) : List String := terms.flatMap (termWords format)

theorem number_eq (x : ℚ) : number format x = format x := rfl

theorem spaced_term (name : String) (a : ℚ) :
    spaced [term format name a] = spaced (termWords format (name, a)) := by
  have habs : (Scalar.abs a == 1) = decide (|a| = 1) := by
    rw [Scalar.abs_rat]
    rfl
  unfold term termWords sign
  dsimp only
  rw [habs]
  by_cases h : |a| = 1
  · rw [if_pos h, if_pos (decide_eq_true h)]
    split_ifs <;> simp [spaced, ToString.toString]
  · rw [if_neg h, if_neg (by simpa using h), Scalar.abs_rat, number_eq]
    split_ifs <;> simp [spaced, ToString.toString]

theorem termsWords_cons (t : String × ℚ) (terms : List (String × ℚ)) :
    termsWords format (t :: terms) = termWords format t ++ termsWords format terms := rfl

theorem sign_mem_operators (a : ℚ) : sign a ∈ operators := by
  unfold sign
  split_ifs <;> decide

theorem head_termWords (t : String × ℚ) : (termWords format t).head? = some (sign t.2) := by
  unfold termWords
  split_ifs <;> rfl

theorem eq_of_sign_abs {a b : ℚ} (hsign : sign a = sign b) (habs : |a| = |b|) : a = b := by
  unfold sign at hsign
  rcases abs_eq_abs.mp habs with rfl | rfl
  · rfl
  · split_ifs at hsign with hneg hpos hpos
    · linarith
    · exact absurd hsign (by decide)
    · exact absurd hsign (by decide)
    · linarith

variable {format}

theorem head_termsWords_append {terms : List (String × ℚ)} {rest : List String}
    (hrest : ∀ w ∈ rest.head?, w ∈ operators) :
    ∀ w ∈ (termsWords format terms ++ rest).head?, w ∈ operators := by
  intro w hw
  cases terms with
  | nil => exact hrest w hw
  | cons t terms =>
    rw [termsWords_cons, List.append_assoc, List.head?_append, head_termWords] at hw
    obtain rfl := Option.some.inj hw
    exact sign_mem_operators t.2

theorem not_sign_of_relation {rest : List String} {a : ℚ}
    (hrest : ∀ w ∈ rest.head?, w ∈ [">=", "<=", "="]) : sign a ∉ rest.head? := by
  intro h
  have hmem := hrest _ h
  unfold sign at hmem
  split_ifs at hmem
  · exact absurd hmem (by decide)
  · exact absurd hmem (by decide)

/-- A word that might be a number or a name is told from the one behind it: no operator is a name,
and behind a term there is an operator. -/
theorem termWords_append_injective (hformat : Legible format) {t u : String × ℚ}
    {rest rest' : List String} (ht : t.1 ∉ operators) (hu : u.1 ∉ operators)
    (hrest : ∀ w ∈ rest.head?, w ∈ operators) (hrest' : ∀ w ∈ rest'.head?, w ∈ operators)
    (h : termWords format t ++ rest = termWords format u ++ rest') : t = u ∧ rest = rest' := by
  obtain ⟨n, a⟩ := t
  obtain ⟨m, b⟩ := u
  unfold termWords at h
  dsimp only at h
  split_ifs at h with ha hb hb <;>
    simp only [List.cons_append, List.nil_append, List.cons.injEq] at h
  · obtain ⟨hsign, rfl, htail⟩ := h
    rw [eq_of_sign_abs hsign (ha.trans hb.symm)]
    exact ⟨rfl, htail⟩
  · obtain ⟨-, -, rfl⟩ := h
    exact absurd (hrest m rfl) hu
  · obtain ⟨-, -, htail⟩ := h
    rw [← htail] at hrest'
    exact absurd (hrest' n rfl) ht
  · obtain ⟨hsign, hnumber, rfl, htail⟩ := h
    rw [eq_of_sign_abs hsign (hformat.injective hnumber)]
    exact ⟨rfl, htail⟩

theorem termsWords_append_injective (hformat : Legible format) {terms terms' : List (String × ℚ)}
    {rest rest' : List String} (hterms : ∀ t ∈ terms, t.1 ∉ operators)
    (hterms' : ∀ t ∈ terms', t.1 ∉ operators) (hrest : ∀ w ∈ rest.head?, w ∈ [">=", "<=", "="])
    (hrest' : ∀ w ∈ rest'.head?, w ∈ [">=", "<=", "="])
    (h : termsWords format terms ++ rest = termsWords format terms' ++ rest') :
    terms = terms' ∧ rest = rest' := by
  have hrelations : ∀ w ∈ [">=", "<=", "="], w ∈ operators := by decide
  induction terms generalizing terms' with
  | nil =>
    cases terms' with
    | nil => exact ⟨rfl, h⟩
    | cons u terms' =>
      refine absurd (?_ : sign u.2 ∈ rest.head?) (not_sign_of_relation hrest)
      rw [show rest = _ from h, termsWords_cons, List.append_assoc, List.head?_append,
        head_termWords]
      rfl
  | cons t terms ih =>
    cases terms' with
    | nil =>
      refine absurd (?_ : sign t.2 ∈ rest'.head?) (not_sign_of_relation hrest')
      rw [show rest' = _ from h.symm, termsWords_cons, List.append_assoc, List.head?_append,
        head_termWords]
      rfl
    | cons u terms' =>
      have hnext : ∀ w ∈ (termsWords format terms ++ rest).head?, w ∈ operators :=
        head_termsWords_append fun w hw ↦ hrelations w (hrest w hw)
      have hnext' : ∀ w ∈ (termsWords format terms' ++ rest').head?, w ∈ operators :=
        head_termsWords_append fun w hw ↦ hrelations w (hrest' w hw)
      rw [termsWords_cons, termsWords_cons, List.append_assoc, List.append_assoc] at h
      obtain ⟨rfl, htail⟩ := termWords_append_injective hformat (hterms t List.mem_cons_self)
        (hterms' u List.mem_cons_self) hnext hnext' h
      obtain ⟨rfl, rfl⟩ := ih (fun v hv ↦ hterms v (List.mem_cons_of_mem _ hv))
        (fun v hv ↦ hterms' v (List.mem_cons_of_mem _ hv)) htail
      exact ⟨rfl, rfl⟩

end Terms

end LpText

end LinProg
