import LinProg.Json.Lexer
import LinProg.Json.Printer
import LinProg.Proofs.Decimal.Shortest
import LinProg.Proofs.Json.NumberText

namespace LinProg.Json

theorem isDigit_iff (c : Char) : c.isDigit = true ↔ '0' ≤ c ∧ c ≤ '9' := by
  simp only [Char.isDigit, ge_iff_le, Bool.and_eq_true, decide_eq_true_eq]
  rfl

theorem digit?_of_isDigit {c : Char} (h : c.isDigit = true) :
    digit? c = some (c.toNat - '0'.toNat) :=
  if_pos ((isDigit_iff c).mp h)

theorem digit?_eq_none {c : Char} (h : c.isDigit = false) : digit? c = none :=
  if_neg fun hc ↦ Bool.false_ne_true (h.symm.trans ((isDigit_iff c).mpr hc))

theorem digit_ne_zero {c : Char} (h : c.isDigit = true) (hc : c ≠ '0') :
    c.toNat - '0'.toNat ≠ 0 := by
  have hge : '0'.toNat ≤ c.toNat := ((isDigit_iff c).mp h).1
  have hne : c.toNat ≠ '0'.toNat := fun h ↦ hc (Char.toNat_inj.mp h)
  omega

def digitsOf (cs : List Char) : List ℕ := cs.map fun c ↦ c.toNat - '0'.toNat

@[simp]
theorem length_digitsOf (cs : List Char) : (digitsOf cs).length = cs.length := List.length_map _

@[simp]
theorem digitsOf_append (cs cs' : List Char) :
    digitsOf (cs ++ cs') = digitsOf cs ++ digitsOf cs' := List.map_append

theorem spell_digitsOf (cs : List Char) : spell (digitsOf cs) = Nat.ofDigitChars 10 cs 0 := by
  rw [spell, digitsOf, List.foldl_map, Nat.ofDigitChars_eq_foldl]

@[simp]
theorem spell_digitsOf_toDigits (n : ℕ) : spell (digitsOf (Nat.toDigits 10 n)) = n := by
  rw [spell_digitsOf, Nat.ofDigitChars_ten_toDigits]

@[simp]
theorem spell_digitsOf_zeros (n : ℕ) : spell (digitsOf (NumberLayout.zeros n)) = 0 := by
  rw [spell_digitsOf, NumberLayout.zeros, Nat.ofDigitChars_replicate_zero, mul_zero]

namespace Lexer

theorem digits_append {cs rest : List Char} (hcs : ∀ c ∈ cs, c.isDigit = true)
    (hrest : ∀ c ∈ rest.head?, c.isDigit = false) (offset : ℕ) :
    digits (cs ++ rest) offset = ⟨digitsOf cs, rest, offset + cs.length⟩ := by
  induction cs generalizing offset with
  | nil =>
    cases rest with
    | nil => rfl
    | cons c rest =>
      rw [List.nil_append, digits, digit?_eq_none (hrest c rfl)]
      rfl
  | cons c cs ih =>
    rw [List.cons_append, digits, digit?_of_isDigit (hcs c List.mem_cons_self)]
    dsimp only
    rw [ih fun d hd ↦ hcs d (List.mem_cons_of_mem c hd)]
    simp [digitsOf, Nat.add_right_comm, Nat.add_assoc]

theorem someDigits_append {cs rest : List Char} (hne : cs ≠ [])
    (hcs : ∀ c ∈ cs, c.isDigit = true) (hrest : ∀ c ∈ rest.head?, c.isDigit = false)
    (offset : ℕ) :
    someDigits (cs ++ rest) offset = .ok ⟨digitsOf cs, rest, offset + cs.length⟩ := by
  have : (digitsOf cs).isEmpty = false := by simpa [digitsOf] using hne
  rw [someDigits, digits_append hcs hrest]
  dsimp only
  rw [this]
  rfl

end Lexer

/-- A number literal without its sign, in its parts. It has a point if there are digits behind the
point, and its exponent carries a sign. -/
structure Literal where
  whole : List Char
  fraction : List Char
  exponent : Option (Bool × List Char)
  whole_digits : ∀ c ∈ whole, c.isDigit = true
  whole_head : whole = ['0'] ∨ ∃ c cs, whole = c :: cs ∧ c ≠ '0'
  fraction_digits : ∀ c ∈ fraction, c.isDigit = true
  exponent_digits : ∀ p ∈ exponent, p.2 ≠ [] ∧ ∀ c ∈ p.2, c.isDigit = true

namespace Literal

variable (l : Literal)

def fractionText : List Char := if l.fraction.isEmpty then [] else '.' :: l.fraction

def exponentText : List Char :=
  match l.exponent with
  | none => []
  | some (down, ds) => 'e' :: (if down then '-' else '+') :: ds

def text : List Char := l.whole ++ (l.fractionText ++ l.exponentText)

/-- The literal is that of a scanned number. -/
structure Reads (negative : Bool) (t : NumberText) : Prop where
  negative : t.negative = negative
  whole : t.whole = digitsOf l.whole
  fraction : t.fraction = digitsOf l.fraction
  exponent : t.exponent.map (fun e ↦ (e.1, e.2.1)) = l.exponent.map fun p ↦ (p.1, digitsOf p.2)

end Literal

/-- A text that does not go on with a part of a number. -/
def Ends (rest : List Char) : Prop :=
  ∀ c ∈ rest.head?, c.isDigit = false ∧ c ≠ '.' ∧ c ≠ 'e' ∧ c ≠ 'E'

namespace Literal

variable {l : Literal} {rest : List Char}

theorem head_exponentText (hrest : Ends rest) :
    ∀ c ∈ (l.exponentText ++ rest).head?, c.isDigit = false ∧ c ≠ '.' := by
  intro c hc
  unfold exponentText at hc
  cases hexponent : l.exponent with
  | none =>
    rw [hexponent] at hc
    exact ⟨(hrest c hc).1, (hrest c hc).2.1⟩
  | some p =>
    rw [hexponent] at hc
    obtain rfl := Option.some.inj hc
    exact ⟨by decide, by decide⟩

theorem head_fractionText (hrest : Ends rest) :
    ∀ c ∈ (l.fractionText ++ (l.exponentText ++ rest)).head?, c.isDigit = false := by
  intro c hc
  unfold fractionText at hc
  split_ifs at hc
  · exact (head_exponentText hrest c hc).1
  · obtain rfl := Option.some.inj hc
    decide

theorem whole_text (hrest : Ends rest) (offset : ℕ) :
    Lexer.whole (l.text ++ rest) offset =
      .ok ⟨digitsOf l.whole, l.fractionText ++ (l.exponentText ++ rest),
        offset + l.whole.length⟩ := by
  have hne : l.whole ≠ [] := by
    rcases l.whole_head with h | ⟨c, cs, h, -⟩ <;> rw [h] <;> simp
  rw [Lexer.whole, text, List.append_assoc, List.append_assoc,
    Lexer.someDigits_append hne l.whole_digits (head_fractionText hrest)]
  rcases l.whole_head with h | ⟨c, cs, h, hc⟩
  · rw [h]
    rfl
  · have hdigit := l.whole_digits c (h ▸ List.mem_cons_self)
    obtain ⟨n, hn⟩ := Nat.exists_eq_succ_of_ne_zero (digit_ne_zero hdigit hc)
    have hdigits : digitsOf (c :: cs) = n.succ :: digitsOf cs := by rw [← hn]; rfl
    rw [h, hdigits]
    rfl

theorem fraction_text (hrest : Ends rest) (offset : ℕ) :
    Lexer.fraction (l.fractionText ++ (l.exponentText ++ rest)) offset =
      .ok ⟨digitsOf l.fraction, l.exponentText ++ rest, offset + l.fractionText.length⟩ := by
  have hhead := head_exponentText (l := l) hrest
  unfold fractionText
  split_ifs with h
  · rw [List.isEmpty_iff.mp h, List.nil_append]
    generalize l.exponentText ++ rest = cs at hhead ⊢
    unfold Lexer.fraction
    split
    · exact absurd rfl (hhead '.' rfl).2
    · rfl
  · rw [List.cons_append, Lexer.fraction, Lexer.someDigits_append (by simpa using h)
      l.fraction_digits fun c hc ↦ (hhead c hc).1]
    rw [List.length_cons, Nat.add_assoc, Nat.add_comm 1]

theorem exponent_text (hrest : Ends rest) (start offset : ℕ) :
    ∃ e : Option (Bool × List ℕ × ℕ),
      e.map (fun e ↦ (e.1, e.2.1)) = l.exponent.map (fun p ↦ (p.1, digitsOf p.2)) ∧
      Lexer.exponent start (l.exponentText ++ rest) offset =
        .ok ⟨e, rest, offset + l.exponentText.length⟩ := by
  unfold exponentText
  cases hexponent : l.exponent with
  | none =>
    refine ⟨none, rfl, ?_⟩
    dsimp only
    rw [List.nil_append]
    cases rest with
    | nil => rfl
    | cons c rest =>
      obtain ⟨-, -, he, hE⟩ := hrest c rfl
      rw [Lexer.exponent, if_neg (by simp [he, hE])]
      rfl
  | some p =>
    obtain ⟨down, ds⟩ := p
    obtain ⟨hne, hds⟩ := l.exponent_digits _ hexponent
    have hsign : Lexer.exponentSign ((if down then '-' else '+') :: (ds ++ rest)) (offset + 1) =
        ⟨down, ds ++ rest, offset + 1 + 1⟩ := by
      cases down <;> rfl
    refine ⟨some (down, digitsOf ds, offset + 1 + 1 - start), rfl, ?_⟩
    dsimp only
    rw [List.cons_append, List.cons_append, Lexer.exponent, if_pos (.inl rfl), hsign]
    dsimp only
    rw [Lexer.someDigits_append hne hds fun c hc ↦ (hrest c hc).1]
    simp [bind, Except.bind, pure, Except.pure]
    omega

theorem unsignedNumber_text (hrest : Ends rest) (negative : Bool) (start offset : ℕ) :
    ∃ t, l.Reads negative t ∧ Lexer.unsignedNumber start negative (l.text ++ rest) offset =
      .ok ⟨t, rest, offset + l.text.length⟩ := by
  obtain ⟨e, he, hexponent⟩ := exponent_text (l := l) hrest start
    (offset + l.whole.length + l.fractionText.length)
  refine ⟨{ negative, whole := digitsOf l.whole, fraction := digitsOf l.fraction, exponent := e
            size := offset + l.text.length - start }, ⟨rfl, rfl, rfl, he⟩, ?_⟩
  rw [Lexer.unsignedNumber, whole_text hrest]
  simp only [bind, Except.bind, pure, Except.pure]
  rw [fraction_text hrest]
  simp only
  rw [hexponent]
  simp [text, Nat.add_assoc]

def power (l : Literal) : ℤ :=
  match l.exponent with
  | none => 0
  | some (down, ds) => if down then -(spell (digitsOf ds) : ℤ) else spell (digitsOf ds)

def magnitude (l : Literal) : ℚ :=
  spell (digitsOf (l.whole ++ l.fraction)) * 10 ^ (l.power - l.fraction.length)

theorem Reads.magnitude_eq {negative : Bool} {t : NumberText} (h : l.Reads negative t) :
    t.magnitude = l.magnitude := by
  have hpower : t.power = l.power := by
    have hexponent := h.exponent
    unfold NumberText.power power
    cases ht : t.exponent with
    | none =>
      rw [ht, Option.map_none, eq_comm, Option.map_eq_none_iff] at hexponent
      rw [hexponent]
    | some e =>
      rw [ht, Option.map_some, eq_comm, Option.map_eq_some_iff] at hexponent
      obtain ⟨⟨down, ds⟩, hl, he⟩ := hexponent
      obtain ⟨rfl, hds⟩ := Prod.mk.inj he
      rw [hl]
      dsimp only
      rw [hds]
  rw [NumberText.magnitude, magnitude, hpower, h.whole, h.fraction, digitsOf_append,
    length_digitsOf]

/-- The literal stands for a double, has no more digits than are told apart, and no exponent that
is too large. -/
structure Short (l : Literal) : Prop where
  float : l.fraction ≠ [] ∨ l.exponent ≠ none
  length : (l.whole ++ l.fraction).length ≤ NumberText.digitLimit
  exponent : ∀ p ∈ l.exponent, spell (digitsOf p.2) < NumberText.exponentBound

theorem Reads.plain {negative : Bool} {t : NumberText} (h : l.Reads negative t) (hl : l.Short) :
    t.Plain := by
  refine ⟨?_, ?_, ?_⟩
  · rw [NumberText.int?, if_neg]
    rintro ⟨hfraction, hexponent⟩
    rcases hl.float with hf | he
    · rw [h.fraction] at hfraction
      exact hf (by simpa [digitsOf] using hfraction)
    · have := h.exponent
      rw [Option.isNone_iff_eq_none.mp hexponent, Option.map_none, eq_comm,
        Option.map_eq_none_iff] at this
      exact he this
  · rw [h.whole, h.fraction, ← digitsOf_append, length_digitsOf]
    exact hl.length
  · intro down ds lead ht
    have hexponent := h.exponent
    rw [ht, Option.map_some, eq_comm, Option.map_eq_some_iff] at hexponent
    obtain ⟨p, hp, he⟩ := hexponent
    obtain ⟨-, rfl⟩ := Prod.mk.inj he
    exact hl.exponent p hp

structure Writes (l : Literal) (text : List Char) (r : ℚ) : Prop where
  text : l.text = text
  magnitude : l.magnitude = r
  short : l.Short

end Literal

theorem toDigits_head {n : ℕ} (hn : 0 < n) : ∃ c cs, Nat.toDigits 10 n = c :: cs ∧ c ≠ '0' := by
  induction n using Nat.strongRecOn with
  | ind n ih =>
    by_cases h : n < 10
    · rw [Nat.toDigits_of_lt_base h]
      refine ⟨_, _, rfl, ?_⟩
      interval_cases n <;> decide
    · obtain ⟨c, cs, hdigits, hc⟩ := ih (n / 10) (by omega) (by omega)
      rw [Nat.toDigits_of_base_le (by decide) (not_lt.mp h), hdigits]
      exact ⟨c, cs ++ [(n % 10).digitChar], rfl, hc⟩

namespace Number

open NumberLayout

theorem isDigit_of_mem_zeros {n : ℕ} : ∀ c ∈ zeros n, c.isDigit = true := fun c hc ↦ by
  rw [List.eq_of_mem_replicate hc]
  decide

section Layout

variable {ds : List Char} {k : ℤ}

theorem writes_small (hds : ∀ c ∈ ds, c.isDigit = true) (hlength : ds.length ≤ 700)
    (hne : ds ≠ []) (hk : -5 ≤ k) (hneg : k < 0) :
    ∃ l : Literal, l.Writes (layout.positional ds k)
      (spell (digitsOf ds) * 10 ^ (k + 1 - ds.length)) := by
  have hzeros : (zeros (-k - 1).toNat).length = (-k - 1).toNat := List.length_replicate
  refine ⟨⟨['0'], zeros (-k - 1).toNat ++ ds, none, by simp, .inl rfl, ?_, by simp⟩, ?_, ?_, ?_⟩
  · intro c hc
    exact (List.mem_append.mp hc).elim (isDigit_of_mem_zeros c) (hds c)
  · rw [NumberLayout.positional, if_pos hneg]
    simp [Literal.text, Literal.fractionText, Literal.exponentText, hne]
  · simp only [Literal.magnitude, Literal.power, digitsOf_append, spell_append,
      spell_digitsOf_zeros, List.length_append, hzeros]
    rw [show (0 : ℤ) - ((-k - 1).toNat + ds.length : ℕ) = k + 1 - ds.length by omega]
    simp [digitsOf]
  · refine ⟨.inl (by simp [hne]), ?_, by simp⟩
    simp only [List.length_append, hzeros, NumberText.digitLimit, List.length_singleton]
    omega

theorem writes_point (hds : ∀ c ∈ ds, c.isDigit = true) (hlength : ds.length ≤ 700)
    (hhead : ∃ c cs, ds = c :: cs ∧ c ≠ '0') (hk : 0 ≤ k) (hpoint : k.toNat + 1 < ds.length) :
    ∃ l : Literal, l.Writes (layout.positional ds k)
      (spell (digitsOf ds) * 10 ^ (k + 1 - ds.length)) := by
  obtain ⟨c, cs, hcons, hc⟩ := hhead
  have hne : ds.drop (k.toNat + 1) ≠ [] := by simpa using hpoint
  refine ⟨⟨ds.take (k.toNat + 1), ds.drop (k.toNat + 1), none,
    fun c hc ↦ hds c (List.mem_of_mem_take hc), .inr ⟨c, cs.take k.toNat, ?_, hc⟩,
    fun c hc ↦ hds c (List.mem_of_mem_drop hc), by simp⟩, ?_, ?_, ?_⟩
  · rw [hcons, List.take_succ_cons]
  · rw [NumberLayout.positional, if_neg (not_lt.mpr hk), if_pos hpoint]
    simp [Literal.text, Literal.fractionText, Literal.exponentText, hpoint]
  · simp only [Literal.magnitude, Literal.power, List.take_append_drop, List.length_drop]
    congr 2
    omega
  · refine ⟨.inl hne, ?_, by simp⟩
    simp only [List.take_append_drop, NumberText.digitLimit]
    omega

theorem writes_integral (hds : ∀ c ∈ ds, c.isDigit = true)
    (hhead : ds = ['0'] ∧ k = 0 ∨ ∃ c cs, ds = c :: cs ∧ c ≠ '0') (hk : 0 ≤ k) (hlt : k < 16)
    (hpoint : ds.length ≤ k.toNat + 1) :
    ∃ l : Literal, l.Writes (layout.positional ds k)
      (spell (digitsOf ds) * 10 ^ (k + 1 - ds.length)) := by
  have hzeros : (zeros (k.toNat + 1 - ds.length)).length = k.toNat + 1 - ds.length :=
    List.length_replicate
  refine ⟨⟨ds ++ zeros (k.toNat + 1 - ds.length), ['0'], none, ?_, ?_, by simp, by simp⟩,
    ?_, ?_, ?_⟩
  · intro c hc
    exact (List.mem_append.mp hc).elim (hds c) (isDigit_of_mem_zeros c)
  · rcases hhead with ⟨rfl, rfl⟩ | ⟨c, cs, rfl, hc⟩
    · exact .inl rfl
    · exact .inr ⟨c, _, List.cons_append, hc⟩
  · rw [NumberLayout.positional, if_neg (not_lt.mpr hk), if_neg (not_lt.mpr hpoint)]
    simp [Literal.text, Literal.fractionText, Literal.exponentText, layout]
  · simp only [Literal.magnitude, Literal.power, digitsOf_append, spell_append,
      spell_digitsOf_zeros, length_digitsOf, hzeros, List.length_singleton]
    have hshift : k + 1 - ds.length = ((k.toNat + 1 - ds.length : ℕ) : ℤ) := by omega
    rw [hshift, zpow_natCast]
    simp [digitsOf]
  · refine ⟨.inl (by simp), ?_, by simp⟩
    simp only [List.length_append, hzeros, NumberText.digitLimit, List.length_singleton]
    omega

theorem writes_scientific (hds : ∀ c ∈ ds, c.isDigit = true) (hne : ds ≠ [])
    (hlength : ds.length ≤ 700) (hk : k.natAbs < NumberText.exponentBound) :
    ∃ l : Literal, l.Writes (layout.scientific ds k)
      (spell (digitsOf ds) * 10 ^ (k + 1 - ds.length)) := by
  obtain ⟨c, cs, rfl⟩ := List.exists_cons_of_ne_nil hne
  refine ⟨⟨[c], cs, some (decide (k < 0), Nat.toDigits 10 k.natAbs), ?_, ?_, ?_, ?_⟩, ?_, ?_, ?_⟩
  · intro d hd
    exact hds d (by rw [List.mem_singleton.mp hd]; exact List.mem_cons_self)
  · by_cases h : c = '0'
    · exact .inl (by rw [h])
    · exact .inr ⟨c, [], rfl, h⟩
  · exact fun d hd ↦ hds d (List.mem_cons_of_mem c hd)
  · rintro p hp
    obtain rfl := Option.some.inj hp
    exact ⟨Nat.toDigits_ne_nil, fun d hd ↦ Nat.isDigit_of_mem_toDigits (by decide) (by decide) hd⟩
  · rw [NumberLayout.scientific]
    by_cases hcs : cs = [] <;> by_cases hneg : k < 0 <;>
      simp [Literal.text, Literal.fractionText, Literal.exponentText, layout, hcs, hneg]
  · have hpower : (if decide (k < 0) then -(k.natAbs : ℤ) else k.natAbs) = k := by
      split_ifs with h
      · have := of_decide_eq_true h
        omega
      · have : ¬ k < 0 := fun hk ↦ h (decide_eq_true hk)
        omega
    simp only [Literal.magnitude, Literal.power, spell_digitsOf_toDigits, hpower,
      List.singleton_append, List.length_cons]
    congr 2
    omega
  · refine ⟨.inr (by simp), ?_, ?_⟩
    · simp only [List.singleton_append, NumberText.digitLimit]
      omega
    · rintro p hp
      obtain rfl := Option.some.inj hp
      simpa using hk

end Layout

theorem writes_unsigned {d : Decimal} (hd : 0 < d.digits ∨ d = ⟨0, 0⟩)
    (hlength : (Nat.toDigits 10 d.digits).length ≤ 700)
    (hsize : ((Nat.toDigits 10 d.digits).length + d.exponent - 1).natAbs <
      NumberText.exponentBound) :
    ∃ l : Literal, l.Writes (layout.unsigned d) d.value := by
  have hds : ∀ c ∈ Nat.toDigits 10 d.digits, c.isDigit = true := fun c hc ↦
    Nat.isDigit_of_mem_toDigits (by decide) (by decide) hc
  have hne : Nat.toDigits 10 d.digits ≠ [] := Nat.toDigits_ne_nil
  have hhead : (Nat.toDigits 10 d.digits = ['0'] ∧
      d.exponent + (Nat.toDigits 10 d.digits).length - 1 = 0) ∨
      ∃ c cs, Nat.toDigits 10 d.digits = c :: cs ∧ c ≠ '0' := by
    rcases hd with h | rfl
    · exact .inr (toDigits_head h)
    · exact .inl ⟨rfl, rfl⟩
  have hvalue : d.value = spell (digitsOf (Nat.toDigits 10 d.digits)) * 10 ^
      (d.exponent + (Nat.toDigits 10 d.digits).length - 1 + 1 -
        (Nat.toDigits 10 d.digits).length) := by
    rw [spell_digitsOf_toDigits, Decimal.value]
    congr 2
    ring
  rw [add_comm _ d.exponent] at hsize
  rw [hvalue, NumberLayout.unsigned]
  generalize Nat.toDigits 10 d.digits = ds at *
  generalize d.exponent + ds.length - 1 = k at *
  split_ifs with hplace
  · obtain ⟨hlow, hhigh⟩ : -5 ≤ k ∧ k < 16 := hplace
    by_cases hneg : k < 0
    · exact writes_small hds hlength hne hlow hneg
    · by_cases hpoint : k.toNat + 1 < ds.length
      · refine writes_point hds hlength (hhead.resolve_left ?_) (not_lt.mp hneg) hpoint
        rintro ⟨rfl, -⟩
        simp at hpoint
      · exact writes_integral hds hhead (not_lt.mp hneg) hhigh (not_lt.mp hpoint)
  · exact writes_scientific hds hne hlength hsize

/-- A finite double is written as its sign and a literal that is read as the double again. -/
theorem writes_finite {x : Float} (hx : Binary64.isFinite x = true) :
    ∃ l : Literal, l.Short ∧
      (float x).render = (if Binary64.isNegative x then ['-'] else []) ++ l.text ∧
      (Binary64.magnitudeBits x = 0 ∧ l.magnitude = 0 ∨ 0 < Binary64.magnitudeBits x ∧
        (Binary64.decode (Binary64.magnitudeBits x)).Covers l.magnitude) := by
  have hlt : Binary64.magnitudeBits x < Binary64.infinityBits := of_decide_eq_true hx
  have hrender : ∀ text, layout.unsigned
      (Decimal.shortest .toEven (Binary64.decode (Binary64.magnitudeBits x))) = text →
      (float x).render = (if Binary64.isNegative x then ['-'] else []) ++ text := by
    rintro _ rfl
    rw [render, NumberLayout.finite?, Binary64.magnitude?, if_pos hx]
    cases Binary64.isNegative x <;> rfl
  rcases Nat.eq_zero_or_pos (Binary64.magnitudeBits x) with hzero | hpos
  · have hshortest : Decimal.shortest .toEven (Binary64.decode (Binary64.magnitudeBits x)) =
        ⟨0, 0⟩ := by
      rw [hzero]
      rfl
    obtain ⟨l, htext, hmagnitude, hshort⟩ := writes_unsigned (d := ⟨0, 0⟩) (.inr rfl)
      (by decide) (by decide)
    refine ⟨l, hshort, hrender _ (by rw [hshortest, htext]), .inl ⟨hzero, ?_⟩⟩
    rw [hmagnitude, Decimal.value, Nat.cast_zero, zero_mul]
  · have hnormal := Binary64.normal_decode hpos hlt
    obtain ⟨hcovers, hexponent⟩ := Decimal.shortest_covers .toEven hnormal
    generalize Decimal.shortest .toEven (Binary64.decode (Binary64.magnitudeBits x)) = d at *
    -- the size of the number bounds its digits and its exponent
    have hdigits := hcovers.digits_pos hnormal
    obtain ⟨hlow, hhigh⟩ := toDigits_size hdigits (hcovers.lower hnormal) (hcovers.upper hnormal)
    obtain ⟨l, htext, hmagnitude, hshort⟩ := writes_unsigned (.inl hdigits) (by omega)
      (by unfold NumberText.exponentBound; omega)
    exact ⟨l, hshort, hrender _ htext.symm, .inr ⟨hpos, by rwa [hmagnitude]⟩⟩

def Readable : Number → Prop
  | int n => -int64Bound ≤ n ∧ n < nat64Bound
  | float x => Binary64.isFinite x = true

instance : (n : Number) → Decidable n.Readable
  | int _ => inferInstanceAs (Decidable (_ ∧ _))
  | float _ => inferInstanceAs (Decidable (_ = true))

def intLiteral (n : ℕ) : Literal where
  whole := Nat.toDigits 10 n
  fraction := []
  exponent := none
  whole_digits := fun _ hc ↦ Nat.isDigit_of_mem_toDigits (by decide) (by decide) hc
  whole_head := by
    rcases Nat.eq_zero_or_pos n with rfl | h
    · exact .inl rfl
    · exact .inr (toDigits_head h)
  fraction_digits := by simp
  exponent_digits := by simp

theorem int_value {n : ℤ} (hlow : -int64Bound ≤ n) (hhigh : n < nat64Bound) {t : NumberText}
    (ht : (intLiteral n.natAbs).Reads (decide (n < 0)) t) (start : ℕ) :
    t.value start = .ok (int n) := by
  have hint : t.int? = some n := by
    have hexponent := ht.exponent
    rw [show (intLiteral n.natAbs).exponent = none from rfl, Option.map_none,
      Option.map_eq_none_iff] at hexponent
    have hwhole : spell t.whole = n.natAbs := by
      rw [ht.whole]
      exact spell_digitsOf_toDigits _
    rw [NumberText.int?, ht.fraction, hexponent, if_pos ⟨rfl, rfl⟩, hwhole, ht.negative]
    dsimp only
    by_cases hneg : n < 0
    · have hnatAbs : -(n.natAbs : ℤ) = n := by omega
      rw [if_pos (decide_eq_true hneg), if_pos ⟨by omega, by omega⟩, hnatAbs]
    · have hnatAbs : (n.natAbs : ℤ) = n := by omega
      rw [if_neg (by simpa using hneg), if_pos (by omega), hnatAbs]
  rw [NumberText.value, hint]

/-- A number is written as a literal that is read as the number again. -/
theorem exists_literal {n : Number} (h : n.Readable) :
    ∃ (negative : Bool) (l : Literal), n.render = (if negative then ['-'] else []) ++ l.text ∧
      ∀ t, l.Reads negative t → ∀ start, t.value start = .ok n := by
  cases n with
  | int n =>
    refine ⟨decide (n < 0), intLiteral n.natAbs, ?_, fun t ht ↦ int_value h.1 h.2 ht⟩
    rw [render]
    by_cases hneg : n < 0 <;>
      simp [hneg, intLiteral, Literal.text, Literal.fractionText, Literal.exponentText]
  | float x =>
    obtain ⟨l, hshort, htext, hmagnitude⟩ := writes_finite h
    refine ⟨Binary64.isNegative x, l, htext, fun t ht ↦ ?_⟩
    rw [← ht.magnitude_eq] at hmagnitude
    exact NumberText.value_of_magnitude (ht.plain hshort) h ht.negative hmagnitude

end Number

end LinProg.Json
