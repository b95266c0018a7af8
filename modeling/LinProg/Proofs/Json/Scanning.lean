import LinProg.Proofs.Json.Literal
import LinProg.Proofs.Json.Strings

namespace LinProg.Json

/-- What a token stands for, without its place and its spelling. -/
inductive Piece where
  | mark (kind : TokenKind)
  | text (s : String)
  | number (n : Number)

def Token.Stands (t : Token) : Piece → Prop
  | .mark kind => t.kind = kind
  | .text s => ∃ text, t.kind = .string text ∧ text.value t.start = .ok s
  | .number n => ∃ text, t.kind = .number text ∧ text.value t.start = .ok n

/-- A text is cut into tokens that stand for given pieces. -/
def Scans (text : List Char) (pieces : List Piece) : Prop :=
  ∀ offset fuel, text.length ≤ fuel →
    List.Forall₂ Token.Stands (Lexer.tokensFrom fuel text offset) pieces

namespace Scans

variable {c : Char} {cs rest text : List Char} {piece : Piece} {pieces : List Piece}

theorem nil : Scans [] [] := fun offset fuel _ ↦ by
  cases fuel <;> exact .nil

theorem blank (hblank : isBlank c = true) (h : Scans text pieces) : Scans (c :: text) pieces := by
  intro offset fuel hfuel
  obtain ⟨fuel, rfl⟩ := Nat.exists_eq_succ_of_ne_zero (Nat.ne_zero_of_lt hfuel)
  rw [Lexer.tokensFrom, if_pos hblank]
  exact h _ fuel (Nat.le_of_succ_le_succ hfuel)

theorem cons (hblank : isBlank c = false)
    (htoken : ∀ offset, ∃ kind offset', Lexer.token c cs offset = ⟨kind, rest, offset'⟩ ∧
      Token.Stands ⟨offset, kind⟩ piece)
    (hlength : rest.length ≤ cs.length) (h : Scans rest pieces) :
    Scans (c :: cs) (piece :: pieces) := by
  intro offset fuel hfuel
  obtain ⟨fuel, rfl⟩ := Nat.exists_eq_succ_of_ne_zero (Nat.ne_zero_of_lt hfuel)
  obtain ⟨kind, offset', hkind, hstands⟩ := htoken offset
  rw [Lexer.tokensFrom, if_neg (by rw [hblank]; decide), hkind]
  exact .cons hstands (h _ fuel (hlength.trans (Nat.le_of_succ_le_succ hfuel)))

theorem mark {kind : TokenKind} (hblank : isBlank c = false)
    (hmark : ∀ offset, Lexer.token c text offset = ⟨kind, text, offset + 1⟩)
    (h : Scans text pieces) : Scans (c :: text) (.mark kind :: pieces) :=
  cons hblank (fun offset ↦ ⟨_, _, hmark offset, rfl⟩) le_rfl h

theorem quote (s : String) (h : Scans text pieces) :
    Scans (Text.quote s ++ text) (.text s :: pieces) := by
  have hquote : Text.quote s ++ text = '"' :: (s.toList.flatMap Text.escape ++ '"' :: text) := by
    simp [Text.quote]
  rw [hquote]
  refine cons (by decide) (fun offset ↦ ?_) (by simp; omega) h
  obtain ⟨items, offset', hstring, hcharacters⟩ :=
    Lexer.string_quoted s.toList text (offset + 1)
  refine ⟨.string ⟨items, .quote⟩, offset', ?_, ⟨items, .quote⟩, rfl, ?_⟩
  · simp only [Lexer.token]
    rw [hstring]
  · rw [StringText.value, hcharacters]
    simp [bind, Except.bind, pure, Except.pure]

end Scans

theorem token_of_isDigit {c : Char} (h : c.isDigit = true) (cs : List Char) (offset : ℕ) :
    Lexer.token c cs offset = Lexer.number offset false (c :: cs) offset := by
  unfold Lexer.token
  split
  case h_12 => rw [if_pos (by rw [digit?_of_isDigit h]; rfl)]
  all_goals exact absurd h (by decide)

theorem isBlank_of_isDigit {c : Char} (h : c.isDigit = true) : isBlank c = false := by
  simp only [isBlank, Bool.or_eq_false_iff, beq_eq_false_iff_ne, ne_eq]
  refine ⟨⟨⟨?_, ?_⟩, ?_⟩, ?_⟩ <;>
  · rintro rfl
    exact absurd h (by decide)

theorem Literal.exists_digit (l : Literal) : ∃ c cs, l.text = c :: cs ∧ c.isDigit = true := by
  rcases l.whole_head with h | ⟨c, cs, h, -⟩
  · exact ⟨'0', _, by rw [text, h]; rfl, by decide⟩
  · exact ⟨c, _, by rw [text, h]; rfl, l.whole_digits c (h ▸ List.mem_cons_self)⟩

theorem Scans.number {n : Number} (hn : n.Readable) {text : List Char} {pieces : List Piece}
    (hends : Ends text) (h : Scans text pieces) :
    Scans (n.render ++ text) (.number n :: pieces) := by
  obtain ⟨negative, l, hrender, hvalue⟩ := Number.exists_literal hn
  have hnumber : ∀ start offset, ∃ t, l.Reads negative t ∧
      Lexer.number start negative (l.text ++ text) offset =
        ⟨.number t, text, offset + l.text.length⟩ := by
    intro start offset
    obtain ⟨t, ht, hscanned⟩ := l.unsignedNumber_text hends negative start offset
    exact ⟨t, ht, by rw [Lexer.number, hscanned]⟩
  rw [hrender, List.append_assoc]
  cases negative with
  | true =>
    refine Scans.cons (by decide) (fun offset ↦ ?_) (by simp) h
    obtain ⟨t, ht, hscanned⟩ := hnumber offset (offset + 1)
    exact ⟨_, _, hscanned, t, rfl, hvalue t ht offset⟩
  | false =>
    obtain ⟨c, cs, htext, hc⟩ := l.exists_digit
    simp only [htext] at hnumber
    rw [if_neg (by decide), List.nil_append, htext, List.cons_append]
    refine Scans.cons (isBlank_of_isDigit hc) (fun offset ↦ ?_) (by simp) h
    obtain ⟨t, ht, hscanned⟩ := hnumber offset offset
    exact ⟨_, _, (token_of_isDigit hc _ offset).trans hscanned, t, rfl, hvalue t ht offset⟩

namespace Value

def separator (first : Bool) : List Piece := if first then [] else [.mark .comma]

mutual

def pieces : Value → List Piece
  | null => [.mark .null]
  | bool b => [.mark (.bool b)]
  | number n => [.number n]
  | string s => [.text s]
  | array vs => .mark .openList :: (itemPieces true vs ++ [.mark .closeList])
  | object members => .mark .openObject :: (memberPieces true members ++ [.mark .closeObject])

def itemPieces (first : Bool) : List Value → List Piece
  | [] => []
  | v :: vs => separator first ++ (v.pieces ++ itemPieces false vs)

def memberPieces (first : Bool) : List (String × Value) → List Piece
  | [] => []
  | (key, v) :: members =>
    separator first ++ (.text key :: .mark .colon :: (v.pieces ++ memberPieces false members))

end

mutual

def Readable : Value → Prop
  | number n => n.Readable
  | array vs => ItemsReadable vs
  | object members => MembersReadable members
  | _ => True

def ItemsReadable : List Value → Prop
  | [] => True
  | v :: vs => v.Readable ∧ ItemsReadable vs

def MembersReadable : List (String × Value) → Prop
  | [] => True
  | (_, v) :: members => v.Readable ∧ MembersReadable members

end

theorem membersReadable_iff {members : List (String × Value)} :
    MembersReadable members ↔ ∀ m ∈ members, m.2.Readable := by
  induction members with
  | nil => simp [MembersReadable]
  | cons m members ih => simp [MembersReadable, ih]

section Spacing

variable {spacing : Spacing} {depth : ℕ} {text : List Char} {ps : List Piece}

theorem scans_line (h : Scans text ps) : Scans (spacing.line depth ++ text) ps := by
  cases spacing with
  | compact => exact h
  | pretty =>
    refine Scans.blank (by decide) ?_
    induction 2 * depth with
    | zero => exact h
    | succ n ih => exact Scans.blank (by decide) ih

theorem scans_colon (h : Scans text ps) :
    Scans (spacing.colon ++ text) (.mark .colon :: ps) := by
  cases spacing with
  | compact => exact Scans.mark (by decide) (fun _ ↦ rfl) h
  | pretty =>
    exact Scans.mark (by decide) (fun _ ↦ rfl) (Scans.blank (by decide) h)

theorem ends_cons {c : Char} (h : c.isDigit = false ∧ c ≠ '.' ∧ c ≠ 'e' ∧ c ≠ 'E') :
    Ends (c :: text) := by
  rintro _ ⟨⟩
  exact h

theorem ends_line (h : Ends text) : Ends (spacing.line depth ++ text) := by
  cases spacing with
  | compact => exact h
  | pretty => exact ends_cons (by decide)

theorem ends_items (vs : List Value) (h : Ends text) :
    Ends (renderItems spacing depth vs ++ text) := by
  cases vs with
  | nil => exact h
  | cons v vs =>
    rw [renderItems]
    exact ends_cons (by decide)

theorem ends_members (members : List (String × Value)) (h : Ends text) :
    Ends (renderMembers spacing depth members ++ text) := by
  cases members with
  | nil => exact h
  | cons m members =>
    rw [renderMembers]
    exact ends_cons (by decide)

end Spacing

mutual

theorem scans_render (spacing : Spacing) {text : List Char} {ps : List Piece}
    (hends : Ends text) (h : Scans text ps) :
    ∀ (v : Value) (depth : ℕ), v.Readable →
      Scans (render spacing depth v ++ text) (v.pieces ++ ps)
  | null, _, _ => by
    rw [render]
    exact Scans.cons (by decide) (fun _ ↦ ⟨_, _, rfl, rfl⟩) (by simp; omega) h
  | bool true, _, _ => by
    rw [render]
    exact Scans.cons (by decide) (fun _ ↦ ⟨_, _, rfl, rfl⟩) (by simp; omega) h
  | bool false, _, _ => by
    rw [render]
    exact Scans.cons (by decide) (fun _ ↦ ⟨_, _, rfl, rfl⟩) (by simp; omega) h
  | number n, _, hv => by
    rw [render]
    exact Scans.number hv hends h
  | string s, _, _ => by
    rw [render]
    exact Scans.quote s h
  | array [], _, _ => by
    rw [render]
    exact Scans.mark (by decide) (fun _ ↦ rfl) (Scans.mark (by decide) (fun _ ↦ rfl) h)
  | array (v :: vs), depth, hv => by
    obtain ⟨hv, hvs⟩ : v.Readable ∧ ItemsReadable vs := hv
    -- from the closing bracket to the front
    have hclose : Scans (spacing.line depth ++ ']' :: text) (.mark .closeList :: ps) :=
      scans_line (Scans.mark (by decide) (fun _ ↦ rfl) h)
    have hends' : Ends (spacing.line depth ++ ']' :: text) := ends_line (ends_cons (by decide))
    have hrest := scans_items spacing hends' hclose vs (depth + 1) hvs
    have hfirst := scans_render spacing (ends_items vs hends') hrest v (depth + 1) hv
    rw [render, pieces, itemPieces]
    simp only [List.cons_append, List.append_assoc, List.nil_append]
    exact Scans.mark (by decide) (fun _ ↦ rfl) (scans_line hfirst)
  | object [], _, _ => by
    rw [render]
    exact Scans.mark (by decide) (fun _ ↦ rfl) (Scans.mark (by decide) (fun _ ↦ rfl) h)
  | object ((key, v) :: members), depth, hv => by
    obtain ⟨hv, hmembers⟩ : v.Readable ∧ MembersReadable members := hv
    have hclose : Scans (spacing.line depth ++ '}' :: text) (.mark .closeObject :: ps) :=
      scans_line (Scans.mark (by decide) (fun _ ↦ rfl) h)
    have hends' : Ends (spacing.line depth ++ '}' :: text) := ends_line (ends_cons (by decide))
    have hrest := scans_members spacing hends' hclose members (depth + 1) hmembers
    have hfirst := scans_render spacing (ends_members members hends') hrest v (depth + 1) hv
    rw [render, pieces, memberPieces]
    simp only [List.cons_append, List.append_assoc, List.nil_append]
    exact Scans.mark (by decide) (fun _ ↦ rfl) (scans_line (Scans.quote key (scans_colon hfirst)))

theorem scans_items (spacing : Spacing) {text : List Char} {ps : List Piece}
    (hends : Ends text) (h : Scans text ps) :
    ∀ (vs : List Value) (depth : ℕ), ItemsReadable vs →
      Scans (renderItems spacing depth vs ++ text) (itemPieces false vs ++ ps)
  | [], _, _ => h
  | v :: vs, depth, hv => by
    obtain ⟨hv, hvs⟩ : v.Readable ∧ ItemsReadable vs := hv
    have hrest := scans_items spacing hends h vs depth hvs
    have hfirst := scans_render spacing (ends_items vs hends) hrest v depth hv
    rw [renderItems, itemPieces]
    simp only [List.cons_append, List.append_assoc]
    exact Scans.mark (by decide) (fun _ ↦ rfl) (scans_line hfirst)

theorem scans_members (spacing : Spacing) {text : List Char} {ps : List Piece}
    (hends : Ends text) (h : Scans text ps) :
    ∀ (members : List (String × Value)) (depth : ℕ), MembersReadable members →
      Scans (renderMembers spacing depth members ++ text) (memberPieces false members ++ ps)
  | [], _, _ => h
  | (key, v) :: members, depth, hv => by
    obtain ⟨hv, hmembers⟩ : v.Readable ∧ MembersReadable members := hv
    have hrest := scans_members spacing hends h members depth hmembers
    have hfirst := scans_render spacing (ends_members members hends) hrest v depth hv
    rw [renderMembers, memberPieces]
    simp only [List.cons_append, List.append_assoc]
    exact Scans.mark (by decide) (fun _ ↦ rfl) (scans_line (Scans.quote key (scans_colon hfirst)))

end

/-- The tokens of a written value are those of its pieces, however it is spaced. -/
theorem stands_tokens {v : Value} (hv : v.Readable) (spacing : Spacing) :
    List.Forall₂ Token.Stands (Lexer.tokens (v.toText spacing).toList) v.pieces := by
  have hends : Ends [] := fun _ h ↦ nomatch h
  have h := scans_render spacing hends Scans.nil v 0 hv
  rw [List.append_nil, List.append_nil] at h
  rw [toText, String.toList_ofList]
  exact h 0 _ le_rfl

end Value

end LinProg.Json
