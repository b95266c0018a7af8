import Mathlib.Data.Nat.Notation
import Mathlib.Tactic.SplitIfs
import LinProg.Json.Lexer
import LinProg.Json.Printer

namespace LinProg.Json

/-- An item of a written string that puts a character in front of what follows. -/
def StringItem.StandsFor (item : StringItem) (c : Char) : Prop :=
  ∀ ending rest offset done, ∃ offset',
    StringText.characters ending (item :: rest) offset done =
      StringText.characters ending rest offset' (c :: done)

namespace StringItem

theorem raw_standsFor (c : Char) : (raw c).StandsFor c := fun _ _ _ _ ↦ ⟨_, by
  rw [StringText.characters]⟩

theorem short_standsFor (c : Char) : (short c).StandsFor c := fun _ _ _ _ ↦ ⟨_, by
  rw [StringText.characters]⟩

theorem unit_standsFor {c : Char} (h : c.toNat < 0x20) : (unit c.toNat).StandsFor c :=
  fun ending rest offset done ↦ ⟨offset + 6, by
    have hlow : StringText.isLowSurrogate c.toNat = false := by
      simp [StringText.isLowSurrogate]
      omega
    have hhigh : StringText.isHighSurrogate c.toNat = false := by
      simp [StringText.isHighSurrogate]
      omega
    rw [StringText.characters.eq_def]
    dsimp only
    rw [hlow, hhigh, Char.ofNat_toNat]
    rfl⟩

end StringItem

namespace Lexer

theorem hexUnit?_hexDigit {n : ℕ} (h : n < 0x20) :
    hexUnit? '0' '0' (Text.hexDigit (n / 16)) (Text.hexDigit (n % 16)) = some n := by
  have : ∀ i : Fin 0x20, hexUnit? '0' '0' (Text.hexDigit (i.val / 16))
    (Text.hexDigit (i.val % 16)) = some i.val := by decide
  exact this ⟨n, h⟩

theorem string_raw {c : Char} (hquote : c ≠ '"') (hslash : c ≠ '\\') (hge : ¬ c.toNat < 0x20)
    (rest : List Char) (offset : ℕ) :
    string (c :: rest) offset = (string rest (offset + c.utf8Size)).addItem (.raw c) := by
  rw [string.eq_def]
  split
  case h_7 h =>
    obtain ⟨rfl, rfl⟩ := List.cons.inj h
    exact if_neg hge
  all_goals simp_all

theorem string_escape (c : Char) (rest : List Char) (offset : ℕ) :
    ∃ item offset', item.StandsFor c ∧
      string (Text.escape c ++ rest) offset = (string rest offset').addItem item := by
  unfold Text.escape
  split
  case h_8 hquote hslash _ _ _ _ _ =>
    split_ifs with h
    · refine ⟨_, offset + 6, StringItem.unit_standsFor h, ?_⟩
      simp only [List.cons_append, List.nil_append]
      rw [string, hexUnit?_hexDigit h]
    · exact ⟨_, _, StringItem.raw_standsFor c, string_raw hquote hslash h rest offset⟩
  all_goals exact ⟨_, _, StringItem.short_standsFor _, rfl⟩

/-- A quoted string is scanned up to its closing quote, and holds its characters. -/
theorem string_quoted (cs rest : List Char) (offset : ℕ) :
    ∃ items offset', string (cs.flatMap Text.escape ++ '"' :: rest) offset =
        ⟨⟨items, .quote⟩, rest, offset'⟩ ∧
      ∀ start done, StringText.characters .quote items start done = .ok (done.reverse ++ cs) := by
  induction cs generalizing offset with
  | nil =>
    refine ⟨[], offset + 1, rfl, fun start done ↦ ?_⟩
    rw [StringText.characters, List.append_nil]
  | cons c cs ih =>
    obtain ⟨item, next, hitem, hstring⟩ :=
      string_escape c (cs.flatMap Text.escape ++ '"' :: rest) offset
    obtain ⟨items, offset', hrest, hcharacters⟩ := ih next
    refine ⟨item :: items, offset', ?_, fun start done ↦ ?_⟩
    · rw [List.flatMap_cons, List.append_assoc, hstring, hrest]
      rfl
    · obtain ⟨start', hstart⟩ := hitem .quote items start done
      rw [hstart, hcharacters, List.reverse_cons, List.append_assoc, List.singleton_append]

end Lexer
end LinProg.Json
