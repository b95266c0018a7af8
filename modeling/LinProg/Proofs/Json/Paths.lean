import Mathlib.Data.List.TakeWhile
import LinProg.Json.Path

namespace LinProg.Json

namespace PathStep

def keyChar (c : Char) : Bool := c != '.' && c != '['

/-- Whether the step can be told in a text from the one that follows it. -/
def isPlain : PathStep → Bool
  | key name => name.toList.all keyChar
  | index _ => true

def chars : PathStep → List Char
  | key name => '.' :: name.toList
  | index i => '[' :: (Nat.toDigits 10 i ++ [']'])

end PathStep

namespace Path

def readSteps : List Char → Option Path
  | [] => some []
  | '.' :: text =>
    (readSteps (text.dropWhile PathStep.keyChar)).map
      (.key (String.ofList (text.takeWhile PathStep.keyChar)) :: ·)
  | '[' :: text =>
    match _h : text.dropWhile Char.isDigit with
    | ']' :: rest =>
      (readSteps rest).map (.index (Nat.ofDigitChars 10 (text.takeWhile Char.isDigit) 0) :: ·)
    | _ => none
  | _ => none
termination_by text => text.length
decreasing_by
  · exact Nat.lt_succ_of_le (List.length_dropWhile_le _ _)
  · have hle := List.length_dropWhile_le Char.isDigit text
    rw [_h, List.length_cons] at hle
    exact Nat.lt_succ_of_lt hle

def ofText? (text : String) : Option Path :=
  match text.toList with
  | '$' :: steps => readSteps steps
  | _ => none

theorem toList_toText (path : Path) : path.toText.toList = '$' :: path.flatMap PathStep.chars := by
  have hfold (path : Path) (text : String) :
      (path.foldl (fun text step ↦
        match step with
        | .key name => text ++ "." ++ name
        | .index i => text ++ "[" ++ toString i ++ "]") text).toList =
      text.toList ++ path.flatMap PathStep.chars := by
    induction path generalizing text with
    | nil => simp
    | cons step path ih =>
      rw [List.foldl_cons, ih, List.flatMap_cons]
      cases step with
      | key name => simp [PathStep.chars]
      | index i => simp [PathStep.chars]
  exact hfold path "$"

theorem takeWhile_keyChar (path : Path) :
    (path.flatMap PathStep.chars).takeWhile PathStep.keyChar = [] ∧
      (path.flatMap PathStep.chars).dropWhile PathStep.keyChar = path.flatMap PathStep.chars := by
  cases path with
  | nil => exact ⟨rfl, rfl⟩
  | cons step path => cases step <;> exact ⟨rfl, rfl⟩

theorem readSteps_chars {path : Path} (h : ∀ step ∈ path, step.isPlain = true) :
    readSteps (path.flatMap PathStep.chars) = some path := by
  induction path with
  | nil => simp [readSteps]
  | cons step path ih =>
    obtain ⟨hstep, hpath⟩ := List.forall_mem_cons.mp h
    cases step with
    | key name =>
      obtain ⟨htake, hdrop⟩ := takeWhile_keyChar path
      have hname : ∀ c ∈ name.toList, PathStep.keyChar c = true := List.all_eq_true.mp hstep
      rw [List.flatMap_cons, PathStep.chars, List.cons_append, readSteps,
        List.takeWhile_append_of_pos hname, List.dropWhile_append_of_pos hname, htake, hdrop,
        ih hpath]
      simp
    | index i =>
      have hdigits : ∀ c ∈ Nat.toDigits 10 i, c.isDigit = true := fun c hc ↦
        Nat.isDigit_of_mem_toDigits (by decide) (by decide) hc
      have htail : (Nat.toDigits 10 i ++ [']'] ++ path.flatMap PathStep.chars).dropWhile
          Char.isDigit = ']' :: path.flatMap PathStep.chars := by
        rw [List.append_assoc, List.dropWhile_append_of_pos hdigits]
        rfl
      have hhead : (Nat.toDigits 10 i ++ [']'] ++ path.flatMap PathStep.chars).takeWhile
          Char.isDigit = Nat.toDigits 10 i := by
        rw [List.append_assoc, List.takeWhile_append_of_pos hdigits]
        exact List.append_nil _
      rw [List.flatMap_cons, PathStep.chars, List.cons_append, readSteps]
      split
      · next rest hrest =>
        obtain rfl : path.flatMap PathStep.chars = rest := by
          rw [htail] at hrest
          exact List.tail_eq_of_cons_eq hrest
        rw [ih hpath, hhead, Nat.ofDigitChars_ten_toDigits]
        rfl
      · next hnone => exact absurd htail (hnone _)

/-- The text of a path of plain steps spells the path. -/
theorem ofText?_toText {path : Path} (h : ∀ step ∈ path, step.isPlain = true) :
    ofText? path.toText = some path := by
  unfold ofText?
  rw [toList_toText]
  exact readSteps_chars h

example : Path.toText [.key "vars", .index 12, .key "coef"] = "$.vars[12].coef" := by decide

end Path

theorem Value.get?_key {members : List (String × Value)} {key : String} {v : Value}
    (h : member? members key = some v) (path : Path) :
    (object members).get? (.key key :: path) = v.get? path := by
  simp [get?, h]

theorem Value.get?_index {items : List Value} {i : ℕ} {v : Value} (h : items[i]? = some v)
    (path : Path) : (array items).get? (.index i :: path) = v.get? path := by
  simp [get?, h]

end LinProg.Json
