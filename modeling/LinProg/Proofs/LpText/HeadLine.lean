import Mathlib.Data.List.TakeWhile
import LinProg.Proofs.LpText.Identifiers
import LinProg.Proofs.LpText.Lines

namespace LinProg.LpText

def firstLine (text : String) : List Char := text.toList.takeWhile (· ≠ '\n')

def belowFirst (text : String) : List Char := text.toList.dropWhile (· ≠ '\n')

variable {α : Type} [Scalar α] (format : α → String) (p : Problem α) (name : String)

def afterName : List Char := " *\\".toList ++ '\n' :: (unlines (bodyLines format p)).toList

theorem toList_write_name :
    (write format { p with name }).toList =
      "\\* Problem: ".toList ++ (name.toList ++ afterName format p) := by
  rw [toList_write]
  simp only [headLine, String.toList_append, afterName, List.append_assoc]
  rfl

/-- From its first line break on the name is part of the model. -/
theorem belowFirst_write_name :
    belowFirst (write format { p with name }) =
      if belowFirst name = [] then '\n' :: (unlines (bodyLines format p)).toList
      else belowFirst name ++ afterName format p := by
  have hopening := ne_newline_of_not_mem (show '\n' ∉ "\\* Problem: ".toList by decide)
  have hafter : (afterName format p).dropWhile (· ≠ '\n') =
      '\n' :: (unlines (bodyLines format p)).toList := by
    have hclosing := ne_newline_of_not_mem (show '\n' ∉ " *\\".toList by decide)
    rw [afterName, List.dropWhile_append_of_pos hclosing]
    rfl
  rw [belowFirst, toList_write_name, List.dropWhile_append_of_pos hopening, List.dropWhile_append,
    hafter]
  exact if_congr List.isEmpty_iff rfl rfl

theorem belowFirst_eq_nil_iff : belowFirst name = [] ↔ '\n' ∉ name.toList := by
  simp only [belowFirst, List.dropWhile_eq_nil_iff, decide_eq_true_iff]
  exact ⟨fun h hmem ↦ h '\n' hmem rfl, fun h c hc heq ↦ h (heq ▸ hc)⟩

theorem length_belowFirst_write_name :
    (belowFirst (write format { p with name })).length =
      (unlines (bodyLines format p)).toList.length + 1 +
        if belowFirst name = [] then 0 else (belowFirst name).length + 3 := by
  rw [belowFirst_write_name]
  split_ifs
  · rfl
  · simp [afterName]
    omega

theorem belowFirst_write_eq_iff (name' : String) :
    belowFirst (write format { p with name }) = belowFirst (write format { p with name := name' }) ↔
      belowFirst name = belowFirst name' := by
  constructor
  · intro h
    have hlength := congrArg List.length h
    rw [length_belowFirst_write_name, length_belowFirst_write_name] at hlength
    rw [belowFirst_write_name, belowFirst_write_name] at h
    split_ifs at h hlength with hname hname' hname'
    · rw [hname, hname']
    · omega
    · omega
    · exact List.append_cancel_right h
  · intro h
    rw [belowFirst_write_name, belowFirst_write_name, h]

theorem firstLine_write_eq_iff :
    firstLine (write format { p with name }) = (headLine name).toList ↔ '\n' ∉ name.toList := by
  constructor
  · intro h hname
    have hmem : '\n' ∈ firstLine (write format { p with name }) := by
      rw [h, headLine, String.toList_append, String.toList_append]
      exact List.mem_append_left _ (List.mem_append_right _ hname)
    have hne := List.mem_takeWhile_imp hmem
    exact absurd rfl (decide_eq_true_iff.mp hne)
  · intro hname
    have hhead := ne_newline_of_not_mem (not_mem_headLine hname)
    rw [firstLine, toList_write, List.takeWhile_append_of_pos hhead]
    simp

/-- A name under which a problem's text starts with the whole text of another. -/
def coveringName (q : Problem α) : String := q.name ++ " *\\\n" ++ unlines (bodyLines format q)

theorem write_prefix_covered (q : Problem α) :
    (write format q).toList <+: (write format { p with name := coveringName format q }).toList := by
  have hname : (coveringName format q).toList = q.name.toList ++ afterName format q := by
    have hclosing : " *\\\n".toList = " *\\".toList ++ ['\n'] := by decide
    simp only [coveringName, afterName, String.toList_append, hclosing, List.append_assoc,
      List.cons_append, List.nil_append]
  have hq : (write format q).toList =
      "\\* Problem: ".toList ++ (q.name.toList ++ afterName format q) :=
    toList_write_name format q q.name
  exact ⟨afterName format p, by rw [toList_write_name format p, hname, hq, List.append_assoc]⟩

/-- Texts of problems that differ in their names only differ below the first line unless the names
agree from their first line breaks on, as names without line breaks do. A name with them can put
the whole text of any other problem in front of its own. -/
theorem name_below_first_line (format : α → String) (p : Problem α) :
    (∀ a b, belowFirst (write format { p with name := a }) =
      belowFirst (write format { p with name := b }) ↔ belowFirst a = belowFirst b) ∧
    (∀ a b, '\n' ∉ a.toList → '\n' ∉ b.toList →
      belowFirst (write format { p with name := a }) =
        belowFirst (write format { p with name := b })) ∧
    (∀ a, firstLine (write format { p with name := a }) = (headLine a).toList ↔
      '\n' ∉ a.toList) ∧
    ∀ q : Problem α, ∃ a,
      (write format q).toList <+: (write format { p with name := a }).toList := by
  refine ⟨belowFirst_write_eq_iff format p, fun a b ha hb ↦ ?_, firstLine_write_eq_iff format p,
    fun q ↦ ⟨_, write_prefix_covered format p q⟩⟩
  rw [belowFirst_write_eq_iff, (belowFirst_eq_nil_iff a).mpr ha, (belowFirst_eq_nil_iff b).mpr hb]

def minimized (name : String) : ProblemSpec ℚ :=
  { name, objective := ⟨.minimize, [⟨"x", 1⟩]⟩, subjectTo := [], bounds := [], generals := []
    binaries := [], options := .none }

def minimizedProblem (name : String) : Problem ℚ :=
  { name, direction := .minimize, columns := #[(minimized "").column "x"], rows := #[] }

theorem build_minimized (name : String) :
    (Problem.build (minimized name)).value = .ok (minimizedProblem name) := by
  have hnames : (minimized name).mentions.eraseDups = ["x"] := by
    change ["x"].eraseDups = _
    decide
  rw [Problem.build_of_subjectTo_eq_nil rfl, hnames]
  rfl

/-- A name that closes the comment and goes on with a model, in which the variable is to be
maximized. -/
def reversingName : String := "m *\\\n\nMaximize\n obj: + x\n\nEnd\n\\* m"

theorem reversed_by_name :
    (Problem.build (minimized "m")).value = .ok (minimizedProblem "m") ∧
      (Problem.build (minimized reversingName)).value = .ok (minimizedProblem reversingName) ∧
      belowFirst (write fraction (minimizedProblem "m")) ≠
        belowFirst (write fraction (minimizedProblem reversingName)) ∧
      (write fraction { minimizedProblem "m" with direction := .maximize }).toList <+:
        (write fraction (minimizedProblem reversingName)).toList := by
  refine ⟨build_minimized "m", build_minimized reversingName, ?_, ?_⟩
  · decide +kernel
  · decide +kernel

end LinProg.LpText
