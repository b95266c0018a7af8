import Mathlib.Data.List.Induction

namespace LinProg

variable {γ δ : Type} {f : Option γ → δ → Option γ} {P : γ → Prop} {R : δ → Prop}

/-- What every choice of a step satisfies, the final choice satisfies; and there is none only if
each candidate has been passed over. -/
theorem foldl_choice {l : List δ}
    (hsome : ∀ best, (∀ b, best = some b → P b) → ∀ d ∈ l, ∀ c, f best d = some c → P c)
    (hnone : ∀ best, ∀ d ∈ l, f best d = none → best = none ∧ R d) :
    (l.foldl f none = none → ∀ d ∈ l, R d) ∧ ∀ c, l.foldl f none = some c → P c := by
  induction l using List.reverseRecOn with
  | nil => simp
  | append_singleton l d ih =>
    obtain ⟨ihnone, ihsome⟩ := ih
      (fun best hbest e he ↦ hsome best hbest e (List.mem_append_left _ he))
      (fun best e he ↦ hnone best e (List.mem_append_left _ he))
    have hd : d ∈ l ++ [d] := by simp
    rw [List.foldl_append, List.foldl_cons, List.foldl_nil]
    refine ⟨fun h e he ↦ ?_, hsome _ ihsome d hd⟩
    obtain ⟨hbest, hpassed⟩ := hnone _ d hd h
    rcases List.mem_append.mp he with he | he
    · exact ihnone hbest e he
    · rwa [List.mem_singleton.mp he]

end LinProg
