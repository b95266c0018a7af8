import Mathlib.Algebra.BigOperators.Group.List.Basic
import Mathlib.Algebra.GroupWithZero.Nat
import LinProg.Proofs.Search.Steps

namespace LinProg.Search

variable {α : Type} [Scalar α] {oracle : Oracle α} {p : Problem α} {config : SolveConfig α}
  {tolerance : α} {clock : Clock} {s t : Search α}

def next? (s : Search α) : Option (Node α × Deadline) :=
  match s.ended, s.stack with
  | none, node :: _ =>
    if s.deadline.expired || s.prunes node.bound then none else some (node, s.deadline.next)
  | _, _ => none

theorem next?_eq_some {node : Node α} {d : Deadline} :
    s.next? = some (node, d) ↔
      s.ended = none ∧ (∃ rest, s.Opens node rest) ∧ s.deadline.next = d := by
  unfold next?
  constructor
  · intro h
    split at h
    · next top rest he hs =>
      split_ifs at h with hclosed
      obtain ⟨rfl, rfl⟩ := Prod.mk.inj (Option.some_inj.mp h)
      simp only [Bool.or_eq_true, not_or, Bool.not_eq_true] at hclosed
      exact ⟨he, ⟨rest, hs, hclosed.1, hclosed.2⟩, rfl⟩
    · cases h
  · rintro ⟨he, ⟨rest, hs, hexpired, hprunes⟩, rfl⟩
    simp [he, hs, hexpired, hprunes]

theorem next?_of_ended (he : s.ended ≠ none) : s.next? = none :=
  Option.eq_none_iff_forall_ne_some.mpr fun _ h ↦ he (next?_eq_some.mp h).1

/-- The pivots of the relaxation of a node by a deadline, none if it does not come to an end. -/
def pivots (oracle : Oracle α) (p : Problem α) (config : SolveConfig α)
    (opened : Node α × Deadline) : ℕ :=
  ((oracle (opened.1.restrict p) config.forRelaxations opened.2).value.1.map (·.iterations)).getD 0

theorem Turn.iterations_eq (hturn : Turn oracle p config tolerance s t) (he : s.ended = none) :
    t.iterations = s.iterations + (s.next?.toList.map (pivots oracle p config)).sum := by
  have hopens {node : Node α} {rest : List (Node α)} {answer : Option (Solution α)} {d : Deadline}
      (ho : s.Opens node rest) (hlp : s.relaxation oracle p config node = (answer, d)) :
      (s.next?.toList.map (pivots oracle p config)).sum =
        (answer.map (·.iterations)).getD 0 := by
    rw [next?_eq_some.mpr ⟨he, ⟨rest, ho⟩, rfl⟩]
    rw [relaxation] at hlp
    simp [pivots, hlp]
  cases hturn with
  | exhausted hs => simp [next?, he, hs]
  | expired hs hnow => simp [next?, he, hs, hnow]
  | pruned hs hp => simp [next?, he, hs, hp]
  | unfinished ho hlp => simp [hopens ho hlp]
  | unbounded ho hlp | unsettled ho hlp | infeasible ho hlp | dominated ho hlp =>
    simp [hopens ho hlp, counted]
  | improved ho hlp => simp [hopens ho hlp, counted]
  | branched ho hlp => simp [hopens ho hlp, counted]

def opened (oracle : Oracle α) (p : Problem α) (config : SolveConfig α) (tolerance : α)
    (clock : Clock) : ℕ → List (Node α × Deadline)
  | 0 => []
  | n + 1 => opened oracle p config tolerance clock n ++
      (reached oracle p config tolerance clock n).next?.toList

theorem iterations_reached (n : ℕ) :
    (reached oracle p config tolerance clock n).iterations =
      ((opened oracle p config tolerance clock n).map (pivots oracle p config)).sum := by
  induction n with
  | zero => rfl
  | succ n ih =>
    rw [opened, List.map_append, List.sum_append, ← ih]
    cases he : (reached oracle p config tolerance clock n).ended with
    | none => exact (reached_turn he).iterations_eq he
    | some ended =>
      have hn : (reached oracle p config tolerance clock n).ended ≠ none := by simp [he]
      rw [reached_of_ended hn (Nat.le_succ n), next?_of_ended hn]
      rfl

/-- The iterations that a search reports are those of its relaxations. -/
theorem iterations_solve {fuel : ℕ} {solution : Solution α}
    (h : (solve oracle p config tolerance clock fuel).value = some solution) :
    solution.iterations =
      ((opened oracle p config tolerance clock fuel).map (pivots oracle p config)).sum := by
  rw [value_solve_eq, Option.map_eq_some_iff] at h
  obtain ⟨-, -, rfl⟩ := h
  exact iterations_reached fuel

end LinProg.Search
