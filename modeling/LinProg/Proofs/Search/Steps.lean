import Mathlib.Tactic.SplitIfs
import LinProg.Proofs.Iteration
import LinProg.BranchAndBound

namespace LinProg

def Status.settles : Status → Bool
  | optimal | noFeasible | unbounded => true
  | undefined | feasible | infeasible => false

namespace Search

variable {α : Type} [Scalar α]

structure Opens (s : Search α) (node : Node α) (rest : List (Node α)) : Prop where
  stack : s.stack = node :: rest
  expired : s.deadline.expired = false
  prunes : s.prunes node.bound = false

omit [Scalar α] in
theorem mem_of_stack_eq {s : Search α} {node : Node α} {rest : List (Node α)}
    (hs : s.stack = node :: rest) : node ∈ s.stack :=
  hs ▸ List.mem_cons_self

def relaxation (oracle : Oracle α) (p : Problem α) (config : SolveConfig α) (s : Search α)
    (node : Node α) : Option (Solution α) × Deadline :=
  (oracle (node.restrict p) config.forRelaxations s.deadline.next).value

def counted (s : Search α) (rest : List (Node α)) (lp : Solution α) (d : Deadline) : Search α :=
  { s with
    stack := rest, nodes := s.nodes + 1, iterations := s.iterations + lp.iterations, deadline := d }

def closed (s : Search α) (mipGap : α) : Search α :=
  if s.closesGap mipGap then { s with ended := some .gap } else s

section

variable (s : Search α) (mipGap : α)

@[simp] theorem stack_closed : (s.closed mipGap).stack = s.stack := by
  unfold closed
  split_ifs <;> rfl

@[simp] theorem iterations_closed : (s.closed mipGap).iterations = s.iterations := by
  unfold closed
  split_ifs <;> rfl

@[simp] theorem deadline_closed : (s.closed mipGap).deadline = s.deadline := by
  unfold closed
  split_ifs <;> rfl

theorem ended_closed :
    (s.closed mipGap).ended = if s.closesGap mipGap then some .gap else s.ended := by
  unfold closed
  split_ifs <;> rfl

end

def ordered (down up : Node α) (value : α) : List (Node α) :=
  if value - Scalar.floor value < Scalar.half then [down, up] else [up, down]

inductive Turn (oracle : Oracle α) (p : Problem α) (config : SolveConfig α) (tolerance : α) :
    Search α → Search α → Prop
  | exhausted {s : Search α} (hs : s.stack = []) :
      Turn oracle p config tolerance s { s with ended := some .exhausted }
  | expired {s : Search α} {node : Node α} {rest : List (Node α)} (hs : s.stack = node :: rest)
      (he : s.deadline.expired = true) :
      Turn oracle p config tolerance s { s with stack := rest, ended := some .limit }
  | pruned {s : Search α} {node : Node α} {rest : List (Node α)} (hs : s.stack = node :: rest)
      (hp : s.prunes node.bound = true) :
      Turn oracle p config tolerance s { s with stack := rest, deadline := s.deadline.next }
  | unfinished {s : Search α} {node : Node α} {rest : List (Node α)} {d : Deadline}
      (ho : s.Opens node rest) (hlp : s.relaxation oracle p config node = (none, d)) :
      Turn oracle p config tolerance s
        { s with stack := rest, nodes := s.nodes + 1, deadline := d, ended := some .unfinished }
  | unbounded {s : Search α} {node : Node α} {rest : List (Node α)} {lp : Solution α} {d : Deadline}
      (ho : s.Opens node rest) (hlp : s.relaxation oracle p config node = (some lp, d))
      (hstatus : lp.status = .unbounded) :
      Turn oracle p config tolerance s
        { s.counted rest lp d with ended := some (.unbounded lp.values) }
  | unsettled {s : Search α} {node : Node α} {rest : List (Node α)} {lp : Solution α} {d : Deadline}
      (ho : s.Opens node rest) (hlp : s.relaxation oracle p config node = (some lp, d))
      (hstatus : lp.status.settles = false) :
      Turn oracle p config tolerance s { s.counted rest lp d with ended := some .limit }
  | infeasible {s : Search α} {node : Node α} {rest : List (Node α)} {lp : Solution α}
      {d : Deadline}
      (ho : s.Opens node rest) (hlp : s.relaxation oracle p config node = (some lp, d))
      (hstatus : lp.status = .noFeasible) :
      Turn oracle p config tolerance s (s.counted rest lp d)
  | dominated {s : Search α} {node : Node α} {rest : List (Node α)} {lp : Solution α} {d : Deadline}
      (ho : s.Opens node rest) (hlp : s.relaxation oracle p config node = (some lp, d))
      (hstatus : lp.status = .optimal)
      (hp : s.prunes (Scalar.extend (sense p * lp.objectiveValue)) = true) :
      Turn oracle p config tolerance s (s.counted rest lp d)
  | improved {s : Search α} {node : Node α} {rest : List (Node α)} {lp : Solution α} {d : Deadline}
      (ho : s.Opens node rest) (hlp : s.relaxation oracle p config node = (some lp, d))
      (hstatus : lp.status = .optimal)
      (hp : s.prunes (Scalar.extend (sense p * lp.objectiveValue)) = false)
      (hf : mostFractional tolerance (integerColumns p) lp.values = none) :
      Turn oracle p config tolerance s
        (closed { s.counted rest lp d with
          incumbent := some
            ⟨sense p * lp.objectiveValue, roundAt (integerColumns p) lp.values⟩ } config.mipGap)
  | branched {s : Search α} {node : Node α} {rest : List (Node α)} {lp : Solution α} {d : Deadline}
      {j : ℕ} {x : α} (ho : s.Opens node rest)
      (hlp : s.relaxation oracle p config node = (some lp, d)) (hstatus : lp.status = .optimal)
      (hp : s.prunes (Scalar.extend (sense p * lp.objectiveValue)) = false)
      (hf : mostFractional tolerance (integerColumns p) lp.values = some (j, x)) :
      Turn oracle p config tolerance s
        (closed { s.counted rest lp d with
          stack := ordered (node.children p j x (sense p * lp.objectiveValue)).1
            (node.children p j x (sense p * lp.objectiveValue)).2 x ++ rest } config.mipGap)

variable {oracle : Oracle α} {p : Problem α} {config : SolveConfig α} {tolerance : α}
  {clock : Clock} {s : Search α}

theorem value_takeIn (p : Problem α) (config : SolveConfig α) (tolerance : α) (s : Search α)
    (node : Node α) (score : α) (lp : Solution α) :
    (s.takeIn p config tolerance node score lp).value =
      match mostFractional tolerance (integerColumns p) lp.values with
      | none => { s with incumbent := some ⟨score, roundAt (integerColumns p) lp.values⟩ }
      | some (j, x) => { s with
          stack := ordered (node.children p j x score).1 (node.children p j x score).2 x ++
            s.stack } := by
  unfold takeIn
  cases hf : mostFractional tolerance (integerColumns p) lp.values with
  | none => simp [hf]
  | some c => simp [hf, ordered, apply_ite (· ++ s.stack)]

theorem takeIn_turn {node : Node α} {rest : List (Node α)} {lp : Solution α} {d : Deadline}
    (ho : s.Opens node rest) (hlp : s.relaxation oracle p config node = (some lp, d))
    (hstatus : lp.status = .optimal)
    (hp : s.prunes (Scalar.extend (sense p * lp.objectiveValue)) = false) :
    Turn oracle p config tolerance s
      (closed ((s.counted rest lp d).takeIn p config tolerance node (sense p * lp.objectiveValue)
        lp).value config.mipGap) := by
  rw [value_takeIn]
  cases hf : mostFractional tolerance (integerColumns p) lp.values with
  | none => exact Turn.improved ho hlp hstatus hp hf
  | some c => exact Turn.branched ho hlp hstatus hp hf

theorem explore_turn {node : Node α} {rest : List (Node α)} (ho : s.Opens node rest) :
    Turn oracle p config tolerance s
      (explore oracle p config tolerance { s with stack := rest, deadline := s.deadline.next }
        node).value := by
  unfold explore
  simp only [Logged.value_bind]
  obtain ⟨answer, d, hanswer⟩ : ∃ answer d, s.relaxation oracle p config node = (answer, d) :=
    ⟨_, _, rfl⟩
  rw [show (oracle (node.restrict p) config.forRelaxations s.deadline.next).value = (answer, d) from
    hanswer]
  cases answer with
  | none => exact Turn.unfinished ho hanswer
  | some lp =>
    cases hstatus : lp.status with
    | undefined | feasible | infeasible =>
      simp only [hstatus]
      exact Turn.unsettled ho hanswer (by rw [hstatus]; rfl)
    | unbounded =>
      simp only [hstatus]
      exact Turn.unbounded ho hanswer hstatus
    | noFeasible =>
      simp only [hstatus]
      exact Turn.infeasible ho hanswer hstatus
    | optimal =>
      simp only [hstatus]
      cases hp : s.prunes (Scalar.extend (sense p * lp.objectiveValue)) with
      | false =>
        rw [if_neg (by exact fun h ↦ Bool.noConfusion (hp.symm.trans h))]
        exact takeIn_turn ho hanswer hstatus hp
      | true =>
        rw [if_pos (by exact hp)]
        exact Turn.dominated ho hanswer hstatus hp

theorem step_turn (s : Search α) :
    Turn oracle p config tolerance s (step oracle p config tolerance s).value := by
  unfold step
  cases hs : s.stack with
  | nil =>
    have h : Turn oracle p config tolerance s _ := Turn.exhausted hs
    rwa [hs] at h
  | cons node rest =>
    simp only
    split_ifs with he hp
    · exact Turn.expired hs he
    · exact Turn.pruned hs hp
    · exact explore_turn ⟨hs, Bool.not_eq_true _ ▸ he, Bool.not_eq_true _ ▸ hp⟩

/-- Why a turn ends the search. -/
inductive Stop (oracle : Oracle α) (p : Problem α) (config : SolveConfig α) (s t : Search α) :
    SearchEnd α → Prop
  | exhausted (hs : s.stack = []) : Stop oracle p config s t .exhausted
  | expired (he : s.deadline.expired = true) : Stop oracle p config s t .limit
  | unfinished {node : Node α} {rest : List (Node α)} {d : Deadline} (ho : s.Opens node rest)
      (hlp : s.relaxation oracle p config node = (none, d)) : Stop oracle p config s t .unfinished
  | unbounded {node : Node α} {rest : List (Node α)} {lp : Solution α} {d : Deadline}
      (ho : s.Opens node rest) (hlp : s.relaxation oracle p config node = (some lp, d))
      (hstatus : lp.status = .unbounded) : Stop oracle p config s t (.unbounded lp.values)
  | unsettled {node : Node α} {rest : List (Node α)} {lp : Solution α} {d : Deadline}
      (ho : s.Opens node rest) (hlp : s.relaxation oracle p config node = (some lp, d))
      (hstatus : lp.status.settles = false) : Stop oracle p config s t .limit
  | gap (hgap : t.closesGap config.mipGap = true) : Stop oracle p config s t .gap

theorem stop_closed {u : Search α} (hu : u.ended = none) {ended : SearchEnd α}
    (h : (u.closed config.mipGap).ended = some ended) :
    Stop oracle p config s (u.closed config.mipGap) ended := by
  rw [ended_closed, hu] at h
  split_ifs at h with hgap
  obtain rfl := Option.some_inj.mp h
  exact .gap (by rwa [closed, if_pos hgap])

theorem Turn.stop {t : Search α} (hturn : Turn oracle p config tolerance s t)
    (he : s.ended = none) {ended : SearchEnd α} (ht : t.ended = some ended) :
    Stop oracle p config s t ended := by
  have hrunning : s.ended ≠ some ended := by simp [he]
  cases hturn with
  | exhausted hs => exact Option.some_inj.mp ht ▸ .exhausted hs
  | expired hs hnow => exact Option.some_inj.mp ht ▸ .expired hnow
  | unfinished ho hlp => exact Option.some_inj.mp ht ▸ .unfinished ho hlp
  | unbounded ho hlp hstatus => exact Option.some_inj.mp ht ▸ .unbounded ho hlp hstatus
  | unsettled ho hlp hstatus => exact Option.some_inj.mp ht ▸ .unsettled ho hlp hstatus
  | pruned | infeasible | dominated => exact absurd ht hrunning
  | improved => exact stop_closed (by exact he) ht
  | branched => exact stop_closed (by exact he) ht

def reached (oracle : Oracle α) (p : Problem α) (config : SolveConfig α) (tolerance : α)
    (clock : Clock) (n : ℕ) : Search α :=
  (Logged.turnWhile (fun s ↦ s.ended.isNone) (step oracle p config tolerance))^[n]
    (start (config.deadline clock))

theorem reached_turn {n : ℕ} (he : (reached oracle p config tolerance clock n).ended = none) :
    Turn oracle p config tolerance (reached oracle p config tolerance clock n)
      (reached oracle p config tolerance clock (n + 1)) := by
  have hsucc : reached oracle p config tolerance clock (n + 1) =
      Logged.turnWhile (fun s ↦ s.ended.isNone) (step oracle p config tolerance)
        (reached oracle p config tolerance clock n) := Function.iterate_succ_apply' _ _ _
  rw [hsucc, Logged.turnWhile_of _ (by simp [he])]
  exact step_turn _

theorem reached_succ (oracle : Oracle α) (p : Problem α) (config : SolveConfig α) (tolerance : α)
    (clock : Clock) (n : ℕ) :
    ((reached oracle p config tolerance clock n).ended = none ∧
      Turn oracle p config tolerance (reached oracle p config tolerance clock n)
        (reached oracle p config tolerance clock (n + 1))) ∨
    reached oracle p config tolerance clock (n + 1) =
      reached oracle p config tolerance clock n := by
  cases he : (reached oracle p config tolerance clock n).ended with
  | none => exact .inl ⟨rfl, reached_turn he⟩
  | some ended =>
    exact .inr ((Function.iterate_succ_apply' _ _ _).trans
      (Logged.turnWhile_of_not _ (by exact congrArg Option.isNone he)))

theorem reached_of_ended {k n : ℕ} (hk : (reached oracle p config tolerance clock k).ended ≠ none)
    (hn : k ≤ n) :
    reached oracle p config tolerance clock n = reached oracle p config tolerance clock k := by
  induction hn with
  | refl => rfl
  | @step n _ ih =>
    rcases reached_succ oracle p config tolerance clock n with ⟨he, -⟩ | he
    · rw [ih] at he
      exact absurd he hk
    · rw [he, ih]

theorem exists_last_turn {n : ℕ} (h : (reached oracle p config tolerance clock n).ended ≠ none) :
    ∃ k < n, (reached oracle p config tolerance clock k).ended = none ∧
      reached oracle p config tolerance clock n =
        reached oracle p config tolerance clock (k + 1) := by
  induction n with
  | zero => exact absurd rfl h
  | succ n ih =>
    cases he : (reached oracle p config tolerance clock n).ended with
    | none => exact ⟨n, Nat.lt_succ_self n, he, rfl⟩
    | some ended =>
      have hn : (reached oracle p config tolerance clock n).ended ≠ none := by simp [he]
      obtain ⟨k, hk, hrunning, heq⟩ := ih hn
      exact ⟨k, Nat.lt_succ_of_lt hk, hrunning,
        (reached_of_ended hn (Nat.le_succ n)).trans heq⟩

/-- The relaxations that a search over at most `fuel` nodes solves, with the deadlines by then. -/
def Solves (oracle : Oracle α) (p : Problem α) (config : SolveConfig α) (tolerance : α)
    (clock : Clock) (fuel : ℕ) (node : Node α) (d : Deadline) : Prop :=
  ∃ n < fuel, ∃ rest, (reached oracle p config tolerance clock n).ended = none ∧
    (reached oracle p config tolerance clock n).Opens node rest ∧
      d = (reached oracle p config tolerance clock n).deadline.next

theorem Solves.lt_of_ended {fuel k : ℕ} {node : Node α} {d : Deadline}
    (h : Solves oracle p config tolerance clock fuel node d)
    (hk : (reached oracle p config tolerance clock k).ended ≠ none) :
    Solves oracle p config tolerance clock k node d := by
  obtain ⟨n, -, rest, he, ho⟩ := h
  refine ⟨n, Nat.lt_of_not_le fun hle ↦ hk ?_, rest, he, ho⟩
  rwa [reached_of_ended hk hle] at he

theorem reached_invariant_le {P : Search α → Prop} {fuel n : ℕ} (hn : n ≤ fuel)
    (hstart : P (start (config.deadline clock)))
    (hturn : ∀ s t, s.ended = none → P s → Turn oracle p config tolerance s t →
      (∀ node rest, s.Opens node rest →
        Solves oracle p config tolerance clock fuel node s.deadline.next) → P t) :
    P (reached oracle p config tolerance clock n) := by
  induction n with
  | zero => exact hstart
  | succ n ih =>
    rcases reached_succ oracle p config tolerance clock n with ⟨he, ht⟩ | he
    · exact hturn _ _ he (ih (by omega)) ht fun node rest ho ↦ ⟨n, by omega, rest, he, ho, rfl⟩
    · rw [he]
      exact ih (by omega)

theorem reached_invariant {P : Search α → Prop} {fuel : ℕ}
    (hstart : P (start (config.deadline clock)))
    (hturn : ∀ s t, s.ended = none → P s → Turn oracle p config tolerance s t →
      (∀ node rest, s.Opens node rest →
        Solves oracle p config tolerance clock fuel node s.deadline.next) → P t) :
    P (reached oracle p config tolerance clock fuel) :=
  reached_invariant_le (Nat.le_refl fuel) hstart hturn

theorem value_solve_eq (oracle : Oracle α) (p : Problem α) (config : SolveConfig α) (tolerance : α)
    (clock : Clock) (fuel : ℕ) :
    let s := reached oracle p config tolerance clock fuel
    (solve oracle p config tolerance clock fuel).value =
      (s.ended.bind fun ended ↦ outcome p ended s.incumbent).map fun result ↦
        { status := result.1, objectiveValue := p.objectiveValue result.2, values := result.2,
          duals := none, iterations := s.iterations } := by
  intro s
  simp only [solve, Logged.value_bind, Logged.value_iterateWhile]
  rw [show (Logged.turnWhile _ (step oracle p config tolerance))^[fuel] _ = s from rfl]
  cases s.ended.bind fun ended ↦ outcome p ended s.incumbent <;> rfl

theorem value_solve (oracle : Oracle α) (p : Problem α) (config : SolveConfig α) (tolerance : α)
    (clock : Clock) (fuel : ℕ) {solution : Solution α}
    (h : (solve oracle p config tolerance clock fuel).value = some solution) :
    ∃ ended, (reached oracle p config tolerance clock fuel).ended = some ended ∧
      outcome p ended (reached oracle p config tolerance clock fuel).incumbent =
        some (solution.status, solution.values) := by
  rw [value_solve_eq, Option.map_eq_some_iff] at h
  obtain ⟨result, hresult, rfl⟩ := h
  exact Option.bind_eq_some_iff.mp hresult

/-- Without a time limit the deadline stays what it is, if the relaxations leave it alone. -/
theorem deadline_reached (ht : config.timeLimit = none)
    (horacle : ∀ q d, d.limit = none → (oracle q config.forRelaxations d).value.2 = d) (n : ℕ) :
    (reached oracle p config tolerance clock n).deadline = config.deadline clock := by
  refine reached_invariant (P := fun s ↦ s.deadline = config.deadline clock) rfl
    fun s t _ hs hturn _ ↦ ?_
  have hnext : s.deadline.next = config.deadline clock := by
    rw [hs]
    exact Deadline.next_of_limit ht
  have hlast {node : Node α} {answer : Option (Solution α)} {d : Deadline}
      (hlp : s.relaxation oracle p config node = (answer, d)) : d = config.deadline clock := by
    rw [relaxation, hnext] at hlp
    rw [← horacle (node.restrict p) (config.deadline clock) ht, hlp]
  cases hturn with
  | exhausted | expired => exact hs
  | pruned => exact hnext
  | unfinished ho hlp | unbounded ho hlp | unsettled ho hlp | infeasible ho hlp
    | dominated ho hlp => exact hlast hlp
  | improved ho hlp | branched ho hlp => exact (deadline_closed _ _).trans (hlast hlp)

end Search

end LinProg
