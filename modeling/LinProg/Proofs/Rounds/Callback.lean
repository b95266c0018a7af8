import LinProg.Proofs.Rounds.Budgets

namespace LinProg.Rounds

variable {α β γ ε : Type}

def Accepts (onRound : ℕ → β → Except ε Unit) (shown : List β) : Prop :=
  ∀ i x, shown[i]? = some x → onRound (i + 1) x = .ok ()

/-- A callback fails for the first time in its `k`-th call when some points are shown to it in
order. -/
def FailsFirst (onRound : ℕ → β → Except ε Unit) (shown : List β) (k : ℕ) (e : ε) : Prop :=
  ∃ i x, k = i + 1 ∧ shown[i]? = some x ∧ onRound k x = .error e ∧
    ∀ j y, j < i → shown[j]? = some y → onRound (j + 1) y = .ok ()

section Shown

variable {onRound : ℕ → β → Except ε Unit} {shown : List β}

theorem accepts_nil : Accepts onRound [] := nofun

theorem Accepts.append {x : β} (h : Accepts onRound shown)
    (hx : onRound (shown.length + 1) x = .ok ()) : Accepts onRound (shown ++ [x]) := by
  intro i y hy
  rw [List.getElem?_append] at hy
  split at hy
  · exact h i y hy
  · next hi =>
    obtain ⟨hlt, rfl⟩ := List.getElem?_eq_some_iff.mp hy
    obtain rfl : i = shown.length := by
      rw [List.length_singleton] at hlt
      omega
    simpa using hx

theorem Accepts.failsFirst {x : β} {e : ε} (h : Accepts onRound shown)
    (hx : onRound (shown.length + 1) x = .error e) :
    FailsFirst onRound (shown ++ [x]) (shown.length + 1) e := by
  refine ⟨shown.length, x, rfl, List.getElem?_concat_length, hx, fun j y hj hy ↦ h j y ?_⟩
  rwa [List.getElem?_append_left hj] at hy

theorem FailsFirst.not_accepts {k : ℕ} {e : ε} (hf : FailsFirst onRound shown k e) :
    ¬ Accepts onRound shown := by
  intro h
  obtain ⟨i, x, rfl, hx, he, -⟩ := hf
  exact nomatch (h i x hx).symm.trans he

/-- A callback fails for the first time only once. -/
theorem FailsFirst.unique {k k' : ℕ} {e e' : ε} (h : FailsFirst onRound shown k e)
    (h' : FailsFirst onRound shown k' e') : k = k' ∧ e = e' := by
  obtain ⟨i, x, rfl, hx, he, hbefore⟩ := h
  obtain ⟨i', x', rfl, hx', he', hbefore'⟩ := h'
  rcases Nat.lt_trichotomy i i' with hlt | rfl | hlt
  · exact nomatch (hbefore' i x hlt hx).symm.trans he
  · cases hx.symm.trans hx'
    cases he.symm.trans he'
    exact ⟨rfl, rfl⟩
  · exact nomatch (hbefore i' x' hlt hx').symm.trans he'

theorem FailsFirst.extend {longer : List β} {k : ℕ} {e : ε} (h : FailsFirst onRound shown k e)
    (hp : shown <+: longer) : FailsFirst onRound longer k e := by
  obtain ⟨i, x, rfl, hx, he, hbefore⟩ := h
  obtain ⟨rest, rfl⟩ := hp
  have hi : i < shown.length := (List.getElem?_eq_some_iff.mp hx).1
  refine ⟨i, x, rfl, by rwa [List.getElem?_append_left hi], he, fun j y hj hy ↦
    hbefore j y hj ?_⟩
  rwa [List.getElem?_append_left (Nat.lt_trans hj hi)] at hy

theorem FailsFirst.of_map {f : γ → β} {points : List γ} {k : ℕ} {e : ε}
    (h : FailsFirst (fun k x ↦ onRound k (f x)) points k e) :
    FailsFirst onRound (points.map f) k e := by
  obtain ⟨i, x, rfl, hx, he, hbefore⟩ := h
  refine ⟨i, f x, rfl, by rw [List.getElem?_map, hx]; rfl, he, fun j y hj hy ↦ ?_⟩
  obtain ⟨z, hz, rfl⟩ := Option.map_eq_some_iff.mp (List.getElem?_map.symm.trans hy)
  exact hbefore j z hj hz

theorem Accepts.of_map {f : γ → β} {points : List γ}
    (h : Accepts (fun k x ↦ onRound k (f x)) points) : Accepts onRound (points.map f) := by
  intro i y hy
  obtain ⟨z, hz, rfl⟩ := Option.map_eq_some_iff.mp (List.getElem?_map.symm.trans hy)
  exact h i z hz

end Shown

def shown {S : Type} (s : Rounds α ε S) : List (Solution α) := s.rounds.reverse.map (·.solution)

theorem length_shown {S : Type} (s : Rounds α ε S) : s.shown.length = s.rounds.length := by
  simp [shown]

/-- How a solve with a callback stands to the solve with one that never fails. -/
inductive Heard {S : Type} (onRound : ℕ → Solution α → Except ε Unit)
    (heard silent : Logged (Event α) (Rounds α ε S)) : Prop
  | accepted (same : heard = silent) (accepts : Accepts onRound heard.value.shown)
  | failed (e : ε) (ended : heard.value.ended = some (.failed e))
      (fails : FailsFirst onRound heard.value.shown heard.value.rounds.length e)
      (rounds : heard.value.rounds <:+ silent.value.rounds)
      (events : heard.events <+: silent.events)

variable {backend : Backend α} {p : Problem α} {increment : ℕ} {limit : Option ℕ}
  {onRound : ℕ → Solution α → Except ε Unit}

theorem suffix_rounds (turns : ℕ) (s : Rounds α ε backend.Session) :
    s.rounds <:+ (Logged.iterateWhile (fun s ↦ s.ended.isNone)
      (step backend p increment limit onRound) turns s).value.rounds := by
  refine Logged.iterateWhile_invariant (P := fun (s' : Rounds α ε backend.Session) _ ↦
    s.rounds <:+ s'.rounds) (fun s' _ _ hs ↦ ?_) turns [] List.suffix_rfl
  rw [(step_cases backend p increment limit onRound s').2.1]
  exact hs.trans (List.suffix_cons _ _)

theorem Heard.bind {S : Type} {s : Rounds α ε S} {log : List (Event α)}
    {next next' : Rounds α ε S → Logged (Event α) (Rounds α ε S)}
    (h : Heard onRound (next s) (next' s)) :
    Heard onRound ((⟨s, log⟩ : Logged (Event α) (Rounds α ε S)) >>= next) (⟨s, log⟩ >>= next') := by
  rw [Logged.mk_bind, Logged.mk_bind]
  cases h with
  | accepted same accepts => exact .accepted (by rw [same]) accepts
  | failed e ended fails rounds events =>
    exact .failed e ended fails rounds (List.prefix_append_right_inj log |>.mpr events)

theorem heard_iterateWhile (turns : ℕ) {s : Rounds α ε backend.Session}
    (h : Accepts onRound s.shown) :
    Heard onRound
      (Logged.iterateWhile (fun s ↦ s.ended.isNone) (step backend p increment limit onRound) turns
        s)
      (Logged.iterateWhile (fun s ↦ s.ended.isNone)
        (step backend p increment limit fun _ _ ↦ .ok ()) turns s) := by
  induction turns generalizing s with
  | zero => exact .accepted rfl h
  | succ turns ih =>
    rw [Logged.iterateWhile_succ, Logged.iterateWhile_succ]
    split
    case isFalse => exact .accepted rfl h
    obtain ⟨⟨⟨solution, session⟩, events⟩, hr⟩ :
      ∃ answer, backend.resume s.session p (budget increment limit s.done) = answer := ⟨_, rfl⟩
    have hsilent : step backend p increment limit (fun _ _ ↦ (.ok () : Except ε Unit)) s = _ :=
      step_of_ok hr rfl
    rw [hsilent]
    have hshown : ∀ s' : Rounds α ε backend.Session,
        s'.rounds = ⟨budget increment limit s.done, solution⟩ :: s.rounds →
        s'.shown = s.shown ++ [solution] := by
      intro s' hs'
      simp [shown, hs']
    cases hcall : onRound (s.rounds.length + 1) solution with
    | ok u =>
      rw [step_of_ok hr hcall]
      refine (ih ?_).bind
      rw [hshown _ rfl]
      exact h.append (by rw [length_shown]; exact hcall)
    | error e =>
      rw [step_of_error hr hcall, Logged.mk_bind, Logged.mk_bind]
      -- The failed solve makes no further turn.
      rw [Logged.iterateWhile_of_le (Nat.zero_le turns) (by rfl), Logged.iterateWhile_zero]
      refine .failed e rfl ?_
        (suffix_rounds turns (accepted s limit (budget increment limit s.done) solution session))
        ?_
      · rw [hshown _ rfl, List.length_cons, ← length_shown]
        exact h.failsFirst (by rw [length_shown]; exact hcall)
      · simp [List.append_assoc]

theorem heard_loop (backend : Backend α) (p : Problem α) (config : SolveConfig α)
    (increment : ℕ) (onRound : ℕ → Solution α → Except ε Unit) (turns : ℕ) :
    Heard onRound (loop backend p config increment onRound turns)
      (loop backend p config increment (fun _ _ ↦ .ok ()) turns) :=
  (heard_iterateWhile turns accepts_nil).bind

section Silent

variable (backend : Backend α) (p : Problem α) (config : SolveConfig α) (increment : ℕ)

/-- A solve whose callback never fails ends on the point of its last round. -/
theorem getLast?_shown {turns : ℕ} {e : RoundsEnd α ε}
    (he : (loop backend p config increment (fun _ _ ↦ .ok ()) turns).value.ended = some e) :
    ∃ last, e = .finished last ∧
      (loop backend p config increment
        (fun _ _ ↦ (.ok () : Except ε Unit)) turns).value.shown.getLast? = some last := by
  obtain ⟨last, earlier, -, hrounds, rfl, -⟩ :=
    (bounded_loop backend p config increment turns).ended e he
  exact ⟨last.solution, rfl, by simp [shown, hrounds]⟩

theorem shown_ne_nil {turns : ℕ} (hturns : 0 < turns) :
    (loop backend p config increment (fun _ _ ↦ (.ok () : Except ε Unit)) turns).value.shown ≠
      [] := by
  intro hnil
  cases he : (loop backend p config increment (fun _ _ ↦ (.ok () : Except ε Unit))
    turns).value.ended with
  | none =>
    have hlength := length_loop_of_running backend p increment he
    rw [← length_shown, hnil, List.length_nil] at hlength
    omega
  | some e =>
    obtain ⟨last, -, hlast⟩ := getLast?_shown backend p config increment he
    rw [hnil] at hlast
    exact nomatch hlast

end Silent

end LinProg.Rounds
