import LinProg.Proofs.Search.Nodes
import LinProg.Proofs.Search.Selection

namespace LinProg

def Problem.score (p : Problem ℚ) (x : Array ℚ) : ℚ := Search.sense p * p.objectiveValue x

/-- An answer about a problem without regard to integrality that is right, if there is one. -/
def Problem.AnsweredRightly (q : Problem ℚ) (answer : Option (Solution ℚ)) : Prop :=
  ∀ lp, answer = some lp →
    (lp.status = .optimal → q.Feasible lp.values ∧ ∀ y, q.Feasible y →
      ¬ q.direction.Better (q.objectiveValue y) (q.objectiveValue lp.values)) ∧
    (lp.status = .noFeasible → ∀ y, ¬ q.Feasible y)

theorem Problem.score_le_of_not_better {p : Problem ℚ} {x y : Array ℚ}
    (h : ¬ p.direction.Better (p.objectiveValue y) (p.objectiveValue x)) :
    p.score x ≤ p.score y := by
  unfold score Search.sense
  cases hd : p.direction <;> simp only [hd, Direction.Better, not_lt] at h ⊢ <;> linarith

namespace Search

/-- The open nodes are parts of the problem that their bounds are right about, the incumbent is an
integer point, and every other integer point is in an open node or not much better. -/
structure Covers (p : Problem ℚ) (s : Search ℚ) : Prop where
  nodes : ∀ node ∈ s.stack, ∀ x, (node.restrict p).Feasible x →
    p.Feasible x ∧ (Extended.fin (p.score x)).below node.bound = false
  incumbent : ∀ inc, s.incumbent = some inc →
    p.Feasible inc.values ∧ p.Integral inc.values ∧ inc.score = p.score inc.values
  points : ∀ x, p.Feasible x → p.Integral x →
    (∃ node ∈ s.stack, (node.restrict p).Feasible x) ∨
      ∃ inc, s.incumbent = some inc ∧ cutoff inc.score ≤ p.score x

variable {p : Problem ℚ} {s t : Search ℚ} {node : Node ℚ} {rest : List (Node ℚ)}

theorem covers_start (p : Problem ℚ) (d : Deadline) : Covers p (start d) := by
  refine ⟨fun node hnode x hx ↦ ?_, by simp [start], fun x hx _ ↦ ?_⟩
  · obtain rfl := List.mem_singleton.mp hnode
    exact ⟨hx, Extended.below_negInf _⟩
  · exact .inl ⟨Node.root, List.mem_singleton_self _, hx⟩

theorem Covers.leave (h : Covers p s) (hs : s.stack = node :: rest) (ht : t.stack = rest)
    (hi : t.incumbent = s.incumbent)
    (hnode : ∀ x, (node.restrict p).Feasible x →
      ∃ inc, s.incumbent = some inc ∧ cutoff inc.score ≤ p.score x) : Covers p t := by
  refine ⟨fun node' hnode' ↦ ?_, fun inc hinc ↦ ?_, fun x hx hint ↦ ?_⟩
  · rw [ht] at hnode'
    exact h.nodes node' (by rw [hs]; exact List.mem_cons_of_mem node hnode')
  · rw [hi] at hinc
    exact h.incumbent inc hinc
  · rw [ht, hi]
    rcases h.points x hx hint with ⟨node', hmem, hx'⟩ | hinc
    · rw [hs] at hmem
      rcases List.mem_cons.mp hmem with rfl | hmem
      · exact .inr (hnode x hx')
      · exact .inl ⟨node', hmem, hx'⟩
    · exact .inr hinc

theorem cutoff_le_of_prunes {bound : Extended ℚ} (hp : s.prunes bound = true) {score : ℚ}
    (hscore : (Extended.fin score).below bound = false) :
    ∃ inc, s.incumbent = some inc ∧ cutoff inc.score ≤ score := by
  obtain ⟨inc, hi, hb⟩ := prunes_eq_true hp
  refine ⟨inc, hi, ?_⟩
  cases bound with
  | negInf => simp at hb
  | posInf => simp at hscore
  | fin b => exact (Extended.below_fin.mp hb).trans (Extended.below_fin.mp hscore)

section

variable {lp : Solution ℚ}

structure Relaxed (p : Problem ℚ) (node : Node ℚ) (lp : Solution ℚ) : Prop where
  feasible : (node.restrict p).Feasible lp.values
  score : sense p * lp.objectiveValue = p.score lp.values
  best : ∀ x, (node.restrict p).Feasible x → p.score lp.values ≤ p.score x

theorem relaxed_of_answeredRightly
    (hright : (node.restrict p).AnsweredRightly (some lp)) (hstatus : lp.status = .optimal)
    (hobjective : lp.objectiveValue = (node.restrict p).objectiveValue lp.values) :
    Relaxed p node lp := by
  obtain ⟨hfeasible, hbest⟩ := (hright lp rfl).1 hstatus
  refine ⟨hfeasible, ?_, fun x hx ↦ ?_⟩
  · rw [hobjective, node.objectiveValue_restrict]
    rfl
  · have hnot := hbest x hx
    rw [node.direction_restrict, node.objectiveValue_restrict, node.objectiveValue_restrict] at hnot
    exact Problem.score_le_of_not_better hnot

theorem Covers.improve (h : Covers p s) (hs : s.stack = node :: rest) (hlp : Relaxed p node lp)
    (hp : s.prunes (Scalar.extend (p.score lp.values)) = false) (hint : p.Integral lp.values)
    (ht : t.stack = rest) (hi : t.incumbent = some ⟨p.score lp.values, lp.values⟩) :
    Covers p t := by
  have hmem := mem_of_stack_eq hs
  refine ⟨fun node' hnode' ↦ ?_, fun inc hinc ↦ ?_, fun x hx hx' ↦ ?_⟩
  · rw [ht] at hnode'
    exact h.nodes node' (by rw [hs]; exact List.mem_cons_of_mem node hnode')
  · rw [hi] at hinc
    obtain rfl := Option.some_inj.mp hinc
    exact ⟨(h.nodes node hmem _ hlp.feasible).1, hint, rfl⟩
  · rw [ht, hi]
    rcases h.points x hx hx' with ⟨node', hnode', hin⟩ | ⟨inc, hinc, hcut⟩
    · rw [hs] at hnode'
      rcases List.mem_cons.mp hnode' with rfl | hnode'
      · exact .inr ⟨_, rfl, (cutoff_le _).trans (hlp.best x hin)⟩
      · exact .inl ⟨node', hnode', hin⟩
    · -- the new score is below the old cutoff, so that the slacks do not add up
      have hlt := lt_cutoff_of_not_prunes hp hinc
      exact .inr ⟨_, rfl, (cutoff_le _).trans (hlt.le.trans hcut)⟩

theorem Covers.branch (h : Covers p s) (hs : s.stack = node :: rest) (hlp : Relaxed p node lp)
    {j : ℕ} {c : Column ℚ} (hj : p.columns[j]? = some c) (hc : c.kind.isInteger = true)
    (ht : t.stack =
      ordered (node.children p j ((lp.values[j]?).getD 0) (p.score lp.values)).1
        (node.children p j ((lp.values[j]?).getD 0) (p.score lp.values)).2
        ((lp.values[j]?).getD 0) ++ rest) (hi : t.incumbent = s.incumbent) : Covers p t := by
  have hmem := mem_of_stack_eq hs
  obtain ⟨d, hj'⟩ := node.exists_column hj
  have hv := hlp.feasible.columns j _ hj'
  refine ⟨fun node' hnode' x hx ↦ ?_, fun inc hinc ↦ ?_, fun x hx hint ↦ ?_⟩
  · rw [ht] at hnode'
    rcases List.mem_append.mp hnode' with hchild | hrest
    · rcases mem_ordered.mp hchild with rfl | rfl
      · obtain ⟨hin, -⟩ := (Node.feasible_down hj' hv x).mp hx
        exact ⟨(h.nodes node hmem x hin).1, Extended.below_fin.mpr (hlp.best x hin)⟩
      · obtain ⟨hin, -⟩ := (Node.feasible_up hj' hv x).mp hx
        exact ⟨(h.nodes node hmem x hin).1, Extended.below_fin.mpr (hlp.best x hin)⟩
    · exact h.nodes node' (by rw [hs]; exact List.mem_cons_of_mem node hrest) x hx
  · rw [hi] at hinc
    exact h.incumbent inc hinc
  · rw [ht, hi]
    rcases h.points x hx hint with ⟨node', hnode', hin⟩ | hinc
    · rw [hs] at hnode'
      rcases List.mem_cons.mp hnode' with rfl | hnode'
      · rcases Node.feasible_children hj' hv hin (hint j c hj hc) with hdown | hup
        · exact .inl ⟨_, List.mem_append_left _ (mem_ordered.mpr (.inl rfl)), hdown⟩
        · exact .inl ⟨_, List.mem_append_left _ (mem_ordered.mpr (.inr rfl)), hup⟩
      · exact .inl ⟨node', List.mem_append_right _ hnode', hin⟩
    · exact .inr hinc

end

/-- What the turns of a search keep: the points are covered until it ends, and then too if it ends
because no node is open or the incumbent is close enough to the best bound. -/
def Kept (p : Problem ℚ) (s : Search ℚ) : Prop :=
  (s.ended = none ∨ s.ended = some .gap → Covers p s) ∧
    (s.ended = some .exhausted → Covers p s ∧ s.stack = [])

theorem Covers.kept (h : Covers p s) (he : s.ended ≠ some .exhausted) : Kept p s :=
  ⟨fun _ ↦ h, fun hs ↦ absurd hs he⟩

theorem kept_of_ended {ended : SearchEnd ℚ} (he : s.ended = some ended)
    (hne : ended ≠ .exhausted) (hgap : ended ≠ .gap) : Kept p s := by
  refine ⟨fun hs ↦ ?_, fun hs ↦ absurd (Option.some_inj.mp (he.symm.trans hs)) hne⟩
  rcases hs with hs | hs
  · rw [he] at hs
    cases hs
  · exact absurd (Option.some_inj.mp (he.symm.trans hs)) hgap

theorem Covers.kept_closed (h : Covers p s) (he : s.ended = none) (mipGap : ℚ) :
    Kept p (s.closed mipGap) := by
  unfold closed
  split_ifs
  · exact Covers.kept ⟨h.nodes, h.incumbent, h.points⟩ (by simp)
  · exact h.kept (by simp [he])

theorem Covers.turn {oracle : Oracle ℚ} {config : SolveConfig ℚ} (h : Covers p s)
    (he : s.ended = none) (hturn : Turn oracle p config 0 s t)
    (hright : ∀ node rest, s.Opens node rest →
      (node.restrict p).AnsweredRightly (s.relaxation oracle p config node).1)
    (hobjective : ∀ q d lp, (oracle q config.forRelaxations d).value.1 = some lp →
      lp.objectiveValue = q.objectiveValue lp.values) : Kept p t := by
  have hanswer {node : Node ℚ} {rest : List (Node ℚ)} {lp : Solution ℚ} {d : Deadline}
      (ho : s.Opens node rest) (hlp : s.relaxation oracle p config node = (some lp, d)) :
      (node.restrict p).AnsweredRightly (some lp) := by
    have h := hright node rest ho
    rwa [hlp] at h
  have hrelax {node : Node ℚ} {rest : List (Node ℚ)} {lp : Solution ℚ} {d : Deadline}
      (ho : s.Opens node rest) (hlp : s.relaxation oracle p config node = (some lp, d))
      (hstatus : lp.status = .optimal) : Relaxed p node lp :=
    relaxed_of_answeredRightly (hanswer ho hlp) hstatus
      (hobjective _ _ lp (congrArg Prod.fst hlp))
  cases hturn with
  | exhausted hs =>
    exact ⟨fun hn ↦ by simp at hn, fun _ ↦ ⟨⟨h.nodes, h.incumbent, h.points⟩, hs⟩⟩
  | expired hs => exact kept_of_ended rfl (by simp) (by simp)
  | @pruned node rest hs hp =>
    refine Covers.kept (h.leave hs rfl rfl fun x hx ↦ ?_) (by simp [he])
    exact cutoff_le_of_prunes hp (h.nodes node (mem_of_stack_eq hs) x hx).2
  | unfinished | unbounded | unsettled => exact kept_of_ended rfl (by simp) (by simp)
  | @infeasible node rest lp d ho hlp hstatus =>
    refine Covers.kept (h.leave ho.stack rfl rfl fun x hx ↦ ?_) (by simp [counted, he])
    exact absurd hx ((hanswer ho hlp lp rfl).2 hstatus x)
  | @dominated node rest lp d ho hlp hstatus hp =>
    have hrelaxed := hrelax ho hlp hstatus
    rw [hrelaxed.score] at hp
    refine Covers.kept (h.leave ho.stack rfl rfl fun x hx ↦ ?_) (by simp [counted, he])
    exact cutoff_le_of_prunes hp (Extended.below_fin.mpr (hrelaxed.best x hx))
  | @improved node rest lp d ho hlp hstatus hp hf =>
    have hrelaxed := hrelax ho hlp hstatus
    have hround (j : ℕ) (hj : j ∈ integerColumns p) := round_eq_of_mostFractional hf hj
    rw [roundAt_eq_self hround, hrelaxed.score]
    rw [hrelaxed.score] at hp
    have hint : p.Integral lp.values := fun j c hj hc ↦ by
      rw [← hround j (mem_integerColumns.mpr ⟨c, hj, hc⟩)]
      exact Scalar.round_rat _
    have hnext : Covers p { s.counted rest lp d with
        incumbent := some ⟨p.score lp.values, lp.values⟩ } :=
      h.improve ho.stack hrelaxed hp hint rfl rfl
    exact hnext.kept_closed he _
  | @branched node rest lp d j x ho hlp hstatus hp hf =>
    have hrelaxed := hrelax ho hlp hstatus
    obtain ⟨hj, rfl⟩ := mem_of_mostFractional hf
    obtain ⟨c, hj, hc⟩ := mem_integerColumns.mp hj
    rw [hrelaxed.score]
    have hnext (stack : List (Node ℚ)) (hstack : stack = _) :
        Covers p { s.counted rest lp d with stack } :=
      h.branch ho.stack hrelaxed hj hc hstack rfl
    exact (hnext _ rfl).kept_closed he _

theorem outcome_eq_optimal {ended : SearchEnd ℚ} {incumbent : Option (Incumbent ℚ)} {x : Array ℚ}
    (h : outcome p ended incumbent = some (.optimal, x)) :
    ended = .exhausted ∧ ∃ inc, incumbent = some inc ∧ inc.values = x := by
  cases ended <;> cases incumbent <;> simp_all [outcome]

theorem outcome_eq_noFeasible {ended : SearchEnd ℚ} {incumbent : Option (Incumbent ℚ)}
    {x : Array ℚ} (h : outcome p ended incumbent = some (.noFeasible, x)) :
    ended = .exhausted ∧ incumbent = none := by
  cases ended <;> cases incumbent <;> simp_all [outcome]

section Reached

variable {oracle : Oracle ℚ} {config : SolveConfig ℚ} {clock : Clock} {fuel : ℕ}
  (hright : ∀ node d, Solves oracle p config 0 clock fuel node d →
    (node.restrict p).AnsweredRightly (oracle (node.restrict p) config.forRelaxations d).value.1)
  (hobjective : ∀ q d lp, (oracle q config.forRelaxations d).value.1 = some lp →
    lp.objectiveValue = q.objectiveValue lp.values)

include hright hobjective

theorem kept_reached {n : ℕ} (hn : n ≤ fuel) : Kept p (reached oracle p config 0 clock n) := by
  apply reached_invariant_le hn
  · exact (covers_start p _).kept (by simp [start])
  · intro s t he hs hturn hsolves
    exact (hs.1 (.inl he)).turn he hturn
      (fun node rest ho ↦ hright node _ (hsolves node rest ho)) hobjective

/-- A search whose relaxations are answered rightly is right about integer points where it finds
an optimal one or none. -/
theorem solve_right {solution : Solution ℚ}
    (hsolution : (solve oracle p config 0 clock fuel).value = some solution) :
    (solution.status = .optimal → p.Feasible solution.values ∧ p.Integral solution.values ∧
      ∀ y, p.Feasible y → p.Integral y → cutoff (p.score solution.values) ≤ p.score y) ∧
    (solution.status = .noFeasible → ∀ y, p.Feasible y → ¬ p.Integral y) := by
  have hkept := kept_reached hright hobjective (le_refl fuel)
  obtain ⟨ended, he, houtcome⟩ := value_solve oracle p config 0 clock fuel hsolution
  generalize reached oracle p config 0 clock fuel = s at hkept he houtcome
  constructor
  · intro hstatus
    rw [hstatus] at houtcome
    obtain ⟨rfl, inc, hi, hvalues⟩ := outcome_eq_optimal houtcome
    obtain ⟨hcovers, hstack⟩ := hkept.2 he
    obtain ⟨hfeasible, hint, hscore⟩ := hcovers.incumbent inc hi
    rw [hvalues] at hfeasible hint hscore
    refine ⟨hfeasible, hint, fun y hy hyint ↦ ?_⟩
    rcases hcovers.points y hy hyint with ⟨node, hnode, -⟩ | ⟨inc', hinc', hcut⟩
    · rw [hstack] at hnode
      cases hnode
    · obtain rfl := Option.some_inj.mp (hi.symm.trans hinc')
      rwa [hscore] at hcut
  · intro hstatus y hy hyint
    rw [hstatus] at houtcome
    obtain ⟨rfl, hi⟩ := outcome_eq_noFeasible houtcome
    obtain ⟨hcovers, hstack⟩ := hkept.2 he
    rcases hcovers.points y hy hyint with ⟨node, hnode, -⟩ | ⟨inc, hinc, -⟩
    · rw [hstack] at hnode
      cases hnode
    · rw [hi] at hinc
      cases hinc

end Reached

end Search

end LinProg
