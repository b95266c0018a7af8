import LinProg.Proofs.SparseVector.Compaction
import LinProg.Proofs.SparseVector.InPlace

namespace LinProg

inductive Change (ν α : Type) where
  | set (slot : ℕ) (value : α)
  | add (slot : ℕ) (delta : α)
  | clear
  | clean (eps : α)
  | copyFrom (src : ν)
  | addScaled (a : α) (y : ν)

/-- A call on vectors that are numbered in the order in which they were made. -/
inductive Call (α : Type) where
  | ofPairs (dim : ℕ) (pairs : List (ℕ × α))
  | change (target : ℕ) (change : Change ℕ α)

namespace Change

variable {ν α : Type}

def operands : Change ν α → List ν
  | copyFrom w | addScaled _ w => [w]
  | _ => []

def resolve (vs : List ν) : Change ℕ α → Option (Change ν α)
  | set slot value => some (.set slot value)
  | add slot delta => some (.add slot delta)
  | clear => some .clear
  | clean eps => some (.clean eps)
  | copyFrom src => (vs[src]?).map .copyFrom
  | addScaled a y => (vs[y]?).map (.addScaled a)

def map {μ : Type} (f : ν → μ) : Change ν α → Change μ α
  | set slot value => .set slot value
  | add slot delta => .add slot delta
  | clear => .clear
  | clean eps => .clean eps
  | copyFrom src => .copyFrom (f src)
  | addScaled a y => .addScaled a (f y)

/-- A change of a vector of some dimension that cannot be made: its slot lies outside, or the other
vector has another dimension. -/
def Fails (dim : ℕ) : Change ℕ α → Prop
  | set slot _ | add slot _ => slot = 0 ∨ dim < slot
  | clear | clean _ => False
  | copyFrom other | addScaled _ other => dim ≠ other

theorem resolve_map {μ : Type} (f : ν → μ) (vs : List ν) (c : Change ℕ α) :
    c.resolve (vs.map f) = (c.resolve vs).map (Change.map f) := by
  cases c with
  | set | add | clear | clean => rfl
  | copyFrom i | addScaled _ i =>
    simp only [resolve, List.getElem?_map, Option.map_map]
    rfl

theorem operands_resolve {vs : List ν} {c : Change ℕ α} {d : Change ν α}
    (h : c.resolve vs = some d) : ∀ w ∈ d.operands, w ∈ vs := by
  intro w hw
  cases c with
  | set | add | clear | clean =>
    cases h
    cases hw
  | copyFrom i | addScaled _ i =>
    obtain ⟨u, hu, rfl⟩ := Option.map_eq_some_iff.mp h
    rw [List.mem_singleton.mp hw]
    exact List.mem_of_getElem? hu

end Change

def Call.Fails {α : Type} (dims : List ℕ) : Call α → Prop
  | .ofPairs dim pairs => ∃ p ∈ pairs, p.1 = 0 ∨ dim < p.1
  | .change k c => ∃ dim d, dims[k]? = some dim ∧ c.resolve dims = some d ∧ d.Fails dim

theorem Call.fails_change_iff {ν α : Type} {vs : List ν} {k : ℕ} {v : ν} {c : Change ℕ α}
    {d : Change ν α} (hv : vs[k]? = some v) (hd : c.resolve vs = some d) (f : ν → ℕ) :
    (Call.change k c).Fails (vs.map f) ↔ (d.map f).Fails (f v) := by
  simp [Call.Fails, Change.resolve_map, hv, hd]

/-- How vectors are made, and what a change leaves of one. -/
structure VectorOps (ν α : Type) where
  ofPairs : ℕ → List (ℕ × α) → Except VectorError ν
  change : Change ν α → ν → EStateM.Result VectorError ν Unit

namespace VectorOps

variable {ν α : Type} (ops : VectorOps ν α)

/-- The answer to a call and the vectors after it. Nothing is called where a number stands for no
vector. -/
def call (vs : List ν) : Call α → Except VectorError Unit × List ν
  | .ofPairs dim pairs =>
    match ops.ofPairs dim pairs with
    | .ok v => (.ok (), vs ++ [v])
    | .error e => (.error e, vs)
  | .change k c =>
    match vs[k]?, c.resolve vs with
    | some v, some c =>
      match ops.change c v with
      | .ok () w => (.ok (), vs.set k w)
      | .error e w => (.error e, vs.set k w)
    | _, _ => (.ok (), vs)

def run (calls : List (Call α)) : List ν := calls.foldl (fun vs c ↦ (ops.call vs c).2) []

theorem set_eq_self {vs : List ν} {k : ℕ} {v : ν} (h : vs[k]? = some v) : vs.set k v = vs := by
  obtain ⟨hk, rfl⟩ := List.getElem?_eq_some_iff.mp h
  exact List.set_getElem_self hk

inductive Outcome (vs : List ν) : Call α → Except VectorError Unit × List ν → Prop
  | made {dim : ℕ} {pairs : List (ℕ × α)} {v : ν} (h : ops.ofPairs dim pairs = .ok v) :
      Outcome vs (.ofPairs dim pairs) (.ok (), vs ++ [v])
  | refused {dim : ℕ} {pairs : List (ℕ × α)} {e : VectorError}
      (h : ops.ofPairs dim pairs = .error e) : Outcome vs (.ofPairs dim pairs) (.error e, vs)
  | changed {k : ℕ} {c : Change ℕ α} {v w : ν} {d : Change ν α} (hv : vs[k]? = some v)
      (hd : c.resolve vs = some d) (h : ops.change d v = .ok () w) :
      Outcome vs (.change k c) (.ok (), vs.set k w)
  | stopped {k : ℕ} {c : Change ℕ α} {v w : ν} {d : Change ν α} {e : VectorError}
      (hv : vs[k]? = some v) (hd : c.resolve vs = some d) (h : ops.change d v = .error e w) :
      Outcome vs (.change k c) (.error e, vs.set k w)
  | nothing {k : ℕ} {c : Change ℕ α} (h : vs[k]? = none ∨ c.resolve vs = none) :
      Outcome vs (.change k c) (.ok (), vs)

variable {ops}

theorem call_outcome (vs : List ν) (c : Call α) : ops.Outcome vs c (ops.call vs c) := by
  cases c with
  | ofPairs dim pairs =>
    cases h : ops.ofPairs dim pairs with
    | error e => simpa [call, h] using .refused h
    | ok v => simpa [call, h] using .made h
  | change k c =>
    cases hv : vs[k]? with
    | none => simpa [call, hv] using .nothing (.inl hv)
    | some v =>
      cases hd : c.resolve vs with
      | none => simpa [call, hv, hd] using .nothing (.inr hd)
      | some d =>
        cases h : ops.change d v with
        | ok _ w => simpa [call, hv, hd, h] using .changed hv hd h
        | error e w => simpa [call, hv, hd, h] using .stopped hv hd h

theorem run_concat (calls : List (Call α)) (c : Call α) :
    ops.run (calls ++ [c]) = (ops.call (ops.run calls) c).2 := by
  rw [run, List.foldl_append]
  rfl

/-- What all vectors have when they are made and keep when they are changed, they have after every
history. -/
theorem run_invariant {P : ν → Prop}
    (hmade : ∀ dim pairs v, ops.ofPairs dim pairs = .ok v → P v)
    (hok : ∀ c v w, P v → (∀ u ∈ c.operands, P u) → ops.change c v = .ok () w → P w)
    (herror : ∀ c v e w, P v → (∀ u ∈ c.operands, P u) → ops.change c v = .error e w → P w)
    (calls : List (Call α)) : ∀ v ∈ ops.run calls, P v := by
  induction calls using List.reverseRecOn with
  | nil => simp [run]
  | append_singleton calls c ih =>
    rw [run_concat]
    have houtcome := ops.call_outcome (ops.run calls) c
    generalize ops.call (ops.run calls) c = result at houtcome
    cases houtcome with
    | made h =>
      intro w hw
      rcases List.mem_append.mp hw with hw | hw
      · exact ih w hw
      · rw [List.mem_singleton.mp hw]
        exact hmade _ _ _ h
    | refused | nothing => exact ih
    | changed hv hd h =>
      intro u hu
      rcases List.mem_or_eq_of_mem_set hu with hu | rfl
      · exact ih u hu
      · exact hok _ _ _ (ih _ (List.mem_of_getElem? hv))
          (fun u hu ↦ ih u (Change.operands_resolve hd u hu)) h
    | stopped hv hd h =>
      intro u hu
      rcases List.mem_or_eq_of_mem_set hu with hu | rfl
      · exact ih u hu
      · exact herror _ _ _ _ (ih _ (List.mem_of_getElem? hv))
          (fun u hu ↦ ih u (Change.operands_resolve hd u hu)) h

end VectorOps

namespace SparseVector

variable {α : Type} [Scalar α]

def applied : Change (SparseVector α) α → SparseVector α → Except VectorError (SparseVector α)
  | .set slot value, v => v.set slot value
  | .add slot delta, v => v.add slot delta
  | .clear, v => .ok v.clear
  | .clean eps, v => .ok (v.clean eps)
  | .copyFrom src, v => v.copyFrom src
  | .addScaled a y, v => v.addScaled a y

def ops : VectorOps (SparseVector α) α where
  ofPairs := ofPairs
  change
    | .set slot value => (InPlace.set slot value).run
    | .add slot delta => (InPlace.add slot delta).run
    | .clear => InPlace.clear.run
    | .clean eps => (InPlace.clean eps).run
    | .copyFrom src => (InPlace.copyFrom src).run
    | .addScaled a y => (InPlace.addScaled a y).run

variable {v w : SparseVector α} {c : Change (SparseVector α) α}

theorem Valid.change_ops (hv : v.Valid) (hc : ∀ u ∈ c.operands, u.Valid) :
    ops.change c v = settle v (applied c v) := by
  cases c with
  | set slot value => exact InPlace.run_set slot value v
  | add slot delta => exact InPlace.run_add slot delta v
  | clear => rfl
  | clean eps => rfl
  | copyFrom src => exact InPlace.run_copyFrom src v
  | addScaled a y => exact InPlace.run_addScaled hv (hc y List.mem_cons_self) a

theorem Valid.applied_of_ok (hv : v.Valid) (hc : ∀ u ∈ c.operands, u.Valid)
    (h : ops.change c v = .ok () w) : applied c v = .ok w := by
  rw [hv.change_ops hc] at h
  cases ha : applied c v with
  | error e => simp [ha, settle] at h
  | ok u =>
    rw [ha] at h
    cases h
    rfl

theorem Valid.applied_of_error (hv : v.Valid) (hc : ∀ u ∈ c.operands, u.Valid) {e : VectorError}
    (h : ops.change c v = .error e w) : applied c v = .error e ∧ w = v := by
  rw [hv.change_ops hc] at h
  cases ha : applied c v with
  | error e =>
    rw [ha] at h
    cases h
    exact ⟨rfl, rfl⟩
  | ok u => simp [ha, settle] at h

theorem Valid.applied (hv : v.Valid) (hc : ∀ u ∈ c.operands, u.Valid) (h : applied c v = .ok w) :
    w.Valid ∧ w.dim = v.dim := by
  cases c with
  | set slot value => exact ⟨hv.set h, (hv.set_eq_ok h).1⟩
  | add slot delta => exact ⟨hv.add h, (hv.add_eq_ok h).1⟩
  | clear =>
    cases h
    rw [hv.clear_eq]
    exact ⟨valid_zero v.dim, dim_zero v.dim⟩
  | clean eps =>
    cases h
    exact ⟨(hv.clean_eq eps).1, (hv.clean_eq eps).2.1⟩
  | copyFrom src =>
    by_cases hdim : v.dim = src.dim
    · rw [SparseVector.applied, hv.copyFrom_eq (hc src List.mem_cons_self) hdim] at h
      cases h
      exact ⟨hc _ List.mem_cons_self, hdim.symm⟩
    · rw [SparseVector.applied, copyFrom_eq_error hdim] at h
      cases h
  | addScaled a y => exact Valid.addScaled hv h

theorem valid_run (calls : List (Call α)) : ∀ v ∈ ops.run calls, v.Valid := by
  apply VectorOps.run_invariant
  · intro dim pairs v h
    exact valid_ofPairs h
  · intro c v w hv hc h
    exact (hv.applied hc (hv.applied_of_ok hc h)).1
  · intro c v e w hv hc h
    rw [(hv.applied_of_error hc h).2]
    exact hv

theorem Valid.applied_fails_iff (hv : v.Valid) (hc : ∀ u ∈ c.operands, u.Valid) :
    (∃ e, SparseVector.applied c v = .error e) ↔ (c.map dim).Fails v.dim := by
  cases c with
  | set slot value =>
    change _ ↔ slot = 0 ∨ v.dim < slot
    by_cases h : slot = 0 ∨ v.dim < slot
    · exact iff_of_true ⟨_, set_eq_error h value⟩ h
    · obtain ⟨w, hw⟩ := exists_set h value
      simp [SparseVector.applied, hw, h]
  | add slot delta =>
    change _ ↔ slot = 0 ∨ v.dim < slot
    by_cases h : slot = 0 ∨ v.dim < slot
    · exact iff_of_true ⟨_, add_eq_error h delta⟩ h
    · obtain ⟨w, hw⟩ : ∃ w, v.add slot delta = .ok w := exists_add (by omega) (by omega) delta
      simp [SparseVector.applied, hw, h]
  | clear | clean => simp [SparseVector.applied, Change.map, Change.Fails]
  | copyFrom src =>
    by_cases hdim : v.dim = src.dim
    · simp [SparseVector.applied, Change.map, Change.Fails, hdim,
        hv.copyFrom_eq (hc src List.mem_cons_self) hdim]
    · simp [SparseVector.applied, Change.map, Change.Fails, hdim, copyFrom_eq_error hdim]
  | addScaled a y =>
    by_cases hdim : v.dim = y.dim
    · obtain ⟨u, hu⟩ := hv.exists_addScaled (hc y List.mem_cons_self) hdim a
      simp [SparseVector.applied, Change.map, Change.Fails, hdim, hu]
    · simp [SparseVector.applied, Change.map, Change.Fails, hdim, addScaled_eq_error hdim]

theorem call_fails_iff {vs : List (SparseVector α)} (hvs : ∀ v ∈ vs, v.Valid) (c : Call α) :
    (∃ e, (ops.call vs c).1 = .error e) ↔ c.Fails (vs.map dim) := by
  have houtcome := ops.call_outcome vs c
  generalize ops.call vs c = result at houtcome
  cases houtcome with
  | made h =>
    have hpairs := ofPairs_fails_iff.not.mp (not_exists.mpr fun e he ↦ by cases h.symm.trans he)
    exact iff_of_false (by simp) hpairs
  | refused h => exact iff_of_true ⟨_, rfl⟩ (ofPairs_fails_iff.mp ⟨_, h⟩)
  | changed hv hd h =>
    have hv' := hvs _ (List.mem_of_getElem? hv)
    have hoperands := fun u hu ↦ hvs u (Change.operands_resolve hd u hu)
    rw [Call.fails_change_iff hv hd, ← hv'.applied_fails_iff hoperands,
      hv'.applied_of_ok hoperands h]
    simp
  | stopped hv hd h =>
    have hv' := hvs _ (List.mem_of_getElem? hv)
    have hoperands := fun u hu ↦ hvs u (Change.operands_resolve hd u hu)
    rw [Call.fails_change_iff hv hd, ← hv'.applied_fails_iff hoperands,
      (hv'.applied_of_error hoperands h).1]
    simp
  | nothing h =>
    refine iff_of_false (by simp) ?_
    rintro ⟨dim, d, hdim, hd, -⟩
    rw [Change.resolve_map, Option.map_eq_some_iff] at hd
    rw [List.getElem?_map, Option.map_eq_some_iff] at hdim
    obtain ⟨v, hv, -⟩ := hdim
    obtain ⟨d', hd', -⟩ := hd
    simp [hv, hd'] at h

theorem call_keeps {vs : List (SparseVector α)} (hvs : ∀ v ∈ vs, v.Valid) (c : Call α) :
    vs.map dim <+: (ops.call vs c).2.map dim ∧
      ∀ e, (ops.call vs c).1 = .error e → (ops.call vs c).2 = vs := by
  have houtcome := ops.call_outcome vs c
  generalize ops.call vs c = result at houtcome
  cases houtcome with
  | made h =>
    rw [List.map_append]
    exact ⟨List.prefix_append _ _, nofun⟩
  | refused | nothing => exact ⟨List.prefix_rfl, fun _ _ ↦ rfl⟩
  | changed hv hd h =>
    have hv' := hvs _ (List.mem_of_getElem? hv)
    have hoperands := fun u hu ↦ hvs u (Change.operands_resolve hd u hu)
    refine ⟨?_, nofun⟩
    rw [List.map_set, (hv'.applied hoperands (hv'.applied_of_ok hoperands h)).2,
      VectorOps.set_eq_self (by rw [List.getElem?_map, hv, Option.map_some])]
  | stopped hv hd h =>
    have hv' := hvs _ (List.mem_of_getElem? hv)
    have hoperands := fun u hu ↦ hvs u (Change.operands_resolve hd u hu)
    rw [(hv'.applied_of_error hoperands h).2, VectorOps.set_eq_self hv]
    exact ⟨List.prefix_rfl, fun _ _ ↦ rfl⟩

/-- After every history of calls the position tables and the entries of all vectors agree, and
whatever call comes next leaves the dimensions as they are, and everything if it fails. -/
theorem histories_keep_vectors (calls : List (Call α)) :
    (∀ v ∈ ops.run calls, v.check = .ok () ∧ (∀ e ∈ v.entries, 0 < e.slot ∧ e.slot ≤ v.dim) ∧
      (v.entries.toList.map (·.slot)).Nodup ∧
      (∀ j k : ℕ, v.position[j]? = some (some k) ↔
        (v.entries[k]?).map (·.slot) = some (j + 1)) ∧
      v.nnz ≤ v.dim ∧
      ∀ y ∈ ops.run calls, v.dim = y.dim →
        ∀ a, ∃ w, (InPlace.addScaled a y).run v = .ok () w) ∧
    ∀ c : Call α, (ops.run calls).map dim <+: (ops.call (ops.run calls) c).2.map dim ∧
      ∀ e, (ops.call (ops.run calls) c).1 = .error e →
        (ops.call (ops.run calls) c).2 = ops.run calls ∧ c.Fails ((ops.run calls).map dim) := by
  have hvalid := valid_run calls
  refine ⟨fun v hv ↦ ?_, fun c ↦ ?_⟩
  · have h := hvalid v hv
    refine ⟨h.check_eq_ok, fun e ↦ h.slot_range, h.nodup_slots, fun j k ↦ h.position_eq_some_iff,
      h.nnz_le_dim, fun y hy hdim a ↦ ?_⟩
    obtain ⟨w, hw⟩ := h.exists_addScaled (hvalid y hy) hdim a
    refine ⟨w, ?_⟩
    rw [InPlace.run_addScaled h (hvalid y hy), hw]
    rfl
  · obtain ⟨hdims, herror⟩ := call_keeps hvalid c
    exact ⟨hdims, fun e he ↦ ⟨herror e he, (call_fails_iff hvalid c).mp ⟨e, he⟩⟩⟩

end SparseVector

end LinProg
