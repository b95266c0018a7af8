import Mathlib.Logic.Function.Iterate
import LinProg.Proofs.Iteration

namespace LinProg.Storage

variable {β σ τ : Type}

theorem bind_of_eq_some {x : Option β} {b : β} (h : x = some b) (f : β → Option τ) :
    x.bind f = f b := by
  rw [h, Option.bind_some]

/-- The difference of two numbers. It fails where the second one is the larger, as `write` does
at an index outside of the vector. -/
def minus (m n : ℕ) : Option ℕ := if n ≤ m then some (m - n) else none

theorem minus_eq {m n : ℕ} (h : n ≤ m) : minus m n = some (m - n) := if_pos h

def write (v : Array β) (i : ℕ) (x : β) : Option (Array β) :=
  if i < v.size then some (v.setIfInBounds i x) else none

theorem write_eq {v : Array β} {i : ℕ} (h : i < v.size) (x : β) :
    write v i x = some (v.setIfInBounds i x) := if_pos h

def change (v : Array β) (i : ℕ) (f : β → Option β) : Option (Array β) := do
  write v i (← f (← v[i]?))

theorem change_eq {v : Array β} {i : ℕ} {f : β → Option β} {x y : β} (hx : v[i]? = some x)
    (hf : f x = some y) : change v i f = some (v.setIfInBounds i y) := by
  obtain ⟨hi, -⟩ := Array.getElem?_eq_some_iff.mp hx
  simp only [change, hx, hf, Option.bind_eq_bind, Option.bind_some]
  exact write_eq hi y

theorem change_eq_modify {v : Array β} {i : ℕ} (hi : i < v.size) (f : β → β) :
    change v i (fun x ↦ some (f x)) = some (v.modify i f) := by
  refine (change_eq (f := fun x ↦ some (f x)) (Array.getElem?_eq_getElem hi) rfl).trans
    (congrArg some (Array.ext (by simp) fun j hj hj' ↦ ?_))
  rw [Array.getElem_setIfInBounds (by simpa using hj), Array.getElem_modify]
  split
  · next hij => simp [hij]
  · rfl

theorem write_append (l r : List β) (x y : β) :
    write (l ++ x :: r).toArray l.length y = some (l ++ y :: r).toArray := by
  rw [write_eq (by simp)]
  simp [Array.setIfInBounds]

theorem setIfInBounds_self {v : Array β} {i : ℕ} {x : β} (h : v[i]? = some x) :
    v.setIfInBounds i x = v := by
  obtain ⟨hi, rfl⟩ := Array.getElem?_eq_some_iff.mp h
  rw [Array.setIfInBounds_def, dif_pos hi, Array.set_getElem_self]

def slice (v : Array β) (n : ℕ) : Option (Array β) :=
  if n ≤ v.size then some (v.extract 0 n) else none

def copyPrefix (v : Array β) (n : ℕ) (source : Array β) : Option (Array β) :=
  if n ≤ v.size ∧ source.size = n then some (source ++ v.extract n v.size) else none

section Loop

def loop : ℕ → (ℕ → β → Option β) → β → Option β
  | 0, _, b => some b
  | n + 1, f, b => loop n f b >>= f n

theorem loop_eq {n : ℕ} {f : ℕ → β → Option β} {states : ℕ → β} {b : β} (hb : states 0 = b)
    (h : ∀ i < n, f i (states i) = some (states (i + 1))) : loop n f b = some (states n) := by
  induction n with
  | zero => exact congrArg some hb.symm
  | succ n ih =>
    rw [loop, ih fun i hi ↦ h i (Nat.lt_succ_of_lt hi)]
    exact h n (Nat.lt_succ_self n)

theorem loop_replace {v w : Array β} (hsize : w.size = v.size) {f : ℕ → Array β → Option (Array β)}
    (h : ∀ i x y u, v[i]? = some x → w[i]? = some y → u[i]? = some x →
      f i u = some (u.setIfInBounds i y)) : loop v.size f v = some w := by
  -- after `k` turns, the first `k` elements are those of `w` and the others still those of `v`
  let states (k : ℕ) : Array β := w.extract 0 k ++ v.extract k v.size
  have hget {k : ℕ} (hk : k ≤ v.size) (i : ℕ) :
      (states k)[i]? = if i < k then w[i]? else v[i]? := by
    have hlen : (w.extract 0 k).size = k := by simp [hsize, hk]
    rw [Array.getElem?_append, hlen]
    split
    · next hi => simp [hi, hsize, hk]
    · next hi =>
      rw [Array.getElem?_extract]
      split
      · rw [Nat.add_sub_cancel' (Nat.le_of_not_lt hi)]
      · exact (Array.getElem?_eq_none (by omega)).symm
  have hend : states v.size = w := by simp [states, ← hsize]
  rw [← hend]
  refine loop_eq (by simp [states]) fun k hk ↦ ?_
  have hw : w[k]? = some w[k] := Array.getElem?_eq_getElem (hsize ▸ hk)
  rw [h k v[k] w[k] (states k) (Array.getElem?_eq_getElem hk) hw (by simp [hget (Nat.le_of_lt hk)])]
  refine congrArg some (Array.ext_getElem? fun i ↦ ?_)
  have hpos : k < (states k).size := by simp [states]; omega
  rw [Array.getElem?_setIfInBounds, hget (Nat.le_of_lt hk), hget hk]
  by_cases hik : k = i
  · subst hik
    simp [hpos, hw]
  · have : i < k ↔ i < k + 1 := by omega
    simp [hik, this]

theorem loop_change {v w : Array β} (hsize : w.size = v.size) {f : ℕ → β → Option β}
    (h : ∀ i x y, v[i]? = some x → w[i]? = some y → f i x = some y) :
    loop v.size (fun i v ↦ change v i (f i)) v = some w :=
  loop_replace hsize fun i x y _ hx hy hu ↦ change_eq hu (h i x y hx hy)

theorem loop_write {v : Array β} {n : ℕ} (hn : v.size = n) (x : β) :
    loop n (fun i v ↦ write v i x) v = some (Array.replicate n x) := by
  subst hn
  refine loop_replace Array.size_replicate fun i y z u _ hz hu ↦ ?_
  obtain ⟨hi, -⟩ := Array.getElem?_eq_some_iff.mp hu
  obtain rfl : x = z := by simpa using Array.getElem?_eq_some_iff.mp hz |>.2
  exact write_eq hi x

theorem loop_write_block (l r : List β) (n : ℕ) (x y : β) :
    loop n (fun k v ↦ write v (l.length + k) y) (l ++ List.replicate n x ++ r).toArray =
      some (l ++ List.replicate n y ++ r).toArray := by
  induction n generalizing r with
  | zero => rfl
  | succ n ih =>
    have hlast := write_append (l ++ List.replicate n y) r x y
    rw [List.length_append, List.length_replicate] at hlast
    rw [List.replicate_succ', List.replicate_succ', loop, List.append_assoc, List.append_assoc,
      List.singleton_append, ← List.append_assoc, ih, Option.bind_eq_bind, Option.bind_some, hlast]
    simp

/-- A loop over the elements of a list that folds them, on images of the fold's states. -/
theorem loop_foldl {γ : Type} {l : List γ} {f : ℕ → β → Option β} {g : σ → γ → σ} {e : σ → β}
    {P : σ → Prop} (h : ∀ i x s, l[i]? = some x → P s →
      f i (e s) = some (e (g s x)) ∧ P (g s x)) {s : σ} (hs : P s) :
    loop l.length f (e s) = some (e (l.foldl g s)) ∧ P (l.foldl g s) := by
  have hprefix (n : ℕ) (hn : n ≤ l.length) : loop n f (e s) =
      some (e ((l.take n).foldl g s)) ∧ P ((l.take n).foldl g s) := by
    induction n with
    | zero => exact ⟨rfl, hs⟩
    | succ n ih =>
      obtain ⟨hloop, hP⟩ := ih (Nat.le_of_succ_le hn)
      have hx : l[n]? = some l[n] := List.getElem?_eq_getElem hn
      have hnext := h n l[n] _ hx hP
      rw [List.take_add_one, hx, Option.toList_some, List.foldl_append, loop, hloop]
      exact hnext
  have hall := hprefix l.length (Nat.le_refl _)
  rwa [List.take_length] at hall

end Loop

section Scan

variable {l : List β} {xs : Array β}

theorem anyM_eq {p : β → Option Bool} {q : β → Bool} (h : ∀ x ∈ l, p x = some (q x)) :
    l.anyM p = some (l.any q) := by
  induction l with
  | nil => rfl
  | cons x l ih =>
    rw [List.anyM, h x List.mem_cons_self, List.any_cons, Option.bind_eq_bind, Option.bind_some]
    cases q x
    · exact ih fun y hy ↦ h y (List.mem_cons_of_mem x hy)
    · rfl

theorem findM?_eq {p : β → Option Bool} {q : β → Bool} (h : ∀ x ∈ l, p x = some (q x)) :
    l.findM? p = some (l.find? q) := by
  induction l with
  | nil => rfl
  | cons x l ih =>
    rw [List.findM?, h x List.mem_cons_self, List.find?_cons, Option.bind_eq_bind,
      Option.bind_some]
    cases q x
    · exact ih fun y hy ↦ h y (List.mem_cons_of_mem x hy)
    · rfl

theorem mapM_eq {γ : Type} {f : β → Option γ} {g : β → γ} (h : ∀ x ∈ l, f x = some (g x)) :
    l.mapM f = some (l.map g) := by
  induction l with
  | nil => rfl
  | cons x l ih =>
    rw [List.mapM_cons, h x List.mem_cons_self, ih fun y hy ↦ h y (List.mem_cons_of_mem x hy)]
    rfl

theorem any_getElem? {q : β → Bool} {i : ℕ} (hi : i < xs.size) : xs[i]?.any q = q xs[i] := by
  rw [Array.getElem?_eq_getElem hi, Option.any_some]

theorem anyM_range {p : ℕ → Option Bool} {q : β → Bool}
    (h : ∀ i x, xs[i]? = some x → p i = some (q x)) :
    (List.range xs.size).anyM p = some (xs.any q) := by
  have hany : (List.range xs.size).any (fun i ↦ xs[i]?.any q) = xs.any q := by
    rw [Bool.eq_iff_iff, List.any_eq_true, Array.any_eq_true]
    refine exists_congr fun i ↦ ⟨fun ⟨hi, hq⟩ ↦ ?_, fun ⟨hi, hq⟩ ↦ ?_⟩
    · rw [List.mem_range] at hi
      exact ⟨hi, (any_getElem? hi).symm.trans hq⟩
    · exact ⟨List.mem_range.mpr hi, (any_getElem? hi).trans hq⟩
  rw [← hany]
  refine anyM_eq fun i hi ↦ ?_
  rw [any_getElem? (List.mem_range.mp hi)]
  exact h i _ (Array.getElem?_eq_getElem (List.mem_range.mp hi))

theorem findM?_range {p : ℕ → Option Bool} {q : β → Bool}
    (h : ∀ i x, xs[i]? = some x → p i = some (q x)) :
    (List.range xs.size).findM? p = some (xs.findIdx? q) := by
  have hfind : (List.range xs.size).find? (fun i ↦ xs[i]?.any q) = xs.findIdx? q := by
    refine Option.ext fun i ↦ ?_
    rw [List.find?_range_eq_some, Array.findIdx?_eq_some_iff_getElem, List.mem_range]
    constructor
    · rintro ⟨hq, hi, hbefore⟩
      refine ⟨hi, (any_getElem? hi).symm.trans hq, fun j hj ↦ ?_⟩
      simpa [any_getElem? (Nat.lt_trans hj hi)] using hbefore j hj
    · rintro ⟨hi, hq, hbefore⟩
      refine ⟨(any_getElem? hi).trans hq, hi, fun j hj ↦ ?_⟩
      simpa [any_getElem? (Nat.lt_trans hj hi)] using hbefore j hj
  rw [← hfind]
  refine findM?_eq fun i hi ↦ ?_
  rw [any_getElem? (List.mem_range.mp hi)]
  exact h i _ (Array.getElem?_eq_getElem (List.mem_range.mp hi))

end Scan

section Repetition

def iterateWhile (p : σ → Bool) (f : σ → Option σ) : ℕ → σ → Option σ
  | 0, s => some s
  | n + 1, s => if p s then f s >>= iterateWhile p f n else some s

/-- A repetition that follows a loop of the library turn by turn. -/
theorem iterateWhile_follows {E : Type} {p : σ → Bool} {f : σ → Option σ} {q : τ → Bool}
    {g : τ → Logged E τ} {R : σ → τ → Prop} (htest : ∀ s t, R s t → p s = q t)
    (hturn : ∀ s t, R s t → q t = true → ∃ s', f s = some s' ∧ R s' (g t).value) (n : ℕ) {s : σ}
    {t : τ} (h : R s t) :
    ∃ s', iterateWhile p f n s = some s' ∧ R s' (Logged.iterateWhile q g n t).value := by
  induction n generalizing s t with
  | zero => exact ⟨s, rfl, h⟩
  | succ n ih =>
    rw [iterateWhile, Logged.iterateWhile_succ, htest s t h]
    split
    · next hq =>
      obtain ⟨s', hs', hR⟩ := hturn s t h hq
      rw [hs']
      exact ih hR
    · exact ⟨s, rfl, h⟩

end Repetition

end LinProg.Storage
