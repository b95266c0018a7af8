namespace LinProg

structure Logged (E β : Type) where
  value : β
  events : List E
  deriving Repr, DecidableEq

namespace Logged

variable {E β γ σ : Type}

instance : Monad (Logged E) where
  pure x := ⟨x, []⟩
  bind x f :=
    let y := f x.value
    ⟨y.value, x.events ++ y.events⟩

@[simp] theorem pure_eq (x : β) : (pure x : Logged E β) = ⟨x, []⟩ := rfl

@[simp] theorem value_bind (x : Logged E β) (f : β → Logged E γ) :
    (x >>= f).value = (f x.value).value := rfl

@[simp] theorem events_bind (x : Logged E β) (f : β → Logged E γ) :
    (x >>= f).events = x.events ++ (f x.value).events := rfl

theorem mk_bind (x : β) (log : List E) (f : β → Logged E γ) :
    ((⟨x, log⟩ : Logged E β) >>= f) = ⟨(f x).value, log ++ (f x).events⟩ := rfl

theorem ext {x y : Logged E β} (hv : x.value = y.value) (he : x.events = y.events) : x = y := by
  cases x
  cases y
  cases hv
  cases he
  rfl

def raise (e : E) : Logged E Unit := ⟨(), [e]⟩

def iterateFrom (p : σ → Bool) (f : σ → Logged E σ) : Nat → σ → Array E → Logged E σ
  | 0, s, log => ⟨s, log.toList⟩
  | n + 1, s, log =>
    if p s then
      let r := f s
      iterateFrom p f n r.value (log ++ r.events)
    else ⟨s, log.toList⟩

/-- Changes a state as long as a test asks for it, at most a number of times. -/
def iterateWhile (p : σ → Bool) (f : σ → Logged E σ) (n : Nat) (s : σ) : Logged E σ :=
  iterateFrom p f n s #[]

theorem iterateFrom_eq (p : σ → Bool) (f : σ → Logged E σ) (n : Nat) (s : σ) (log : Array E) :
    iterateFrom p f n s log =
      ⟨(iterateWhile p f n s).value, log.toList ++ (iterateWhile p f n s).events⟩ := by
  unfold iterateWhile
  induction n generalizing s log with
  | zero => simp [iterateFrom]
  | succ n ih =>
    simp only [iterateFrom]
    split
    · rw [ih, ih (f s).value (#[] ++ (f s).events)]
      simp [List.append_assoc]
    · simp

theorem iterateWhile_zero (p : σ → Bool) (f : σ → Logged E σ) (s : σ) :
    iterateWhile p f 0 s = ⟨s, []⟩ := rfl

theorem iterateWhile_succ (p : σ → Bool) (f : σ → Logged E σ) (n : Nat) (s : σ) :
    iterateWhile p f (n + 1) s = if p s then f s >>= iterateWhile p f n else ⟨s, []⟩ := by
  rw [iterateWhile, iterateFrom]
  split
  · rw [iterateFrom_eq]
    exact ext rfl (by simp)
  · rfl

end Logged

end LinProg
