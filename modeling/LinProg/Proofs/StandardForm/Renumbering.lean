import Mathlib.Data.Nat.Notation
import Mathlib.Tactic.SplitIfs
import LinProg.Tableau

namespace LinProg

variable {α : Type} [Scalar α] (f : ℕ → ℕ)

def Origin.renumber : Origin → Origin
  | row i => row (f i)
  | columnRange j => columnRange j

def Constraint.renumber (c : Constraint α) : Constraint α :=
  { c with origin := c.origin.renumber f }

def StandardForm.renumber (form : StandardForm α) : StandardForm α :=
  { form with
    constraints := form.constraints.map (.renumber f)
    rowWithoutActivity := form.rowWithoutActivity.map f }

namespace Tableau

theorem orient_renumber (c : Constraint α) :
    orient (c.renumber f) = ((orient c).1.renumber f, (orient c).2) := by
  unfold orient
  rw [show (c.renumber f).rhs = c.rhs from rfl]
  split_ifs <;> rfl

theorem layout_renumber (numVars numSlack numArtificial : ℕ) (cs : List (Constraint α)) (s a : ℕ) :
    layout numVars numSlack numArtificial (cs.map (.renumber f)) s a =
      layout numVars numSlack numArtificial cs s a := by
  induction cs generalizing s a with
  | nil => rfl
  | cons c cs ih =>
    rw [List.map_cons, layout, layout, show (c.renumber f).relation = c.relation from rfl]
    cases c.relation <;> simp only [ih] <;> rfl

theorem ofForm_renumber (form : StandardForm α) : ofForm (form.renumber f) = ofForm form := by
  have horiented : (form.renumber f).constraints.map orient =
      (form.constraints.map orient).map fun c ↦ (c.1.renumber f, c.2) := by
    simp only [StandardForm.renumber, List.map_map]
    exact List.map_congr_left fun c _ ↦ orient_renumber f c
  have hconstraints : ((form.renumber f).constraints.map orient).map (·.1) =
      ((form.constraints.map orient).map (·.1)).map (.renumber f) := by
    simp only [horiented, List.map_map]
    rfl
  have hcount (P : Relation → Bool) (cs : List (Constraint α)) :
      (cs.map (Constraint.renumber f)).countP (fun c ↦ P c.relation) =
        cs.countP fun c ↦ P c.relation := by
    rw [List.countP_map]
    rfl
  unfold ofForm
  dsimp only
  rw [hconstraints, horiented]
  simp only [hcount (· != .eq), hcount (· != .le), layout_renumber, List.zipWith_map_right]
  rfl

end Tableau

end LinProg
