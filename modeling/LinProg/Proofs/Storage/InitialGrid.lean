import LinProg.Proofs.Storage.Grid
import LinProg.Proofs.Storage.StandardForm

namespace LinProg.Storage

variable {α : Type} [Scalar α]

namespace Grid

def enterSides (numCells : ℕ) (c : Constraint α) (cs : Array α) : Option (Array α) := do
  let cs ← c.coefficients.zipIdx.foldlM (fun cs x ↦ write cs x.2 x.1) cs
  write cs (← minus numCells 1) c.rhs

/-- Writes an oriented constraint into a row of zeros, with its slack and its artificial variable
where it has them. -/
def enterRow (numCells slack artificial : ℕ) (c : Constraint α) (cs : Array α) :
    Option (Array α) := do
  let cs ← enterSides numCells c cs
  match c.relation with
  | .le => write cs slack 1
  | .ge => do
    let cs ← write cs slack (-1)
    write cs artificial 1
  | .eq => write cs artificial 1

def enterAll (numCells : ℕ) : List (Constraint α × α) → (i slack artificial : ℕ) → Grid α →
    Option (Grid α)
  | [], _, _, _, g => some g
  | (c, sign) :: cs, i, slack, artificial, g => do
    let data ← change g.data i (enterRow numCells slack artificial c)
    let basic := if c.relation = .le then slack else artificial
    let basicVars ← write g.basicVars i basic
    let duals := g.duals.push ⟨basic, sign⟩
    enterAll numCells cs (i + 1) (if c.relation = .eq then slack else slack + 1)
      (if c.relation = .le then artificial else artificial + 1) { g with data, basicVars, duals }

def build (form : Standard α) : Option (Grid α) := do
  let oriented := form.constraints.map Tableau.orient
  let numSlack := (oriented.map (·.1)).countP (·.relation != .eq)
  let numArtificial := (oriented.map (·.1)).countP (·.relation != .le)
  let numConstraints := form.constraints.length
  let numCells := form.numVars + numSlack + numArtificial + 1
  let g ← enterAll numCells oriented 0 form.numVars (form.numVars + numSlack)
    { data := Array.replicate (numConstraints + 1) (Array.replicate numCells 0)
      basicVars := Array.replicate numConstraints 0, numVars := form.numVars, numSlack
      numArtificial, duals := #[] }
  let data ← change g.data numConstraints fun cs ↦ copyPrefix cs form.numVars form.objective
  return { g with data }

end Grid

section Rows

variable {numVars numSlack numArtificial s a : ℕ} {c : Constraint α}

omit [Scalar α] in
theorem write_block {l m r : List α} {i : ℕ} (hi : i < m.length) (x : α) :
    write (l ++ m ++ r).toArray (l.length + i) x = some (l ++ m.set i x ++ r).toArray := by
  rw [write_eq (by simp; omega)]
  simp [hi]

omit [Scalar α] in
theorem foldlM_write {l zs r xs : List α} (h : zs.length = xs.length) :
    (xs.zipIdx l.length).foldlM (fun cs x ↦ write cs x.2 x.1) (l ++ zs ++ r).toArray =
      some (l ++ xs ++ r).toArray := by
  induction xs generalizing l zs with
  | nil =>
    obtain rfl := List.length_eq_zero_iff.mp h
    rfl
  | cons x xs ih =>
    obtain ⟨z, zs, rfl⟩ := List.exists_cons_of_length_eq_add_one h
    have hrest := ih (l := l ++ [x]) (Nat.succ_injective h)
    rw [List.length_append, List.length_singleton] at hrest
    rw [List.zipIdx_cons, List.foldlM_cons, List.append_assoc, List.cons_append, write_append,
      Option.bind_eq_bind, Option.bind_some]
    simpa using hrest

theorem enterSides_eq (c : Constraint α) (m n : ℕ) :
    Grid.enterSides (c.coefficients.length + m + n + 1) c
        (Array.replicate (c.coefficients.length + m + n + 1) 0) =
      some (c.coefficients ++ List.replicate m 0 ++ List.replicate n 0 ++ [c.rhs]).toArray := by
  have hzeros : Array.replicate (c.coefficients.length + m + n + 1) (0 : α) =
      (List.replicate c.coefficients.length (0 : α) ++
        (List.replicate m 0 ++ List.replicate n 0 ++ [0])).toArray := by
    simp only [← List.replicate_succ', List.replicate_append_replicate,
      List.toArray_replicate, Nat.add_assoc]
  have hcopy := foldlM_write (l := []) (r := List.replicate m 0 ++ List.replicate n 0 ++ [0])
    (List.length_replicate (a := (0 : α)) (n := c.coefficients.length))
  have hrhs := write_append (c.coefficients ++ List.replicate m 0 ++ List.replicate n 0) [] 0 c.rhs
  rw [List.length_append, List.length_append, List.length_replicate, List.length_replicate] at hrhs
  rw [List.length_nil, List.nil_append, List.nil_append, ← hzeros] at hcopy
  rw [Grid.enterSides, hcopy, Option.bind_eq_bind, Option.bind_some,
    minus_eq (Nat.le_add_left 1 _), Option.bind_eq_bind, Option.bind_some, Nat.add_sub_cancel,
    ← List.append_assoc, ← List.append_assoc, hrhs]

omit [Scalar α] in
theorem cells_toArray (l : List α) (b : α) : cells ⟨l.toArray, b⟩ = (l ++ [b]).toArray := by
  simp [cells]

def laidOut (numVars numSlack numArtificial : ℕ) (c : Constraint α) (s a : ℕ) : BasicRow α :=
  let equation (slack artificial : List α) : Equation α :=
    ⟨(c.coefficients ++ slack ++ artificial).toArray, c.rhs⟩
  match c.relation with
  | .le =>
    ⟨numVars + s, equation (Tableau.block numSlack s 1) (List.replicate numArtificial 0)⟩
  | .ge =>
    ⟨numVars + numSlack + a,
      equation (Tableau.block numSlack s (-1)) (Tableau.block numArtificial a 1)⟩
  | .eq =>
    ⟨numVars + numSlack + a,
      equation (List.replicate numSlack 0) (Tableau.block numArtificial a 1)⟩

theorem layout_cons (c : Constraint α) (cs : List (Constraint α)) :
    Tableau.layout numVars numSlack numArtificial (c :: cs) s a =
      laidOut numVars numSlack numArtificial c s a ::
        Tableau.layout numVars numSlack numArtificial cs
          (if c.relation = .eq then s else s + 1) (if c.relation = .le then a else a + 1) := by
  cases h : c.relation <;> simp [Tableau.layout, laidOut, h]

theorem basic_laidOut (c : Constraint α) :
    (laidOut numVars numSlack numArtificial c s a).basic =
      if c.relation = .le then numVars + s else numVars + numSlack + a := by
  cases h : c.relation <;> simp [laidOut, h]

theorem size_laidOut (hc : c.coefficients.length = numVars) :
    (laidOut numVars numSlack numArtificial c s a).equation.coefficients.size =
      numVars + numSlack + numArtificial := by
  cases h : c.relation <;> simp [laidOut, h, hc, Nat.add_assoc]

theorem enterRow_eq (hc : c.coefficients.length = numVars)
    (hs : c.relation ≠ .eq → s < numSlack) (ha : c.relation ≠ .le → a < numArtificial) :
    Grid.enterRow (numVars + numSlack + numArtificial + 1) (numVars + s) (numVars + numSlack + a) c
        (Array.replicate (numVars + numSlack + numArtificial + 1) 0) =
      some (cells (laidOut numVars numSlack numArtificial c s a).equation) := by
  subst hc
  have hslack (x : α) (A : List α) (h : s < numSlack) :
      write (c.coefficients ++ List.replicate numSlack 0 ++ A ++ [c.rhs]).toArray
        (c.coefficients.length + s) x =
          some (c.coefficients ++ Tableau.block numSlack s x ++ A ++ [c.rhs]).toArray := by
    rw [List.append_assoc _ A, List.append_assoc _ A]
    exact write_block (by simpa using h) x
  have hartificial (S : List α) (hS : S.length = numSlack) (h : a < numArtificial) :
      write (c.coefficients ++ S ++ List.replicate numArtificial 0 ++ [c.rhs]).toArray
        (c.coefficients.length + numSlack + a) 1 =
          some (c.coefficients ++ S ++ Tableau.block numArtificial a 1 ++ [c.rhs]).toArray := by
    rw [← hS, ← List.length_append]
    exact write_block (by simpa using h) 1
  rw [Grid.enterRow, enterSides_eq, Option.bind_eq_bind, Option.bind_some]
  cases hrel : c.relation with
  | le =>
    have hs := hs (by simp [hrel])
    simp only [laidOut, hrel, cells_toArray]
    exact hslack 1 _ hs
  | ge =>
    have hs := hs (by simp [hrel])
    have ha := ha (by simp [hrel])
    simp only [laidOut, hrel, cells_toArray, hslack _ _ hs, Option.bind_some]
    exact hartificial _ (Tableau.length_block _ _ _) ha
  | eq =>
    have ha := ha (by simp [hrel])
    simp only [laidOut, hrel, cells_toArray]
    exact hartificial _ List.length_replicate ha

end Rows

section Entered

variable {numVars numSlack numArtificial : ℕ}

/-- A grid that has taken in constraints as the rows `done`, with `n` more rows left. -/
def entered (numVars numSlack numArtificial : ℕ) (done : List (BasicRow α))
    (duals : List (DualColumn α)) (n : ℕ) : Grid α :=
  let blank : Array α := Array.replicate (numVars + numSlack + numArtificial + 1) 0
  { data :=
      (done.map (fun (r : BasicRow α) ↦ cells r.equation) ++ List.replicate (n + 1) blank).toArray
    basicVars := (done.map BasicRow.basic ++ List.replicate n 0).toArray
    numVars, numSlack, numArtificial, duals := duals.toArray }

theorem change_entered {row : BasicRow α} {f : Array α → Option (Array α)}
    (hf : f (Array.replicate (numVars + numSlack + numArtificial + 1) 0) =
      some (cells row.equation)) (done : List (BasicRow α)) (duals : List (DualColumn α))
    (d : DualColumn α) (n : ℕ) :
    change (entered numVars numSlack numArtificial done duals (n + 1)).data done.length f =
      some (entered numVars numSlack numArtificial (done ++ [row]) (duals ++ [d]) n).data := by
  have hchange := change_append (l := done.map fun r ↦ cells r.equation)
    (r := List.replicate (n + 1) (Array.replicate (numVars + numSlack + numArtificial + 1) 0)) hf
  rw [List.length_map] at hchange
  refine hchange.trans (congrArg some ?_)
  simp [entered]

theorem write_entered (row : BasicRow α) (done : List (BasicRow α)) (duals : List (DualColumn α))
    (d : DualColumn α) (n : ℕ) :
    write (entered numVars numSlack numArtificial done duals (n + 1)).basicVars done.length
        row.basic =
      some (entered numVars numSlack numArtificial (done ++ [row]) (duals ++ [d]) n).basicVars := by
  have hwrite := write_append (done.map BasicRow.basic) (List.replicate n 0) 0 row.basic
  rw [List.length_map] at hwrite
  refine hwrite.trans (congrArg some ?_)
  simp [entered]

theorem enterAll_cons {c : Constraint α} (hc : c.coefficients.length = numVars) {s a : ℕ}
    (hs : c.relation ≠ .eq → s < numSlack) (ha : c.relation ≠ .le → a < numArtificial) (sign : α)
    (cs : List (Constraint α × α)) (done : List (BasicRow α)) (duals : List (DualColumn α))
    (n : ℕ) :
    let row := laidOut numVars numSlack numArtificial c s a
    Grid.enterAll (numVars + numSlack + numArtificial + 1) ((c, sign) :: cs) done.length
        (numVars + s) (numVars + numSlack + a)
        (entered numVars numSlack numArtificial done duals (n + 1)) =
      Grid.enterAll (numVars + numSlack + numArtificial + 1) cs (done ++ [row]).length
        (numVars + if c.relation = .eq then s else s + 1)
        (numVars + numSlack + if c.relation = .le then a else a + 1)
        (entered numVars numSlack numArtificial (done ++ [row]) (duals ++ [⟨row.basic, sign⟩])
          n) := by
  intro row
  let d : DualColumn α := ⟨row.basic, sign⟩
  have hslack : (if c.relation = .eq then numVars + s else numVars + s + 1) =
      numVars + if c.relation = .eq then s else s + 1 := by split <;> rfl
  have hartificial : (if c.relation = .le then numVars + numSlack + a
      else numVars + numSlack + a + 1) =
        numVars + numSlack + if c.relation = .le then a else a + 1 := by split <;> rfl
  have hown : row.basic = if c.relation = .le then numVars + s else numVars + numSlack + a :=
    basic_laidOut c
  rw [Grid.enterAll, change_entered (enterRow_eq hc hs ha) done duals d n, hslack, hartificial,
    ← hown]
  simp only [Option.bind_eq_bind, Option.bind_some]
  rw [write_entered row done duals d n, Option.bind_some, List.length_append,
    List.length_singleton]
  simp [entered, d, row]

theorem enterAll_eq {cs : List (Constraint α × α)}
    (hcs : ∀ c ∈ cs, c.1.coefficients.length = numVars) {s a : ℕ}
    (hs : s + (cs.map (·.1)).countP (·.relation != .eq) ≤ numSlack)
    (ha : a + (cs.map (·.1)).countP (·.relation != .le) ≤ numArtificial)
    (done : List (BasicRow α)) (duals : List (DualColumn α)) {rows : List (BasicRow α)}
    (hrows : Tableau.layout numVars numSlack numArtificial (cs.map (·.1)) s a = rows) :
    Grid.enterAll (numVars + numSlack + numArtificial + 1) cs done.length (numVars + s)
        (numVars + numSlack + a) (entered numVars numSlack numArtificial done duals cs.length) =
      some (entered numVars numSlack numArtificial (done ++ rows)
        (duals ++ rows.zipWith (fun r c ↦ ⟨r.basic, c.2⟩) cs) 0) := by
  induction cs generalizing s a done duals rows with
  | nil =>
    subst hrows
    simp [Grid.enterAll, Tableau.layout]
  | cons c cs ih =>
    obtain ⟨c, sign⟩ := c
    rw [List.map_cons, List.countP_cons] at hs ha
    rw [List.map_cons, layout_cons] at hrows
    subst hrows
    rw [List.length_cons, enterAll_cons (hcs _ List.mem_cons_self)
      (fun h ↦ by simp [h] at hs; omega) (fun h ↦ by simp [h] at ha; omega),
      ih (fun c hc ↦ hcs c (List.mem_cons_of_mem _ hc)) _ _ _ _ rfl]
    · simp
    · cases h : c.relation <;> simp [h] at hs ⊢ <;> omega
    · cases h : c.relation <;> simp [h] at ha ⊢ <;> omega

end Entered

section Build

variable {p : Problem α} {form : StandardForm α}

theorem coefficients_orient (c : Constraint α) :
    (Tableau.orient c).1.coefficients.length = c.coefficients.length := by
  unfold Tableau.orient
  split <;> simp

theorem Fits.length_orient (h : Fits p form) :
    ∀ c ∈ (form.constraints.map Tableau.orient).map (·.1),
      c.coefficients.length = form.numVars := by
  intro c hc
  rw [List.map_map] at hc
  obtain ⟨d, hd, rfl⟩ := List.mem_map.mp hc
  exact (coefficients_orient d).trans (h.coefficients d hd)

theorem length_layout (numVars numSlack numArtificial : ℕ) (cs : List (Constraint α)) (s a : ℕ) :
    (Tableau.layout numVars numSlack numArtificial cs s a).length = cs.length := by
  induction cs generalizing s a with
  | nil => rfl
  | cons c cs ih => rw [layout_cons, List.length_cons, ih, List.length_cons]

theorem mem_layout {numVars numSlack numArtificial s a : ℕ} {cs : List (Constraint α)}
    (hcs : ∀ c ∈ cs, c.coefficients.length = numVars)
    (hs : s + cs.countP (·.relation != .eq) ≤ numSlack)
    (ha : a + cs.countP (·.relation != .le) ≤ numArtificial) {r : BasicRow α}
    (hr : r ∈ Tableau.layout numVars numSlack numArtificial cs s a) :
    r.equation.coefficients.size = numVars + numSlack + numArtificial ∧
      r.basic < numVars + numSlack + numArtificial := by
  induction cs generalizing s a with
  | nil => cases hr
  | cons c cs ih =>
    rw [List.countP_cons] at hs ha
    rw [layout_cons] at hr
    rcases List.mem_cons.mp hr with rfl | hr
    · refine ⟨size_laidOut (hcs c List.mem_cons_self), ?_⟩
      rw [basic_laidOut]
      cases h : c.relation <;> simp [h] at hs ha ⊢ <;> omega
    · refine ih (fun c hc ↦ hcs c (List.mem_cons_of_mem _ hc)) ?_ ?_ hr
      · cases h : c.relation <;> simp [h] at hs ⊢ <;> omega
      · cases h : c.relation <;> simp [h] at ha ⊢ <;> omega

theorem copyPrefix_objective {l : List α} (n : ℕ) :
    copyPrefix (Array.replicate (l.length + n + 1) (0 : α)) l.length l.toArray =
      some (cells ⟨(l ++ List.replicate n 0).toArray, 0⟩) := by
  rw [copyPrefix, if_pos (by simp; omega), cells_toArray]
  refine congrArg some (Array.toList_inj.mp ?_)
  have hrest : l.length + n + 1 - l.length = n + 1 := by omega
  simp [hrest, List.replicate_succ']

theorem ofTableau_eq_entered {numVars numSlack numArtificial : ℕ} (rows : List (BasicRow α))
    (objective : Equation α) (duals : List (DualColumn α)) :
    ofTableau { numVars, numSlack, numArtificial, rows := rows.toArray, objective, duals } =
      { entered numVars numSlack numArtificial rows duals 0 with
        data := (rows.map (fun r ↦ cells r.equation) ++ [cells objective]).toArray } := by
  simp [ofTableau, entered]

theorem build_ofForm (h : Fits p form) :
    Grid.build (ofForm form) = some (ofTableau (.ofForm form)) := by
  have horiented : ∀ c ∈ form.constraints.map Tableau.orient,
      c.1.coefficients.length = form.numVars := fun c hc ↦
    h.length_orient c.1 (List.mem_map_of_mem hc)
  let oriented := form.constraints.map Tableau.orient
  let numSlack := (oriented.map (·.1)).countP (·.relation != .eq)
  let numArtificial := (oriented.map (·.1)).countP (·.relation != .le)
  let rows := Tableau.layout form.numVars numSlack numArtificial (oriented.map (·.1)) 0 0
  have hrows : rows.length = form.constraints.length := by
    rw [length_layout, List.length_map, List.length_map]
  have hall := enterAll_eq horiented (s := 0) (a := 0) (Nat.le_of_eq (Nat.zero_add _))
    (Nat.le_of_eq (Nat.zero_add _)) [] [] rfl
  rw [List.length_map, Nat.add_zero, Nat.add_zero] at hall
  have hprefix := copyPrefix_objective (l := form.objective) (numSlack + numArtificial)
  rw [h.objective, ← Nat.add_assoc] at hprefix
  have hobjective := change_append (l := rows.map fun r ↦ cells r.equation) (r := [])
    (f := fun cs ↦ copyPrefix cs form.numVars form.objective.toArray) hprefix
  rw [List.length_map, hrows] at hobjective
  refine (bind_of_eq_some hall _).trans ?_
  refine (bind_of_eq_some hobjective _).trans ?_
  exact congrArg some (ofTableau_eq_entered rows _ _).symm

theorem mem_rows_ofForm (h : Fits p form) {r : BasicRow α}
    (hr : r ∈ (Tableau.ofForm form).rows) :
    r.equation.coefficients.size = (Tableau.ofForm form).width ∧
      r.basic < (Tableau.ofForm form).width :=
  mem_layout h.length_orient (Nat.le_of_eq (Nat.zero_add _)) (Nat.le_of_eq (Nat.zero_add _))
    (Array.mem_toList_iff.mpr hr)

theorem rectangular_ofForm (h : Fits p form) : Rectangular (Tableau.ofForm form) where
  rows _ hr := (mem_rows_ofForm h hr).1
  basic _ hr := (mem_rows_ofForm h hr).2
  objective := by simp [Tableau.ofForm, Tableau.width, h.objective, Nat.add_assoc]

theorem duals_ofForm (form : StandardForm α) :
    (Tableau.ofForm form).duals.length = form.constraints.length := by
  simp [Tableau.ofForm, length_layout]

theorem dual_lt_width (h : Fits p form) {d : DualColumn α}
    (hd : d ∈ (Tableau.ofForm form).duals) : d.variableIndex < (Tableau.ofForm form).width := by
  obtain ⟨i, hi⟩ := List.getElem?_of_mem hd
  obtain ⟨r, _, hr, -, rfl⟩ := List.getElem?_zipWith_eq_some.mp hi
  exact (mem_rows_ofForm h (Array.mem_toList_iff.mp (List.mem_of_getElem? hr))).2

end Build

end LinProg.Storage
