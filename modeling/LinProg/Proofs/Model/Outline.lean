import Mathlib.Data.List.Forall2
import Mathlib.Data.List.Induction
import LinProg.Proofs.SparseVector.Stored
import LinProg.Model

namespace LinProg

section Names

variable {β : Type}

theorem eraseDups_concat (names : List String) (name : String) :
    (names ++ [name]).eraseDups =
      if name ∈ names then names.eraseDups else names.eraseDups ++ [name] := by
  rw [List.eraseDups_append]
  split_ifs with h
  · simp [List.removeAll, h]
  · simp [List.removeAll, h, List.eraseDups_cons]

theorem nodup_eraseDups (names : List String) : names.eraseDups.Nodup := by
  induction names using List.reverseRecOn with
  | nil => exact List.nodup_nil
  | append_singleton names name ih =>
    rw [eraseDups_concat]
    split_ifs with h
    · exact ih
    · rw [← List.concat_eq_append, List.nodup_concat]
      exact ⟨fun hmem ↦ h (List.mem_eraseDups.mp hmem), ih⟩

theorem getElem?_eraseDups_append {names : List String} {i : ℕ} {name : String}
    (h : names.eraseDups[i]? = some name) (more : List String) :
    (names ++ more).eraseDups[i]? = some name := by
  rw [List.eraseDups_append, List.getElem?_append_left (List.getElem?_eq_some_iff.mp h).1, h]

theorem getElem?_eraseDups_inj {names : List String} {i j : ℕ} {name : String}
    (hi : names.eraseDups[i]? = some name) (hj : names.eraseDups[j]? = some name) : i = j :=
  (nodup_eraseDups names).getElem_inj_iff.mp <| by
    rw [(List.getElem?_eq_some_iff.mp hi).2, (List.getElem?_eq_some_iff.mp hj).2]

theorem getElem?_eraseDups_concat {names : List String} {name : String} (h : name ∉ names) (i : ℕ)
    (n : String) : (names ++ [name]).eraseDups[i]? = some n ↔
      names.eraseDups[i]? = some n ∨ i = names.eraseDups.length ∧ name = n := by
  rw [eraseDups_concat, if_neg h, List.getElem?_append]
  split_ifs with hi
  · exact (or_iff_left fun hlast ↦ hi.ne hlast.1).symm
  · rw [List.getElem?_eq_none (Nat.le_of_not_lt hi), List.getElem?_singleton]
    split_ifs with hlast
    · simp [show i = names.eraseDups.length by omega]
    · simp [show i ≠ names.eraseDups.length by omega]

/-- The slot, counted from one, at which a name stands among names without repetitions. -/
def PlacedAt (names : List String) (slot : ℕ) (name : String) : Prop :=
  0 < slot ∧ names[slot - 1]? = some name

theorem PlacedAt.append {names : List String} {slot : ℕ} {name : String}
    (h : PlacedAt names.eraseDups slot name) (more : List String) :
    PlacedAt (names ++ more).eraseDups slot name :=
  ⟨h.1, getElem?_eraseDups_append h.2 more⟩

theorem PlacedAt.mem {names : List String} {slot : ℕ} {name : String}
    (h : PlacedAt names.eraseDups slot name) : name ∈ names :=
  List.mem_eraseDups.mp (List.mem_of_getElem? h.2)

theorem PlacedAt.eq_iff {names : List String} {slot j : ℕ} {name n : String}
    (h : PlacedAt names.eraseDups slot n) (hj : names.eraseDups[j]? = some name) :
    slot = j + 1 ↔ n = name := by
  obtain ⟨hpos, hslot⟩ := h
  constructor
  · rintro rfl
    rw [Nat.add_sub_cancel, hj, Option.some_inj] at hslot
    exact hslot.symm
  · rintro rfl
    have hplace := getElem?_eraseDups_inj hslot hj
    omega

def lastNamed (key : β → String) (items : List β) (name : String) : Option β :=
  items.reverse.find? fun b ↦ key b == name

theorem lastNamed_concat (key : β → String) (items : List β) (b : β) (name : String) :
    lastNamed key (items ++ [b]) name =
      if key b = name then some b else lastNamed key items name := by
  rw [lastNamed, List.reverse_append, List.reverse_singleton, List.singleton_append,
    List.find?_cons]
  by_cases h : key b = name
  · rw [beq_iff_eq.mpr h, if_pos h]
  · rw [beq_eq_false_iff_ne.mpr h, if_neg h]
    rfl

theorem lastNamed_id (names : List String) (name : String) :
    lastNamed id names name = if name ∈ names then some name else none := by
  induction names using List.reverseRecOn with
  | nil => rfl
  | append_singleton names n ih =>
    rw [lastNamed_concat, ih, id]
    by_cases hn : n = name
    · simp [hn]
    · simp [hn, Ne.symm hn]

end Names

variable {α : Type} [Scalar α]

def ConstraintSpec.names (c : ConstraintSpec α) : List String := c.terms.map (·.name)

def ConstraintSpec.coefficientsOf (c : ConstraintSpec α) (name : String) : List α :=
  (c.terms.filter (·.name == name)).map (·.coef)

structure Outline (α : Type) where
  name : String
  direction : Direction
  mentions : List String
  column : String → Column α
  constraints : List (ConstraintSpec α)

namespace Outline

def mention (o : Outline α) (names : List String) : Outline α :=
  { o with mentions := o.mentions ++ names }

def modify (o : Outline α) (name : String) (f : Column α → Column α) : Outline α :=
  { o.mention [name] with column := Function.update o.column name (f (o.column name)) }

/-- Changes the column of each item's name. What an item makes of a column does not depend on the
items before it, so of several items with one name the last one counts. -/
def modifyAll {β : Type} (o : Outline α) (key : β → String) (f : β → Column α → Column α)
    (items : List β) : Outline α :=
  { o.mention (items.map key) with
    column := fun name ↦ match lastNamed key items name with
      | some b => f b (o.column name)
      | none => o.column name }

omit [Scalar α] in
theorem column_modify_self (o : Outline α) (name : String) (f : Column α → Column α) :
    (o.modify name f).column name = f (o.column name) := Function.update_self ..

omit [Scalar α] in
theorem column_modify_of_ne (o : Outline α) {name n : String} (h : n ≠ name)
    (f : Column α → Column α) : (o.modify name f).column n = o.column n :=
  Function.update_of_ne h ..

def constrain (o : Outline α) (constraints : List (ConstraintSpec α)) : Outline α :=
  { o.mention (constraints.flatMap (·.names)) with constraints := o.constraints ++ constraints }

end Outline

structure ConstraintSpec.DeclaredAs (names : List String) (c : ConstraintSpec α) (r : Row α) :
    Prop where
  name : r.name = c.name
  boundType : r.boundType = c.bounds.type
  lower : r.lower = c.bounds.lower
  upper : r.upper = c.bounds.upper
  coefficients : ∃ (dim : ℕ) (slots : List ℕ),
    SparseVector.ofPairs dim (slots.zip (c.terms.map (·.coef))) = .ok r.coefficients ∧
      List.Forall₂ (PlacedAt names) slots c.names

/-- The draft has one column for each name, in the order in which the names were first mentioned,
and one row for each constraint. -/
structure Draft.Realizes (d : Draft α) (o : Outline α) : Prop where
  name : d.problem.name = o.name
  direction : d.problem.direction = o.direction
  columns : d.problem.columns.toList = o.mentions.eraseDups.map o.column
  name_column : ∀ name, (o.column name).name = name
  unmentioned : ∀ name ∉ o.mentions, o.column name = .named name
  find : ∀ (name : String) (j : ℕ), d.registry.findColumn? name = some j ↔
    PlacedAt o.mentions.eraseDups j name
  rows : List.Forall₂ (ConstraintSpec.DeclaredAs o.mentions.eraseDups) o.constraints
    d.problem.rows.toList

theorem ConstraintSpec.DeclaredAs.append {names : List String} {c : ConstraintSpec α} {r : Row α}
    (h : c.DeclaredAs names.eraseDups r) (more : List String) :
    c.DeclaredAs (names ++ more).eraseDups r := by
  obtain ⟨dim, slots, hv, hslots⟩ := h.coefficients
  exact ⟨h.name, h.boundType, h.lower, h.upper, dim, slots, hv,
    hslots.imp fun _ _ hslot ↦ hslot.append more⟩

omit [Scalar α] in
theorem filter_zip_placed {names : List String} {j : ℕ} {name : String}
    (hj : names.eraseDups[j]? = some name) {slots : List ℕ} {terms : List (Term α)}
    (h : List.Forall₂ (PlacedAt names.eraseDups) slots (terms.map (·.name))) :
    ((slots.zip (terms.map (·.coef))).filter (·.1 == j + 1)).map (·.2) =
      (terms.filter (·.name == name)).map (·.coef) := by
  induction terms generalizing slots with
  | nil => simp
  | cons t terms ih =>
    rw [List.map_cons, List.forall₂_cons_right_iff] at h
    obtain ⟨slot, slots, hslot, htail, rfl⟩ := h
    have hiff : (slot == j + 1) = (t.name == name) := by
      rw [Bool.eq_iff_iff, beq_iff_eq, beq_iff_eq, hslot.eq_iff hj]
    rw [List.map_cons, List.zip_cons_cons, List.filter_cons, List.filter_cons]
    simp only [hiff]
    split_ifs
    · rw [List.map_cons, List.map_cons, ih htail]
    · exact ih htail

theorem ConstraintSpec.DeclaredAs.coefficient_eq {names : List String} {c : ConstraintSpec α}
    {r : Row α} (h : c.DeclaredAs names.eraseDups r) {j : ℕ} {name : String}
    (hj : names.eraseDups[j]? = some name) :
    r.coefficients.coefficient (j + 1) = Scalar.accumulate (c.coefficientsOf name) := by
  obtain ⟨dim, slots, hv, hslots⟩ := h.coefficients
  rw [SparseVector.coefficient_ofPairs hv (Nat.succ_pos j), ConstraintSpec.coefficientsOf,
    filter_zip_placed hj hslots]

namespace Draft.Realizes

variable {d : Draft α} {o : Outline α}

theorem empty (name : String) (direction : Direction) :
    (Draft.empty name direction : Draft α).Realizes ⟨name, direction, [], .named, []⟩ := by
  refine ⟨rfl, rfl, rfl, fun _ ↦ rfl, fun _ _ ↦ rfl, fun n j ↦ ?_, .nil⟩
  simp [Draft.empty, Registry.empty, Registry.findColumn?, PlacedAt]

theorem findColumn?_eq_none (h : d.Realizes o) {name : String}
    (hn : d.registry.findColumn? name = none) : name ∉ o.mentions := by
  intro hmem
  obtain ⟨i, hi⟩ := List.mem_iff_getElem?.mp (List.mem_eraseDups.mpr hmem)
  rw [(h.find name (i + 1)).mpr ⟨Nat.succ_pos i, hi⟩] at hn
  cases hn

theorem numColumns (h : d.Realizes o) : d.problem.numColumns = o.mentions.eraseDups.length := by
  rw [Problem.numColumns, ← Array.length_toList, h.columns, List.length_map]

theorem rows_append (h : d.Realizes o) (more : List String) :
    List.Forall₂ (ConstraintSpec.DeclaredAs (o.mentions ++ more).eraseDups) o.constraints
      d.problem.rows.toList :=
  h.rows.imp fun _ _ hr ↦ hr.append more

theorem mention_of_mem (h : d.Realizes o) {name : String} (hmem : name ∈ o.mentions) :
    d.Realizes (o.mention [name]) := by
  have hsame : (o.mentions ++ [name]).eraseDups = o.mentions.eraseDups := by
    rw [eraseDups_concat, if_pos hmem]
  refine ⟨h.name, h.direction, ?_, h.name_column, ?_, ?_, h.rows_append _⟩
  · exact h.columns.trans (congrArg (List.map o.column) hsame.symm)
  · intro n hn
    exact h.unmentioned n fun hn' ↦ hn (List.mem_append_left _ hn')
  · intro n j
    rw [h.find, ← hsame]
    rfl

theorem addColumn (h : d.Realizes o) {name : String} (hmem : name ∉ o.mentions) :
    Draft.Realizes ⟨d.problem.addColumn name, { d.registry with
      columns := d.registry.columns.insert name (d.problem.addColumn name).numColumns }⟩
      (o.mention [name]) := by
  have hnum : (d.problem.addColumn name).numColumns = o.mentions.eraseDups.length + 1 := by
    rw [← h.numColumns]
    exact Array.size_push _
  refine ⟨h.name, h.direction, ?_, h.name_column, ?_, ?_, h.rows_append _⟩
  · change (d.problem.columns.push (.named name)).toList =
      (o.mentions ++ [name]).eraseDups.map o.column
    rw [Array.toList_push, h.columns, eraseDups_concat, if_neg hmem, List.map_append,
      List.map_singleton, h.unmentioned name hmem]
  · intro n hn
    exact h.unmentioned n fun hn' ↦ hn (List.mem_append_left _ hn')
  · intro n j
    change (d.registry.columns.insert name _)[n]? = some j ↔
      PlacedAt (o.mentions ++ [name]).eraseDups j n
    have hold := h.find n j
    unfold Registry.findColumn? at hold
    rw [Std.HashMap.getElem?_insert, hnum, PlacedAt, getElem?_eraseDups_concat hmem]
    by_cases hn : name = n
    · subst hn
      rw [if_pos (beq_self_eq_true name), Option.some_inj]
      constructor
      · rintro rfl
        exact ⟨Nat.succ_pos _, .inr ⟨rfl, rfl⟩⟩
      · rintro ⟨hpos, hj | ⟨hj, -⟩⟩
        · exact absurd (List.mem_eraseDups.mp (List.mem_of_getElem? hj)) hmem
        · omega
    · rw [if_neg (by simpa using hn), hold]
      simp [PlacedAt, hn]

theorem resolveColumn (h : d.Realizes o) (name : String) :
    (d.resolveColumn name).2.Realizes (o.mention [name]) ∧
      PlacedAt (o.mention [name]).mentions.eraseDups (d.resolveColumn name).1 name := by
  have hd : (d.resolveColumn name).2.Realizes (o.mention [name]) ∧
      (d.resolveColumn name).2.registry.findColumn? name = some (d.resolveColumn name).1 := by
    unfold Draft.resolveColumn
    cases hf : d.registry.findColumn? name with
    | some j => exact ⟨h.mention_of_mem ((h.find name j).mp hf).mem, hf⟩
    | none =>
      refine ⟨h.addColumn (h.findColumn?_eq_none hf), ?_⟩
      simp [Registry.findColumn?]
  exact ⟨hd.1, (hd.1.find name _).mp hd.2⟩

theorem resolveColumns (h : d.Realizes o) (names : List String) :
    (d.resolveColumns names).2.Realizes (o.mention names) ∧
      List.Forall₂ (PlacedAt (o.mention names).mentions.eraseDups) (d.resolveColumns names).1
        names := by
  induction names generalizing d o with
  | nil =>
    refine ⟨?_, .nil⟩
    simpa [Draft.resolveColumns, Outline.mention] using h
  | cons name names ih =>
    obtain ⟨hd, hslot⟩ := h.resolveColumn name
    obtain ⟨htail, hslots⟩ := ih hd
    have hmention : (o.mention [name]).mention names = o.mention (name :: names) := by
      simp [Outline.mention]
    rw [hmention] at htail hslots
    refine ⟨htail, .cons ?_ hslots⟩
    have hkept := hslot.append names
    rwa [Outline.mention, List.append_assoc] at hkept

theorem modifyColumn (h : d.Realizes o) (name : String) {f : Column α → Column α}
    (hname : ∀ c, (f c).name = c.name) : (d.modifyColumn name f).Realizes (o.modify name f) := by
  obtain ⟨hd, hpos, hslot⟩ := h.resolveColumn name
  unfold Draft.modifyColumn Problem.modifyColumn
  dsimp only
  rw [if_neg hpos.ne']
  refine ⟨hd.name, hd.direction, ?_, ?_, ?_, hd.find, hd.rows⟩
  · apply List.ext_getElem?
    intro i
    change ((Array.modify _ _ f).toList)[i]? = ((o.mention [name]).mentions.eraseDups.map _)[i]?
    rw [Array.getElem?_toList, Array.getElem?_modify, ← Array.getElem?_toList, hd.columns,
      List.getElem?_map, List.getElem?_map]
    split_ifs with hi
    · rw [← hi, hslot, Option.map_some, Option.map_some, Option.map_some, o.column_modify_self]
      rfl
    · cases hn : (o.mention [name]).mentions.eraseDups[i]? with
      | none => rfl
      | some n =>
        have hne : n ≠ name := by
          rintro rfl
          exact hi (getElem?_eraseDups_inj hslot hn)
        rw [Option.map_some, Option.map_some, o.column_modify_of_ne hne]
        rfl
  · intro n
    by_cases hn : n = name
    · subst hn
      rw [o.column_modify_self, hname, h.name_column]
    · rw [o.column_modify_of_ne hn, h.name_column]
  · intro n hn
    have hne : n ≠ name := by
      rintro rfl
      exact hn (List.mem_append_right _ List.mem_cons_self)
    rw [o.column_modify_of_ne hne]
    exact hd.unmentioned n hn

theorem modifyColumns {β : Type} (h : d.Realizes o) (key : β → String)
    (f : β → Column α → Column α) (hname : ∀ b c, (f b c).name = c.name)
    (hover : ∀ b b' c, f b (f b' c) = f b c) (items : List β) :
    (items.foldl (fun d b ↦ d.modifyColumn (key b) (f b)) d).Realizes
      (o.modifyAll key f items) := by
  -- from the end, where the item stands that counts for its name
  induction items using List.reverseRecOn with
  | nil => simpa [Outline.modifyAll, Outline.mention, lastNamed] using h
  | append_singleton items b ih =>
    have hstep : (o.modifyAll key f items).modify (key b) (f b) =
        o.modifyAll key f (items ++ [b]) := by
      simp only [Outline.modify, Outline.modifyAll, Outline.mention, List.map_append,
        List.map_singleton, List.append_assoc, Outline.mk.injEq, true_and, and_true]
      funext n
      rw [lastNamed_concat]
      by_cases hn : key b = n
      · subst hn
        rw [Function.update_self, if_pos rfl]
        cases lastNamed key items (key b) with
        | none => rfl
        | some b' => exact hover b b' _
      · rw [Function.update_of_ne (Ne.symm hn), if_neg hn]
    rw [List.foldl_append, ← hstep]
    exact ih.modifyColumn (key b) (hname b)

theorem declareRow (h : d.Realizes o) (c : ConstraintSpec α) {slots : List ℕ}
    (hslots : List.Forall₂ (PlacedAt o.mentions.eraseDups) slots c.names) :
    ∃ i d', d.declareRow c.name (slots.zip (c.terms.map (·.coef))) c.bounds.type c.bounds.lower
        c.bounds.upper = .ok (i, d') ∧
      d'.Realizes { o with constraints := o.constraints ++ [c] } := by
  have hrange : ∀ p ∈ slots.zip (c.terms.map (·.coef)),
      0 < p.1 ∧ p.1 ≤ d.problem.columns.size := by
    intro p hp
    obtain ⟨hlength, hall⟩ := List.forall₂_iff_get.mp hslots
    obtain ⟨i, hi, he⟩ := List.mem_iff_getElem.mp (List.of_mem_zip hp).1
    obtain ⟨hpos, hslot⟩ := hall i hi (hlength ▸ hi)
    obtain ⟨hlt, -⟩ := List.getElem?_eq_some_iff.mp hslot
    have hnum := h.numColumns
    unfold Problem.numColumns at hnum
    rw [List.get_eq_getElem, he] at hpos hlt
    omega
  obtain ⟨v, hv⟩ := SparseVector.exists_ofPairs hrange
  unfold Draft.declareRow Problem.addRow
  simp only [hv, bind, Except.bind, pure, Except.pure]
  refine ⟨_, _, rfl, ⟨h.name, h.direction, h.columns, h.name_column, h.unmentioned, h.find, ?_⟩⟩
  rw [Array.toList_push]
  exact List.rel_append h.rows (.cons ⟨rfl, rfl, rfl, rfl, _, slots, hv, hslots⟩ .nil)

theorem addConstraint (h : d.Realizes o) (c : ConstraintSpec α) :
    ∃ d', d.addConstraint c = .ok d' ∧ d'.Realizes (o.constrain [c]) := by
  obtain ⟨hd, hslots⟩ := h.resolveColumns c.names
  obtain ⟨i, d', hd', hrealizes⟩ := hd.declareRow c hslots
  refine ⟨d', ?_, ?_⟩
  · unfold Draft.addConstraint
    unfold ConstraintSpec.names at hd'
    simp only [hd', bind, Except.bind, pure, Except.pure]
  · simpa [Outline.constrain, Outline.mention] using hrealizes

theorem addConstraints (h : d.Realizes o) (constraints : List (ConstraintSpec α)) :
    ∃ d', constraints.foldlM Draft.addConstraint d = .ok d' ∧
      d'.Realizes (o.constrain constraints) := by
  induction constraints generalizing d o with
  | nil => exact ⟨d, rfl, by simpa [Outline.constrain, Outline.mention] using h⟩
  | cons c constraints ih =>
    obtain ⟨d₁, h₁, hrealizes₁⟩ := h.addConstraint c
    obtain ⟨d', hd', hrealizes⟩ := ih hrealizes₁
    refine ⟨d', ?_, ?_⟩
    · rw [List.foldlM_cons, h₁]
      exact hd'
    · simpa [Outline.constrain, Outline.mention] using hrealizes

end Draft.Realizes

end LinProg
