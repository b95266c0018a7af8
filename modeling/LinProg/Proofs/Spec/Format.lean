import Mathlib.Data.List.Forall2
import Mathlib.Tactic.IntervalCases
import LinProg.Proofs.Decimal.Integers
import LinProg.Spec.Decode

namespace LinProg.Json

def Number.amount (n : Number) : Float := widen n.toFloat

/-- A side of bounds lies at an end of the line where its magnitude reaches the largest finite
one. -/
def Number.side (n : Number) : Extended Float :=
  if Binary64.maxFinite ≤ n.toFloat then .posInf
  else if n.toFloat ≤ -Binary64.maxFinite then .negInf else .fin n.toFloat

def Number.allowance (n : Number) : Option Float := if 0 ≤ n.amount then some n.amount else none

namespace Value

/-- The member under a key, where there is an object to have one. Null counts as absent. -/
def field? : Value → String → Option Value
  | object members, key =>
    match member? members key with
    | some null => none
    | v => v
  | _, _ => none

def IsObject (v : Value) : Prop := ∃ members, v = object members

def IsString (v : Value) : Prop := ∃ s, v = string s

def IsNumber (v : Value) : Prop := ∃ n, v = number n

/-- A number that is an integer of 64 bits, whether as a literal or as a double. No literal lies
below these. -/
inductive IsInteger : Value → ℤ → Prop
  | literal {n : ℤ} (h : n < int64Bound) : IsInteger (number (.int n)) n
  | double {x : Float} {n : ℤ} (h : Binary64.toRat? x = some (n : ℚ)) (hlow : -int64Bound ≤ n)
      (hhigh : n < int64Bound) : IsInteger (number (.float x)) n

def Within (low high : ℤ) (v : Value) : Prop := ∃ n, v.IsInteger n ∧ low ≤ n ∧ n ≤ high

def IsFlag (v : Value) : Prop := (∃ b, v = bool b) ∨ v.IsNumber

def Has (v : Value) (key : String) (P : Value → Prop) : Prop := ∃ w, v.field? key = some w ∧ P w

def MayHave (v : Value) (key : String) (P : Value → Prop) : Prop :=
  ∀ w, v.field? key = some w → P w

theorem Has.isObject {v : Value} {key : String} {P : Value → Prop} (h : v.Has key P) :
    v.IsObject := by
  obtain ⟨w, hw, -⟩ := h
  unfold field? at hw
  split at hw
  · exact ⟨_, rfl⟩
  · cases hw

def IsArrayOf (P : Value → Prop) (v : Value) : Prop := ∃ items, v = array items ∧ ∀ w ∈ items, P w

section Format

structure IsTerm (v : Value) : Prop where
  name : v.Has "name" IsString
  coef : v.Has "coef" IsNumber

structure IsBounds (v : Value) : Prop where
  type : v.Has "type" (Within 1 5)
  lower : v.MayHave "lb" IsNumber
  upper : v.MayHave "ub" IsNumber

structure IsObjective (v : Value) : Prop where
  direction : v.Has "direction" (Within 1 2)
  terms : v.Has "vars" (IsArrayOf IsTerm)

structure IsConstraint (v : Value) : Prop where
  name : v.Has "name" IsString
  terms : v.Has "vars" (IsArrayOf IsTerm)
  bounds : v.Has "bnds" IsBounds

structure IsColumnBound (v : Value) : Prop where
  name : v.Has "name" IsString
  bounds : v.IsBounds

structure IsOptions (v : Value) : Prop where
  object : v.IsObject
  mipGap : v.MayHave "mipgap" IsNumber
  timeLimit : v.MayHave "tmlim" IsNumber
  messageLevel : v.MayHave "msglev" (Within 0 4)
  iterationLimit : v.MayHave "itlim" fun w ↦ ∃ n, w.IsInteger n
  presolve : v.MayHave "presol" IsFlag
  rows : v.MayHave "rows" IsFlag

structure IsProblem (v : Value) : Prop where
  name : v.MayHave "name" IsString
  objective : v.Has "objective" IsObjective
  subjectTo : v.Has "subjectTo" (IsArrayOf IsConstraint)
  bounds : v.MayHave "bounds" (IsArrayOf IsColumnBound)
  generals : v.MayHave "generals" (IsArrayOf IsString)
  binaries : v.MayHave "binaries" (IsArrayOf IsString)
  options : v.MayHave "options" IsOptions

end Format

section Meaning

variable {β : Type}

def Gives (v : Value) (key : String) (R : Value → β → Prop) (default b : β) : Prop :=
  match v.field? key with
  | some w => R w b
  | none => b = default

def Lists (R : Value → β → Prop) (v : Value) (bs : List β) : Prop :=
  ∃ items, v = array items ∧ List.Forall₂ R items bs

def Spells (v : Value) (s : String) : Prop := v = string s

def Counts (f : Number → β) (v : Value) (b : β) : Prop := ∃ n, v = number n ∧ b = f n

/-- A negative count is as good as none. -/
def Permits (v : Value) (n : Option ℕ) : Prop :=
  ∃ m, v.IsInteger m ∧ n = if 0 ≤ m then some m.toNat else none

def Decides (v : Value) (b : Bool) : Prop := v = bool b ∨ ∃ n, v = number n ∧ b = (n.toFloat != 0)

def Given (R : Value → β → Prop) (v : Value) (b : Option β) : Prop := ∃ c, b = some c ∧ R v c

structure DescribesTerm (v : Value) (t : Term Float) : Prop where
  name : v.Has "name" (·.Spells t.name)
  coef : v.Has "coef" (Counts Number.amount · t.coef)

structure DescribesBounds (v : Value) (b : Bounds Float) : Prop where
  type : v.Has "type" (·.IsInteger b.type.code)
  lower : v.Gives "lb" (Counts Number.side) (.fin 0) b.lower
  upper : v.Gives "ub" (Counts Number.side) (.fin 0) b.upper

structure DescribesObjective (v : Value) (o : Objective Float) : Prop where
  direction : v.Has "direction" (·.IsInteger o.direction.code)
  terms : v.Has "vars" (Lists DescribesTerm · o.terms)

structure DescribesConstraint (v : Value) (c : ConstraintSpec Float) : Prop where
  name : v.Has "name" (·.Spells c.name)
  terms : v.Has "vars" (Lists DescribesTerm · c.terms)
  bounds : v.Has "bnds" (·.DescribesBounds c.bounds)

structure DescribesColumnBound (v : Value) (b : ColumnBoundSpec Float) : Prop where
  name : v.Has "name" (·.Spells b.name)
  bounds : v.DescribesBounds b.bounds

structure DescribesOptions (v : Value) (o : Options Float) : Prop where
  object : v.IsObject
  mipGap : v.Gives "mipgap" (Counts Number.allowance) none o.mipGap
  timeLimit : v.Gives "tmlim" (Counts Number.allowance) none o.timeLimit
  messageLevel : v.Gives "msglev" (Given fun w level ↦ w.IsInteger level.code) none o.messageLevel
  iterationLimit : v.Gives "itlim" Permits none o.iterationLimit
  presolve : v.Gives "presol" (Given Decides) none o.presolve
  rows : v.Gives "rows" (Given Decides) none o.rows

structure DescribesProblem (v : Value) (spec : ProblemSpec Float) : Prop where
  name : v.Gives "name" Spells "" spec.name
  objective : v.Has "objective" (·.DescribesObjective spec.objective)
  subjectTo : v.Has "subjectTo" (Lists DescribesConstraint · spec.subjectTo)
  bounds : v.Gives "bounds" (Lists DescribesColumnBound) [] spec.bounds
  generals : v.Gives "generals" (Lists Spells) [] spec.generals
  binaries : v.Gives "binaries" (Lists Spells) [] spec.binaries
  options : v.Gives "options" DescribesOptions .none spec.options

end Meaning

section Exists

variable {β : Type} {R : Value → β → Prop} {P : Value → Prop} {v : Value} {key : String}

theorem exists_has (h : ∀ w, (∃ b, R w b) ↔ P w) : (∃ b, v.Has key (R · b)) ↔ v.Has key P := by
  constructor
  · rintro ⟨b, w, hw, hb⟩
    exact ⟨w, hw, (h w).mp ⟨b, hb⟩⟩
  · rintro ⟨w, hw, hP⟩
    obtain ⟨b, hb⟩ := (h w).mpr hP
    exact ⟨b, w, hw, hb⟩

theorem exists_gives (h : ∀ w, (∃ b, R w b) ↔ P w) (default : β) :
    (∃ b, v.Gives key R default b) ↔ v.MayHave key P := by
  unfold Gives MayHave
  cases v.field? key with
  | none => simp
  | some w => simpa using h w

theorem exists_lists (h : ∀ w, (∃ b, R w b) ↔ P w) : (∃ bs, Lists R v bs) ↔ v.IsArrayOf P := by
  have hall (items : List Value) : (∃ bs, List.Forall₂ R items bs) ↔ ∀ w ∈ items, P w := by
    induction items with
    | nil => simp
    | cons w items ih =>
      rw [List.forall_mem_cons, ← ih, ← h]
      constructor
      · rintro ⟨bs, hbs⟩
        cases hbs with
        | cons hb htail => exact ⟨⟨_, hb⟩, _, htail⟩
      · rintro ⟨⟨b, hb⟩, bs, htail⟩
        exact ⟨b :: bs, .cons hb htail⟩
  constructor
  · rintro ⟨bs, items, hv, hbs⟩
    exact ⟨items, hv, (hall items).mp ⟨bs, hbs⟩⟩
  · rintro ⟨items, hv, hbs⟩
    obtain ⟨bs, hbs⟩ := (hall items).mpr hbs
    exact ⟨bs, items, hv, hbs⟩

theorem exists_spells (v : Value) : (∃ s, v.Spells s) ↔ v.IsString := Iff.rfl

theorem exists_counts (f : Number → β) (v : Value) : (∃ b, v.Counts f b) ↔ v.IsNumber := by
  constructor
  · rintro ⟨b, n, hv, -⟩
    exact ⟨n, hv⟩
  · rintro ⟨n, hv⟩
    exact ⟨f n, n, hv, rfl⟩

theorem exists_permits (v : Value) : (∃ n, v.Permits n) ↔ ∃ n, v.IsInteger n := by
  constructor
  · rintro ⟨n, m, hm, -⟩
    exact ⟨m, hm⟩
  · rintro ⟨m, hm⟩
    exact ⟨_, m, hm, rfl⟩

theorem exists_decides (v : Value) : (∃ b, v.Decides b) ↔ v.IsFlag := by
  constructor
  · rintro ⟨b, hv | ⟨n, hv, -⟩⟩
    · exact .inl ⟨b, hv⟩
    · exact .inr ⟨n, hv⟩
  · rintro (⟨b, hv⟩ | ⟨n, hv⟩)
    · exact ⟨b, .inl hv⟩
    · exact ⟨_, .inr ⟨n, hv, rfl⟩⟩

theorem exists_given (h : ∀ w, (∃ b, R w b) ↔ P w) (v : Value) : (∃ b, v.Given R b) ↔ P v := by
  rw [← h]
  constructor
  · rintro ⟨-, c, -, hc⟩
    exact ⟨c, hc⟩
  · rintro ⟨c, hc⟩
    exact ⟨some c, c, rfl, hc⟩

theorem exists_code {code : β → ℕ} {low high : ℤ}
    (h : ∀ n : ℤ, (∃ b, (code b : ℤ) = n) ↔ low ≤ n ∧ n ≤ high) (v : Value) :
    (∃ b, v.IsInteger (code b)) ↔ v.Within low high := by
  constructor
  · rintro ⟨b, hb⟩
    exact ⟨code b, hb, (h _).mp ⟨b, rfl⟩⟩
  · rintro ⟨n, hn, hrange⟩
    obtain ⟨b, rfl⟩ := (h n).mpr hrange
    exact ⟨b, hn⟩

theorem exists_boundType :
    ∀ v : Value, (∃ type : BoundType, v.IsInteger type.code) ↔ v.Within 1 5 := by
  refine exists_code fun n ↦ ⟨?_, fun ⟨hlow, hhigh⟩ ↦ ?_⟩
  · rintro ⟨type, rfl⟩
    cases type <;> decide
  · interval_cases n
    exacts [⟨.free, rfl⟩, ⟨.lower, rfl⟩, ⟨.upper, rfl⟩, ⟨.double, rfl⟩, ⟨.fixed, rfl⟩]

theorem exists_direction :
    ∀ v : Value, (∃ direction : Direction, v.IsInteger direction.code) ↔ v.Within 1 2 := by
  refine exists_code fun n ↦ ⟨?_, fun ⟨hlow, hhigh⟩ ↦ ?_⟩
  · rintro ⟨direction, rfl⟩
    cases direction <;> decide
  · interval_cases n
    exacts [⟨.minimize, rfl⟩, ⟨.maximize, rfl⟩]

theorem exists_messageLevel :
    ∀ v : Value, (∃ level : MessageLevel, v.IsInteger level.code) ↔ v.Within 0 4 := by
  refine exists_code fun n ↦ ⟨?_, fun ⟨hlow, hhigh⟩ ↦ ?_⟩
  · rintro ⟨level, rfl⟩
    cases level <;> decide
  · interval_cases n
    exacts [⟨.off, rfl⟩, ⟨.error, rfl⟩, ⟨.on, rfl⟩, ⟨.all, rfl⟩, ⟨.debug, rfl⟩]

theorem exists_describesTerm (v : Value) : (∃ t, v.DescribesTerm t) ↔ v.IsTerm := by
  constructor
  · rintro ⟨t, h⟩
    exact ⟨(exists_has exists_spells).mp ⟨_, h.name⟩, (exists_has (exists_counts _)).mp ⟨_, h.coef⟩⟩
  · intro h
    obtain ⟨name, hname⟩ := (exists_has exists_spells).mpr h.name
    obtain ⟨coef, hcoef⟩ := (exists_has (exists_counts Number.amount)).mpr h.coef
    exact ⟨⟨name, coef⟩, hname, hcoef⟩

theorem exists_describesBounds (v : Value) : (∃ b, v.DescribesBounds b) ↔ v.IsBounds := by
  constructor
  · rintro ⟨b, h⟩
    exact ⟨(exists_has exists_boundType).mp ⟨_, h.type⟩,
      (exists_gives (exists_counts _) _).mp ⟨_, h.lower⟩,
      (exists_gives (exists_counts _) _).mp ⟨_, h.upper⟩⟩
  · intro h
    obtain ⟨type, htype⟩ := (exists_has exists_boundType).mpr h.type
    obtain ⟨lower, hlower⟩ := (exists_gives (exists_counts Number.side) (.fin 0)).mpr h.lower
    obtain ⟨upper, hupper⟩ := (exists_gives (exists_counts Number.side) (.fin 0)).mpr h.upper
    exact ⟨⟨type, lower, upper⟩, htype, hlower, hupper⟩

theorem exists_terms (v : Value) : (∃ ts, v.Lists DescribesTerm ts) ↔ v.IsArrayOf IsTerm :=
  exists_lists exists_describesTerm

theorem exists_describesObjective (v : Value) :
    (∃ o, v.DescribesObjective o) ↔ v.IsObjective := by
  constructor
  · rintro ⟨o, h⟩
    exact ⟨(exists_has exists_direction).mp ⟨_, h.direction⟩,
      (exists_has exists_terms).mp ⟨_, h.terms⟩⟩
  · intro h
    obtain ⟨direction, hdirection⟩ := (exists_has exists_direction).mpr h.direction
    obtain ⟨terms, hterms⟩ := (exists_has exists_terms).mpr h.terms
    exact ⟨⟨direction, terms⟩, hdirection, hterms⟩

theorem exists_describesConstraint (v : Value) :
    (∃ c, v.DescribesConstraint c) ↔ v.IsConstraint := by
  constructor
  · rintro ⟨c, h⟩
    exact ⟨(exists_has exists_spells).mp ⟨_, h.name⟩, (exists_has exists_terms).mp ⟨_, h.terms⟩,
      (exists_has exists_describesBounds).mp ⟨_, h.bounds⟩⟩
  · intro h
    obtain ⟨name, hname⟩ := (exists_has exists_spells).mpr h.name
    obtain ⟨terms, hterms⟩ := (exists_has exists_terms).mpr h.terms
    obtain ⟨bounds, hbounds⟩ := (exists_has exists_describesBounds).mpr h.bounds
    exact ⟨⟨name, terms, bounds⟩, hname, hterms, hbounds⟩

theorem exists_describesColumnBound (v : Value) :
    (∃ b, v.DescribesColumnBound b) ↔ v.IsColumnBound := by
  constructor
  · rintro ⟨b, h⟩
    exact ⟨(exists_has exists_spells).mp ⟨_, h.name⟩, (exists_describesBounds v).mp ⟨_, h.bounds⟩⟩
  · intro h
    obtain ⟨name, hname⟩ := (exists_has exists_spells).mpr h.name
    obtain ⟨bounds, hbounds⟩ := (exists_describesBounds v).mpr h.bounds
    exact ⟨⟨name, bounds⟩, hname, hbounds⟩

theorem exists_describesOptions (v : Value) : (∃ o, v.DescribesOptions o) ↔ v.IsOptions := by
  constructor
  · rintro ⟨o, h⟩
    exact
      { object := h.object
        mipGap := (exists_gives (exists_counts _) _).mp ⟨_, h.mipGap⟩
        timeLimit := (exists_gives (exists_counts _) _).mp ⟨_, h.timeLimit⟩
        messageLevel := (exists_gives (exists_given exists_messageLevel) _).mp ⟨_, h.messageLevel⟩
        iterationLimit := (exists_gives exists_permits _).mp ⟨_, h.iterationLimit⟩
        presolve := (exists_gives (exists_given exists_decides) _).mp ⟨_, h.presolve⟩
        rows := (exists_gives (exists_given exists_decides) _).mp ⟨_, h.rows⟩ }
  · intro h
    obtain ⟨mipGap, hmipGap⟩ :=
      (exists_gives (exists_counts Number.allowance) none).mpr h.mipGap
    obtain ⟨timeLimit, htimeLimit⟩ :=
      (exists_gives (exists_counts Number.allowance) none).mpr h.timeLimit
    obtain ⟨messageLevel, hmessageLevel⟩ :=
      (exists_gives (exists_given exists_messageLevel) none).mpr h.messageLevel
    obtain ⟨iterationLimit, hiterationLimit⟩ :=
      (exists_gives exists_permits none).mpr h.iterationLimit
    obtain ⟨presolve, hpresolve⟩ := (exists_gives (exists_given exists_decides) none).mpr h.presolve
    obtain ⟨rows, hrows⟩ := (exists_gives (exists_given exists_decides) none).mpr h.rows
    exact ⟨⟨mipGap, timeLimit, messageLevel, presolve, iterationLimit, rows⟩, h.object, hmipGap,
      htimeLimit, hmessageLevel, hiterationLimit, hpresolve, hrows⟩

/-- What has the format describes a problem, and nothing else does. -/
theorem exists_describesProblem (v : Value) : (∃ spec, v.DescribesProblem spec) ↔ v.IsProblem := by
  have hcolumns := fun w ↦ exists_lists (v := w) exists_describesColumnBound
  have hnames := fun w ↦ exists_lists (v := w) exists_spells
  have hconstraints := fun w ↦ exists_lists (v := w) exists_describesConstraint
  constructor
  · rintro ⟨spec, h⟩
    exact
      { name := (exists_gives exists_spells _).mp ⟨_, h.name⟩
        objective := (exists_has exists_describesObjective).mp ⟨_, h.objective⟩
        subjectTo := (exists_has hconstraints).mp ⟨_, h.subjectTo⟩
        bounds := (exists_gives hcolumns _).mp ⟨_, h.bounds⟩
        generals := (exists_gives hnames _).mp ⟨_, h.generals⟩
        binaries := (exists_gives hnames _).mp ⟨_, h.binaries⟩
        options := (exists_gives exists_describesOptions _).mp ⟨_, h.options⟩ }
  · intro h
    obtain ⟨name, hname⟩ := (exists_gives exists_spells "").mpr h.name
    obtain ⟨objective, hobjective⟩ := (exists_has exists_describesObjective).mpr h.objective
    obtain ⟨subjectTo, hsubjectTo⟩ := (exists_has hconstraints).mpr h.subjectTo
    obtain ⟨bounds, hbounds⟩ := (exists_gives hcolumns []).mpr h.bounds
    obtain ⟨generals, hgenerals⟩ := (exists_gives hnames []).mpr h.generals
    obtain ⟨binaries, hbinaries⟩ := (exists_gives hnames []).mpr h.binaries
    obtain ⟨options, hoptions⟩ := (exists_gives exists_describesOptions .none).mpr h.options
    exact ⟨⟨name, objective, subjectTo, bounds, generals, binaries, options⟩, hname, hobjective,
      hsubjectTo, hbounds, hgenerals, hbinaries, hoptions⟩

end Exists

end Value

end LinProg.Json
