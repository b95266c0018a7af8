import LinProg.Proofs.Decimal.Doubles
import LinProg.Proofs.Spec.Format

namespace LinProg

open Json (Value Number)

theorem Decoded.bind_eq_ok {β γ : Type} {x : Decoded β} {f : β → Decoded γ} {y : γ} :
    (x >>= f) = .ok y ↔ ∃ b, x = .ok b ∧ f b = .ok y := by
  cases x with
  | error e => simp [bind, Except.bind]
  | ok b => simp [bind, Except.bind]

namespace Json.Number

theorem extend_amount (n : Number) : Scalar.extend n.amount = n.side := by
  have hinf : (n.toFloat == 1 / 0) = true → n.toFloat = 1 / 0 :=
    Binary64.eq_of_beq (by decide) (by decide)
  have hneg : (n.toFloat == -1 / 0) = true → n.toFloat = -1 / 0 :=
    Binary64.eq_of_beq (by decide) (by decide)
  unfold amount side widen
  generalize n.toFloat = x at hinf hneg
  split_ifs with hmax hmin
  · rfl
  · rfl
  · have hx : (x == 1 / 0) = false := by
      by_contra hx
      exact hmax (Binary64.maxFinite_le_iff.mpr (.inr (hinf (by simpa using hx))))
    have hx' : (x == -1 / 0) = false := by
      by_contra hx
      exact hmin (Binary64.le_neg_maxFinite_iff.mpr (.inr (hneg (by simpa using hx))))
    change (if x == 1 / 0 then _ else if x == -1 / 0 then _ else _) = _
    rw [hx, hx']
    rfl

end Json.Number

namespace Json.Cursor

variable {β γ : Type}

/-- The reader takes the values that stand for something, and makes of them what they stand for. -/
def Reads (read : Cursor → Decoded β) (R : Value → β → Prop) : Prop :=
  ∀ c b, read c = .ok b ↔ R c.value b

section Scalars

theorem reads_string : Reads string Value.Spells := by
  intro c s
  unfold string Value.Spells
  cases c.value <;> simp [refuse]

theorem reads_number : Reads number (Value.Counts Number.amount) := by
  intro c x
  unfold number Value.Counts Value.toFloat?
  cases c.value <;> simp [refuse, Number.amount, eq_comm]

theorem reads_integer : Reads integer Value.IsInteger := by
  intro c n
  constructor
  · intro h
    unfold integer at h
    split at h
    next m hm =>
      split_ifs at h with hlt
      · rw [hm, ← Except.ok.inj h]
        exact .literal hlt
      · cases h
    next x hx =>
      split at h
      next m hm =>
        split_ifs at h with hrange
        · rw [hx, ← Except.ok.inj h]
          exact .double (Binary64.toInt?_eq_some.mp hm) hrange.1 hrange.2
        · cases h
      next => cases h
    next => cases h
  · intro h
    unfold integer
    generalize c.value = v at h
    cases h with
    | literal hlt => exact if_pos hlt
    | double hx hlow hhigh =>
      simp only [Binary64.toInt?_eq_some.mpr hx]
      exact if_pos ⟨hlow, hhigh⟩

theorem reads_flag : Reads flag Value.Decides := by
  intro c b
  unfold flag Value.Decides
  cases c.value <;> simp [refuse, eq_comm]

theorem reads_code {ofCode? : ℤ → Option β} {code : β → ℕ}
    (h : ∀ n b, ofCode? n = some b ↔ n = code b) (expected : Expected) :
    Reads (·.code ofCode? expected) fun v b ↦ v.IsInteger (code b) := by
  intro c b
  unfold Cursor.code
  rw [Decoded.bind_eq_ok]
  constructor
  · rintro ⟨n, hn, hb⟩
    cases hcode : ofCode? n with
    | none => simp [hcode, refuse] at hb
    | some b' =>
      simp only [hcode, pure, Except.pure, Except.ok.injEq] at hb
      rw [← hb, ← (h n b').mp hcode]
      exact (reads_integer c n).mp hn
  · intro hb
    refine ⟨code b, (reads_integer c _).mpr hb, ?_⟩
    rw [(h _ b).mpr rfl]
    rfl

theorem reads_boundType :
    Reads (·.code BoundType.ofCode? .boundType) fun v type ↦ v.IsInteger type.code := by
  refine reads_code (fun n type ↦ ⟨fun h ↦ ?_, fun h ↦ by rw [h, BoundType.ofCode?_code]⟩) _
  unfold BoundType.ofCode? at h
  split at h <;> cases h <;> rfl

theorem reads_direction :
    Reads (·.code Direction.ofCode? .direction) fun v direction ↦ v.IsInteger direction.code := by
  refine reads_code (fun n direction ↦ ⟨fun h ↦ ?_, fun h ↦ by rw [h, Direction.ofCode?_code]⟩) _
  unfold Direction.ofCode? at h
  split at h <;> cases h <;> rfl

theorem reads_messageLevel :
    Reads (·.code MessageLevel.ofCode? .messageLevel) fun v level ↦ v.IsInteger level.code := by
  refine reads_code (fun n level ↦ ⟨fun h ↦ ?_, fun h ↦ by rw [h, MessageLevel.ofCode?_code]⟩) _
  unfold MessageLevel.ofCode? at h
  split at h <;> cases h <;> rfl

end Scalars

section Items

variable {read : Cursor → Decoded β} {R : Value → β → Prop}

theorem Reads.mapM (h : Reads read R) {cs : List Cursor} {bs : List β} :
    cs.mapM read = .ok bs ↔ List.Forall₂ R (cs.map (·.value)) bs := by
  induction cs generalizing bs with
  | nil => simp [pure, Except.pure, eq_comm]
  | cons c cs ih =>
    rw [List.mapM_cons, Decoded.bind_eq_ok, List.map_cons, List.forall₂_cons_left_iff]
    simp only [Decoded.bind_eq_ok, h c, ih]
    constructor
    · rintro ⟨b, hb, bs', hbs', ⟨⟩⟩
      exact ⟨b, bs', hb, hbs', rfl⟩
    · rintro ⟨b, bs', hb, hbs', rfl⟩
      exact ⟨b, hb, bs', hbs', rfl⟩

theorem items_eq_ok {c : Cursor} {cs : List Cursor} (h : c.items = .ok cs) :
    c.value = .array (cs.map (·.value)) := by
  unfold Cursor.items at h
  split at h
  next items hitems =>
    cases h
    rw [hitems, List.map_map]
    exact congrArg Value.array (List.zipIdx_map_fst 0 items).symm
  next => cases h

theorem exists_items {c : Cursor} {vs : List Value} (h : c.value = .array vs) :
    ∃ cs, c.items = .ok cs := by
  unfold Cursor.items
  rw [h]
  exact ⟨_, rfl⟩

theorem Reads.readItems (h : Reads read R) : Reads (·.readItems read) (Value.Lists R) := by
  intro c bs
  change (c.items >>= fun cs ↦ cs.mapM read) = .ok bs ↔ c.value.Lists R bs
  simp only [Decoded.bind_eq_ok, h.mapM]
  constructor
  · rintro ⟨cs, hcs, hbs⟩
    exact ⟨_, items_eq_ok hcs, hbs⟩
  · rintro ⟨vs, hvs, hbs⟩
    obtain ⟨cs, hcs⟩ := exists_items hvs
    rw [items_eq_ok hcs, Value.array.injEq] at hvs
    exact ⟨cs, hcs, hvs ▸ hbs⟩

end Items

section Members

variable {read : Cursor → Decoded β} {R : Value → β → Prop} {c : Cursor}
  {members : List (String × Value)}

theorem object_eq_ok : c.object = .ok members ↔ c.value = .object members := by
  unfold object
  cases c.value <;> simp [refuse]

theorem optional_eq (h : c.value = .object members) (key : String) :
    c.optional members key = (c.value.field? key).map fun w ↦ ⟨w, c.path ++ [.key key]⟩ := by
  rw [h]
  unfold optional Value.field?
  dsimp only
  split <;> simp_all

theorem Reads.require_bind (hread : Reads read R) (h : c.value = .object members) (key : String)
    {f : β → Decoded γ} {y : γ} :
    (c.require members key >>= fun member ↦ read member >>= f) = .ok y ↔
      ∃ b, c.value.Has key (R · b) ∧ f b = .ok y := by
  unfold require
  rw [optional_eq h]
  unfold Value.Has
  cases c.value.field? key with
  | none => simp [bind, Except.bind]
  | some w =>
    change (read _ >>= f) = .ok y ↔ _
    simp [Decoded.bind_eq_ok, hread _ _]

theorem Reads.readOptional (hread : Reads read R) (h : c.value = .object members) (key : String)
    (o : Option β) :
    c.readOptional members key read = .ok o ↔ c.value.Gives key (Value.Given R) none o := by
  unfold Cursor.readOptional
  rw [optional_eq h]
  unfold Value.Gives Value.Given
  cases c.value.field? key with
  | none => simp [eq_comm]
  | some w =>
    have hw := hread ⟨w, c.path ++ [.key key]⟩
    change some <$> read ⟨w, c.path ++ [.key key]⟩ = .ok o ↔ ∃ b, o = some b ∧ R w b
    simp only [← hw]
    cases read ⟨w, c.path ++ [.key key]⟩ <;> simp [Functor.map, Except.map, eq_comm]

theorem Reads.readOptional_bind (hread : Reads read R) (h : c.value = .object members)
    (key : String) {f : Option β → Decoded γ} {y : γ} :
    (c.readOptional members key read >>= f) = .ok y ↔
      ∃ o, c.value.Gives key (Value.Given R) none o ∧ f o = .ok y := by
  rw [Decoded.bind_eq_ok]
  simp only [hread.readOptional h]

theorem gives_map {v : Value} {key : String} (f : Option β → γ) {y : γ} :
    (∃ o, v.Gives key (Value.Given R) none o ∧ f o = y) ↔
      v.Gives key (fun w y ↦ ∃ b, R w b ∧ f (some b) = y) (f none) y := by
  unfold Value.Gives Value.Given
  cases v.field? key with
  | none => simp [eq_comm]
  | some w => simp

theorem gives_getD {v : Value} {key : String} {default b : β} :
    v.Gives key R default b ↔
      ∃ o, v.Gives key (Value.Given R) none o ∧ o.getD default = b := by
  rw [gives_map (·.getD default)]
  simp only [Option.getD_some, Option.getD_none, exists_eq_right]

theorem Reads.readSection_bind (hread : Reads read R) (h : c.value = .object members)
    (key : String) {f : List β → Decoded γ} {y : γ} :
    (c.readSection members key read >>= f) = .ok y ↔
      ∃ bs, c.value.Gives key (Value.Lists R) [] bs ∧ f bs = .ok y := by
  rw [Decoded.bind_eq_ok]
  refine exists_congr fun bs ↦ and_congr_left fun _ ↦ ?_
  unfold readSection
  rw [hread.readItems.readOptional_bind h, gives_getD]
  simp [pure, Except.pure]

end Members

section Parts

theorem gives_side {v : Value} {key : String} {side : Extended Float} :
    v.Gives key (Value.Counts Number.side) (.fin 0) side ↔
      ∃ o, v.Gives key (Value.Given (Value.Counts Number.amount)) none o ∧
        Scalar.extend (o.getD 0) = side := by
  rw [gives_map (fun o ↦ Scalar.extend (o.getD 0))]
  have hzero : Scalar.extend (0 : Float) = .fin 0 := rfl
  unfold Value.Gives Value.Counts
  cases v.field? key with
  | none => simp [hzero]
  | some w => simp [Number.extend_amount, eq_comm]

theorem gives_permit {v : Value} {key : String} {n : Option ℕ} :
    v.Gives key Value.Permits none n ↔
      ∃ o, v.Gives key (Value.Given Value.IsInteger) none o ∧
        (o.bind fun m ↦ if 0 ≤ m then some m.toNat else none) = n := by
  rw [gives_map fun o : Option ℤ ↦ o.bind fun m ↦ if 0 ≤ m then some m.toNat else none]
  unfold Value.Gives Value.Permits
  cases v.field? key with
  | none => simp
  | some w => simp [eq_comm]

theorem gives_allowance {v : Value} {key : String} {x : Option Float} :
    v.Gives key (Value.Counts Number.allowance) none x ↔
      ∃ o, v.Gives key (Value.Given (Value.Counts Number.amount)) none o ∧
        o.filter (0 ≤ ·) = x := by
  rw [gives_map fun o : Option Float ↦ o.filter (0 ≤ ·)]
  unfold Value.Gives Value.Counts
  cases v.field? key with
  | none => simp
  | some w => simp [Number.allowance, Option.filter_some, eq_comm]

theorem allowance_eq_ok {c : Cursor} {members : List (String × Value)}
    (h : c.value = .object members) (key : String) (x : Option Float) :
    (do return (← c.readOptional members key (·.number)).filter (0 ≤ ·) : Decoded (Option Float)) =
        .ok x ↔ c.value.Gives key (Value.Counts Number.allowance) none x := by
  rw [reads_number.readOptional_bind h, gives_allowance]
  simp [pure, Except.pure]

theorem reads_term : Reads Term.decode Value.DescribesTerm := by
  intro c t
  unfold Term.decode
  rw [Decoded.bind_eq_ok]
  constructor
  · rintro ⟨members, hobject, h⟩
    have hc := object_eq_ok.mp hobject
    obtain ⟨name, hname, h⟩ := (reads_string.require_bind hc "name").mp h
    obtain ⟨coef, hcoef, h⟩ := (reads_number.require_bind hc "coef").mp h
    cases h
    exact ⟨hname, hcoef⟩
  · intro h
    obtain ⟨members, hc⟩ := h.name.isObject
    exact ⟨members, object_eq_ok.mpr hc, (reads_string.require_bind hc "name").mpr ⟨_, h.name,
      (reads_number.require_bind hc "coef").mpr ⟨_, h.coef, rfl⟩⟩⟩

theorem reads_terms : Reads (·.readItems Term.decode) (Value.Lists Value.DescribesTerm) :=
  reads_term.readItems

theorem reads_bounds : Reads Bounds.decode Value.DescribesBounds := by
  intro c b
  unfold Bounds.decode
  rw [Decoded.bind_eq_ok]
  constructor
  · rintro ⟨members, hobject, h⟩
    have hc := object_eq_ok.mp hobject
    obtain ⟨type, htype, h⟩ := (reads_boundType.require_bind hc "type").mp h
    obtain ⟨lower, hlower, h⟩ := (reads_number.readOptional_bind hc "lb").mp h
    obtain ⟨upper, hupper, h⟩ := (reads_number.readOptional_bind hc "ub").mp h
    cases h
    exact ⟨htype, gives_side.mpr ⟨lower, hlower, rfl⟩, gives_side.mpr ⟨upper, hupper, rfl⟩⟩
  · intro h
    obtain ⟨members, hc⟩ := h.type.isObject
    obtain ⟨lower, hlower, hl⟩ := gives_side.mp h.lower
    obtain ⟨upper, hupper, hu⟩ := gives_side.mp h.upper
    refine ⟨members, object_eq_ok.mpr hc, (reads_boundType.require_bind hc "type").mpr ⟨_, h.type,
      (reads_number.readOptional_bind hc "lb").mpr ⟨lower, hlower,
        (reads_number.readOptional_bind hc "ub").mpr ⟨upper, hupper, ?_⟩⟩⟩⟩
    rw [hl, hu]
    rfl

theorem reads_objective : Reads Objective.decode Value.DescribesObjective := by
  intro c o
  unfold Objective.decode
  rw [Decoded.bind_eq_ok]
  constructor
  · rintro ⟨members, hobject, h⟩
    have hc := object_eq_ok.mp hobject
    obtain ⟨direction, hdirection, h⟩ := (reads_direction.require_bind hc "direction").mp h
    obtain ⟨terms, hterms, h⟩ := (reads_terms.require_bind hc "vars").mp h
    cases h
    exact ⟨hdirection, hterms⟩
  · intro h
    obtain ⟨members, hc⟩ := h.terms.isObject
    exact ⟨members, object_eq_ok.mpr hc, (reads_direction.require_bind hc "direction").mpr
      ⟨_, h.direction, (reads_terms.require_bind hc "vars").mpr ⟨_, h.terms, rfl⟩⟩⟩

theorem reads_constraint : Reads ConstraintSpec.decode Value.DescribesConstraint := by
  intro c k
  unfold ConstraintSpec.decode
  rw [Decoded.bind_eq_ok]
  constructor
  · rintro ⟨members, hobject, h⟩
    have hc := object_eq_ok.mp hobject
    obtain ⟨name, hname, h⟩ := (reads_string.require_bind hc "name").mp h
    obtain ⟨terms, hterms, h⟩ := (reads_terms.require_bind hc "vars").mp h
    obtain ⟨bounds, hbounds, h⟩ := (reads_bounds.require_bind hc "bnds").mp h
    cases h
    exact ⟨hname, hterms, hbounds⟩
  · intro h
    obtain ⟨members, hc⟩ := h.name.isObject
    exact ⟨members, object_eq_ok.mpr hc, (reads_string.require_bind hc "name").mpr ⟨_, h.name,
      (reads_terms.require_bind hc "vars").mpr ⟨_, h.terms,
        (reads_bounds.require_bind hc "bnds").mpr ⟨_, h.bounds, rfl⟩⟩⟩⟩

theorem reads_columnBound : Reads ColumnBoundSpec.decode Value.DescribesColumnBound := by
  intro c b
  unfold ColumnBoundSpec.decode
  rw [Decoded.bind_eq_ok]
  constructor
  · rintro ⟨members, hobject, h⟩
    have hc := object_eq_ok.mp hobject
    obtain ⟨name, hname, h⟩ := (reads_string.require_bind hc "name").mp h
    obtain ⟨bounds, hbounds, h⟩ := Decoded.bind_eq_ok.mp h
    cases h
    exact ⟨hname, (reads_bounds c bounds).mp hbounds⟩
  · intro h
    obtain ⟨members, hc⟩ := h.name.isObject
    exact ⟨members, object_eq_ok.mpr hc, (reads_string.require_bind hc "name").mpr ⟨_, h.name,
      Decoded.bind_eq_ok.mpr ⟨_, (reads_bounds c _).mpr h.bounds, rfl⟩⟩⟩

theorem reads_options : Reads Options.decode Value.DescribesOptions := by
  intro c o
  unfold Options.decode
  rw [Decoded.bind_eq_ok]
  constructor
  · rintro ⟨members, hobject, h⟩
    have hc := object_eq_ok.mp hobject
    obtain ⟨messageLevel, hmessageLevel, h⟩ :=
      (reads_messageLevel.readOptional_bind hc "msglev").mp h
    obtain ⟨iterations, hiterations, h⟩ := (reads_integer.readOptional_bind hc "itlim").mp h
    obtain ⟨mipGap, hmipGap, h⟩ := Decoded.bind_eq_ok.mp h
    obtain ⟨timeLimit, htimeLimit, h⟩ := Decoded.bind_eq_ok.mp h
    obtain ⟨presolve, hpresolve, h⟩ := (reads_flag.readOptional_bind hc "presol").mp h
    obtain ⟨rows, hrows, h⟩ := (reads_flag.readOptional_bind hc "rows").mp h
    cases h
    exact ⟨⟨members, hc⟩, (allowance_eq_ok hc "mipgap" _).mp hmipGap,
      (allowance_eq_ok hc "tmlim" _).mp htimeLimit, hmessageLevel,
      gives_permit.mpr ⟨iterations, hiterations, rfl⟩, hpresolve, hrows⟩
  · intro h
    obtain ⟨members, hc⟩ := h.object
    obtain ⟨iterations, hiterations, hlimit⟩ := gives_permit.mp h.iterationLimit
    refine ⟨members, object_eq_ok.mpr hc,
      (reads_messageLevel.readOptional_bind hc "msglev").mpr ⟨_, h.messageLevel,
      (reads_integer.readOptional_bind hc "itlim").mpr ⟨iterations, hiterations,
      Decoded.bind_eq_ok.mpr ⟨_, (allowance_eq_ok hc "mipgap" _).mpr h.mipGap,
      Decoded.bind_eq_ok.mpr ⟨_, (allowance_eq_ok hc "tmlim" _).mpr h.timeLimit,
      (reads_flag.readOptional_bind hc "presol").mpr ⟨_, h.presolve,
      (reads_flag.readOptional_bind hc "rows").mpr ⟨_, h.rows, ?_⟩⟩⟩⟩⟩⟩⟩
    rw [hlimit]
    rfl

theorem reads_problem : Reads ProblemSpec.decode Value.DescribesProblem := by
  intro c spec
  unfold ProblemSpec.decode
  rw [Decoded.bind_eq_ok]
  constructor
  · rintro ⟨members, hobject, h⟩
    have hc := object_eq_ok.mp hobject
    obtain ⟨name, hname, h⟩ := (reads_string.readOptional_bind hc "name").mp h
    obtain ⟨objective, hobjective, h⟩ := (reads_objective.require_bind hc "objective").mp h
    obtain ⟨subjectTo, hsubjectTo, h⟩ :=
      (reads_constraint.readItems.require_bind hc "subjectTo").mp h
    obtain ⟨bounds, hbounds, h⟩ := (reads_columnBound.readSection_bind hc "bounds").mp h
    obtain ⟨options, hoptions, h⟩ := (reads_options.readOptional_bind hc "options").mp h
    obtain ⟨generals, hgenerals, h⟩ := (reads_string.readSection_bind hc "generals").mp h
    obtain ⟨binaries, hbinaries, h⟩ := (reads_string.readSection_bind hc "binaries").mp h
    cases h
    exact ⟨gives_getD.mpr ⟨name, hname, rfl⟩, hobjective, hsubjectTo, hbounds, hgenerals,
      hbinaries, gives_getD.mpr ⟨options, hoptions, rfl⟩⟩
  · intro h
    obtain ⟨members, hc⟩ := h.objective.isObject
    obtain ⟨name, hname, hn⟩ := gives_getD.mp h.name
    obtain ⟨options, hoptions, ho⟩ := gives_getD.mp h.options
    refine ⟨members, object_eq_ok.mpr hc,
      (reads_string.readOptional_bind hc "name").mpr ⟨name, hname,
      (reads_objective.require_bind hc "objective").mpr ⟨_, h.objective,
      (reads_constraint.readItems.require_bind hc "subjectTo").mpr ⟨_, h.subjectTo,
      (reads_columnBound.readSection_bind hc "bounds").mpr ⟨_, h.bounds,
      (reads_options.readOptional_bind hc "options").mpr ⟨options, hoptions,
      (reads_string.readSection_bind hc "generals").mpr ⟨_, h.generals,
      (reads_string.readSection_bind hc "binaries").mpr ⟨_, h.binaries, ?_⟩⟩⟩⟩⟩⟩⟩⟩
    rw [hn, ho]
    rfl

end Parts

end Json.Cursor

/-- Reading a value succeeds exactly where the value has the format of a problem description, and
what is read is then what the value describes. -/
theorem ProblemSpec.decode_format (v : Value) :
    ((∃ spec, ProblemSpec.decode (.root v) = .ok spec) ↔ v.IsProblem) ∧
      ∀ spec, ProblemSpec.decode (.root v) = .ok spec ↔ v.DescribesProblem spec := by
  have hreads (spec : ProblemSpec Float) :
      ProblemSpec.decode (.root v) = .ok spec ↔ v.DescribesProblem spec :=
    Json.Cursor.reads_problem (.root v) spec
  refine ⟨?_, hreads⟩
  rw [← Value.exists_describesProblem]
  exact exists_congr hreads

end LinProg
