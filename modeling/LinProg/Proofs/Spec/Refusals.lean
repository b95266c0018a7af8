import LinProg.Proofs.Json.Paths
import LinProg.Proofs.Spec.Decoding

namespace LinProg

open Json (Cursor Path PathStep Value)

def Json.Value.Lacks (v : Value) (key : String) : Prop :=
  ∃ members, v = .object members ∧
    (Value.member? members key = none ∨ Value.member? members key = some .null)

namespace Json.Value

variable {members : List (String × Value)} {key : String}

theorem member?_of_field? {w : Value} (h : (object members).field? key = some w) :
    member? members key = some w := by
  unfold field? at h
  dsimp only at h
  split at h
  · cases h
  · exact h

theorem lacks_of_field? {v : Value} (hv : v = object members) (h : v.field? key = none) :
    v.Lacks key := by
  refine ⟨members, hv, ?_⟩
  rw [hv] at h
  unfold field? at h
  dsimp only at h
  split at h
  · next hnull => exact .inr hnull
  · exact .inl h

end Json.Value

/-- A value that is not what is expected of it. Where a code is expected, this is an integer that is
no code; a value that is no integer misses the expectation of an integer before. -/
def Expected.Missed : Expected → Value → Prop
  | value, v => v = .null
  | object, v => ¬v.IsObject
  | array, v => ¬∃ items, v = .array items
  | string, v => ¬v.IsString
  | number, v => ¬v.IsNumber
  | integer, v => ¬∃ n, v.IsInteger n
  | boolean, v => ¬v.IsFlag
  | direction, v => ∃ n, v.IsInteger n ∧ ¬(1 ≤ n ∧ n ≤ 2)
  | boundType, v => ∃ n, v.IsInteger n ∧ ¬(1 ≤ n ∧ n ≤ 5)
  | messageLevel, v => ∃ n, v.IsInteger n ∧ ¬(0 ≤ n ∧ n ≤ 4)

namespace Malformed

/-- What a refusal says of the value at the end of its path. -/
structure Fits (e : Malformed) (path : Path) (node : Value) : Prop where
  missing : e.expected = .value → node.Lacks e.field
  wrong : e.expected ≠ .value → e.expected.Missed node ∧ e.field = path.lastKey

/-- The text of the refusal's path, followed from the root of a document, leads to a value that is
to blame. -/
def Blames (e : Malformed) (v : Value) : Prop :=
  ∃ path node, Path.ofText? e.path.toText = some path ∧ v.get? path = some node ∧ e.Fits path node

def ArisesFrom (e : Malformed) (c : Cursor) : Prop :=
  ∃ steps node, e.path = c.path ++ steps ∧ (∀ step ∈ steps, step.isPlain = true) ∧
    c.value.get? steps = some node ∧ e.Fits e.path node

theorem ArisesFrom.blames {e : Malformed} {v : Value} (h : e.ArisesFrom (.root v)) :
    e.Blames v := by
  obtain ⟨steps, node, hpath, hplain, hnode, hfits⟩ := h
  have hsteps : e.path = steps := hpath
  exact ⟨e.path, node, Path.ofText?_toText (hsteps ▸ hplain), hsteps ▸ hnode, hfits⟩

variable {e : Malformed} {c : Cursor}

theorem arisesFrom_refuse {expected : Expected} (hvalue : expected ≠ .value)
    (hmissed : expected.Missed c.value) :
    ArisesFrom ⟨c.path.lastKey, c.path, expected⟩ c := by
  refine ⟨[], c.value, (List.append_nil _).symm, by simp, rfl, ?_⟩
  exact ⟨fun h ↦ absurd h hvalue, fun _ ↦ ⟨hmissed, rfl⟩⟩

theorem ArisesFrom.of_member {members : List (String × Value)} {key : String} {w : Value}
    (hc : c.value = .object members) (hw : c.value.field? key = some w)
    (hplain : (PathStep.key key).isPlain = true) (h : e.ArisesFrom ⟨w, c.path ++ [.key key]⟩) :
    e.ArisesFrom c := by
  obtain ⟨steps, node, hpath, hsteps, hnode, hfits⟩ := h
  have hmember : Value.member? members key = some w := Value.member?_of_field? (hc ▸ hw)
  refine ⟨.key key :: steps, node, ?_, ?_, ?_, hfits⟩
  · rw [hpath, List.append_assoc]
    rfl
  · exact List.forall_mem_cons.mpr ⟨hplain, hsteps⟩
  · rw [hc, Value.get?_key hmember, hnode]

theorem ArisesFrom.of_item {items : List Value} {i : ℕ} {w : Value} (hc : c.value = .array items)
    (hw : items[i]? = some w) (h : e.ArisesFrom ⟨w, c.path ++ [.index i]⟩) : e.ArisesFrom c := by
  obtain ⟨steps, node, hpath, hsteps, hnode, hfits⟩ := h
  refine ⟨.index i :: steps, node, ?_, ?_, ?_, hfits⟩
  · rw [hpath, List.append_assoc]
    rfl
  · exact List.forall_mem_cons.mpr ⟨rfl, hsteps⟩
  · rw [hc, Value.get?_index hw, hnode]

end Malformed

theorem Decoded.bind_eq_error {β γ : Type} {x : Decoded β} {f : β → Decoded γ} {e : Malformed} :
    (x >>= f) = .error e ↔ x = .error e ∨ ∃ b, x = .ok b ∧ f b = .error e := by
  cases x with
  | error e' => simp [bind, Except.bind]
  | ok b => simp [bind, Except.bind]

namespace Json.Cursor

variable {β γ : Type} {read : Cursor → Decoded β}

/-- Every refusal of the reader blames a value that can be reached from where it reads. -/
def Accountable (read : Cursor → Decoded β) : Prop :=
  ∀ c e, read c = .error e → e.ArisesFrom c

section Scalars

theorem Reads.accountable {R : Value → β → Prop} (hreads : Reads read R) (expected : Expected)
    (hrefuse : ∀ c e, read c = .error e → e = ⟨c.path.lastKey, c.path, expected⟩)
    (hvalue : expected ≠ .value) (hmissed : ∀ v, (¬∃ b, R v b) → expected.Missed v) :
    Accountable read := by
  intro c e h
  obtain rfl := hrefuse c e h
  apply Malformed.arisesFrom_refuse hvalue
  apply hmissed
  rintro ⟨b, hb⟩
  have hok := (hreads c b).mpr hb
  rw [h] at hok
  cases hok

theorem accountable_string : Accountable string := by
  apply reads_string.accountable .string
  · intro c e h
    unfold string at h
    split at h
    · cases h
    · exact (Except.error.inj h).symm
  · decide
  · intro v h
    rwa [Value.exists_spells] at h

theorem accountable_number : Accountable number := by
  apply reads_number.accountable .number
  · intro c e h
    unfold number at h
    split at h
    · cases h
    · exact (Except.error.inj h).symm
  · decide
  · intro v h
    rwa [Value.exists_counts] at h

theorem accountable_integer : Accountable integer := by
  apply reads_integer.accountable .integer
  · intro c e h
    unfold integer at h
    split at h
    · split_ifs at h
      exact (Except.error.inj h).symm
    · split at h
      · split_ifs at h
        exact (Except.error.inj h).symm
      · exact (Except.error.inj h).symm
    · exact (Except.error.inj h).symm
  · decide
  · exact fun v h ↦ h

theorem accountable_flag : Accountable flag := by
  apply reads_flag.accountable .boolean
  · intro c e h
    unfold flag at h
    split at h
    · cases h
    · cases h
    · exact (Except.error.inj h).symm
  · decide
  · intro v h
    rwa [Value.exists_decides] at h

theorem accountable_code {ofCode? : ℤ → Option β} {expected : Expected} (hvalue : expected ≠ .value)
    (hmissed : ∀ v n, v.IsInteger n → ofCode? n = none → expected.Missed v) :
    Accountable (·.code ofCode? expected) := by
  intro c e h
  rcases Decoded.bind_eq_error.mp h with h | ⟨n, hn, h⟩
  · exact accountable_integer c e h
  · cases hcode : ofCode? n with
    | some b => simp [hcode, pure, Except.pure] at h
    | none =>
      rw [hcode] at h
      obtain rfl := Except.error.inj h
      exact Malformed.arisesFrom_refuse hvalue (hmissed _ n ((reads_integer c n).mp hn) hcode)

theorem accountable_direction : Accountable (·.code Direction.ofCode? .direction) := by
  apply accountable_code (by decide)
  intro v n hn hcode
  refine ⟨n, hn, fun ⟨hlow, hhigh⟩ ↦ ?_⟩
  interval_cases n <;> cases hcode

theorem accountable_boundType : Accountable (·.code BoundType.ofCode? .boundType) := by
  apply accountable_code (by decide)
  intro v n hn hcode
  refine ⟨n, hn, fun ⟨hlow, hhigh⟩ ↦ ?_⟩
  interval_cases n <;> cases hcode

theorem accountable_messageLevel : Accountable (·.code MessageLevel.ofCode? .messageLevel) := by
  apply accountable_code (by decide)
  intro v n hn hcode
  refine ⟨n, hn, fun ⟨hlow, hhigh⟩ ↦ ?_⟩
  interval_cases n <;> cases hcode

end Scalars

section Parts

variable {c : Cursor} {e : Malformed} {members : List (String × Value)}

theorem arisesFrom_object {f : List (String × Value) → Decoded γ}
    (hrest : ∀ members, c.value = .object members → f members = .error e → e.ArisesFrom c)
    (h : (c.object >>= f) = .error e) : e.ArisesFrom c := by
  rcases Decoded.bind_eq_error.mp h with h | ⟨members, hmembers, h⟩
  · have hnone : ¬c.value.IsObject := by
      rintro ⟨members, hc⟩
      rw [object_eq_ok.mpr hc] at h
      cases h
    have he : e = ⟨c.path.lastKey, c.path, .object⟩ := by
      unfold object at h
      split at h
      · cases h
      · exact (Except.error.inj h).symm
    obtain rfl := he
    exact Malformed.arisesFrom_refuse (by decide) hnone
  · exact hrest members (object_eq_ok.mp hmembers) h

theorem Accountable.require_bind (hread : Accountable read) (hc : c.value = .object members)
    {key : String} (hplain : (PathStep.key key).isPlain = true) {f : β → Decoded γ}
    (hrest : ∀ b, f b = .error e → e.ArisesFrom c)
    (h : (c.require members key >>= fun member ↦ read member >>= f) = .error e) :
    e.ArisesFrom c := by
  unfold require at h
  rw [optional_eq hc] at h
  cases hw : c.value.field? key with
  | none =>
    rw [hw] at h
    obtain rfl := Except.error.inj h
    refine ⟨[], c.value, (List.append_nil _).symm, by simp, rfl, ?_⟩
    exact ⟨fun _ ↦ Value.lacks_of_field? hc hw, fun hne ↦ absurd rfl hne⟩
  | some w =>
    rw [hw] at h
    change (read ⟨w, c.path ++ [.key key]⟩ >>= f) = .error e at h
    rcases Decoded.bind_eq_error.mp h with h | ⟨b, -, h⟩
    · exact .of_member hc hw hplain (hread _ e h)
    · exact hrest b h

theorem Accountable.readOptional_bind (hread : Accountable read) (hc : c.value = .object members)
    {key : String} (hplain : (PathStep.key key).isPlain = true) {f : Option β → Decoded γ}
    (hrest : ∀ o, f o = .error e → e.ArisesFrom c)
    (h : (c.readOptional members key read >>= f) = .error e) : e.ArisesFrom c := by
  unfold readOptional at h
  rw [optional_eq hc] at h
  rcases Decoded.bind_eq_error.mp h with h | ⟨o, -, h⟩
  · cases hw : c.value.field? key with
    | none => rw [hw] at h; cases h
    | some w =>
      rw [hw] at h
      apply Malformed.ArisesFrom.of_member hc hw hplain
      apply hread
      cases hr : read ⟨w, c.path ++ [.key key]⟩ with
      | ok b => simp [hr, Functor.map, Except.map] at h
      | error e' => simpa [hr, Functor.map, Except.map] using h
  · exact hrest o h

theorem Accountable.readItems (hread : Accountable read) : Accountable (·.readItems read) := by
  intro c e h
  rcases Decoded.bind_eq_error.mp h with h | ⟨cs, hcs, h⟩
  · have hnone : ¬∃ items, c.value = .array items := by
      rintro ⟨items, hc⟩
      obtain ⟨cs, hcs⟩ := exists_items hc
      rw [hcs] at h
      cases h
    have he : e = ⟨c.path.lastKey, c.path, .array⟩ := by
      unfold items at h
      split at h
      · cases h
      · exact (Except.error.inj h).symm
    obtain rfl := he
    exact Malformed.arisesFrom_refuse (by decide) hnone
  · obtain ⟨d, hd, hfail⟩ : ∃ d ∈ cs, read d = .error e := by
      clear hcs
      induction cs with
      | nil => cases h
      | cons d cs ih =>
        rw [List.mapM_cons] at h
        rcases Decoded.bind_eq_error.mp h with h | ⟨b, -, h⟩
        · exact ⟨d, List.mem_cons_self, h⟩
        · rcases Decoded.bind_eq_error.mp h with h | ⟨bs, -, h⟩
          · obtain ⟨d', hd', hfail⟩ := ih h
            exact ⟨d', List.mem_cons_of_mem _ hd', hfail⟩
          · cases h
    obtain ⟨items, i, w, hc, hi, rfl⟩ : ∃ items i w, c.value = .array items ∧
        items[i]? = some w ∧ ⟨w, c.path ++ [.index i]⟩ = d := by
      unfold Cursor.items at hcs
      split at hcs
      next items hitems =>
        obtain rfl := Except.ok.inj hcs
        obtain ⟨⟨w, i⟩, hw, rfl⟩ := List.mem_map.mp hd
        exact ⟨items, i, w, hitems, List.mk_mem_zipIdx_iff_getElem?.mp hw, rfl⟩
      next => cases hcs
    exact .of_item hc hi (hread _ e hfail)

theorem Accountable.readSection_bind (hread : Accountable read) (hc : c.value = .object members)
    {key : String} (hplain : (PathStep.key key).isPlain = true) {f : List β → Decoded γ}
    (hrest : ∀ bs, f bs = .error e → e.ArisesFrom c)
    (h : (c.readSection members key read >>= f) = .error e) : e.ArisesFrom c := by
  rcases Decoded.bind_eq_error.mp h with h | ⟨bs, -, h⟩
  · refine hread.readItems.readOptional_bind hc hplain (fun o ho ↦ ?_) h
    cases ho
  · exact hrest bs h

end Parts

section Descriptions

theorem accountable_term : Accountable Term.decode := by
  intro c e
  refine arisesFrom_object fun members hc ↦ ?_
  refine accountable_string.require_bind hc (by decide) fun name ↦ ?_
  refine accountable_number.require_bind hc (by decide) fun coef h ↦ ?_
  cases h

theorem accountable_bounds : Accountable Bounds.decode := by
  intro c e
  refine arisesFrom_object fun members hc ↦ ?_
  refine accountable_boundType.require_bind hc (by decide) fun type ↦ ?_
  refine accountable_number.readOptional_bind hc (by decide) fun lower ↦ ?_
  refine accountable_number.readOptional_bind hc (by decide) fun upper h ↦ ?_
  cases h

theorem accountable_objective : Accountable Objective.decode := by
  intro c e
  refine arisesFrom_object fun members hc ↦ ?_
  refine accountable_direction.require_bind hc (by decide) fun direction ↦ ?_
  refine accountable_term.readItems.require_bind hc (by decide) fun terms h ↦ ?_
  cases h

theorem accountable_constraint : Accountable ConstraintSpec.decode := by
  intro c e
  refine arisesFrom_object fun members hc ↦ ?_
  refine accountable_string.require_bind hc (by decide) fun name ↦ ?_
  refine accountable_term.readItems.require_bind hc (by decide) fun terms ↦ ?_
  refine accountable_bounds.require_bind hc (by decide) fun bounds h ↦ ?_
  cases h

theorem accountable_columnBound : Accountable ColumnBoundSpec.decode := by
  intro c e
  refine arisesFrom_object fun members hc ↦ ?_
  refine accountable_string.require_bind hc (by decide) fun name h ↦ ?_
  rcases Decoded.bind_eq_error.mp h with h | ⟨bounds, -, h⟩
  · exact accountable_bounds c e h
  · cases h

theorem accountable_options : Accountable Options.decode := by
  intro c e
  refine arisesFrom_object fun members hc ↦ ?_
  have hallowance {key : String} (hplain : (PathStep.key key).isPlain = true)
      {f : Option Float → Decoded (Options Float)}
      (hrest : ∀ o, f o = .error e → e.ArisesFrom c)
      (h : ((do return (← c.readOptional members key (·.number)).filter (0 ≤ ·) :
        Decoded (Option Float)) >>= f) = .error e) : e.ArisesFrom c := by
    rcases Decoded.bind_eq_error.mp h with h | ⟨o, -, h⟩
    · refine accountable_number.readOptional_bind hc hplain (fun o ho ↦ ?_) h
      cases ho
    · exact hrest o h
  refine accountable_messageLevel.readOptional_bind hc (by decide) fun messageLevel ↦ ?_
  refine accountable_integer.readOptional_bind hc (by decide) fun iterations ↦ ?_
  refine hallowance (by decide) fun mipGap ↦ ?_
  refine hallowance (by decide) fun timeLimit ↦ ?_
  refine accountable_flag.readOptional_bind hc (by decide) fun presolve ↦ ?_
  refine accountable_flag.readOptional_bind hc (by decide) fun rows h ↦ ?_
  cases h

theorem accountable_problem : Accountable ProblemSpec.decode := by
  intro c e
  refine arisesFrom_object fun members hc ↦ ?_
  refine accountable_string.readOptional_bind hc (by decide) fun name ↦ ?_
  refine accountable_objective.require_bind hc (by decide) fun objective ↦ ?_
  refine accountable_constraint.readItems.require_bind hc (by decide) fun subjectTo ↦ ?_
  refine accountable_columnBound.readSection_bind hc (by decide) fun bounds ↦ ?_
  refine accountable_options.readOptional_bind hc (by decide) fun options ↦ ?_
  refine accountable_string.readSection_bind hc (by decide) fun generals ↦ ?_
  refine accountable_string.readSection_bind hc (by decide) fun binaries h ↦ ?_
  cases h

end Descriptions

end Json.Cursor

/-- A refusal of a problem description or of options names a value that is to blame: the text of its
path leads to it, and it lacks the field or is not what is expected of it. -/
theorem refusals_blame (v : Value) :
    (∀ e, ProblemSpec.decode (.root v) = .error e → e.Blames v) ∧
      ∀ e, Options.decode (.root v) = .error e → e.Blames v :=
  ⟨fun e h ↦ (Json.Cursor.accountable_problem (.root v) e h).blames,
    fun e h ↦ (Json.Cursor.accountable_options (.root v) e h).blames⟩

def Json.Value.wrongTwice : Value :=
  .object
    [("objective", .object [("direction", .number (.int 1)), ("vars", .array [])]),
      ("options", .object [("msglev", .number (.int 9))]),
      ("subjectTo", .array
        [.object
          [("name", .string "cap"),
            ("vars", .array
              [.object [("coef", .number (.int 1)), ("name", .string "x")],
                .object [("coef", .string "two"), ("name", .string "y")]])]])]

theorem refusals_blame_wrongTwice :
    (ProblemSpec.decode (.root Value.wrongTwice) =
        .error ⟨"coef", [.key "subjectTo", .index 0, .key "vars", .index 1, .key "coef"], .number⟩ ∧
      Malformed.Blames
        ⟨"coef", [.key "subjectTo", .index 0, .key "vars", .index 1, .key "coef"], .number⟩
        Value.wrongTwice) ∧
    (Options.decode (.root (.object [("msglev", .number (.int 9))])) =
        .error ⟨"msglev", [.key "msglev"], .messageLevel⟩ ∧
      Malformed.Blames ⟨"msglev", [.key "msglev"], .messageLevel⟩
        (.object [("msglev", .number (.int 9))])) :=
  ⟨⟨rfl, (refusals_blame _).1 _ rfl⟩, rfl, (refusals_blame _).2 _ rfl⟩

end LinProg
