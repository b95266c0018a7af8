import LinProg.Proofs.Result.Reading

namespace LinProg

open Json (Token Piece Value)

/-- A number of a result that stands for itself in a document: neither the largest finite double,
which stands for an infinity, nor its negation, nor something that is no number. -/
structure Json.Proper (x : Float) : Prop where
  number : x.isNaN = false
  ne_max : x ≠ Binary64.maxFinite
  ne_min : x ≠ -Binary64.maxFinite

structure Values.Writable (v : Values Float) : Prop where
  names : (v.entries.map Prod.fst).Nodup
  numbers : ∀ e ∈ v.entries, Json.Proper e.2

/-- A result that its text tells in full. -/
structure Output.Writable (o : Output Float) : Prop where
  z : Json.Proper o.z
  vars : o.vars.Writable
  dual : ∀ v ∈ o.dual, v.Writable
  rows : ∀ v ∈ o.rows, v.Writable
  time : ∀ x ∈ o.time, Binary64.isFinite x = true

theorem Json.Proper.widen_clamp {x : Float} (h : Json.Proper x) :
    Json.widen (Json.clamp x) = x := Binary64.widen_clamp h.ne_max h.ne_min

theorem Json.Proper.readable {x : Float} (h : Json.Proper x) : (Value.ofFloat x).Readable :=
  Binary64.isFinite_clamp h.number

theorem Json.proper_of_bits {x : Float} (hnumber : x.isNaN = false)
    (hmax : x.toBits ≠ Binary64.maxFinite.toBits) (hmin : x.toBits ≠ (-Binary64.maxFinite).toBits) :
    Json.Proper x :=
  ⟨hnumber, fun h ↦ hmax (congrArg Float.toBits h), fun h ↦ hmin (congrArg Float.toBits h)⟩

namespace Values.Writable

variable {v : Values Float}

theorem readable (h : v.Writable) : v.toJson.Readable := by
  rw [Result.toJson_eq]
  refine Result.readable_numberMembers fun m hm ↦ ?_
  obtain ⟨e, he, rfl⟩ := List.mem_map.mp hm
  exact (h.numbers e he).readable

theorem reads (h : v.Writable) : Result.Reads Result.readValues v.toJson.pieces v :=
  Result.reads_values h.names fun e he ↦ (h.numbers e he).widen_clamp

theorem reads_optional (h : v.Writable) :
    Result.Reads (Result.readOptional Result.readValues) v.toJson.pieces (some v) := by
  have hreads := h.reads
  rw [Result.toJson_eq, Value.pieces] at hreads ⊢
  exact hreads.optional fun _ h ↦ nomatch h

end Values.Writable

namespace Result

def Partial.record (o : Output Float) (p : Partial) : Field → Partial
  | .z => { p with z := some o.z }
  | .version => { p with version := some o.version }
  | .status => { p with status := some o.status }
  | .vars => { p with vars := some o.vars }
  | .dual => { p with dual := some o.dual }
  | .rows => { p with rows := some o.rows }
  | .name => { p with name := some o.name }
  | .time => { p with time := some o.time }

theorem Partial.has_record (o : Output Float) (p : Partial) {field other : Field}
    (h : field ≠ other) : (p.record o field).has other = p.has other := by
  cases field <;> cases other <;> first | rfl | exact absurd rfl h

@[simp]
theorem Field.ofKey?_key (field : Field) : ofKey? field.key = some field := by
  cases field <;> rfl

end Result

namespace Output

open Result (Field Partial Reads)

def member? (o : Output Float) : Field → Option Value
  | .z => some (Value.ofFloat o.z)
  | .version => some (.string o.version)
  | .status => some (.number (.int o.status.code))
  | .vars => some o.vars.toJson
  | .dual => o.dual.map Values.toJson
  | .rows => o.rows.map Values.toJson
  | .name => o.name.map .string
  | .time => o.time.map fun x ↦ .number (.float x)

variable {o : Output Float}

theorem reads_member (h : o.Writable) {field : Field} {v : Value}
    (hv : o.member? field = some v) : v.Readable ∧
      ∀ p : Partial, Reads (fun ts ↦ p.read ts field) v.pieces (p.record o field) := by
  cases field with
  | z =>
    obtain rfl := Option.some.inj hv
    have hreads := Result.reads_extended (.float (Json.clamp o.z))
    rw [Json.Number.toFloat, h.z.widen_clamp] at hreads
    refine ⟨h.z.readable, fun p ↦ ?_⟩
    exact hreads.map fun x ↦ { p with z := some x }
  | version =>
    obtain rfl := Option.some.inj hv
    refine ⟨trivial, fun p ↦ ?_⟩
    exact (Result.reads_string o.version).map fun s ↦ { p with version := some s }
  | status =>
    obtain rfl := Option.some.inj hv
    have hcode : (Json.Number.int o.status.code).Readable := by
      cases o.status <;> exact ⟨by decide, by decide⟩
    refine ⟨hcode, fun p ↦ ?_⟩
    exact (Result.reads_status o.status).map fun s ↦ { p with status := some s }
  | vars =>
    obtain rfl := Option.some.inj hv
    refine ⟨h.vars.readable, fun p ↦ ?_⟩
    exact h.vars.reads.map fun v ↦ { p with vars := some v }
  | dual =>
    obtain ⟨values, hvalues, rfl⟩ := Option.map_eq_some_iff.mp hv
    have hwritable := h.dual values hvalues
    refine ⟨hwritable.readable, fun p ↦ ?_⟩
    rw [Partial.record, hvalues]
    exact hwritable.reads_optional.map fun v ↦ { p with dual := some v }
  | rows =>
    obtain ⟨values, hvalues, rfl⟩ := Option.map_eq_some_iff.mp hv
    have hwritable := h.rows values hvalues
    refine ⟨hwritable.readable, fun p ↦ ?_⟩
    rw [Partial.record, hvalues]
    exact hwritable.reads_optional.map fun v ↦ { p with rows := some v }
  | name =>
    obtain ⟨name, hname, rfl⟩ := Option.map_eq_some_iff.mp hv
    refine ⟨trivial, fun p ↦ ?_⟩
    rw [Partial.record, hname]
    exact ((Result.reads_string name).optional (fun _ h ↦ nomatch h)).map
      fun s ↦ { p with name := some s }
  | time =>
    obtain ⟨x, hx, rfl⟩ := Option.map_eq_some_iff.mp hv
    refine ⟨h.time x hx, fun p ↦ ?_⟩
    rw [Partial.record, hx]
    exact ((Result.reads_float (.float x)).optional (fun _ h ↦ nomatch h)).map
      fun x ↦ { p with time := some x }

def members (o : Output Float) (fields : List Field) : List (String × Value) :=
  fields.filterMap fun f ↦ (o.member? f).map fun v ↦ (f.key, v)

theorem toJson_eq (o : Output Float) : o.toJson = .object (o.members Field.all) := by
  obtain ⟨_, _, _, _, dual, rows, name, time⟩ := o
  cases dual <;> cases rows <;> cases name <;> cases time <;> rfl

def recorded (o : Output Float) (p : Partial) (fields : List Field) : Partial :=
  (fields.filter fun f ↦ (o.member? f).isSome).foldl (Partial.record o) p

theorem reads_members (h : o.Writable) {fields : List Field} (hfields : fields.Nodup) {fuel : ℕ}
    (hfuel : (o.members fields).length < fuel) (first : Bool) (p : Partial)
    (hnew : ∀ f ∈ fields, p.has f = false) :
    Reads (p.readMembers fuel first)
      (Value.memberPieces first (o.members fields) ++ [.mark .closeObject])
      (o.recorded p fields) := by
  induction fields generalizing fuel first p with
  | nil =>
    intro ts rest hts
    obtain ⟨fuel, rfl⟩ := Nat.exists_eq_succ_of_ne_zero (Nat.ne_zero_of_lt hfuel)
    obtain ⟨ts', hend, hrest⟩ := Result.reads_end first ts rest hts
    exact ⟨ts', by rw [Partial.readMembers, hend]; rfl, hrest⟩
  | cons field fields ih =>
    obtain ⟨hmem, hnodup⟩ := List.nodup_cons.mp hfields
    rw [members] at hfuel ⊢
    rw [recorded]
    cases hv : o.member? field with
    | none =>
      -- an absent member has no tokens, so no turn of the reader is taken
      rw [List.filterMap_cons_none (by rw [hv]; rfl)] at hfuel ⊢
      rw [List.filter_cons_of_neg (by simp [hv])]
      exact ih hnodup hfuel first p fun f hf ↦ hnew f (List.mem_cons_of_mem field hf)
    | some v =>
      rw [List.filterMap_cons_some (by rw [hv]; rfl)] at hfuel ⊢
      rw [List.filter_cons_of_pos (by simp [hv])]
      intro ts rest hts
      obtain ⟨fuel, rfl⟩ := Nat.exists_eq_succ_of_ne_zero (Nat.ne_zero_of_lt hfuel)
      obtain ⟨ts₁, ts₂, hkey, hcolon, h₂⟩ := Result.stands_member hts
      obtain ⟨ts₃, hread, h₃⟩ := (reads_member h hv).2 p ts₂ _ h₂
      have hnew' : ∀ f ∈ fields, (p.record o field).has f = false := fun f hf ↦ by
        have hne : field ≠ f := by
          rintro rfl
          exact hmem hf
        rw [Partial.has_record o p hne]
        exact hnew f (List.mem_cons_of_mem field hf)
      obtain ⟨ts', hmembers, hrest⟩ :=
        ih hnodup (Nat.lt_of_succ_lt_succ hfuel) false (p.record o field) hnew' ts₃ rest h₃
      refine ⟨ts', ?_, hrest⟩
      rw [Partial.readMembers, hkey]
      simp only [bind, Except.bind, hcolon, Result.Field.ofKey?_key]
      dsimp only at hread
      rw [if_neg (by rw [hnew field List.mem_cons_self]; decide), hread]
      exact hmembers

theorem finish_recorded (o : Output Float) (absent : Field → Result.ReadError) :
    (o.recorded Partial.start Field.all).finish absent = .ok o := by
  obtain ⟨_, _, _, _, dual, rows, name, time⟩ := o
  cases dual <;> cases rows <;> cases name <;> cases time <;> rfl

theorem readable_toJson (h : o.Writable) : o.toJson.Readable := by
  rw [toJson_eq]
  refine Value.membersReadable_iff.mpr fun m hm ↦ ?_
  obtain ⟨field, -, hfield⟩ := List.mem_filterMap.mp hm
  obtain ⟨v, hv, rfl⟩ := Option.map_eq_some_iff.mp hfield
  exact (reads_member h hv).1

theorem reads_output (h : o.Writable) : Reads Result.readOutput o.toJson.pieces o := by
  intro ts rest hts
  rw [toJson_eq, Value.pieces] at hts
  obtain ⟨start, ts, rfl, hmembers⟩ := Result.stands_mark hts
  have hfuel : (o.members Field.all).length < ts.length + 1 := by
    have := Result.length_memberPieces true (o.members Field.all)
    rw [hmembers.length_eq]
    simp only [List.append_eq, List.length_append]
    omega
  obtain ⟨ts', hread, hrest⟩ := reads_members h (by decide) hfuel true Partial.start
    (fun field _ ↦ by cases field <;> rfl) ts rest hmembers
  refine ⟨ts', ?_, hrest⟩
  rw [Result.readOutput]
  dsimp only
  rw [hread]
  simp only [bind, Except.bind, pure, Except.pure, finish_recorded]

/-- The text of a result, compact or pretty, is read as the result: with the same entries in their
order, and with the same doubles to the last bit. -/
theorem parse_toText (h : o.Writable) (spacing : Json.Spacing) :
    Output.parse (o.toText spacing) = .ok o := by
  have hstands := Value.stands_tokens (readable_toJson h) spacing
  obtain ⟨ts, hread, hrest⟩ := reads_output h _ [] (by rwa [List.append_nil])
  obtain rfl := List.forall₂_nil_right_iff.mp hrest
  rw [Output.parse, toText, hread]
  rfl

def unboundedRay : Output Float :=
  { z := 1 / 0, version := "5.0", status := .unbounded
    vars := ⟨[("a \"b\"\\\n", 0.1), ("", -1 / 0), ("é\x01", -0.0)]⟩
    dual := some ⟨[]⟩
    rows := some ⟨[("r", 2.5)]⟩
    name := none
    time := some 0.25 }

theorem writable_unboundedRay : unboundedRay.Writable := by
  refine ⟨?_, ⟨by decide, fun e he ↦ ?_⟩, ?_, ?_, ?_⟩
  · exact Json.proper_of_bits (by decide) (by decide) (by decide)
  · fin_cases he <;> exact Json.proper_of_bits (by decide) (by decide) (by decide)
  · rintro _ ⟨⟩
    exact ⟨by decide, by simp⟩
  · rintro _ ⟨⟩
    refine ⟨by decide, fun e he ↦ ?_⟩
    obtain rfl := List.mem_singleton.mp he
    exact Json.proper_of_bits (by decide) (by decide) (by decide)
  · rintro _ ⟨⟩
    decide

theorem parse_toText_unboundedRay :
    unboundedRay.Writable ∧ Output.parse (unboundedRay.toText .pretty) = .ok unboundedRay :=
  ⟨writable_unboundedRay, parse_toText writable_unboundedRay .pretty⟩

end Output

end LinProg
