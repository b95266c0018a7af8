import Mathlib.Logic.Relation
import LinProg.Proofs.Spec.Decoding

namespace LinProg

namespace Json

/-- The members that a format knows, at every place. -/
inductive Shape where
  | plain
  | list (item : Shape)
  | object (members : List (String × Shape))

namespace Shape

def member? : Shape → String → Option Shape
  | object members, key => members.lookup key
  | _, _ => none

def under (shape : Shape) (key : String) : Shape := (shape.member? key).getD plain

def item : Shape → Shape
  | list item => item
  | _ => plain

def term : Shape := object [("name", plain), ("coef", plain)]

def bounds : Shape := object [("type", plain), ("lb", plain), ("ub", plain)]

def objective : Shape := object [("direction", plain), ("vars", list term)]

def constraint : Shape := object [("name", plain), ("vars", list term), ("bnds", bounds)]

def columnBound : Shape :=
  object [("name", plain), ("type", plain), ("lb", plain), ("ub", plain)]

def options : Shape :=
  object [("mipgap", plain), ("tmlim", plain), ("msglev", plain), ("itlim", plain),
    ("presol", plain), ("rows", plain)]

def problem : Shape :=
  object [("name", plain), ("objective", objective), ("subjectTo", list constraint),
    ("bounds", list columnBound), ("generals", list plain), ("binaries", list plain),
    ("options", options)]

end Shape

namespace Value

/-- One edit somewhere in a value. The keys of an object are different, so a member that is left
out leaves none of its key. -/
inductive Edit : Shape → Value → Value → Prop
  | dropNull {shape : Shape} {ms ns : List (String × Value)} {key : String}
      (h : key ∉ (ms ++ ns).map (·.1)) :
      Edit shape (object (ms ++ (key, null) :: ns)) (object (ms ++ ns))
  | dropUnknown {shape : Shape} {ms ns : List (String × Value)} {key : String} {v : Value}
      (h : shape.member? key = none) :
      Edit shape (object (ms ++ (key, v) :: ns)) (object (ms ++ ns))
  | addUnknown {shape : Shape} {ms ns : List (String × Value)} {key : String} {v : Value}
      (h : shape.member? key = none) :
      Edit shape (object (ms ++ ns)) (object (ms ++ (key, v) :: ns))
  | member {shape : Shape} {ms ns : List (String × Value)} {key : String} {v w : Value}
      (h : Edit (shape.under key) v w) :
      Edit shape (object (ms ++ (key, v) :: ns)) (object (ms ++ (key, w) :: ns))
  | item {shape : Shape} {vs ws : List Value} {v w : Value} (h : Edit shape.item v w) :
      Edit shape (array (vs ++ v :: ws)) (array (vs ++ w :: ws))

section Members

variable {ms ns : List (String × Value)} {key k : String} {v w : Value} {shape sub : Shape}

theorem member?_append (ms ns : List (String × Value)) (key : String) :
    member? (ms ++ ns) key = (member? ms key).or (member? ns key) := by
  unfold member?
  rw [List.find?_append]
  cases ms.find? (·.1 == key) <;> rfl

theorem member?_cons (key : String) (v : Value) (ms : List (String × Value)) (k : String) :
    member? ((key, v) :: ms) k = if key = k then some v else member? ms k := by
  unfold member?
  by_cases h : key = k <;> simp [h]

theorem member?_eq_none (h : key ∉ ms.map (·.1)) : member? ms key = none := by
  unfold member?
  rw [Option.map_eq_none_iff, List.find?_eq_none]
  intro m hm hkey
  exact h (List.mem_map.mpr ⟨m, hm, beq_iff_eq.mp hkey⟩)

theorem field?_congr (h : member? ms k = member? ns k) :
    (object ms).field? k = (object ns).field? k := by
  unfold field?
  dsimp only
  rw [h]

theorem field?_of_ne (h : key ≠ k) :
    (object (ms ++ (key, v) :: ns)).field? k = (object (ms ++ ns)).field? k := by
  apply field?_congr
  rw [member?_append, member?_append, member?_cons, if_neg h]

theorem field?_dropNull (h : key ∉ (ms ++ ns).map (·.1)) :
    (object (ms ++ (key, null) :: ns)).field? key = (object (ms ++ ns)).field? key := by
  have hms : member? ms key = none := member?_eq_none fun hm ↦ h (by simp_all)
  have hnull : member? (ms ++ (key, null) :: ns) key = some null := by
    rw [member?_append, hms, member?_cons, if_pos rfl]
    rfl
  unfold field?
  dsimp only
  rw [hnull, member?_eq_none h]

abbrev Similar (shape : Shape) : Value → Value → Prop := Relation.ReflGen (Edit shape)

theorem Edit.ne_null (h : Edit shape v w) : v ≠ null ∧ w ≠ null := by
  cases h <;> exact ⟨nofun, nofun⟩

theorem rel_refl (o : Option Value) : Option.Rel (Similar sub) o o := by
  cases o with
  | none => exact .none
  | some u => exact .some .refl

theorem Edit.field?_member (h : Edit sub v w) :
    Option.Rel (Similar sub) ((object (ms ++ (key, v) :: ns)).field? key)
      ((object (ms ++ (key, w) :: ns)).field? key) := by
  obtain ⟨hv, hw⟩ := h.ne_null
  cases hms : member? ms key with
  | some u =>
    have hsame : member? (ms ++ (key, v) :: ns) key = member? (ms ++ (key, w) :: ns) key := by
      simp [member?_append, hms]
    rw [field?_congr hsame]
    exact rel_refl _
  | none =>
    have hfield {u : Value} (hu : u ≠ null) :
        (object (ms ++ (key, u) :: ns)).field? key = some u := by
      have hmember : member? (ms ++ (key, u) :: ns) key = some u := by
        rw [member?_append, hms, member?_cons, if_pos rfl]
        rfl
      unfold field?
      dsimp only
      rw [hmember]
      split
      · next hnull => exact absurd (Option.some.inj hnull) hu
      · rfl
    rw [hfield hv, hfield hw]
    exact .some (.single h)

theorem Edit.field? (h : Edit shape (object ms) (object ns)) (hkey : shape.member? key = some sub) :
    Option.Rel (Similar sub) ((object ms).field? key) ((object ns).field? key) := by
  cases h with
  | @dropNull _ ms ns k hk =>
    have hsame : (object (ms ++ (k, null) :: ns)).field? key = (object (ms ++ ns)).field? key := by
      by_cases hne : k = key
      · obtain rfl := hne
        exact field?_dropNull hk
      · exact field?_of_ne hne
    rw [hsame]
    exact rel_refl _
  | dropUnknown hunknown =>
    rw [field?_of_ne fun hne ↦ by simp [hne, hkey] at hunknown]
    exact rel_refl _
  | addUnknown hunknown =>
    rw [field?_of_ne fun hne ↦ by simp [hne, hkey] at hunknown]
    exact rel_refl _
  | @member _ ms ns k v w hedit =>
    by_cases hne : k = key
    · obtain rfl := hne
      rw [Shape.under, hkey] at hedit
      exact hedit.field?_member
    · rw [field?_of_ne hne, ← field?_of_ne (v := w) hne]
      exact rel_refl _

theorem Edit.items {vs ws : List Value} (h : Edit shape (array vs) (array ws)) :
    List.Forall₂ (Similar shape.item) vs ws := by
  cases h with
  | @item _ vs ws v w hedit =>
    have hrefl (us : List Value) : List.Forall₂ (Similar shape.item) us us :=
      List.forall₂_same.mpr fun u _ ↦ .refl
    exact List.rel_append (hrefl vs) (.cons (.single hedit) (hrefl ws))

end Members

end Value

namespace Cursor

open Value (Edit Similar)

variable {β γ : Type} {shape sub : Shape} {read : Cursor → Decoded β}

/-- Edits of a value of some shape make no difference to the reader. -/
def Respects (shape : Shape) (read : Cursor → Decoded β) : Prop :=
  ∀ ⦃v w⦄, Edit shape v w → ∀ path, read ⟨v, path⟩ = read ⟨w, path⟩

theorem Respects.similar (hread : Respects shape read) {v w : Value} (h : Similar shape v w)
    (path : Path) : read ⟨v, path⟩ = read ⟨w, path⟩ := by
  cases h with
  | refl => rfl
  | single h => exact hread h path

section Scalars

/-- What can be edited is no string, no number and no flag, and is refused as it was. -/
theorem respects_string : Respects shape string := by
  intro v w h path
  cases h <;> rfl

theorem respects_number : Respects shape number := by
  intro v w h path
  cases h <;> rfl

theorem respects_integer : Respects shape integer := by
  intro v w h path
  cases h <;> rfl

theorem respects_flag : Respects shape flag := by
  intro v w h path
  cases h <;> rfl

theorem respects_code (ofCode? : ℤ → Option β) (expected : Expected) :
    Respects shape (·.code ofCode? expected) := by
  intro v w h path
  cases h <;> rfl

end Scalars

section Parts

variable {ms ns : List (String × Value)} {path : Path} {key : String}

theorem object_bind_congr {v w : Value} (h : Edit shape v w)
    {f g : List (String × Value) → Decoded γ}
    (hrest : ∀ ms ns, v = .object ms → w = .object ns → f ms = g ns) :
    ((⟨v, path⟩ : Cursor).object >>= f) = ((⟨w, path⟩ : Cursor).object >>= g) := by
  cases h with
  | dropNull | dropUnknown | addUnknown | member => exact hrest _ _ rfl rfl
  | item => rfl

theorem Respects.require_bind (hread : Respects sub read)
    (h : Edit shape (.object ms) (.object ns)) (hkey : shape.member? key = some sub)
    {f g : β → Decoded γ} (hrest : ∀ b, f b = g b) :
    ((⟨.object ms, path⟩ : Cursor).require ms key >>= fun member ↦ read member >>= f) =
      ((⟨.object ns, path⟩ : Cursor).require ns key >>= fun member ↦ read member >>= g) := by
  obtain rfl : f = g := funext hrest
  have hfield := h.field? hkey
  unfold require
  rw [optional_eq rfl, optional_eq rfl]
  generalize Value.field? (.object ms) key = o, Value.field? (.object ns) key = o' at hfield
  cases hfield with
  | none => rfl
  | some hsimilar => exact congrArg (· >>= f) (hread.similar hsimilar _)

theorem Respects.readOptional_bind (hread : Respects sub read)
    (h : Edit shape (.object ms) (.object ns)) (hkey : shape.member? key = some sub)
    {f g : Option β → Decoded γ} (hrest : ∀ o, f o = g o) :
    ((⟨.object ms, path⟩ : Cursor).readOptional ms key read >>= f) =
      ((⟨.object ns, path⟩ : Cursor).readOptional ns key read >>= g) := by
  obtain rfl : f = g := funext hrest
  have hfield := h.field? hkey
  unfold readOptional
  rw [optional_eq rfl, optional_eq rfl]
  generalize Value.field? (.object ms) key = o, Value.field? (.object ns) key = o' at hfield
  cases hfield with
  | none => rfl
  | some hsimilar => exact congrArg (some <$> · >>= f) (hread.similar hsimilar _)

theorem Respects.mapM (hread : Respects shape read) {vs ws : List Value}
    (h : List.Forall₂ (Similar shape) vs ws) (start : ℕ) :
    ((vs.zipIdx start).map fun (v, i) ↦ (⟨v, path ++ [.index i]⟩ : Cursor)).mapM read =
      ((ws.zipIdx start).map fun (w, i) ↦ (⟨w, path ++ [.index i]⟩ : Cursor)).mapM read := by
  induction h generalizing start with
  | nil => rfl
  | cons hsimilar htail ih =>
    simp only [List.zipIdx_cons, List.map_cons, List.mapM_cons, ih, hread.similar hsimilar]

theorem Respects.readItems (hread : Respects sub read) :
    Respects (.list sub) (·.readItems read) := by
  intro v w h path
  have hitems (vs ws : List Value) (hv : v = .array vs) (hw : w = .array ws) :
      (⟨v, path⟩ : Cursor).readItems read = (⟨w, path⟩ : Cursor).readItems read := by
    obtain ⟨rfl, rfl⟩ := And.intro hv hw
    exact hread.mapM h.items 0
  cases h with
  | dropNull | dropUnknown | addUnknown | member => rfl
  | item => exact hitems _ _ rfl rfl

theorem Respects.readSection_bind (hread : Respects sub read)
    (h : Edit shape (.object ms) (.object ns)) (hkey : shape.member? key = some (.list sub))
    {f g : List β → Decoded γ} (hrest : ∀ bs, f bs = g bs) :
    ((⟨.object ms, path⟩ : Cursor).readSection ms key read >>= f) =
      ((⟨.object ns, path⟩ : Cursor).readSection ns key read >>= g) := by
  obtain rfl : f = g := funext hrest
  exact congrArg (· >>= f) (hread.readItems.readOptional_bind h hkey fun _ ↦ rfl)

end Parts

section Descriptions

theorem respects_term : Respects .term Term.decode := by
  intro v w h path
  refine object_bind_congr h fun ms ns hv hw ↦ ?_
  obtain ⟨rfl, rfl⟩ := And.intro hv hw
  refine respects_string.require_bind h rfl fun name ↦ ?_
  refine respects_number.require_bind h rfl fun coef ↦ ?_
  rfl

theorem respects_bounds (htype : shape.member? "type" = some .plain)
    (hlower : shape.member? "lb" = some .plain) (hupper : shape.member? "ub" = some .plain) :
    Respects shape Bounds.decode := by
  intro v w h path
  refine object_bind_congr h fun ms ns hv hw ↦ ?_
  obtain ⟨rfl, rfl⟩ := And.intro hv hw
  refine (respects_code _ _).require_bind h htype fun type ↦ ?_
  refine respects_number.readOptional_bind h hlower fun lower ↦ ?_
  refine respects_number.readOptional_bind h hupper fun upper ↦ ?_
  rfl

theorem respects_objective : Respects .objective Objective.decode := by
  intro v w h path
  refine object_bind_congr h fun ms ns hv hw ↦ ?_
  obtain ⟨rfl, rfl⟩ := And.intro hv hw
  refine (respects_code _ _).require_bind h rfl fun direction ↦ ?_
  refine respects_term.readItems.require_bind h rfl fun terms ↦ ?_
  rfl

theorem respects_constraint : Respects .constraint ConstraintSpec.decode := by
  have hbounds : Respects .bounds Bounds.decode := respects_bounds rfl rfl rfl
  intro v w h path
  refine object_bind_congr h fun ms ns hv hw ↦ ?_
  obtain ⟨rfl, rfl⟩ := And.intro hv hw
  refine respects_string.require_bind h rfl fun name ↦ ?_
  refine respects_term.readItems.require_bind h rfl fun terms ↦ ?_
  refine hbounds.require_bind h rfl fun bounds ↦ ?_
  rfl

theorem respects_columnBound : Respects .columnBound ColumnBoundSpec.decode := by
  intro v w h path
  have hbounds := respects_bounds rfl rfl rfl h path
  refine object_bind_congr h fun ms ns hv hw ↦ ?_
  obtain ⟨rfl, rfl⟩ := And.intro hv hw
  refine respects_string.require_bind h rfl fun name ↦ ?_
  exact congrArg (· >>= _) hbounds

theorem respects_options : Respects .options Options.decode := by
  intro v w h path
  refine object_bind_congr h fun ms ns hv hw ↦ ?_
  obtain ⟨rfl, rfl⟩ := And.intro hv hw
  have hallowance {key : String} (hkey : Shape.options.member? key = some .plain)
      {f g : Option Float → Decoded (Options Float)} (hrest : ∀ o, f o = g o) :
      ((do let o ← (⟨.object ms, path⟩ : Cursor).readOptional ms key (·.number)
           return o.filter (0 ≤ ·) : Decoded (Option Float)) >>= f) =
        ((do let o ← (⟨.object ns, path⟩ : Cursor).readOptional ns key (·.number)
             return o.filter (0 ≤ ·) : Decoded (Option Float)) >>= g) := by
    obtain rfl : f = g := funext hrest
    exact congrArg (· >>= f) (respects_number.readOptional_bind h hkey fun _ ↦ rfl)
  refine (respects_code _ _).readOptional_bind h rfl fun messageLevel ↦ ?_
  refine respects_integer.readOptional_bind h rfl fun iterations ↦ ?_
  refine hallowance rfl fun mipGap ↦ ?_
  refine hallowance rfl fun timeLimit ↦ ?_
  refine respects_flag.readOptional_bind h rfl fun presolve ↦ ?_
  refine respects_flag.readOptional_bind h rfl fun rows ↦ ?_
  rfl

theorem respects_problem : Respects .problem ProblemSpec.decode := by
  intro v w h path
  refine object_bind_congr h fun ms ns hv hw ↦ ?_
  obtain ⟨rfl, rfl⟩ := And.intro hv hw
  refine respects_string.readOptional_bind h rfl fun name ↦ ?_
  refine respects_objective.require_bind h rfl fun objective ↦ ?_
  refine respects_constraint.readItems.require_bind h rfl fun subjectTo ↦ ?_
  refine respects_columnBound.readSection_bind h rfl fun bounds ↦ ?_
  refine respects_options.readOptional_bind h rfl fun options ↦ ?_
  refine respects_string.readSection_bind h rfl fun generals ↦ ?_
  refine respects_string.readSection_bind h rfl fun binaries ↦ ?_
  rfl

end Descriptions

end Cursor

end Json

open Json (Value)

/-- Documents that edits lead from one to the other are read alike: they give the same description,
or the same refusal with its field and path. -/
theorem ProblemSpec.decode_edited {v w : Value}
    (h : Relation.ReflTransGen (Value.Edit .problem) v w) :
    ProblemSpec.decode (.root v) = ProblemSpec.decode (.root w) := by
  induction h with
  | refl => rfl
  | tail _ hedit ih => exact ih.trans (Json.Cursor.respects_problem hedit [])

def Json.Value.untyped (name : List (String × Value)) (unit lb : List (String × Value)) : Value :=
  .object (name ++
    [("objective", .object [("direction", .number (.int 1)), ("vars", .array [])]),
      ("subjectTo", .array
        [.object
          [("bnds", .object (lb ++ [("type", .number (.int 7))])),
            ("name", .string "cap"),
            ("vars", .array
              [.object (unit ++ [("coef", .number (.int 1)), ("name", .string "x")])])]])])

/-- A null name and a null bound are left out, and a unit is added, which the format does not know;
what is refused stays the bound type. -/
theorem ProblemSpec.decode_edited_untyped :
    Relation.ReflTransGen (Value.Edit .problem)
        (.untyped [("name", .null)] [] [("lb", .null)]) (.untyped [] [("unit", .string "kg")] []) ∧
      ProblemSpec.decode (.root (.untyped [("name", .null)] [] [("lb", .null)])) =
        ProblemSpec.decode (.root (.untyped [] [("unit", .string "kg")] [])) ∧
      ProblemSpec.decode (.root (.untyped [] [("unit", .string "kg")] [])) =
        .error ⟨"type", [.key "subjectTo", .index 0, .key "bnds", .key "type"], .boundType⟩ := by
  have hname : Value.Edit .problem (.untyped [("name", .null)] [] [("lb", .null)])
      (.untyped [] [] [("lb", .null)]) :=
    @Value.Edit.dropNull _ [] _ "name" (by decide)
  have hlower : Value.Edit .problem (.untyped [] [] [("lb", .null)]) (.untyped [] [] []) :=
    @Value.Edit.member _ [_] [] "subjectTo" _ _ <| @Value.Edit.item _ [] [] _ _ <|
      @Value.Edit.member _ [] _ "bnds" _ _ <| @Value.Edit.dropNull _ [] _ "lb" (by decide)
  have hunit : Value.Edit .problem (.untyped [] [] []) (.untyped [] [("unit", .string "kg")] []) :=
    @Value.Edit.member _ [_] [] "subjectTo" _ _ <| @Value.Edit.item _ [] [] _ _ <|
      @Value.Edit.member _ [_, _] [] "vars" _ _ <| @Value.Edit.item _ [] [] _ _ <|
        @Value.Edit.addUnknown _ [] _ "unit" _ rfl
  have hedits := ((Relation.ReflTransGen.single hname).tail hlower).tail hunit
  exact ⟨hedits, ProblemSpec.decode_edited hedits, rfl⟩

end LinProg
