import LinProg.Proofs.Json.Scanning
import LinProg.Proofs.Result.Collected
import LinProg.Result.Reader

namespace LinProg

namespace Result

open Json (Token Piece Value)

section Stands

variable {ts : List Token} {rest : List Piece}

theorem stands_mark {kind : Json.TokenKind}
    (h : List.Forall₂ Token.Stands ts (.mark kind :: rest)) :
    ∃ start ts', ts = ⟨start, kind⟩ :: ts' ∧ List.Forall₂ Token.Stands ts' rest := by
  obtain ⟨⟨start, _⟩, ts', rfl, hrest, rfl⟩ := List.forall₂_cons_right_iff.mp h
  exact ⟨start, ts', rfl, hrest⟩

theorem stands_text {s : String} (h : List.Forall₂ Token.Stands ts (.text s :: rest)) :
    ∃ start text ts', ts = ⟨start, .string text⟩ :: ts' ∧ text.value start = .ok s ∧
      List.Forall₂ Token.Stands ts' rest := by
  obtain ⟨⟨start, _⟩, ts', ⟨text, rfl, hvalue⟩, hrest, rfl⟩ := List.forall₂_cons_right_iff.mp h
  exact ⟨start, text, ts', rfl, hvalue, hrest⟩

theorem stands_number {n : Json.Number} (h : List.Forall₂ Token.Stands ts (.number n :: rest)) :
    ∃ start text ts', ts = ⟨start, .number text⟩ :: ts' ∧ text.value start = .ok n ∧
      List.Forall₂ Token.Stands ts' rest := by
  obtain ⟨⟨start, _⟩, ts', ⟨text, rfl, hvalue⟩, hrest, rfl⟩ := List.forall₂_cons_right_iff.mp h
  exact ⟨start, text, ts', rfl, hvalue, hrest⟩

end Stands

/-- A reader takes given pieces off the front of the tokens, for a value. -/
def Reads {β : Type} (read : List Token → Except ReadError (Parsed β)) (pieces : List Piece)
    (x : β) : Prop :=
  ∀ ts rest, List.Forall₂ Token.Stands ts (pieces ++ rest) →
    ∃ ts', read ts = .ok (x, ts') ∧ List.Forall₂ Token.Stands ts' rest

theorem reads_number (wanted : Wanted) (n : Json.Number) :
    Reads (readNumber wanted) [.number n] n := by
  intro ts rest h
  obtain ⟨start, text, ts', rfl, hvalue, hrest⟩ := stands_number h
  refine ⟨ts', ?_, hrest⟩
  rw [readNumber]
  dsimp only
  rw [hvalue]
  rfl

theorem reads_float (n : Json.Number) : Reads readFloat [.number n] n.toFloat := by
  intro ts rest h
  obtain ⟨ts', hread, hrest⟩ := reads_number .double n ts rest h
  exact ⟨ts', by rw [readFloat, hread]; rfl, hrest⟩

theorem reads_extended (n : Json.Number) :
    Reads readExtended [.number n] (Json.widen n.toFloat) := by
  intro ts rest h
  obtain ⟨ts', hread, hrest⟩ := reads_float n ts rest h
  exact ⟨ts', by rw [readExtended, hread]; rfl, hrest⟩

theorem reads_string (s : String) : Reads readString [.text s] s := by
  intro ts rest h
  obtain ⟨start, text, ts', rfl, hvalue, hrest⟩ := stands_text h
  refine ⟨ts', ?_, hrest⟩
  rw [readString]
  dsimp only
  rw [hvalue]
  rfl

theorem reads_status (status : Status) :
    Reads readStatus [.number (.int status.code)] status := by
  intro ts rest h
  obtain ⟨ts', hread, hrest⟩ := reads_number .int32 (.int status.code) ts rest h
  refine ⟨ts', ?_, hrest⟩
  rw [readStatus, hread]
  cases status <;> rfl

theorem Reads.map {β γ : Type} {read : List Token → Except ReadError (Parsed β)}
    {pieces : List Piece} {x : β} (f : β → γ) (h : Reads read pieces x) :
    Reads (fun ts ↦ read ts >>= fun r ↦ pure (f r.1, r.2)) pieces (f x) := by
  intro ts rest hts
  obtain ⟨ts', hread, hrest⟩ := h ts rest hts
  exact ⟨ts', by dsimp only; rw [hread]; rfl, hrest⟩

theorem Reads.optional {β : Type} {read : List Token → Except ReadError (Parsed β)} {piece : Piece}
    {pieces : List Piece} {x : β} (h : Reads read (piece :: pieces) x)
    (hnull : ∀ start, ¬ Token.Stands ⟨start, .null⟩ piece) :
    Reads (readOptional read) (piece :: pieces) (some x) := by
  intro ts rest hts
  obtain ⟨ts', hread, hrest⟩ := h ts rest hts
  refine ⟨ts', ?_, hrest⟩
  unfold readOptional
  split
  case h_1 start _ =>
    obtain ⟨t, _, ht, -, heq⟩ := List.forall₂_cons_right_iff.mp hts
    obtain ⟨rfl, -⟩ := List.cons.inj heq
    exact absurd ht (hnull start)
  case h_2 =>
    rw [hread]
    rfl

theorem reads_key (first : Bool) (key : String) :
    Reads (nextKey first) (Value.separator first ++ [.text key]) (some key) := by
  intro ts rest h
  cases first with
  | true =>
    obtain ⟨start, text, ts', rfl, hvalue, hrest⟩ := stands_text h
    refine ⟨ts', ?_, hrest⟩
    rw [nextKey.eq_def]
    dsimp only
    rw [if_pos rfl, hvalue]
    rfl
  | false =>
    obtain ⟨_, ts, rfl, hkey⟩ := stands_mark h
    obtain ⟨start, text, ts', rfl, hvalue, hrest⟩ := stands_text hkey
    refine ⟨ts', ?_, hrest⟩
    rw [nextKey.eq_def]
    dsimp only
    rw [if_neg (by decide), hvalue]
    rfl

theorem reads_end (first : Bool) : Reads (nextKey first) [.mark .closeObject] none := by
  intro ts rest h
  obtain ⟨start, ts', rfl, hrest⟩ := stands_mark h
  exact ⟨ts', rfl, hrest⟩

theorem reads_colon {ts : List Token} {rest : List Piece}
    (h : List.Forall₂ Token.Stands ts (.mark .colon :: rest)) :
    ∃ ts', expectColon ts = .ok ts' ∧ List.Forall₂ Token.Stands ts' rest := by
  obtain ⟨start, ts', rfl, hrest⟩ := stands_mark h
  exact ⟨ts', rfl, hrest⟩

theorem stands_member {first : Bool} {key : String} {v : Value} {members : List (String × Value)}
    {ts : List Token} {rest : List Piece}
    (h : List.Forall₂ Token.Stands ts
      (Value.memberPieces first ((key, v) :: members) ++ [.mark .closeObject] ++ rest)) :
    ∃ ts₁ ts₂, nextKey first ts = .ok (some key, ts₁) ∧ expectColon ts₁ = .ok ts₂ ∧
      List.Forall₂ Token.Stands ts₂
        (v.pieces ++ (Value.memberPieces false members ++ [.mark .closeObject] ++ rest)) := by
  rw [Value.memberPieces] at h
  simp only [List.append_assoc, List.cons_append] at h
  obtain ⟨ts₁, hkey, h₁⟩ := reads_key first key ts _
    (by rw [List.append_assoc]; exact h)
  obtain ⟨ts₂, hcolon, h₂⟩ := reads_colon h₁
  exact ⟨ts₁, ts₂, hkey, hcolon, by rw [List.append_assoc]; exact h₂⟩

def numberMembers (members : List (String × Json.Number)) : List (String × Value) :=
  members.map fun m ↦ (m.1, .number m.2)

theorem readable_numberMembers {members : List (String × Json.Number)}
    (h : ∀ m ∈ members, m.2.Readable) : (Value.object (numberMembers members)).Readable := by
  refine Value.membersReadable_iff.mpr fun member hmember ↦ ?_
  obtain ⟨m, hm, rfl⟩ := List.mem_map.mp hmember
  exact h m hm

theorem reads_entries (members : List (String × Json.Number)) {fuel : ℕ} (first : Bool)
    (hfuel : members.length < fuel) :
    Reads (readEntries fuel first)
      (Value.memberPieces first (numberMembers members) ++ [.mark .closeObject])
      (members.map fun m ↦ (m.1, Json.widen m.2.toFloat)) := by
  induction members generalizing fuel first with
  | nil =>
    intro ts rest h
    obtain ⟨fuel, rfl⟩ := Nat.exists_eq_succ_of_ne_zero (Nat.ne_zero_of_lt hfuel)
    obtain ⟨ts', hend, hrest⟩ := reads_end first ts rest h
    exact ⟨ts', by rw [readEntries, hend]; rfl, hrest⟩
  | cons m members ih =>
    intro ts rest h
    obtain ⟨fuel, rfl⟩ := Nat.exists_eq_succ_of_ne_zero (Nat.ne_zero_of_lt hfuel)
    obtain ⟨ts₁, ts₂, hkey, hcolon, h₂⟩ := stands_member h
    obtain ⟨ts₃, hread, h₃⟩ := reads_extended m.2 ts₂ _ h₂
    obtain ⟨ts', hentries, hrest⟩ := ih false (Nat.lt_of_succ_lt_succ hfuel) ts₃ rest h₃
    refine ⟨ts', ?_, hrest⟩
    rw [readEntries, hkey]
    simp only [bind, Except.bind, pure, Except.pure, hcolon, hread, hentries, List.map_cons]

theorem length_memberPieces (first : Bool) (members : List (String × Value)) :
    members.length ≤ (Value.memberPieces first members).length := by
  induction members generalizing first with
  | nil => exact Nat.zero_le _
  | cons m members ih =>
    have := ih false
    simp only [Value.memberPieces, List.length_append, List.length_cons]
    omega

/-- An object of numbers is read as the values that its members give one after the other. -/
theorem reads_numbers (members : List (String × Json.Number)) :
    Reads readValues (Value.object (numberMembers members)).pieces
      (.ofList (members.map fun m ↦ (m.1, Json.widen m.2.toFloat))) := by
  intro ts rest h
  rw [Value.pieces] at h
  obtain ⟨start, ts, rfl, hmembers⟩ := stands_mark h
  have hfuel : members.length < ts.length + 1 := by
    have := length_memberPieces true (numberMembers members)
    rw [hmembers.length_eq]
    simp only [numberMembers, List.length_map, List.append_eq, List.length_append] at this ⊢
    omega
  obtain ⟨ts', hread, hrest⟩ := reads_entries members true hfuel ts rest hmembers
  refine ⟨ts', ?_, hrest⟩
  rw [readValues]
  dsimp only
  rw [hread]
  rfl

theorem toJson_eq (v : Values Float) : v.toJson =
    .object (numberMembers (v.entries.map fun e ↦ (e.1, .float (Json.clamp e.2)))) := by
  rw [numberMembers, List.map_map]
  rfl

theorem reads_values {v : Values Float} (hnames : (v.entries.map Prod.fst).Nodup)
    (hnumbers : ∀ e ∈ v.entries, Json.widen (Json.clamp e.2) = e.2) :
    Reads readValues v.toJson.pieces v := by
  have hreads := reads_numbers (v.entries.map fun e ↦ (e.1, .float (Json.clamp e.2)))
  have hentries : (v.entries.map fun e ↦ (e.1, Json.Number.float (Json.clamp e.2))).map
      (fun m ↦ (m.1, Json.widen m.2.toFloat)) = v.entries := by
    rw [List.map_map]
    have hentry : ∀ e ∈ v.entries, (e.1, Json.widen (Json.clamp e.2)) = id e :=
      fun e he ↦ Prod.ext rfl (hnumbers e he)
    exact (List.map_congr_left hentry).trans (List.map_id _)
  rwa [hentries, Values.ofList_of_nodup hnames, ← toJson_eq] at hreads

end Result

namespace Values

open Json (Value)
open Result (Reads numberMembers)

/-- Values collected from pairs have every name once, in the order of first mention, with the value
that it was given last. Collecting them again changes nothing, and an object with the pairs as its
members is read as them, its numbers widened. -/
theorem ofList_collects (pairs : List (String × Float)) :
    (ofList pairs).names = (pairs.map (·.1)).eraseDups ∧ (ofList pairs).names.Nodup ∧
    (∀ e, e ∈ (ofList pairs).entries ↔ lastNamed (·.1) pairs e.1 = some e) ∧
    (∀ name, (ofList pairs).get? name = (lastNamed (·.1) pairs name).map (·.2)) ∧
    (∀ name, (ofList pairs).get? name = none ↔ name ∉ pairs.map (·.1)) ∧
    ofList (ofList pairs).entries = ofList pairs ∧
    ∀ members : List (String × Json.Number), members.map (fun m ↦ (m.1, m.2.toFloat)) = pairs →
      Reads Result.readValues (Value.object (numberMembers members)).pieces
        ((ofList pairs).map Json.widen) ∧
      ((∀ m ∈ members, m.2.Readable) → ∀ spacing, Result.readValues
        (Json.Lexer.tokens ((Value.object (numberMembers members)).toText spacing).toList) =
          .ok ((ofList pairs).map Json.widen, [])) := by
  refine ⟨names_ofList pairs, nodup_names_ofList pairs, fun _ ↦ mem_entries_ofList,
    get?_ofList pairs, fun _ ↦ get?_ofList_eq_none, ofList_entries pairs, ?_⟩
  rintro members rfl
  have hreads : Reads Result.readValues (Value.object (numberMembers members)).pieces
      ((ofList (members.map fun m ↦ (m.1, m.2.toFloat))).map Json.widen) := by
    rw [← ofList_map, List.map_map]
    exact Result.reads_numbers members
  refine ⟨hreads, fun hreadable spacing ↦ ?_⟩
  have hstands := Value.stands_tokens (Result.readable_numberMembers hreadable) spacing
  obtain ⟨ts, hread, hrest⟩ := hreads _ [] (by rwa [List.append_nil])
  obtain rfl := List.forall₂_nil_right_iff.mp hrest
  exact hread

def interleavedMembers : List (String × Json.Number) :=
  [("x", .int 1), ("y", .float 2.5), ("x", .float Binary64.maxFinite), ("", .int (-3)),
    ("y", .float 0.5)]

theorem ofList_collects_interleaved :
    (∀ m ∈ interleavedMembers, m.2.Readable) ∧
      Result.readValues (Json.Lexer.tokens
        ((Value.object (numberMembers interleavedMembers)).toText .pretty).toList) =
          .ok (⟨[("x", 1 / 0), ("y", 0.5), ("", -3)]⟩, []) := by
  have hreadable : ∀ m ∈ interleavedMembers, m.2.Readable := by decide
  obtain ⟨-, -, -, -, -, -, hreading⟩ :=
    ofList_collects (interleavedMembers.map fun m ↦ (m.1, m.2.toFloat))
  have hvalues : (ofList (interleavedMembers.map fun m ↦ (m.1, m.2.toFloat))).map Json.widen =
      ⟨[("x", 1 / 0), ("y", 0.5), ("", -3)]⟩ := by
    rw [ofList_eq_foldl]
    decide
  refine ⟨hreadable, ?_⟩
  rw [(hreading interleavedMembers rfl).2 hreadable .pretty, hvalues]

end Values

end LinProg
