import LinProg.Proofs.Model.Outline
import LinProg.Result.Values

namespace LinProg

theorem eraseDups_of_nodup {names : List String} (h : names.Nodup) : names.eraseDups = names := by
  induction names using List.reverseRecOn with
  | nil => rfl
  | append_singleton names name ih =>
    rw [← List.concat_eq_append, List.nodup_concat] at h
    rw [eraseDups_concat, if_neg h.1, ih h.2]

section LastNamed

variable {β γ : Type} {key : β → String}

theorem lastNamed_of_nodup {items : List β} (h : (items.map key).Nodup) {b : β} (hb : b ∈ items) :
    lastNamed key items (key b) = some b := by
  induction items using List.reverseRecOn with
  | nil => cases hb
  | append_singleton items c ih =>
    rw [List.map_append, List.map_singleton, ← List.concat_eq_append, List.nodup_concat] at h
    rw [lastNamed_concat]
    rcases List.mem_append.mp hb with hmem | hlast
    · have hne : key c ≠ key b := fun hc ↦ h.1 (hc ▸ List.mem_map_of_mem hmem)
      rw [if_neg hne, ih h.2 hmem]
    · rw [List.mem_singleton.mp hlast, if_pos rfl]

theorem lastNamed_map (f : γ → β) (items : List γ) (name : String) :
    lastNamed key (items.map f) name = (lastNamed (key ∘ f) items name).map f := by
  rw [lastNamed, ← List.map_reverse, List.find?_map]
  rfl

theorem lastNamed_of_forall₂ {key' : γ → String} {R : β → γ → Prop} {items : List β}
    {images : List γ} (h : List.Forall₂ R items images) (hkey : ∀ b c, R b c → key' c = key b)
    {name : String} {b : β} (hb : lastNamed key items name = some b) :
    ∃ c, lastNamed key' images name = some c ∧ R b c := by
  unfold lastNamed at hb ⊢
  generalize hreverse : items.reverse = bs at hb
  generalize himages : images.reverse = cs
  have hR : List.Forall₂ R bs cs := by
    rwa [← hreverse, ← himages, List.forall₂_reverse_iff]
  clear h hreverse himages
  induction hR with
  | nil => cases hb
  | @cons b' c bs cs hbc _ ih =>
    rw [List.find?_cons] at hb ⊢
    rw [hkey b' c hbc]
    cases hname : key b' == name with
    | true =>
      simp only [hname, Option.some.injEq] at hb
      exact ⟨c, rfl, hb ▸ hbc⟩
    | false =>
      simp only [hname] at hb
      exact ih hb

end LastNamed

namespace Values

variable {α : Type}

def names (v : Values α) : List String := v.entries.map (·.1)

section Put

variable {name : String} {x : α} {entries : List (String × α)}

def put (name : String) (value : α) : List (String × α) → List (String × α)
  | [] => [(name, value)]
  | (n, v) :: rest => if n = name then (name, value) :: rest else (n, v) :: put name value rest

theorem put_of_not_mem (h : name ∉ entries.map (·.1)) :
    put name x entries = entries ++ [(name, x)] := by
  induction entries with
  | nil => rfl
  | cons e entries ih =>
    rw [List.map_cons, List.mem_cons, not_or] at h
    rw [put, if_neg (Ne.symm h.1), ih h.2]
    rfl

theorem put_of_getElem? {k : ℕ} (hk : (entries[k]?).map (·.1) = some name)
    (hfirst : ∀ i < k, (entries[i]?).map (·.1) ≠ some name) :
    put name x entries = entries.modify k fun e ↦ (e.1, x) := by
  induction entries generalizing k with
  | nil => cases hk
  | cons e entries ih =>
    cases k with
    | zero =>
      obtain rfl : e.1 = name := by simpa using hk
      simp [put]
    | succ k =>
      have hne : e.1 ≠ name := by simpa using hfirst 0 k.succ_pos
      rw [put, if_neg hne, List.modify_succ_cons, ih (by simpa using hk) fun i hi ↦ by
        simpa using hfirst (i + 1) (Nat.succ_lt_succ hi)]

theorem map_fst_put : (put name x entries).map (·.1) =
    if name ∈ entries.map (·.1) then entries.map (·.1) else entries.map (·.1) ++ [name] := by
  induction entries with
  | nil => rfl
  | cons e rest ih =>
    obtain ⟨n, y⟩ := e
    by_cases hn : n = name
    · simp [put, hn]
    · by_cases hmem : name ∈ rest.map (·.1)
      · rw [if_pos hmem] at ih
        simp [put, hn, ih, hmem]
      · rw [if_neg hmem] at ih
        simp [put, hn, Ne.symm hn, ih, hmem]

theorem find?_put (n : String) : (put name x entries).find? (·.1 == n) =
    if name = n then some (name, x) else entries.find? (·.1 == n) := by
  induction entries with
  | nil => by_cases h : name = n <;> simp [put, h]
  | cons e rest ih =>
    obtain ⟨m, y⟩ := e
    by_cases hm : m = name
    · subst hm
      by_cases h : m = n <;> simp [put, h]
    · by_cases h : m = n
      · subst h
        simp [put, hm, Ne.symm hm]
      · simp [put, hm, h, ih]

theorem put_map {β : Type} (f : α → β) :
    put name (f x) (entries.map fun e ↦ (e.1, f e.2)) =
      (put name x entries).map fun e ↦ (e.1, f e.2) := by
  induction entries with
  | nil => rfl
  | cons e rest ih =>
    by_cases hn : e.1 = name <;> simp [put, hn, ih]

end Put

namespace Indexed

/-- The index leads from every name to its entry, and from no other one. -/
def Agrees (v : Indexed α) : Prop :=
  ∀ (name : String) (k : ℕ), v.index[name]? = some k ↔ (v.entries[k]?).map (·.1) = some name

variable {v : Indexed α}

theorem Agrees.not_mem (h : v.Agrees) {name : String} (hnone : v.index[name]? = none) :
    name ∉ v.entries.toList.map (·.1) := by
  intro hmem
  obtain ⟨e, he, rfl⟩ := List.mem_map.mp hmem
  obtain ⟨k, hk⟩ := List.mem_iff_getElem?.mp he
  rw [Array.getElem?_toList] at hk
  have hindex := (h e.1 k).mpr (by rw [hk, Option.map_some])
  rw [hnone] at hindex
  cases hindex

theorem Agrees.put_entries (h : v.Agrees) (name : String) (x : α) :
    (v.put name x).entries.toList = Values.put name x v.entries.toList := by
  unfold put
  cases hindex : v.index[name]? with
  | some k =>
    have hk := (h name k).mp hindex
    rw [← Array.getElem?_toList] at hk
    have hfirst : ∀ i < k, (v.entries.toList[i]?).map (·.1) ≠ some name := by
      intro i hi hname
      rw [Array.getElem?_toList] at hname
      rw [(h name i).mpr hname, Option.some_inj] at hindex
      omega
    rw [put_of_getElem? hk hfirst]
    exact Array.toList_modify
  | none =>
    rw [put_of_not_mem (h.not_mem hindex)]
    exact Array.toList_push

theorem Agrees.put (h : v.Agrees) (name : String) (x : α) : (v.put name x).Agrees := by
  intro n k
  unfold Indexed.put
  cases hindex : v.index[name]? with
  | some i =>
    dsimp only
    rw [Array.getElem?_modify]
    split_ifs with hik
    · rw [Option.map_map, h n k]
      rfl
    · exact h n k
  | none =>
    dsimp only
    rw [Std.HashMap.getElem?_insert, Array.getElem?_push]
    simp only [beq_iff_eq]
    by_cases hk : k = v.entries.size
    · have hfresh : v.index[n]? ≠ some k := by
        rw [ne_eq, h n k, hk, Array.getElem?_size]
        exact nofun
      subst hk
      by_cases hn : name = n <;> simp [hn, hfresh]
    · have hnew : (v.entries[k]?).map (·.1) ≠ some name := by
        rw [ne_eq, ← h name k, hindex]
        exact nofun
      rw [if_neg hk, ← h n k]
      by_cases hn : name = n
      · subst hn
        simp [hindex, Ne.symm hk]
      · rw [if_neg hn]

theorem agrees_ofList (pairs : List (String × α)) : (ofList pairs).Agrees := by
  induction pairs using List.reverseRecOn with
  | nil => simp [Agrees, ofList]
  | append_singleton pairs p ih =>
    rw [ofList, List.foldl_concat]
    exact ih.put p.1 p.2

end Indexed

theorem ofList_concat (pairs : List (String × α)) (p : String × α) :
    ofList (pairs ++ [p]) = ⟨put p.1 p.2 (ofList pairs).entries⟩ := by
  apply congrArg Values.mk
  rw [Indexed.ofList, List.foldl_concat]
  exact (Indexed.agrees_ofList pairs).put_entries p.1 p.2

/-- Values collected by way of an index are those collected by looking from the front. -/
theorem ofList_eq_foldl (pairs : List (String × α)) :
    ofList pairs = ⟨pairs.foldl (fun entries p ↦ put p.1 p.2 entries) []⟩ := by
  induction pairs using List.reverseRecOn with
  | nil => rfl
  | append_singleton pairs p ih => rw [ofList_concat, ih, List.foldl_concat]

theorem names_ofList (pairs : List (String × α)) :
    (ofList pairs).names = (pairs.map (·.1)).eraseDups := by
  induction pairs using List.reverseRecOn with
  | nil => rfl
  | append_singleton pairs p ih =>
    unfold names at ih ⊢
    rw [ofList_concat, map_fst_put, ih, List.map_append, List.map_singleton, eraseDups_concat]
    simp only [List.mem_eraseDups]

theorem find?_ofList (pairs : List (String × α)) (name : String) :
    (ofList pairs).entries.find? (·.1 == name) = lastNamed (·.1) pairs name := by
  induction pairs using List.reverseRecOn with
  | nil => rfl
  | append_singleton pairs p ih =>
    rw [ofList_concat, find?_put, lastNamed_concat, ih]

theorem get?_ofList (pairs : List (String × α)) (name : String) :
    (ofList pairs).get? name = (lastNamed (·.1) pairs name).map (·.2) := by
  rw [get?, find?_ofList]

theorem ofList_of_nodup {entries : List (String × α)} (h : (entries.map (·.1)).Nodup) :
    ofList entries = ⟨entries⟩ := by
  induction entries using List.reverseRecOn with
  | nil => rfl
  | append_singleton entries e ih =>
    rw [List.map_append, List.map_singleton, ← List.concat_eq_append, List.nodup_concat] at h
    rw [ofList_concat, ih h.2, put_of_not_mem h.1]

theorem nodup_names_ofList (pairs : List (String × α)) : (ofList pairs).names.Nodup := by
  rw [names_ofList]
  exact nodup_eraseDups _

theorem ofList_entries (pairs : List (String × α)) :
    ofList (ofList pairs).entries = ofList pairs := ofList_of_nodup (nodup_names_ofList pairs)

theorem mem_entries_ofList {pairs : List (String × α)} {e : String × α} :
    e ∈ (ofList pairs).entries ↔ lastNamed (·.1) pairs e.1 = some e := by
  constructor
  · intro he
    have hfind := find?_ofList (ofList pairs).entries e.1
    rw [ofList_entries, find?_ofList] at hfind
    exact hfind.trans (lastNamed_of_nodup (nodup_names_ofList pairs) he)
  · intro he
    rw [← find?_ofList] at he
    exact List.mem_of_find?_eq_some he

theorem get?_ofList_eq_none {pairs : List (String × α)} {name : String} :
    (ofList pairs).get? name = none ↔ name ∉ pairs.map (·.1) := by
  rw [get?_ofList, Option.map_eq_none_iff, lastNamed, List.find?_eq_none, List.mem_map, not_exists]
  simp only [List.mem_reverse, beq_iff_eq, not_and]

def map {β : Type} (f : α → β) (v : Values α) : Values β := ⟨v.entries.map fun e ↦ (e.1, f e.2)⟩

theorem ofList_map {β : Type} (f : α → β) (pairs : List (String × α)) :
    ofList (pairs.map fun p ↦ (p.1, f p.2)) = (ofList pairs).map f := by
  induction pairs using List.reverseRecOn with
  | nil => rfl
  | append_singleton pairs p ih =>
    rw [List.map_append, List.map_singleton, ofList_concat, ofList_concat, ih]
    exact congrArg Values.mk (put_map f)

end Values

end LinProg
