import Std.Data.HashMap

namespace LinProg

structure Values (α : Type) where
  entries : List (String × α)
  deriving Repr, DecidableEq

namespace Values

variable {α : Type}

instance [BEq α] : BEq (Values α) := ⟨fun v w ↦ v.entries == w.entries⟩

def empty : Values α := ⟨[]⟩

structure Indexed (α : Type) where
  entries : Array (String × α)
  index : Std.HashMap String Nat

/-- Gives a name a value: in its place if it has one, and else at the end. -/
def Indexed.put (v : Indexed α) (name : String) (value : α) : Indexed α :=
  match v.index[name]? with
  | some k => { v with entries := v.entries.modify k fun e ↦ (e.1, value) }
  | none => ⟨v.entries.push (name, value), v.index.insert name v.entries.size⟩

def Indexed.ofList (pairs : List (String × α)) : Indexed α :=
  pairs.foldl (fun v p ↦ v.put p.1 p.2) ⟨#[], ∅⟩

def ofList (pairs : List (String × α)) : Values α := ⟨(Indexed.ofList pairs).entries.toList⟩

def get? (v : Values α) (name : String) : Option α := (v.entries.find? (·.1 == name)).map (·.2)

def size (v : Values α) : Nat := v.entries.length

def isEmpty (v : Values α) : Bool := v.entries.isEmpty

end Values

end LinProg
