import LinProg.Json.Basic

namespace LinProg.Json

inductive PathStep where
  | key (name : String)
  | index (i : Nat)
  deriving Repr, DecidableEq

abbrev Path := List PathStep

namespace Path

def toText (path : Path) : String :=
  path.foldl (fun text step ↦
    match step with
    | .key name => text ++ "." ++ name
    | .index i => text ++ "[" ++ toString i ++ "]") "$"

/-- The last key on a path, `$` where there is none. -/
def lastKey (path : Path) : String :=
  path.foldl (fun last step ↦ match step with | .key name => name | .index _ => last) "$"

end Path

def Value.get? : Value → Path → Option Value
  | v, [] => some v
  | .object members, .key name :: path => do (← member? members name).get? path
  | .array items, .index i :: path => do (← items[i]?).get? path
  | _, _ :: _ => none

structure Cursor where
  value : Value
  path : Path

namespace Cursor

def root (value : Value) : Cursor := ⟨value, []⟩

end Cursor

end LinProg.Json
