import LinProg.Decimal.Layout
import LinProg.Json.Basic

namespace LinProg.Json

namespace Number

def layout : NumberLayout :=
  { tie := .toEven, positionalFrom := -5, positionalBelow := 16, pointZero := true
    exponentPlus := true }

/-- The text of a number. A double that is not finite has none in JSON, and is written as null. -/
def render : Number → List Char
  | int n => if n < 0 then '-' :: Nat.toDigits 10 n.natAbs else Nat.toDigits 10 n.natAbs
  | float x => (layout.finite? x).getD ['n', 'u', 'l', 'l']

end Number

namespace Text

def hexDigit (n : Nat) : Char := (Nat.toDigits 16 n).headD '0'

def escape (c : Char) : List Char :=
  match c with
  | '"' => ['\\', '"']
  | '\\' => ['\\', '\\']
  | '\x08' => ['\\', 'b']
  | '\x0c' => ['\\', 'f']
  | '\n' => ['\\', 'n']
  | '\r' => ['\\', 'r']
  | '\t' => ['\\', 't']
  | _ =>
    if c.toNat < 0x20 then
      ['\\', 'u', '0', '0', hexDigit (c.toNat / 16), hexDigit (c.toNat % 16)]
    else [c]

def quote (s : String) : List Char := '"' :: s.toList.flatMap escape ++ ['"']

end Text

inductive Spacing where
  | compact
  | pretty
  deriving Repr, DecidableEq

namespace Spacing

def line (spacing : Spacing) (depth : Nat) : List Char :=
  match spacing with
  | compact => []
  | pretty => '\n' :: List.replicate (2 * depth) ' '

def colon : Spacing → List Char
  | compact => [':']
  | pretty => [':', ' ']

end Spacing

namespace Value

mutual

def render (spacing : Spacing) (depth : Nat) : Value → List Char
  | null => ['n', 'u', 'l', 'l']
  | bool true => ['t', 'r', 'u', 'e']
  | bool false => ['f', 'a', 'l', 's', 'e']
  | number n => n.render
  | string s => Text.quote s
  | array [] => ['[', ']']
  | array (v :: vs) =>
    '[' :: spacing.line (depth + 1) ++ render spacing (depth + 1) v ++
      renderItems spacing (depth + 1) vs ++ spacing.line depth ++ [']']
  | object [] => ['{', '}']
  | object ((key, v) :: members) =>
    '{' :: spacing.line (depth + 1) ++ Text.quote key ++ spacing.colon ++
      render spacing (depth + 1) v ++ renderMembers spacing (depth + 1) members ++
      spacing.line depth ++ ['}']

def renderItems (spacing : Spacing) (depth : Nat) : List Value → List Char
  | [] => []
  | v :: vs =>
    ',' :: spacing.line depth ++ render spacing depth v ++ renderItems spacing depth vs

def renderMembers (spacing : Spacing) (depth : Nat) : List (String × Value) → List Char
  | [] => []
  | (key, v) :: members =>
    ',' :: spacing.line depth ++ Text.quote key ++ spacing.colon ++ render spacing depth v ++
      renderMembers spacing depth members

end

def toText (v : Value) (spacing : Spacing) : String := String.ofList (v.render spacing 0)

end Value

end LinProg.Json
