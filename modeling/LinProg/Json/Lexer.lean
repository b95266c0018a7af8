import LinProg.Json.Token

namespace LinProg.Json

def digit? (c : Char) : Option Nat :=
  if '0' ≤ c ∧ c ≤ '9' then some (c.toNat - '0'.toNat) else none

def hexDigit? (c : Char) : Option Nat :=
  if '0' ≤ c ∧ c ≤ '9' then some (c.toNat - '0'.toNat)
  else if 'a' ≤ c ∧ c ≤ 'f' then some (c.toNat - 'a'.toNat + 10)
  else if 'A' ≤ c ∧ c ≤ 'F' then some (c.toNat - 'A'.toNat + 10)
  else none

def isBlank (c : Char) : Bool := c == ' ' || c == '\t' || c == '\n' || c == '\r'

namespace Lexer

structure Scanned (β : Type) where
  value : β
  rest : List Char
  offset : Nat
  deriving Repr

def digits : List Char → Nat → Scanned (List Nat)
  | [], offset => ⟨[], [], offset⟩
  | c :: cs, offset =>
    match digit? c with
    | some d =>
      let more := digits cs (offset + 1)
      { more with value := d :: more.value }
    | none => ⟨[], c :: cs, offset⟩

def missingDigit (rest : List Char) (offset : Nat) : Fault :=
  if rest.isEmpty then ⟨.endInValue, offset⟩ else ⟨.invalidNumber, offset + 1⟩

def someDigits (cs : List Char) (offset : Nat) : Except Fault (Scanned (List Nat)) :=
  let scanned := digits cs offset
  if scanned.value.isEmpty then .error (missingDigit cs offset) else .ok scanned

def whole (cs : List Char) (offset : Nat) : Except Fault (Scanned (List Nat)) := do
  let scanned ← someDigits cs offset
  match scanned.value with
  | 0 :: _ :: _ => throw ⟨.invalidNumber, offset + 2⟩
  | _ => return scanned

def fraction : List Char → Nat → Except Fault (Scanned (List Nat))
  | '.' :: cs, offset => someDigits cs (offset + 1)
  | cs, offset => .ok ⟨[], cs, offset⟩

def exponentSign : List Char → Nat → Scanned Bool
  | '+' :: cs, offset => ⟨false, cs, offset + 1⟩
  | '-' :: cs, offset => ⟨true, cs, offset + 1⟩
  | cs, offset => ⟨false, cs, offset⟩

def exponent (start : Nat) :
    List Char → Nat → Except Fault (Scanned (Option (Bool × List Nat × Nat)))
  | [], offset => .ok ⟨none, [], offset⟩
  | c :: cs, offset =>
    if c = 'e' ∨ c = 'E' then do
      let sign := exponentSign cs (offset + 1)
      let scanned ← someDigits sign.rest sign.offset
      return ⟨some (sign.value, scanned.value, sign.offset - start), scanned.rest, scanned.offset⟩
    else .ok ⟨none, c :: cs, offset⟩

/-- A number literal, read from its first digit on, that starts at `start`. -/
def unsignedNumber (start : Nat) (negative : Bool) (cs : List Char) (offset : Nat) :
    Except Fault (Scanned NumberText) := do
  let w ← whole cs offset
  let f ← fraction w.rest w.offset
  let e ← exponent start f.rest f.offset
  return ⟨{ negative, whole := w.value, fraction := f.value, exponent := e.value,
            size := e.offset - start }, e.rest, e.offset⟩

def number (start : Nat) (negative : Bool) (cs : List Char) (offset : Nat) : Scanned TokenKind :=
  match unsignedNumber start negative cs offset with
  | .ok n => ⟨.number n.value, n.rest, n.offset⟩
  | .error f => ⟨.broken f true, [], offset⟩

def word (kind : TokenKind) : List Char → List Char → Nat → Scanned TokenKind
  | [], cs, offset => ⟨kind, cs, offset⟩
  | _ :: _, [], offset => ⟨.broken ⟨.endInValue, offset⟩ false, [], offset⟩
  | w :: ws, c :: cs, offset =>
    if w = c then word kind ws cs (offset + 1)
    else ⟨.broken ⟨.expectedWord, offset + 1⟩ false, [], offset⟩

def shortEscape? : Char → Option Char
  | '"' => some '"'
  | '\\' => some '\\'
  | '/' => some '/'
  | 'b' => some '\x08'
  | 'f' => some '\x0c'
  | 'n' => some '\n'
  | 'r' => some '\r'
  | 't' => some '\t'
  | _ => none

def hexUnit? (a b c d : Char) : Option Nat := do
  return (((← hexDigit? a) * 16 + (← hexDigit? b)) * 16 + (← hexDigit? c)) * 16 + (← hexDigit? d)

def byteLength : List Char → Nat
  | [] => 0
  | c :: cs => c.utf8Size + byteLength cs

def badUnit (cs : List Char) (offset : Nat) : Fault :=
  let available := byteLength (cs.take 4)
  if available < 4 then ⟨.endInString, offset + available⟩ else ⟨.invalidEscape, offset + 4⟩

def Scanned.addItem (item : StringItem) (s : Scanned StringText) : Scanned StringText :=
  { s with value := { s.value with items := item :: s.value.items } }

def stopString (f : Fault) : Scanned StringText := ⟨⟨[], .fault f⟩, [], f.offset⟩

def string : List Char → Nat → Scanned StringText
  | [], offset => stopString ⟨.endInString, offset⟩
  | '"' :: cs, offset => ⟨⟨[], .quote⟩, cs, offset + 1⟩
  | ['\\'], offset => stopString ⟨.endInString, offset + 1⟩
  | '\\' :: 'u' :: a :: b :: c :: d :: cs, offset =>
    match hexUnit? a b c d with
    | some n => (string cs (offset + 6)).addItem (.unit n)
    | none => stopString (badUnit (a :: b :: c :: d :: cs) (offset + 2))
  | '\\' :: 'u' :: cs, offset => stopString (badUnit cs (offset + 2))
  | '\\' :: c :: cs, offset =>
    match shortEscape? c with
    | some x => (string cs (offset + 2)).addItem (.short x)
    | none => stopString ⟨.invalidEscape, offset + 2⟩
  | c :: cs, offset =>
    if c.toNat < 0x20 then stopString ⟨.controlCharacter, offset + 1⟩
    else (string cs (offset + c.utf8Size)).addItem (.raw c)

def token (c : Char) (cs : List Char) (offset : Nat) : Scanned TokenKind :=
  let next := offset + 1
  match c with
  | '[' => ⟨.openList, cs, next⟩
  | ']' => ⟨.closeList, cs, next⟩
  | '{' => ⟨.openObject, cs, next⟩
  | '}' => ⟨.closeObject, cs, next⟩
  | ',' => ⟨.comma, cs, next⟩
  | ':' => ⟨.colon, cs, next⟩
  | 'n' => word .null ['u', 'l', 'l'] cs next
  | 't' => word (.bool true) ['r', 'u', 'e'] cs next
  | 'f' => word (.bool false) ['a', 'l', 's', 'e'] cs next
  | '"' =>
    let s := string cs next
    ⟨.string s.value, s.rest, s.offset⟩
  | '-' => number offset true cs next
  | _ =>
    if (digit? c).isSome then number offset false (c :: cs) offset
    else ⟨.broken ⟨.expectedValue, next⟩ false, [], next⟩

def tokensFrom : Nat → List Char → Nat → List Token
  | 0, _, _ => []
  | _ + 1, [], _ => []
  | fuel + 1, c :: cs, offset =>
    if isBlank c then tokensFrom fuel cs (offset + 1)
    else
      let t := token c cs offset
      ⟨offset, t.value⟩ :: tokensFrom fuel t.rest t.offset

/-- The tokens of a text. Every step takes at least one character. -/
def tokens (text : List Char) : List Token := tokensFrom text.length text 0

end Lexer

end LinProg.Json
