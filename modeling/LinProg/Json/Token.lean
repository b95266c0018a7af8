import LinProg.Json.Basic
import LinProg.Json.Fault

namespace LinProg.Json

structure NumberText where
  negative : Bool
  whole : List Nat
  fraction : List Nat
  exponent : Option (Bool × List Nat × Nat)
  size : Nat
  deriving Repr, DecidableEq

inductive StringItem where
  | raw (c : Char)
  | short (c : Char)
  | unit (n : Nat)
  deriving Repr, DecidableEq

inductive StringEnd where
  | quote
  | fault (f : Fault)
  deriving Repr, DecidableEq

structure StringText where
  items : List StringItem
  ending : StringEnd
  deriving Repr, DecidableEq

inductive TokenKind where
  | openList
  | closeList
  | openObject
  | closeObject
  | comma
  | colon
  | null
  | bool (b : Bool)
  | number (n : NumberText)
  | string (s : StringText)
  /-- Something that is no token. In a number it makes a difference where the text ends too
  early, but not to a reader that skips it. -/
  | broken (fault : Fault) (inNumber : Bool)
  deriving Repr, DecidableEq

structure Token where
  start : Nat
  kind : TokenKind
  deriving Repr, DecidableEq

def spell (digits : List Nat) : Nat := digits.foldl (fun n d ↦ 10 * n + d) 0

namespace NumberText

def exponentBound : Nat := 0x80000000

def exponentOverflow? (digits : List Nat) : Option Nat :=
  (List.range digits.length).findSome? fun i ↦
    if exponentBound ≤ spell (digits.take (i + 1)) then some (i + 1) else none

/-- The double nearest to `n * 10 ^ e`, with a sign. Exponents out of all proportion to the digits
are not computed with. -/
def scaled (negative : Bool) (n : Nat) (e : Int) : Float :=
  let size : Int := (Nat.toDigits 10 n).length + e
  if n = 0 ∨ size < -400 then Binary64.ofBits negative 0
  else if 400 < size then Binary64.ofBits negative Binary64.infinityBits
  else Binary64.nearest negative (n * Nat.pow 10 e.toNat) (Nat.pow 10 (-e).toNat)

/-- The integer of a literal without fraction and exponent, if it is kept as one. Zero behind a
minus sign is not: its sign would be lost. -/
def int? (t : NumberText) : Option Int :=
  if t.fraction.isEmpty ∧ t.exponent.isNone then
    let n := spell t.whole
    if t.negative then if 0 < n ∧ n ≤ int64Bound then some (-n) else none
    else if n < nat64Bound then some n else none
  else none

def digitLimit : Nat := 768

/-- The digits of a literal as `n` and `e` in `n * 10 ^ e`. Zeros in front and at the end of the
fraction are not significant. Whatever lies beyond the limit, zeros at the end of the whole part
too, becomes one sticky digit: so long a literal lies above what its first digits spell and is
never a tie. -/
def significand (t : NumberText) : Nat × Int :=
  let fraction := (t.fraction.reverse.dropWhile (· == 0)).reverse
  let significant := (t.whole ++ fraction).dropWhile (· == 0)
  let cut := significant.length - (digitLimit + 1)
  if significant.length ≤ digitLimit then (spell significant, -fraction.length)
  else (10 * spell (significant.take digitLimit) + 1, cut - fraction.length)

def value (t : NumberText) (start : Nat) : Except Fault Number :=
  match t.int? with
  | some n => .ok (.int n)
  | none =>
    let (digits, place) := t.significand
    let finish (x : Float) : Except Fault Number :=
      if Binary64.isFinite x then .ok (.float x)
      else .error ⟨.numberOutOfRange, start + t.size⟩
    match t.exponent with
    | none => finish (scaled t.negative digits place)
    | some (down, exponent, lead) =>
      match exponentOverflow? exponent with
      | none =>
        let e : Int := spell exponent
        finish (scaled t.negative digits ((if down then -e else e) + place))
      | some i =>
        if digits = 0 ∨ down then .ok (.float (Binary64.ofBits t.negative 0))
        else .error ⟨.numberOutOfRange, start + lead + i⟩

end NumberText

namespace StringItem

def size : StringItem → Nat
  | raw c => c.utf8Size
  | short _ => 2
  | unit _ => 6

end StringItem

namespace StringText

def isHighSurrogate (n : Nat) : Bool := 0xD800 ≤ n && n < 0xDC00

def isLowSurrogate (n : Nat) : Bool := 0xDC00 ≤ n && n < 0xE000

/-- The characters of items that start at an offset, with `done` those before them in reverse. A
high surrogate must be followed by a low one, and both by themselves stand for no character. -/
def characters (ending : StringEnd) : List StringItem → Nat → List Char →
    Except Fault (List Char)
  | [], _, done =>
    match ending with
    | .quote => .ok done.reverse
    | .fault f => .error f
  | .raw c :: rest, offset, done => characters ending rest (offset + c.utf8Size) (c :: done)
  | .short c :: rest, offset, done => characters ending rest (offset + 2) (c :: done)
  | .unit n :: rest, offset, done =>
    if isLowSurrogate n then .error ⟨.loneSurrogate, offset + 6⟩
    else if isHighSurrogate n then
      match rest with
      | .unit m :: rest =>
        if isLowSurrogate m then
          let c := Char.ofNat (0x10000 + (n - 0xD800) * 0x400 + (m - 0xDC00))
          characters ending rest (offset + 12) (c :: done)
        else .error ⟨.loneSurrogate, offset + 12⟩
      | .raw _ :: _ => .error ⟨.unfinishedSurrogatePair, offset + 7⟩
      | .short _ :: _ => .error ⟨.unfinishedSurrogatePair, offset + 8⟩
      | [] =>
        match ending with
        | .quote => .error ⟨.unfinishedSurrogatePair, offset + 7⟩
        | .fault f =>
          -- an escape that fails where it names its letter, or a raw character, ends the pair
          match f.reason with
          | .invalidEscape =>
            if f.offset = offset + 8 then .error ⟨.unfinishedSurrogatePair, offset + 8⟩
            else .error f
          | .controlCharacter => .error ⟨.unfinishedSurrogatePair, offset + 7⟩
          | _ => .error f
    else characters ending rest (offset + 6) (Char.ofNat n :: done)

def value (t : StringText) (start : Nat) : Except Fault String :=
  return String.ofList (← characters t.ending t.items (start + 1) [])

end StringText

end LinProg.Json
