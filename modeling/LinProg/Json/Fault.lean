namespace LinProg.Json

inductive Reason where
  | endInValue
  | endInList
  | endInObject
  | endInString
  | expectedValue
  | expectedWord
  | invalidNumber
  | numberOutOfRange
  | invalidEscape
  | unfinishedSurrogatePair
  | loneSurrogate
  | controlCharacter
  | expectedListCommaOrEnd
  | expectedObjectCommaOrEnd
  | expectedColon
  | expectedKey
  | trailingComma
  | tooDeep
  | trailingCharacters
  deriving Repr, DecidableEq

def Reason.message : Reason → String
  | endInValue => "EOF while parsing a value"
  | endInList => "EOF while parsing a list"
  | endInObject => "EOF while parsing an object"
  | endInString => "EOF while parsing a string"
  | expectedValue => "expected value"
  | expectedWord => "expected ident"
  | invalidNumber => "invalid number"
  | numberOutOfRange => "number out of range"
  | invalidEscape => "invalid escape"
  | unfinishedSurrogatePair => "unexpected end of hex escape"
  | loneSurrogate => "lone leading surrogate in hex escape"
  | controlCharacter => "control character (\\u0000-\\u001F) found while parsing a string"
  | expectedListCommaOrEnd => "expected `,` or `]`"
  | expectedObjectCommaOrEnd => "expected `,` or `\x7d`"
  | expectedColon => "expected `:`"
  | expectedKey => "key must be a string"
  | trailingComma => "trailing comma"
  | tooDeep => "recursion limit exceeded"
  | trailingCharacters => "trailing characters"

structure Fault where
  reason : Reason
  offset : Nat
  deriving Repr, DecidableEq

structure Position where
  line : Nat
  column : Nat
  deriving Repr, DecidableEq

namespace Position

/-- Walks over the characters that start within the first `n` bytes; `start` is the offset of the
current line. -/
def walk (n : Nat) : List Char → (offset line start : Nat) → Position
  | [], _, line, start => ⟨line, n - start⟩
  | c :: cs, offset, line, start =>
    if n ≤ offset then ⟨line, n - start⟩
    else
      let next := offset + c.utf8Size
      if c = '\n' then walk n cs next (line + 1) next else walk n cs next line start

def ofOffset (text : List Char) (n : Nat) : Position := walk n text 0 1 0

end Position

end LinProg.Json
