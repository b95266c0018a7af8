import LinProg.Json.Lexer

namespace LinProg.Json

/-- A list or an object that is still open, with what has been read of it: the items in reverse,
or the members and the key of the next one. -/
inductive Frame where
  | list (items : List Value)
  | object (members : List (String × Value)) (key : String)

inductive Expecting where
  | value
  | firstItem
  | nextItem (items : List Value)
  | firstKey
  | nextKey (members : List (String × Value))
  | colon (members : List (String × Value)) (key : String)
  | done (v : Value)

/-- A reader between two tokens: the open frames, the innermost first, and what it expects. -/
structure Reader where
  stack : List Frame
  expecting : Expecting

namespace Reader

def maxDepth : Nat := 127

def start : Reader := ⟨[], .value⟩

def openFrame (stack : List Frame) (expecting : Expecting) (token : Token) :
    Except Fault Reader :=
  if maxDepth ≤ stack.length then .error ⟨.tooDeep, token.start + 1⟩ else .ok ⟨stack, expecting⟩

def takeValue (stack : List Frame) (token : Token) : Except Fault Reader :=
  match token.kind with
  | .null => .ok ⟨stack, .done .null⟩
  | .bool b => .ok ⟨stack, .done (.bool b)⟩
  | .number n => do return ⟨stack, .done (.number (← n.value token.start))⟩
  | .string s => do return ⟨stack, .done (.string (← s.value token.start))⟩
  | .openList => openFrame stack .firstItem token
  | .openObject => openFrame stack .firstKey token
  | .broken fault _ => .error fault
  | _ => .error ⟨.expectedValue, token.start + 1⟩

def takeKey (stack : List Frame) (members : List (String × Value)) (token : Token)
    (atEnd : Except Fault Reader) : Except Fault Reader :=
  match token.kind with
  | .string s => do return ⟨stack, .colon members (← s.value token.start)⟩
  | .closeObject => atEnd
  | _ => .error ⟨.expectedKey, token.start + 1⟩

def takeAfter (stack : List Frame) (v : Value) (token : Token) : Except Fault Reader :=
  match stack with
  | [] => .error ⟨.trailingCharacters, token.start + 1⟩
  | .list items :: stack =>
    match token.kind with
    | .comma => .ok ⟨stack, .nextItem (v :: items)⟩
    | .closeList => .ok ⟨stack, .done (.array (v :: items).reverse)⟩
    | _ => .error ⟨.expectedListCommaOrEnd, token.start + 1⟩
  | .object members key :: stack =>
    let members := Value.insertMember key v members
    match token.kind with
    | .comma => .ok ⟨stack, .nextKey members⟩
    | .closeObject => .ok ⟨stack, .done (.object members)⟩
    | _ => .error ⟨.expectedObjectCommaOrEnd, token.start + 1⟩

def step (r : Reader) (token : Token) : Except Fault Reader :=
  match r.expecting with
  | .value => takeValue r.stack token
  | .firstItem =>
    match token.kind with
    | .closeList => .ok ⟨r.stack, .done (.array [])⟩
    | _ => takeValue (.list [] :: r.stack) token
  | .nextItem items =>
    match token.kind with
    | .closeList => .error ⟨.trailingComma, token.start + 1⟩
    | _ => takeValue (.list items :: r.stack) token
  | .firstKey => takeKey r.stack [] token (.ok ⟨r.stack, .done (.object [])⟩)
  | .nextKey members => takeKey r.stack members token (.error ⟨.trailingComma, token.start + 1⟩)
  | .colon members key =>
    match token.kind with
    | .colon => .ok ⟨.object members key :: r.stack, .value⟩
    | _ => .error ⟨.expectedColon, token.start + 1⟩
  | .done v => takeAfter r.stack v token

def finish (r : Reader) : Except Reason Value :=
  match r.expecting with
  | .value | .nextItem _ | .nextKey _ => .error .endInValue
  | .firstItem => .error .endInList
  | .firstKey | .colon _ _ => .error .endInObject
  | .done v =>
    match r.stack with
    | [] => .ok v
    | .list _ :: _ => .error .endInList
    | .object _ _ :: _ => .error .endInObject

end Reader

def parse (text : List Char) : Except Fault Value := do
  let r ← (Lexer.tokens text).foldlM Reader.step Reader.start
  match r.finish with
  | .ok v => return v
  | .error reason => throw ⟨reason, Lexer.byteLength text⟩

end LinProg.Json
