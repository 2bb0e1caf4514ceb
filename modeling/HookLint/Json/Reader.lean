import HookLint.Json.Token

namespace HookLint.Json

inductive Frame where
  | list (items : List Value)
  | record (id : Nat) (fields : Fields) (key : String)

inductive Expect where
  | value
  | itemOrEnd
  | key
  | keyOrEnd
  | colon
  | commaOrEnd
  | nothing
deriving DecidableEq

inductive Complaint where
  | malformed
  | tooLong
  | tooDeep
deriving DecidableEq, Repr, Inhabited

/-- Lists and records may be open inside each other up to this number, unless another one is given. -/
def depthLimit : Nat := 985

structure Reader where
  limit : Nat := depthLimit
  frames : List Frame := []
  expect : Expect := .value
  opened : Nat := 0
  result : Value := .null

namespace Reader

def put (reader : Reader) (value : Value) : Reader :=
  match reader.frames with
  | [] => { reader with expect := .nothing, result := value }
  | .list items :: rest => { reader with frames := .list (value :: items) :: rest, expect := .commaOrEnd }
  | .record id fields key :: rest =>
    { reader with frames := .record id (fields.set key value) key :: rest, expect := .commaOrEnd }

def takesValue (reader : Reader) : Bool := reader.expect = .value || reader.expect = .itemOrEnd

def enter (reader : Reader) (frame : Frame) (expect : Expect) : Except Complaint Reader :=
  if !reader.takesValue then .error .malformed
  else if reader.frames.length ≥ reader.limit then .error .tooDeep
  else .ok { reader with frames := frame :: reader.frames, expect }

def step (reader : Reader) : Token → Except Complaint Reader
  | .malformed => .error .malformed
  | .tooLong => .error (if reader.takesValue then .tooLong else .malformed)
  | .scalar value => if reader.takesValue then .ok (reader.put value) else .error .malformed
  | .text content =>
    if reader.takesValue then .ok (reader.put (.str content))
    else if reader.expect = .key || reader.expect = .keyOrEnd then
      match reader.frames with
      | .record id fields _ :: rest =>
        .ok { reader with frames := .record id fields content :: rest, expect := .colon }
      | _ => .error .malformed
    else .error .malformed
  | .openList => reader.enter (.list []) .itemOrEnd
  | .openRecord => do
    let reader ← reader.enter (.record (reader.opened + 1) [] "") .keyOrEnd
    return { reader with opened := reader.opened + 1 }
  | .closeList =>
    match reader.frames with
    | .list items :: rest =>
      if reader.expect = .itemOrEnd || reader.expect = .commaOrEnd then
        .ok ({ reader with frames := rest }.put (.list items.reverse))
      else .error .malformed
    | _ => .error .malformed
  | .closeRecord =>
    match reader.frames with
    | .record id fields _ :: rest =>
      if reader.expect = .keyOrEnd || reader.expect = .commaOrEnd then
        .ok ({ reader with frames := rest }.put (.record id fields))
      else .error .malformed
    | _ => .error .malformed
  | .colon => if reader.expect = .colon then .ok { reader with expect := .value } else .error .malformed
  | .comma =>
    if reader.expect = .commaOrEnd then
      match reader.frames with
      | .list _ :: _ => .ok { reader with expect := .value }
      | .record _ _ _ :: _ => .ok { reader with expect := .key }
      | [] => .error .malformed
    else .error .malformed

end Reader

/-- The document that a text spells, if it spells one in which at most the given number of lists
and records are open inside each other. The first complaint counts. -/
def readWithin (limit : Nat) (source : String) : Except Complaint Value := do
  let reader ← (Token.scan source).foldlM Reader.step { limit }
  if reader.expect = .nothing then return reader.result else throw .malformed

def read (source : String) : Except Complaint Value := readWithin depthLimit source

end HookLint.Json
