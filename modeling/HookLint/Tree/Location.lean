import HookLint.Tree.Kind

namespace HookLint

structure Location where
  line : Value := .int 0
  column : Value := .int 0
  endLine : Value := .int 0
  endColumn : Value := .int 0
deriving Repr, Inhabited

structure Span where
  start : Value
  stop : Value
deriving Repr, Inhabited

namespace Value

def location (node : Value) : Except Fault Location := do
  if !node.given then return {}
  let place := (← node.ask "loc").orRecord
  let start := (← place.ask "start").orRecord
  let stop := (← place.ask "end").orRecord
  return {
    line := (← start.ask "line").orZero
    column := (← start.ask "column").orZero
    endLine := (← stop.ask "line").orZero
    endColumn := (← stop.ask "column").orZero }

def span? (node : Value) : Option Span :=
  match node.get "range" with
  | .list [start, stop] => some ⟨start, stop⟩
  | _ => none

/-- The offset that a value gives in a text of some length: one that is null is not given, and a
negative one is counted from the end. -/
def offset (value : Value) (length missing : Nat) : Except Fault Nat :=
  let clamp := fun (index : Int) => if index < 0 then (index + length).toNat else min index.toNat length
  match value with
  | .null => .ok missing
  | .bool flag => .ok (clamp (if flag then 1 else 0))
  | .int index => .ok (clamp index)
  | other => .error (.notPlace other.form)

end Value

def slice (text : String) (span : Span) : Except Fault String := do
  let chars := text.toList
  let start ← span.start.offset chars.length 0
  let stop ← span.stop.offset chars.length chars.length
  return String.ofList ((chars.take stop).drop start)

end HookLint
