import HookLint.Value

namespace HookLint.Value

def size (value : Value) : Except Fault Nat := do return (← value.items).length

def isBefore (value : Value) (bound : Nat) : Except Fault Bool :=
  match value with
  | .bool flag => .ok ((if flag then 1 else 0) < bound)
  | .int number => .ok (number < bound)
  | .float number => .ok (number < Float.ofNat bound)
  | other => .error (.incomparable other.form .int)

def place (value : Value) : Except Fault Int :=
  match value with
  | .bool flag => .ok (if flag then 1 else 0)
  | .int number => .ok number
  | other => .error (.notPlace other.form)

def item (value place : Value) : Except Fault Value := do
  if value.isRecord then throw .noSuchEntry
  let items ← value.items
  let index ← place.place
  let index := if index < 0 then index + items.length else index
  match if index < 0 then none else items[index.toNat]? with
  | some item => return item
  | none => throw .noSuchPlace

def itemBefore? (value place : Value) : Except Fault (Option Value) := do
  if place.isNull then return none
  if ← place.isBefore (← value.size) then return some (← value.item place) else return none

end HookLint.Value
