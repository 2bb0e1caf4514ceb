import HookLint.Hook.Callee
import HookLint.Value.Item

namespace HookLint

namespace Binding

def isWholeTarget (binding : Binding) : Bool := (binding.definition.get "id").same binding.identifier

def isLiteral (binding : Binding) : Except Fault Bool := do
  if !binding.kind.isConstant then return false
  if !binding.definition.isA .variableDeclarator || !binding.isWholeTarget then return false
  let init ← (binding.definition.get "init").unwrap
  return init.isA .literal && (init.fields.find? "regex").isNone

def isItem (binding : Binding) (index : Value) : Except Fault Bool := do
  let pattern := binding.definition.get "id"
  if index.isNull || !pattern.isA .arrayPattern then return false
  let elements := pattern.get "elements"
  return (← (if elements.given then elements else .list []).itemBefore? index).any (·.same binding.identifier)

end Binding

namespace Registry

def hookResult (registry : Registry) (scopes : Scopes) (binding : Binding) : Except Fault (Option HookCall) := do
  if binding.definition.isA .variableDeclarator then
    registry.classify scopes (← (binding.definition.get "init").unwrap)
  else return none

def isStableResult (registry : Registry) (scopes : Scopes) (binding : Binding) : Except Fault Bool := do
  if !binding.kind.isConstant then return false
  match ← registry.hookResult scopes binding with
  | none => return false
  | some call =>
    if call.hook.stableWhole then return binding.isWholeTarget else binding.isItem call.hook.stableIndex

def follows (registry : Registry) (scopes : Scopes) (binding : Binding) : StableRule → Except Fault Bool
  | .listed => .ok (registry.stableNames.contains binding.key)
  | .literal => binding.isLiteral
  | .hookResult => registry.isStableResult scopes binding
  | .custom test => .ok (test binding)

def followsAny (registry : Registry) (scopes : Scopes) (binding : Binding) : List StableRule → Except Fault Bool
  | [] => .ok false
  | rule :: rest => do
    if ← registry.follows scopes binding rule then return true
    followsAny registry scopes binding rest

def isStable (registry : Registry) (scopes : Scopes) (binding : Binding) : Except Fault Bool :=
  registry.followsAny scopes binding registry.stableRules

def isStateSetter (registry : Registry) (scopes : Scopes) (binding : Binding) : Except Fault Bool := do
  match ← registry.hookResult scopes binding with
  | none => return false
  | some call => if call.hook.returnsSetter then binding.isItem call.hook.stableIndex else return false

end Registry

end HookLint
