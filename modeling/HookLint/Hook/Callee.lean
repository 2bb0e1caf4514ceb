import HookLint.Hook.Registry
import HookLint.Scope.Query
import HookLint.Tree.Path

/-!
Which hook a call calls. Names are followed through import aliases, constant aliases and members
of a namespace.
-/

namespace HookLint

structure Callee where
  name : Value
  viaMember : Bool := false
deriving Repr, Inhabited

structure HookCall where
  name : Value
  hook : Hook
  viaMember : Bool := false
deriving Repr, Inhabited

def HookCall.report (call : HookCall) : Value :=
  .made [("name", call.name), ("via_member", .bool call.viaMember), ("spec", call.hook.report)]

inductive Alias where
  | none
  | imported (name : String)
  | constant (init : Value)
deriving Inhabited

def aliasSteps : Nat := 4

namespace Scopes

def importedAs (specifier identifier : Value) : Except Fault Alias := do
  let imported := (specifier.get "imported").orRecord
  let name ← imported.ask "name"
  let name := if name.given then name else imported.get "value"
  match name.text? with
  | some text => return if name.equal (identifier.get "name") then .none else .imported text
  | none => return .none

def aliasOf (scopes : Scopes) (identifier : Value) : Except Fault Alias := do
  match scopes.resolve identifier with
  | none => return .none
  | some binding =>
    let definition := binding.definition
    if binding.kind.isImported && definition.isA .importSpecifier then importedAs definition identifier
    else if binding.kind.isConstant && definition.isA .variableDeclarator
        && (definition.get "id").same binding.identifier then
      return .constant (← (definition.get "init").stripChain)
    else return .none

def isNamespace (scopes : Scopes) (identifier : Value) : Bool :=
  (scopes.resolve identifier).any fun binding =>
    binding.kind.isImported
      && binding.definition.kindIs fun kind => kind = .importNamespaceSpecifier || kind = .importDefaultSpecifier

end Scopes

namespace Registry

def memberCallee (registry : Registry) (scopes : Scopes) (callee : Value) : Except Fault (Option Callee) := do
  if (callee.get "computed").given then return none
  let property := callee.get "property"
  let object ← (callee.get "object").stripChain
  if !property.isA .identifier || !object.isA .identifier then return none
  let name := property.spelling
  unless ← registry.isHookName name do
    if (registry.find? (← name.key)).isNone then return none
  if ← (object.get "name").startsUpper then return some { name, viaMember := true }
  return if scopes.isNamespace object then some { name, viaMember := true } else none

/-- The function that an expression names, where constant aliases are followed for a number of
steps. -/
def calleeOf (registry : Registry) (scopes : Scopes) : Nat → Value → Except Fault (Option Callee)
  | steps, callee =>
    if callee.isA .identifier then
      let own : Callee := { name := callee.spelling }
      match steps with
      | 0 => .ok (some own)
      | steps + 1 => do
        match ← scopes.aliasOf callee with
        | .none => return some own
        | .imported name => return some { name := .str name }
        | .constant init => return some ((← calleeOf registry scopes steps init).getD own)
    else if callee.kindIs Kind.isMember then registry.memberCallee scopes callee
    else .ok none

def classify (registry : Registry) (scopes : Scopes) (call : Value) : Except Fault (Option HookCall) := do
  if !call.kindIs Kind.isCall then return none
  match ← registry.calleeOf scopes aliasSteps (← (call.get "callee").stripChain) with
  | none => return none
  | some callee =>
    return (← registry.hookNamed callee.name).map fun hook =>
      { name := callee.name, hook, viaMember := callee.viaMember }

end Registry

def componentWrappers : List String := ["memo", "forwardRef"]

def wrapperName (call : Value) : Except Fault (Option String) := do
  let callee ← (← call.orRecord.ask "callee").stripChain
  let name ←
    if callee.isA .identifier then pure (callee.get "name")
    else if callee.kindIs Kind.isMember && !(callee.get "computed").given then
      (callee.get "property").orRecord.ask "name"
    else pure .null
  let _ ← name.key
  return name.text?.filter componentWrappers.contains

end HookLint
