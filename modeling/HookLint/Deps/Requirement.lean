import HookLint.Deps.Reference
import HookLint.Hook.Stable
import HookLint.Unit.Basic

namespace HookLint.Deps

def takeThrough (last : Nat) : List Nat → List Nat
  | [] => []
  | item :: rest => if item = last then [item] else item :: takeThrough last rest

/-- The scopes from a call up to the function that it belongs to. Only values declared in them can
differ from one call of that function to the next. -/
def pureScopes (scopes : Scopes) (unit : CodeUnit) (call : Value) : Except Fault (List Nat) := do
  let chain := scopes.chain (← scopes.scopeFor call)
  match scopes.acquire unit.node with
  | some own => return takeThrough own chain
  | none => return chain

structure Requirement where
  path : Value
  key : Key
  binding : Binding
  stable : Bool

structure Usage where
  required : List Requirement := []
  writes : List (Binding × Value) := []
deriving Inhabited

namespace Usage

def require (usage : Usage) (requirement : Requirement) : Usage :=
  if usage.required.any (·.key = requirement.key) then usage
  else { usage with required := usage.required ++ [requirement] }

def write (usage : Usage) (binding : Binding) (identifier : Value) : Usage :=
  if usage.writes.any (·.1.key = binding.key) then usage
  else { usage with writes := usage.writes ++ [(binding, identifier)] }

def add (usage : Usage) (scopes : Scopes) (reference : Reference) (binding : Binding) (stable : Bool) : Except Fault Usage := do
  let usage := if reference.access.writes && !stable then usage.write binding reference.identifier else usage
  if reference.access.reads then
    let path ← dependencyPath scopes reference binding
    return usage.require { path, key := ← path.key, binding, stable }
  else return usage

end Usage

def outsideBinding? (scopes : Scopes) (pure : List Nat) (callback : Value) (reference : Reference) : Option Binding :=
  (scopes.bindingOf reference).filter fun binding =>
    !(scopes.acquire callback).any (scopes.isWithin binding.scope ·) && pure.contains binding.scope

def usageOf (registry : Registry) (scopes : Scopes) (pure : List Nat) (callback : Value) : Except Fault Usage := do
  let references ← scopes.referencesWithin callback
  references.foldlM (fun usage reference => do
    match outsideBinding? scopes pure callback reference with
    | none => return usage
    | some binding => usage.add scopes reference binding (← registry.isStable scopes binding)) {}

def reactive (required : List Requirement) : List Value := (required.filter (!·.stable)).map (·.path)

end HookLint.Deps
