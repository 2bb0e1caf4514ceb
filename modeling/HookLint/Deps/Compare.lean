import HookLint.Deps.Path
import HookLint.Deps.Requirement

namespace HookLint.Deps

structure Declaration where
  path : Value
  binding : Option Binding
deriving Inhabited

structure Declared where
  entries : List Declaration := []
  complex : List Value := []
deriving Inhabited

def Declared.ofElements (scopes : Scopes) : List Value → Except Fault Declared
  | [] => .ok {}
  | element :: rest => do
    if element.isNull then ofElements scopes rest
    else
      let path ← element.memberPath
      if path.isNull then
        let later ← ofElements scopes rest
        return { later with complex := element :: later.complex }
      else
        let root ← element.rootIdentifier
        let later ← ofElements scopes rest
        return { later with entries := { path, binding := root.bind scopes.resolve } :: later.entries }

def declared (scopes : Scopes) (deps : Value) : Except Fault Declared := do
  Declared.ofElements scopes (← (deps.get "elements").itemsIfGiven)

/-- Whether an entry is good for a requirement. In strict mode a part of a required value is not. -/
def isRelated (options : Options) (path : Value) (requirement : Requirement) : Except Fault Bool := do
  let covers ← if requirement.path.equal path then pure true else isAncestor path requirement.path
  let isPart ← if options.strictMembers then pure false else isAncestor requirement.path path
  return covers || isPart

def isRequired (options : Options) (path : Value) : List Requirement → Except Fault Bool
  | [] => .ok false
  | requirement :: rest => do
    if (← isRelated options path requirement) && !(options.flagStable && requirement.stable) then return true
    isRequired options path rest

/-- Whether an entry has to be in the list. Values of outer scopes never change for the function
that the list belongs to. -/
def isNecessary (options : Options) (pure : List Nat) (required : List Requirement) (path : Value)
    (binding : Binding) : Except Fault Bool := do
  if ← isCurrent path then return false
  if !pure.contains binding.scope then return false
  isRequired options path required

/-- Whether a list of paths covers a path: it has the path, or an ancestor unless in strict mode. -/
def isSatisfied (options : Options) (path : Value) : List Value → Except Fault Bool
  | [] => .ok false
  | other :: rest => do
    if other.equal path then return true
    if !options.strictMembers then
      if ← isAncestor other path then return true
    isSatisfied options path rest

structure Comparison where
  necessary : List Value := []
  unnecessary : List Value := []
  missing : List Value := []
deriving Inhabited

def hasPath (paths : List Value) (path : Value) : Bool := paths.any (·.alike path)

/-- Sorts an entry among those to keep and those to drop. Repeated entries are dropped, and
unresolved names are kept. -/
def Comparison.add (options : Options) (pure : List Nat) (required : List Requirement) (comparison : Comparison)
    (entry : Declaration) : Except Fault Comparison := do
  let keep ←
    if hasPath comparison.necessary entry.path then .ok false
    else match entry.binding with
      | none => .ok true
      | some binding => isNecessary options pure required entry.path binding
  if keep then return { comparison with necessary := comparison.necessary ++ [entry.path] }
  else return { comparison with unnecessary := comparison.unnecessary ++ [entry.path] }

def compare (options : Options) (pure : List Nat) (required : List Requirement) (entries : List Declaration) : Except Fault Comparison := do
  let sorted ← entries.foldlM (Comparison.add options pure required) {}
  let missing ← (reactive required).filterM fun path => do return !(← isSatisfied options path sorted.necessary)
  return { sorted with missing := ← sortPaths missing }

def hasAncestor (path : Value) : List Value → Except Fault Bool
  | [] => .ok false
  | other :: rest => do
    if !other.equal path then
      if ← isAncestor other path then return true
    hasAncestor path rest

def collapse (options : Options) (paths : List Value) : Except Fault (List Value) :=
  if options.strictMembers then .ok paths
  else paths.filterM fun path => do return !(← hasAncestor path paths)

def Comparison.corrected (options : Options) (comparison : Comparison) : Except Fault (List Value) :=
  collapse options (comparison.necessary ++ comparison.missing.filter (!hasPath comparison.necessary ·))

end HookLint.Deps
