import HookLint.Hook.Basic
import HookLint.Options
import HookLint.Scope.Basic
import HookLint.Text.Pattern.Reader
import HookLint.Value.Letters

namespace HookLint

def isHookName (stem name : String) : Bool :=
  match stem.toList.isPrefixOf? name.toList with
  | none => false
  | some [] => !name.isEmpty
  | some (next :: _) => Text.isUpper next || Text.isDigit next

inductive StableRule where
  | listed
  | literal
  | hookResult
  | custom (test : Binding → Bool)

structure Registry where
  options : Options := {}
  hooks : List Hook := Hook.builtin
  effectPattern : Option Text.Pattern := none
  stableNames : List Key := []
  stableRules : List StableRule := [.listed, .literal, .hookResult]

namespace Registry

def find? (registry : Registry) (key : Key) : Option Hook := registry.hooks.find? (·.name.key? = some key)

def register (registry : Registry) (hook : Hook) : Except Fault Registry := do
  let key ← hook.name.key
  if (registry.find? key).isSome then
    return { registry with hooks := registry.hooks.map fun old => if old.name.key? = some key then hook else old }
  return { registry with hooks := registry.hooks ++ [hook] }

def addStableRule (registry : Registry) (rule : StableRule) : Registry :=
  { registry with stableRules := registry.stableRules ++ [rule] }

def readPattern (value : Value) : Except Fault (Option Text.Pattern) :=
  if !value.given then .ok none
  else match value with
    | .str text =>
      match Text.Pattern.read text with
      | some pattern => .ok (some pattern)
      | none => .error .malformedPattern
    | other => .error (.notSearchable other.form)

def ofOptions (options : Options) : Except Fault Registry := do
  let effectPattern ← readPattern options.effectPattern
  let stableNames ← (← options.stableNames.items).mapM Value.key
  let registry : Registry := { options, effectPattern, stableNames }
  if options.stem.equal Hook.use.name then registry.register .use else return registry

def isHookName (registry : Registry) (name : Value) : Except Fault Bool := do
  let stem := registry.options.stem
  if !name.given then return false
  if name.equal stem then return true
  let letters ← name.letters
  match stem with
  | .str stem => return HookLint.isHookName stem (String.ofList letters)
  | other => throw (.notStem other.form)

def isDescribed (registry : Registry) (name : Value) : Except Fault Bool :=
  match registry.effectPattern, name with
  | none, _ => .ok false
  | some pattern, .str text => .ok (pattern.occursIn text)
  | some _, other => .error (.notSearchable other.form)

/-- The hook of a name: one of the table, an effect that the user's pattern describes, or a helper
whose name says that it is a hook. -/
def hookNamed (registry : Registry) (name : Value) : Except Fault (Option Hook) := do
  match registry.find? (← name.key) with
  | some hook => return some hook
  | none =>
    if ← registry.isDescribed name then return some (.effect name)
    if ← registry.isHookName name then return some (.helper name)
    return none

end Registry

end HookLint
