import HookLint.Hook.Callee
import HookLint.Tree.Location
import HookLint.Tree.Markup
import HookLint.Unit.Name

/-!
Code units: the bodies that are analysed one by one, namely the program and each of its functions.
Units are numbered in the order in which a walk meets them, so the unit around a unit comes before it.
-/

namespace HookLint

inductive HostKind where
  | component
  | helper
  | none
deriving DecidableEq, Repr, Inhabited

def HostKind.name : HostKind → String
  | .component => "component"
  | .helper => "helper"
  | .none => "none"

structure CodeUnit where
  node : Value
  name : Value := .null
  host : HostKind := .none
  isAsync : Bool := false
  inClass : Bool := false
  isProgram : Bool := false
  parent : Option Nat := none
  children : List Nat := []
deriving Inhabited

namespace CodeUnit

def adopt (unit : CodeUnit) (child : Nat) : CodeUnit := { unit with children := unit.children ++ [child] }

def isHost (unit : CodeUnit) : Bool := unit.host ≠ .none

def displayName (unit : CodeUnit) : Value :=
  if unit.isProgram then .str "<module>" else if unit.name.given then unit.name else .str "<anonymous>"

def location (unit : CodeUnit) : Except Fault Location := unit.node.location

def describe (unit : CodeUnit) : Except Fault String := do
  let location ← unit.location
  return "<FunctionUnit " ++ unit.displayName.plain ++ " " ++ unit.host.name ++ " line=" ++ location.line.plain ++ ">"

end CodeUnit

def isWrapped (scopes : Scopes) (function : Value) : Except Fault Bool := do
  match scopes.parent? function with
  | none => return false
  | some parent =>
    if !parent.kindIs Kind.isCall then return false
    let arguments ← (parent.get "arguments").itemsIfGiven
    if arguments.any (·.same function) then return (← wrapperName parent).isSome else return false

/-- What a function is to hooks. The name decides if there is one. A nameless function is a
component if a wrapper makes it one, or if it stands outside all functions and returns markup. -/
def hostKind (registry : Registry) (scopes : Scopes) (function : Value) (named : FunctionName) (atTop : Bool) : Except Fault HostKind := do
  if named.inClass then return .none
  if !named.name.isNull then
    if ← registry.isHookName named.name then return .helper
    return if ← named.name.startsUpper then .component else .none
  if ← isWrapped scopes function then return .component
  if !atTop then return .none
  return if ← function.returnsMarkup then .component else .none

structure Discovery where
  units : List CodeUnit
  owners : List (Nat × Nat)

namespace Discovery

def around (found : Discovery) (scopes : Scopes) (node : Value) : Nat :=
  ((scopes.ancestors node).findSome? fun outer => outer.id?.bind fun id => found.owners.lookup id).getD 0

def addFunction (found : Discovery) (registry : Registry) (scopes : Scopes) (function : Value) : Except Fault Discovery := do
  let parent := found.around scopes function
  let named ← functionName scopes function
  let unit : CodeUnit := {
    node := function
    name := named.name
    host := ← hostKind registry scopes function named (parent = 0)
    isAsync := function.isAsync
    inClass := named.inClass
    parent := some parent }
  return {
    units := found.units.modify parent (·.adopt found.units.length) ++ [unit]
    owners := (function.id?.getD 0, found.units.length) :: found.owners }

end Discovery

def codeUnits (registry : Registry) (scopes : Scopes) (program : Value) : Except Fault (List CodeUnit) := do
  let start : Discovery := {
    units := [{ node := program, isProgram := true }]
    owners := [(program.id?.getD 0, 0)] }
  let _ ← program.filedKind
  let found ← (program.walk.filter (·.isFunction)).foldlM (fun found function =>
    found.addFunction registry scopes function) start
  return found.units

def childUnits (units : List CodeUnit) (number : Nat) : List Nat := (units[number]?.map (·.children)).getD []

def unitsAroundFrom (units : List CodeUnit) : Nat → Nat → List Nat
  | 0, _ => []
  | fuel + 1, number =>
    match units[number]?.bind (·.parent) with
    | none => []
    | some parent => parent :: unitsAroundFrom units fuel parent

def unitsAround (units : List CodeUnit) (number : Nat) : List Nat := unitsAroundFrom units units.length number

def enclosingHost (units : List CodeUnit) (number : Nat) : Option Nat :=
  (unitsAround units number).find? fun outer => (units[outer]?.map (·.isHost)).getD false

inductive Misplacement where
  | topLevel
  | inClass
  | inFunction
  | inCallback
deriving DecidableEq, Repr, Inhabited

def Misplacement.name : Misplacement → String
  | .topLevel => "top-level"
  | .inClass => "class"
  | .inFunction => "function"
  | .inCallback => "callback"

/-- Why a unit that is no host must not call hooks. A nameless function outside all hosts is let
pass, since nothing is known of its use. -/
def misplacement? (units : List CodeUnit) (number : Nat) (unit : CodeUnit) : Option Misplacement :=
  if unit.isProgram then some .topLevel
  else if unit.inClass then some .inClass
  else if unit.name.given then some .inFunction
  else if (enclosingHost units number).isSome then some .inCallback
  else none

end HookLint
