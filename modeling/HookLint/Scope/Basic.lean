import HookLint.Tree.Walk
import HookLint.Value.Display

/-!
Scopes, the names declared in them and the places where names are used. Scopes are numbered in the
order in which they open, so a scope has a larger number than the one around it.
-/

namespace HookLint

inductive ScopeKind where
  | module
  | function
  | block
  | handler
  | classBody
  | other (word : Value)
deriving Repr, Inhabited

def ScopeKind.word : ScopeKind → Value
  | .module => .str "module"
  | .function => .str "function"
  | .block => .str "block"
  | .handler => .str "catch"
  | .classBody => .str "class"
  | .other word => word

def ScopeKind.ofWord : Value → ScopeKind
  | .str "module" => .module
  | .str "function" => .function
  | .str "block" => .block
  | .str "catch" => .handler
  | .str "class" => .classBody
  | word => .other word

def ScopeKind.takesVars : ScopeKind → Bool
  | .module | .function => true
  | _ => false

inductive BindingKind where
  | variable
  | letLike
  | constant
  | function
  | functionName
  | classLike
  | imported
  | parameter
  | caught
  | other (word : Value)
deriving Repr, Inhabited

namespace BindingKind

def word : BindingKind → Value
  | .variable => .str "var"
  | .letLike => .str "let"
  | .constant => .str "const"
  | .function => .str "function"
  | .functionName => .str "function-name"
  | .classLike => .str "class"
  | .imported => .str "import"
  | .parameter => .str "param"
  | .caught => .str "catch"
  | .other word => word

def ofWord : Value → BindingKind
  | .str "var" => .variable
  | .str "let" => .letLike
  | .str "const" => .constant
  | .str "function" => .function
  | .str "function-name" => .functionName
  | .str "class" => .classLike
  | .str "import" => .imported
  | .str "param" => .parameter
  | .str "catch" => .caught
  | word => .other word

def isVariable : BindingKind → Bool
  | .variable => true
  | _ => false

def isFunction : BindingKind → Bool
  | .function => true
  | _ => false

def isConstant : BindingKind → Bool
  | .constant => true
  | _ => false

def isImported : BindingKind → Bool
  | .imported => true
  | _ => false

def isLexical : BindingKind → Bool
  | .letLike | .constant => true
  | _ => false

end BindingKind

structure Binding where
  name : Value
  key : Key
  kind : BindingKind
  scope : Nat
  identifier : Value
  definition : Value

def Binding.isConst (binding : Binding) : Bool :=
  binding.kind.isConstant || binding.kind.isImported

inductive Access where
  | read
  | write
  | update
deriving DecidableEq, Repr, Inhabited

def Access.reads : Access → Bool
  | .write => false
  | _ => true

def Access.writes : Access → Bool
  | .read => false
  | _ => true

structure Reference where
  identifier : Value
  scope : Nat
  access : Access
deriving Inhabited

def Value.spelling (identifier : Value) : Value := (identifier.fields.find? "name").getD (.str "")

def Value.spellingKey (identifier : Value) : Except Fault Key :=
  if identifier.isRecord then identifier.spelling.key else .error (.notRecord identifier.form)

def Reference.name (reference : Reference) : Value := reference.identifier.spelling

structure Scope where
  kind : ScopeKind
  node : Value
  parent : Option Nat
  bindings : List Binding := []
deriving Inhabited

namespace Scope

def find? (scope : Scope) (key : Key) : Option Binding := scope.bindings.find? (·.key = key)

def declare (scope : Scope) (fresh : Binding) : Scope :=
  if (scope.find? fresh.key).isNone then { scope with bindings := scope.bindings ++ [fresh] }
  else if fresh.kind.isFunction then
    { scope with
      bindings := scope.bindings.map fun old =>
        if old.key = fresh.key && old.kind.isVariable then
          { old with kind := .function, definition := fresh.definition }
        else old }
  else scope

def sortedBindings (scope : Scope) : Except Fault (List Binding) :=
  sortBy (fun binding => [binding.name]) scope.bindings

def describe (scope : Scope) : Except Fault String := do
  let names := (← scope.sortedBindings).map (·.name.display)
  return "<Scope " ++ scope.kind.word.plain ++ " bindings=" ++ Text.bracketed names ++ ">"

end Scope

/-- What is known of the names of a program. In `declared` and `opened` later entries come first. -/
structure Scopes where
  scopes : List Scope := []
  references : List Reference := []
  declared : List (Nat × Nat × Key) := []
  opened : List (Nat × Nat) := []
  parents : List (Nat × Value) := []
deriving Inhabited

namespace Scopes

def add (scopes : Scopes) (scope : Scope) : Scopes × Nat :=
  ({ scopes with scopes := scopes.scopes ++ [scope] }, scopes.scopes.length)

def chainFrom (scopes : Scopes) : Nat → Nat → List Nat
  | 0, _ => []
  | fuel + 1, number =>
    match scopes.scopes[number]? with
    | none => []
    | some scope =>
      match scope.parent with
      | none => [number]
      | some parent => number :: chainFrom scopes fuel parent

def chain (scopes : Scopes) (number : Nat) : List Nat := scopes.chainFrom scopes.scopes.length number

def binding? (scopes : Scopes) (number : Nat) (key : Key) : Option Binding :=
  scopes.scopes[number]?.bind (·.find? key)

def lookup (scopes : Scopes) (number : Nat) (key : Key) : Option Binding :=
  (scopes.chain number).findSome? fun scope => scopes.binding? scope key

def functionScope (scopes : Scopes) (number : Nat) : Nat :=
  let chain := scopes.chain number
  let takesVars := fun scope => (scopes.scopes[scope]?.map (·.kind.takesVars)).getD false
  (chain.find? takesVars).getD (chain.getLast?.getD number)

def isWithin (scopes : Scopes) (number other : Nat) : Bool := (scopes.chain number).contains other

def declare (scopes : Scopes) (fresh : Binding) : Scopes :=
  { scopes with scopes := scopes.scopes.modify fresh.scope (·.declare fresh) }

end Scopes

end HookLint
