import HookLint.Scope.Survey

namespace HookLint.Scopes

def parent? (scopes : Scopes) (node : Value) : Option Value := node.id?.bind fun id => scopes.parents.lookup id

def ancestorsFrom (scopes : Scopes) : Nat → Value → List Value
  | 0, _ => []
  | fuel + 1, node =>
    match scopes.parent? node with
    | none => []
    | some parent => parent :: ancestorsFrom scopes fuel parent

def ancestors (scopes : Scopes) (node : Value) : List Value :=
  scopes.ancestorsFrom scopes.parents.length node

def acquire (scopes : Scopes) (node : Value) : Option Nat := node.id?.bind fun id => scopes.opened.lookup id

def scopeFor (scopes : Scopes) (node : Value) : Except Fault Nat := do
  let around := ((scopes.ancestors node).findSome? scopes.acquire).getD 0
  match scopes.acquire node with
  | none => return around
  | some own => return if ← node.filedKindIs Kind.isFunction then around else own

def referenceFor (scopes : Scopes) (identifier : Value) : Option Reference :=
  scopes.references.find? (·.identifier.same identifier)

def bindingOf (scopes : Scopes) (reference : Reference) : Option Binding :=
  reference.name.key?.bind (scopes.lookup reference.scope)

def declarationOf (scopes : Scopes) (identifier : Value) : Option Binding := do
  let id ← identifier.id?
  let (number, key) ← scopes.declared.lookup id
  scopes.binding? number key

def resolve (scopes : Scopes) (identifier : Value) : Option Binding :=
  match scopes.referenceFor identifier with
  | some reference => scopes.bindingOf reference
  | none => scopes.declarationOf identifier

def usesOf (scopes : Scopes) (binding : Binding) : List Reference :=
  scopes.references.filter fun reference =>
    (scopes.bindingOf reference).any fun other => other.scope = binding.scope && other.key = binding.key

def childScopes (scopes : Scopes) (number : Nat) : List Nat :=
  (List.range scopes.scopes.length).filter fun child =>
    (scopes.scopes[child]?.bind (·.parent)) == some number

def spread (scopes : Scopes) : Nat → List Nat → List Nat
  | 0, _ => []
  | _, [] => []
  | fuel + 1, number :: rest => number :: spread scopes fuel ((scopes.childScopes number).reverse ++ rest)

def position (node : Value) : Except Fault (List Value) := do
  match node.get "range" with
  | .list (start :: _) => return [start, .int 0]
  | _ =>
    let place := (← node.ask "loc").orRecord
    let start := (← place.ask "start").orRecord
    if !start.isRecord then throw (.notRecord start.form)
    return [(start.fields.find? "line").getD (.int 0), (start.fields.find? "column").getD (.int 0)]

def sortByPosition (references : List Reference) : Except Fault (List Reference) := do
  let placed ← references.mapM fun reference => do return (← position reference.identifier, reference)
  return (← sortBy (·.1) placed).map (·.2)

def referencesWithin (scopes : Scopes) (node : Value) : Except Fault (List Reference) :=
  match scopes.acquire node with
  | none => .ok []
  | some root =>
    let inside := scopes.spread scopes.scopes.length [root]
    sortByPosition (inside.flatMap fun number => scopes.references.filter (·.scope = number))

def describe (scopes : Scopes) (binding : Binding) : String :=
  let home := (scopes.scopes[binding.scope]?.map (·.kind.word)).getD .null
  "<Binding " ++ binding.kind.word.plain ++ " " ++ binding.name.plain ++ " in " ++ home.plain ++ ">"

end HookLint.Scopes
