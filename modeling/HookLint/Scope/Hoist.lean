import HookLint.Scope.Basic

namespace HookLint

def ensureProperties (properties : Value) : Except Fault Unit := do
  properties.ensureRecords
  match properties.parts.find? (!·.isRecord) with
  | some other => throw (.notRecord other.form)
  | none => pure ()

mutual
def patternIdentifiers (pattern : Value) : Except Fault (List Value) :=
  match pattern with
  | .record id fields =>
    match (Value.record id fields).kind with
    | some .identifier => .ok [.record id fields]
    | some .assignmentPattern => patternIdentifiers (Fields.get fields "left")
    | some .objectPattern => do
      ensureProperties (Fields.get fields "properties")
      propertyIdentifiers (Fields.get fields "properties").parts
    | some .arrayPattern => do
      (Fields.get fields "elements").ensureItems
      elementIdentifiers (Fields.get fields "elements").parts
    | some .restElement => patternIdentifiers (Fields.get fields "argument")
    | _ => .ok []
  | _ => .ok []
termination_by sizeOf pattern
def propertyIdentifiers (properties : List Value) : Except Fault (List Value) :=
  match properties with
  | [] => .ok []
  | .record id fields :: rest => do
    let later ← propertyIdentifiers rest
    if (Value.record id fields).isA .restElement then
      return later ++ (← patternIdentifiers (Fields.get fields "argument"))
    else return later ++ (← patternIdentifiers (Fields.get fields "value"))
  | _ :: rest => propertyIdentifiers rest
termination_by sizeOf properties
def elementIdentifiers (elements : List Value) : Except Fault (List Value) :=
  match elements with
  | [] => .ok []
  | element :: rest => do
    let later ← elementIdentifiers rest
    return later ++ (← patternIdentifiers element)
termination_by sizeOf elements
end

structure Declaration where
  identifier : Value
  key : Key
  kind : BindingKind
  definition : Value

def Declaration.of (kind : BindingKind) (definition identifier : Value) : Except Fault (List Declaration) := do
  if !identifier.isA .identifier then return []
  return [{ identifier, key := ← identifier.spellingKey, kind, definition }]

def declarationsOf (kind : BindingKind) (definition : Value) : List Value → Except Fault (List Declaration)
  | [] => .ok []
  | identifier :: rest => do
    let first ← Declaration.of kind definition identifier
    return first ++ (← declarationsOf kind definition rest)

def patternDeclarations (kind : BindingKind) (definition pattern : Value) : Except Fault (List Declaration) := do
  declarationsOf kind definition (← patternIdentifiers pattern)

def declaratorDeclarations (kind : BindingKind) (declarators : Value) : Except Fault (List Declaration) := do
  let declarators ← declarators.itemsIfGiven
  let groups ← declarators.mapM fun declarator => do
    patternDeclarations kind declarator (← declarator.ask "id")
  return groups.flatten

def ownVars (node : Value) : Except Fault (List Declaration) :=
  if node.isA .variableDeclaration && (node.get "kind").text? = some "var" then
    declaratorDeclarations .variable (node.get "declarations")
  else .ok []

/-- What is declared with `var` under the given nodes, outside nested functions and classes. Nodes
are taken from the front, and the children of a node last to first. -/
def varDeclarations : List Value → Except Fault (List Declaration)
  | [] => .ok []
  | node :: rest => do
    if ← node.filedKindIs fun kind => kind.isFunction || kind.isClass then varDeclarations rest
    else
      let own ← ownVars node
      return own ++ (← varDeclarations (node.children.reverse ++ rest))
termination_by stack => sizeOf stack

def hoistedVars (body : Value) : Except Fault (List Declaration) := do
  let start ← if body.isRecord then pure [body] else body.itemsIfGiven
  varDeclarations start.reverse

def unwrapExport (statement : Value) : Value :=
  if statement.kindIs fun kind => kind = .exportNamedDeclaration || kind = .exportDefaultDeclaration then
    let declaration := statement.get "declaration"
    if declaration.isRecord then declaration else statement
  else statement

def lexicalDeclarations (statement : Value) : Except Fault (List Declaration) :=
  let statement := unwrapExport statement
  match statement.kind with
  | some .variableDeclaration =>
    match (statement.get "kind").text? with
    | some "let" => declaratorDeclarations .letLike (statement.get "declarations")
    | some "const" => declaratorDeclarations .constant (statement.get "declarations")
    | _ => .ok []
  | some .functionDeclaration => Declaration.of .function statement (statement.get "id")
  | some .classDeclaration => Declaration.of .classLike statement (statement.get "id")
  | some .importDeclaration => do
    let specifiers ← (statement.get "specifiers").itemsIfGiven
    let groups ← specifiers.mapM fun specifier => do
      Declaration.of .imported specifier (← specifier.ask "local")
    return groups.flatten
  | _ => .ok []

def hoistedLexicals (statements : List Value) : Except Fault (List Declaration) := do
  return (← statements.mapM lexicalDeclarations).flatten

end HookLint
