import HookLint.Scope.Query

/-!
The name under which a reader knows a function: its own, or that of the variable, target, property
or parameter that it is the value of.
-/

namespace HookLint

structure FunctionName where
  name : Value := .null
  inClass : Bool := false
deriving Repr, Inhabited

def keyName (key : Value) : Value :=
  if key.isA .identifier then key.get "name"
  else if key.isA .literal then ((key.get "value").text?.map Value.str).getD .null
  else .null

def identifierName (node : Value) : Value := if node.isA .identifier then node.get "name" else .null

def targetName (target : Value) : Except Fault Value := do
  match ← target.filedKind with
  | some .identifier => return target.get "name"
  | some .memberExpression | some .optionalMemberExpression =>
    return if (target.get "computed").given then .null else keyName (target.get "property")
  | _ => return .null

def nameFromParent (function parent : Value) : Except Fault FunctionName := do
  let computed := (parent.get "computed").given
  match parent.kind with
  | some .variableDeclarator =>
    return if (parent.get "init").same function then { name := identifierName (parent.get "id") } else {}
  | some .assignmentExpression =>
    if (parent.get "right").same function then return { name := ← targetName (parent.get "left") } else return {}
  | some .property =>
    return if (parent.get "value").same function && !computed then { name := keyName (parent.get "key") } else {}
  | some .methodDefinition | some .propertyDefinition | some .classProperty =>
    return if (parent.get "value").same function then
      { name := if computed then .null else keyName (parent.get "key"), inClass := true }
    else {}
  | some .assignmentPattern =>
    return if (parent.get "right").same function then { name := identifierName (parent.get "left") } else {}
  | _ => return {}

def functionName (scopes : Scopes) (function : Value) : Except Fault FunctionName := do
  let own := function.get "id"
  if own.given && function.kindIs fun kind => kind = .functionDeclaration || kind = .functionExpression then
    return { name := ← own.ask "name" }
  match scopes.parent? function with
  | none => return {}
  | some parent => nameFromParent function parent

end HookLint
