import HookLint.Scope.Query
import HookLint.Tree.Path

/-!
The dependency that a use of a name stands for: the longest member chain from it that is read as a
whole.
-/

namespace HookLint.Deps

def chainContent (node : Value) : Value :=
  match node with
  | .record id fields =>
    if (Value.record id fields).isA .chainExpression then chainContent (Fields.get fields "expression")
    else .record id fields
  | other => other
termination_by sizeOf node
decreasing_by exact Value.sizeOf_get_record ..

/-- Whether a node reads a named property of another one. What a reference object holds at present
is no part of a path. -/
def readsProperty (node parent : Value) : Bool :=
  let property := parent.get "property"
  parent.kindIs Kind.isMember && (parent.get "object").same node && !(parent.get "computed").given
    && property.isA .identifier && (property.get "name").text? != some "current"

def isCalled (member : Value) (above : List Value) : Bool :=
  match above.dropWhile (·.isA .chainExpression) with
  | [] => false
  | outer :: _ => outer.kindIs Kind.isInvocation && (chainContent (outer.get "callee")).same member

/-- Climbs member accesses from a node; `above` are the nodes around it from the inside out. Stops
before a property that is called as a method. Answers the node reached and what is around it. -/
def climb (node : Value) : List Value → Value × List Value
  | [] => (node, [])
  | parent :: above =>
    if parent.isA .chainExpression then climb parent above
    else if readsProperty node parent && !isCalled parent above then climb parent above
    else (node, parent :: above)

/-- The outermost member access that a use of a name contributes. A member that is assigned to
contributes the object it belongs to. -/
def dependencyNode (scopes : Scopes) (identifier : Value) : Value :=
  let (node, above) := climb identifier (scopes.ancestors identifier)
  let assigned := above.head?.any fun parent =>
    parent.isA .assignmentExpression && (parent.get "left").same node
  if node.kindIs Kind.isMember && assigned then node.get "object" else node

def dependencyPath (scopes : Scopes) (reference : Reference) (binding : Binding) : Except Fault Value := do
  let path ← (dependencyNode scopes reference.identifier).memberPath
  return if path.given then path else binding.name

end HookLint.Deps
