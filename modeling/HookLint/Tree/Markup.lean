import HookLint.Tree.Walk

namespace HookLint.Value

def isAsync (function : Value) : Bool :=
  (function.get "async").given || (function.get "isAsync").given

def containsMarkup (node : Value) : Except Fault Bool := do
  if !node.given then return false
  if ← node.filedKindIs Kind.isFunction then return false
  if !node.isRecord then throw (.notTree node.form)
  return node.walkOwn.any (·.kindIs Kind.isMarkup)

def anyReturnsMarkup : List Value → Except Fault Bool
  | [] => .ok false
  | node :: rest =>
    if node.isA .returnStatement then do
      if ← (node.get "argument").containsMarkup then return true
      anyReturnsMarkup rest
    else anyReturnsMarkup rest

def returnsMarkup (function : Value) : Except Fault Bool :=
  let body := function.get "body"
  if !body.given then .ok false
  else if body.isA .blockStatement then anyReturnsMarkup body.walkOwn
  else body.containsMarkup

end HookLint.Value
