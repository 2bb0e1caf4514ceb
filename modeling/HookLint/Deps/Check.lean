import HookLint.Deps.Compare
import HookLint.Diagnostic
import HookLint.Hook.Site

namespace HookLint.Deps

inductive Issue where
  | unknownCallback
  | asyncEffect
  | staleAssignment (name : Value)
  | memoWithoutList (suggestion : Suggestion)
  | setterWithoutList (setter : Value) (suggestion : Suggestion)
  | missingList (paths : List Value) (suggestion : Suggestion)
  | notArray
  | complex (element : Value) (suggestion : Suggestion)
  | missing (paths : List Value) (suggestion : Suggestion)
  | unnecessary (paths : List Value) (suggestion : Suggestion)
deriving Inhabited

structure Finding where
  issue : Issue
  location : Location
deriving Inhabited

def Finding.at (node : Value) (issue : Issue) : Except Fault Finding := do
  return { issue, location := ← node.location }

def Finding.when (isThere : Bool) (node : Value) (issue : Issue) : Except Fault (List Finding) :=
  if isThere then do return [← Finding.at node issue] else .ok []

inductive Callback where
  | none
  | unknown
  | function (node : Value)
deriving Inhabited

def heldFunction? (binding : Binding) : Except Fault (Option Value) := do
  let definition := binding.definition
  if binding.kind.isFunction && definition.isA .functionDeclaration then return some definition
  if definition.isA .variableDeclarator && binding.isWholeTarget && binding.kind.isLexical then
    let init ← (definition.get "init").unwrap
    return if init.isFunction then some init else none
  return none

def anyHasPath (path : Value) : List Value → Except Fault Bool
  | [] => .ok false
  | element :: rest => do
    if element.given then
      if (← element.memberPath).equal path then return true
    anyHasPath path rest

def isListed (callback deps : Value) : Except Fault Bool := do
  if !deps.isA .arrayExpression then return false
  anyHasPath (callback.get "name") (← (deps.get "elements").itemsIfGiven)

/-- The function that a callback argument is or names. A name that is listed as a dependency itself
needs no look. -/
def resolveCallback (scopes : Scopes) (callback deps : Value) : Except Fault Callback := do
  if callback.isNull then return .none
  if callback.isFunction then return .function callback
  if !callback.isA .identifier then return .unknown
  if ← isListed callback deps then return .none
  match scopes.resolve callback with
  | none => return .unknown
  | some binding =>
    match ← heldFunction? binding with
    | some function => return .function function
    | none => return .unknown

def setterCall? (registry : Registry) (scopes : Scopes) : List Value → Except Fault (Option Value)
  | [] => .ok none
  | node :: rest => do
    let callee := node.get "callee"
    if node.kindIs Kind.isCall && callee.isA .identifier then
      match scopes.resolve callee with
      | some binding => if ← registry.isStateSetter scopes binding then return some node
      | none => pure ()
    setterCall? registry scopes rest

def setterCallOf? (registry : Registry) (scopes : Scopes) (body : Value) : Except Fault (Option Value) :=
  if body.isNull then .ok none
  else if body.isRecord then setterCall? registry scopes body.walkOwn
  else .error (.notTree body.form)

def insertion? (callback : Value) : Option Span :=
  callback.span?.bind fun span => if span.stop.isNull then none else some ⟨span.stop, span.stop⟩

def checkWithoutList (registry : Registry) (scopes : Scopes) (site : Site) (callback : Value)
    (required : List Requirement) : Except Fault (List Finding) := do
  let paths ← sortPaths (reactive required)
  let suggestion : Suggestion := {
    dependencies := paths, text := ", " ++ (← listText paths), span := insertion? callback }
  if site.hook.requiresDeps then return [← Finding.at site.call (.memoWithoutList suggestion)]
  if !site.hook.isEffect then return []
  match ← setterCallOf? registry scopes (callback.get "body") with
  | some call => return [← Finding.at call (.setterWithoutList ((call.get "callee").get "name") suggestion)]
  | none =>
    if paths.isEmpty then return []
    return [← Finding.at site.call (.missingList paths suggestion)]

def mendList (options : Options) (deps : Value) (complex : List Value) (comparison : Comparison) : Except Fault (List Finding) := do
  let paths ← comparison.corrected options
  let suggestion : Suggestion := { dependencies := paths, text := ← listText paths, span := deps.span? }
  let complex ← complex.mapM fun element => Finding.at element (.complex element suggestion)
  let missing ← Finding.when (!comparison.missing.isEmpty) deps (.missing comparison.missing suggestion)
  let unnecessary ← Finding.when (!comparison.unnecessary.isEmpty) deps
    (.unnecessary comparison.unnecessary suggestion)
  return complex ++ missing ++ unnecessary

def checkList (options : Options) (scopes : Scopes) (pure : List Nat) (required : List Requirement) (deps : Value) :
    Except Fault (List Finding) := do
  let declared ← declared scopes deps
  let comparison ← compare options pure required declared.entries
  if declared.complex.isEmpty && comparison.missing.isEmpty && comparison.unnecessary.isEmpty then return []
  mendList options deps declared.complex comparison

/-- What is wrong with the list beside a callback. As long as the callback assigns to names that are
lost after the call, its intent is not clear and the list is left alone. -/
def checkBeside (registry : Registry) (scopes : Scopes) (pure : List Nat) (site : Site) (callback deps : Value)
    (usage : Usage) : Except Fault (List Finding) := do
  if !usage.writes.isEmpty then
    usage.writes.mapM fun (binding, node) => Finding.at node (.staleAssignment binding.name)
  else if deps.isNull then checkWithoutList registry scopes site callback usage.required
  else if !deps.isA .arrayExpression then return [← Finding.at deps .notArray]
  else checkList registry.options scopes pure usage.required deps

def checkCallback (registry : Registry) (scopes : Scopes) (unit : CodeUnit) (site : Site) (callback deps : Value) :
    Except Fault (List Finding) := do
  let pure ← pureScopes scopes unit site.call
  let usage ← usageOf registry scopes pure callback
  let async ← Finding.when (site.hook.isEffect && callback.isAsync) callback .asyncEffect
  return async ++ (← checkBeside registry scopes pure site callback deps usage)

def check (registry : Registry) (scopes : Scopes) (unit : CodeUnit) (site : Site) : Except Fault (List Finding) := do
  let callback ← (← site.callback).unwrap
  let deps ← (← site.deps).unwrap
  match ← resolveCallback scopes callback deps with
  | .none => return []
  | .unknown => return [← Finding.at callback .unknownCallback]
  | .function function => checkCallback registry scopes unit site function deps

end HookLint.Deps
