import HookLint.Deps.Check

namespace HookLint.Deps

def ruleName : String := "exhaustive-deps"

def noun (paths : List Value) : String := if paths.length = 1 then "dependency" else "dependencies"

def literalText (literal : Value) : String :=
  ((literal.fields.find? "raw").getD (literal.get "value")).plain

def complexMessage (hook : String) (element : Value) : String :=
  if element.isA .literal then
    "The literal " ++ literalText element ++ " is not a valid dependency because it never changes."
  else
    "Hook " ++ hook ++ " has a complex expression in the dependency array. "
      ++ "Extract it to a separate variable so it can be statically checked."

def diagnostic (site : Site) (finding : Finding) (kind : Violation) (message : String) (data : Fields)
    (suggestion : Option Suggestion) : Diagnostic :=
  { kind, rule := ruleName, message, location := finding.location, data := ("hook", site.name) :: data, suggestion }

def withoutLead (text : String) : String := String.ofList (text.toList.dropWhile fun c => c = ',' || c = ' ')

def Finding.diagnostic (site : Site) (finding : Finding) : Except Fault Diagnostic :=
  let hook := site.name.plain
  let report := Deps.diagnostic site finding
  match finding.issue with
  | .unknownCallback =>
    .ok (report .unknownCallback
      ("Hook " ++ hook ++ " received a function whose dependencies are unknown. Pass an inline function instead.")
      [] none)
  | .asyncEffect =>
    .ok (report .asyncEffect
      ("Effect callbacks are synchronous to prevent race conditions. Put the async function inside the "
        ++ hook ++ " callback instead.") [] none)
  | .staleAssignment name =>
    .ok (report .staleAssignment
      ("Assignments to the '" ++ name.plain ++ "' variable from inside hook " ++ hook ++ " will be lost after each "
        ++ "render. To preserve the value over time, store it in a ref and keep the mutable value in its "
        ++ "'.current' property.") [("name", name)] none)
  | .memoWithoutList suggestion =>
    .ok (report .memoWithoutDependencies
      ("Hook " ++ hook ++ " does nothing when called with only one argument. Did you forget to pass an array "
        ++ "of dependencies?") [] (some suggestion))
  | .setterWithoutList setter suggestion =>
    .ok (report .setterWithoutDependencies
      ("Hook " ++ hook ++ " contains a call to '" ++ setter.plain ++ "'. Without a list of dependencies, this "
        ++ "can lead to an infinite chain of updates. To fix this, pass " ++ withoutLead suggestion.text
        ++ " as a second argument to the " ++ hook ++ " hook.") [("setter", setter)] (some suggestion))
  | .missingList paths suggestion => do
    return report .missingDependencyArray
      ("Hook " ++ hook ++ " has no dependency list but depends on " ++ (← formatList paths)
        ++ ". Add a dependency list.") [("dependencies", .list paths)] (some suggestion)
  | .notArray =>
    .ok (report .nonArrayDependencies
      ("Hook " ++ hook ++ " was passed a dependency list that is not an array literal. This means the "
        ++ "dependencies cannot be statically verified.") [] none)
  | .complex element suggestion =>
    .ok (report .complexDependency (complexMessage hook element)
      [("literal", .bool (element.isA .literal))] (some suggestion))
  | .missing paths suggestion => do
    return report .missingDependency
      ("Hook " ++ hook ++ " has a missing " ++ noun paths ++ ": " ++ (← formatList paths)
        ++ ". Either include it or remove the dependency array.")
      [("dependencies", .list paths)] (some suggestion)
  | .unnecessary paths suggestion => do
    return report .unnecessaryDependency
      ("Hook " ++ hook ++ " has an unnecessary " ++ noun paths ++ ": " ++ (← formatList paths)
        ++ ". Either exclude it or remove the dependency array.")
      [("dependencies", .list paths)] (some suggestion)

def reviewSite (registry : Registry) (scopes : Scopes) (unit : CodeUnit) (site : Site) : Except Fault (List Diagnostic) := do
  (← check registry scopes unit site).mapM (·.diagnostic site)

/-- What the rule reports about one unit. The program itself has no scope of its own whose values
could change. -/
def review (registry : Registry) (scopes : Scopes) (unit : CodeUnit) (sites : List Site) : Except Fault (List Diagnostic) := do
  if unit.isProgram then return []
  let effects := sites.filter fun site => site.hook.kind = .effect && !site.hook.callbackIndex.isNull
  return (← effects.mapM (reviewSite registry scopes unit)).flatten

end HookLint.Deps
