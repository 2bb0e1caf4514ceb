import HookLint.Diagnostic
import HookLint.Hook.Site
import HookLint.Order.Check
import HookLint.Unit.Basic

namespace HookLint.Order

def ruleName : String := "rules-of-hooks"

def sameOrder : String := "Hooks must be called in the exact same order in every render."

def diagnostic (kind : Violation) (site : Site) (message : String) (data : Fields) : Diagnostic :=
  { kind, rule := ruleName, message, location := site.location, data := ("hook", site.name) :: data }

def misplacementMessage (unit : CodeUnit) (site : Site) : Misplacement → String
  | .topLevel =>
    "Hook \"" ++ site.name.plain ++ "\" cannot be called at the top level. Hooks must be called in a component or a custom hook."
  | .inClass =>
    "Hook \"" ++ site.name.plain ++ "\" cannot be called in a class. Hooks must be called in a function component or a custom hook."
  | .inFunction =>
    "Hook \"" ++ site.name.plain ++ "\" is called in function \"" ++ unit.name.plain ++ "\" that is neither a "
      ++ "component nor a custom hook. Component names must start with an uppercase letter. "
      ++ "Custom hook names must start with the hook prefix."
  | .inCallback =>
    "Hook \"" ++ site.name.plain ++ "\" cannot be called inside a callback. Hooks must be called at the top level of a "
      ++ "component or custom hook."

def misplaced (unit : CodeUnit) (sites : List Site) (why : Misplacement) : List Diagnostic :=
  sites.map fun site =>
    diagnostic .invalidHost site (misplacementMessage unit site why) [
      ("host_kind", .str why.name),
      ("function", unit.name)]

def asyncHost (unit : CodeUnit) (site : Site) : Diagnostic :=
  diagnostic .asyncHost site ("Hook \"" ++ site.name.plain ++ "\" cannot be called in an async function.")
    [("function", unit.displayName)]

def Finding.call : Finding → Placement
  | .repeated call | .unreachable call | .conditional call _ | .reversed call _ => call

def slotName (sites : List Site) (slot : Slot) : Value :=
  ((sites.find? (·.name.plain = slot.callee)).map (·.name)).getD (.str slot.callee)

def Finding.diagnostic (sites : List Site) (site : Site) : Finding → Diagnostic
  | .repeated _ =>
    Order.diagnostic .loopCall site ("Hook \"" ++ site.name.plain ++ "\" may be executed more than once. Possibly because it "
      ++ "is called in a loop. " ++ sameOrder) []
  | .unreachable _ =>
    Order.diagnostic .conditionalCall site ("Hook \"" ++ site.name.plain ++ "\" is called in unreachable code.")
      [("unreachable", .bool true)]
  | .conditional _ early =>
    let hint := if early then " Did you accidentally call a hook after an early return?" else ""
    Order.diagnostic .conditionalCall site ("Hook \"" ++ site.name.plain ++ "\" is called conditionally. " ++ sameOrder ++ hint)
      [("early_return", .bool early)]
  | .reversed _ other =>
    Order.diagnostic .orderMismatch site ("Hook \"" ++ site.name.plain ++ "\" is called after \"" ++ other.callee
      ++ "\" on this path but before it on another. " ++ sameOrder) [("other", slotName sites other)]

def placements (sites : List Site) : List Placement :=
  (sites.zipIdx.filter fun (site, _) => !site.hook.orderExempt).map fun (site, number) =>
    { number, callee := site.name.plain, block := site.block, ordinal := site.ordinal }

def orderDiagnostics (graph : Graph) (sites : List Site) : List Diagnostic :=
  (check graph (placements sites)).filterMap fun finding =>
    sites[finding.call.number]?.map (finding.diagnostic sites)

def review (units : List CodeUnit) (number : Nat) (unit : CodeUnit) (graph : FlowGraph) (sites : List Site) : List Diagnostic :=
  if !unit.isHost then
    match misplacement? units number unit with
    | none => []
    | some why => misplaced unit sites why
  else
    let found := (if unit.isAsync then sites.map (asyncHost unit) else []) ++ orderDiagnostics graph.toGraph sites
    if graph.approximations.isEmpty then found else found.map ({ · with confidence := .low })

end HookLint.Order
