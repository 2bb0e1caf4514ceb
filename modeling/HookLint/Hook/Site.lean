import HookLint.Flow.Block
import HookLint.Hook.Callee
import HookLint.Value.Item

namespace HookLint

structure Site where
  call : Value
  name : Value
  hook : Hook
  block : Nat
  ordinal : Nat
  location : Location
deriving Inhabited

namespace Site

def argument (site : Site) (index : Value) : Except Fault Value := do
  let arguments := site.call.get "arguments"
  return (← (if arguments.given then arguments else .list []).itemBefore? index).getD .null

def callback (site : Site) : Except Fault Value := site.argument site.hook.callbackIndex

def deps (site : Site) : Except Fault Value := site.argument site.hook.depsIndex

def describe (site : Site) : String :=
  "<HookCallSite " ++ site.name.plain ++ " block=" ++ toString site.block ++ "#" ++ toString site.ordinal
    ++ " line=" ++ site.location.line.plain ++ ">"

end Site

/-- The hook calls of a graph in the order of the source text; calls at one position keep the
order in which they are evaluated. -/
def hookSites (registry : Registry) (scopes : Scopes) (graph : FlowGraph) : Except Fault (List Site) := do
  let found ← graph.calls.filterMapM fun (block, ordinal, call) => do
    return (← registry.classify scopes call).map fun found => (found, block, ordinal, call)
  let sites ← found.mapM fun (found, block, ordinal, call) => do
    return ({ call, name := found.name, hook := found.hook, block, ordinal, location := ← call.location } : Site)
  sortBy (fun site => [site.location.line, site.location.column]) sites

end HookLint
