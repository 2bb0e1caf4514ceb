import HookLint.Deps.Report
import HookLint.Flow.Build
import HookLint.Order.Report
import HookLint.Report

namespace HookLint

def analyzeUnit (registry : Registry) (scopes : Scopes) (units : List CodeUnit) (number : Nat) (unit : CodeUnit) :
    Except Fault (List Diagnostic) := do
  let graph ← FlowGraph.ofUnit unit.displayName unit.node
  let sites ← hookSites registry scopes graph
  if sites.isEmpty then return []
  let _ ← unit.location
  return Order.review units number unit graph sites ++ (← Deps.review registry scopes unit sites)

/-- Adds what is found in one unit of a file. A unit that cannot be analysed is recorded, and the
others go on. -/
def Report.addUnit (file : String) (report : Report) (unit : CodeUnit) (found : Except Fault (List Diagnostic)) : Except Fault Report := do
  match found with
  | .ok diagnostics =>
    return { report with
      diagnostics := report.diagnostics ++ diagnostics.map ({ · with file })
      units := report.units + 1 }
  | .error fault =>
    let location ← unit.location
    return { report with failures := report.failures ++ [.unit file unit.displayName location.line fault] }

def analyzeProgram (registry : Registry) (file : String) (program : Value) : Except Fault Report := do
  let scopes ← Scopes.ofProgram program
  let units ← codeUnits registry scopes program
  let report ← units.zipIdx.foldlM (fun (report : Report) (unit, number) =>
    report.addUnit file unit (analyzeUnit registry scopes units number unit)) { files := 1 }
  report.ensureSortable
  return report.sort

end HookLint
