import HookLint.Diagnostic
import HookLint.Value.Display

/-!
Reports: what an analysis of one or more files found, and what it could not look at. Reports of
single files are merged and then sorted, so the order of merging does not show in the diagnostics.
-/

namespace HookLint

inductive Failure where
  | unit (file : String) (name line : Value) (fault : Fault)
  | whole (file : String) (fault : Fault)
  | unreadable (file message : String)
  | recorded (entry : Value)
deriving Repr, Inhabited

structure Wording where
  inUnit : Fault → String
  inFile : Fault → String

structure Report where
  diagnostics : List Diagnostic := []
  failures : List Failure := []
  files : Int := 0
  units : Int := 0
deriving Inhabited

namespace Failure

def path : Failure → String
  | .unit file .. | .whole file _ | .unreadable file _ => file
  | .recorded entry => (entry.get "file").plain

def unitName : Failure → Value
  | .unit _ name _ _ => name
  | .recorded entry => entry.get "unit"
  | _ => .null

def text (wording : Wording) : Failure → String
  | .unit _ _ _ fault => wording.inUnit fault
  | .whole _ fault => wording.inFile fault
  | .unreadable _ message => message
  | .recorded entry => (entry.get "error").plain

def report (wording : Wording) : Failure → Value
  | .recorded entry => entry
  | .unit file name line fault =>
    .made [("file", .str file), ("unit", name), ("line", line), ("error", .str (wording.inUnit fault))]
  | .whole file fault => .made [("file", .str file), ("unit", .null), ("error", .str (wording.inFile fault))]
  | .unreadable file message => .made [("file", .str file), ("unit", .null), ("error", .str message)]

end Failure

namespace Report

def hasFindings (report : Report) : Bool := !report.diagnostics.isEmpty

def merge (a b : Report) : Report :=
  { diagnostics := a.diagnostics ++ b.diagnostics
    failures := a.failures ++ b.failures
    files := a.files + b.files
    units := a.units + b.units }

def sort (report : Report) : Report := { report with diagnostics := report.diagnostics.mergeSort Diagnostic.le }

def ensureSortable (report : Report) : Except Fault Unit := ensureOrdered (report.diagnostics.map Diagnostic.row)

def countKind (counts : List (Violation × Nat)) (kind : Violation) : List (Violation × Nat) :=
  if counts.any (·.1 = kind) then counts.map fun (other, n) => (other, if other = kind then n + 1 else n)
  else counts ++ [(kind, 1)]

def byKind (report : Report) : List (Violation × Nat) :=
  (report.diagnostics.map (·.kind)).foldl countKind []

def toFields (wording : Wording) (report : Report) : Fields := [
  ("files_analyzed", .int report.files),
  ("units_analyzed", .int report.units),
  ("summary", .made (report.byKind.map fun (kind, n) => (kind.name, .int n))),
  ("diagnostics", .list (report.diagnostics.map Diagnostic.report)),
  ("errors", .list (report.failures.map (Failure.report wording)))]

/-- The status with which a command ends: 1 for findings, 2 for files that could not be parsed or
analysed. Findings count only if the user wants them to. -/
def exitCode (report : Report) (failOnFindings : Bool) : Nat :=
  if failOnFindings && report.diagnostics.any (·.kind ≠ .parseError) then 1
  else if report.diagnostics.any (·.kind = .parseError) || !report.failures.isEmpty then 2
  else 0

end Report

end HookLint
