import HookLint.Tree.Location

namespace HookLint

inductive Level where
  | high
  | medium
  | low
deriving DecidableEq, Repr, Inhabited

def Level.name : Level → String
  | .high => "high"
  | .medium => "medium"
  | .low => "low"

def Level.ofName? : String → Option Level
  | "high" => some .high
  | "medium" => some .medium
  | "low" => some .low
  | _ => none

inductive Violation where
  | loopCall | conditionalCall | orderMismatch | invalidHost | asyncHost
  | missingDependency | unnecessaryDependency | missingDependencyArray | complexDependency
  | nonArrayDependencies | unknownCallback | asyncEffect | memoWithoutDependencies
  | setterWithoutDependencies | staleAssignment
  | parseError
deriving DecidableEq, Repr, Inhabited

namespace Violation

def names : List (Violation × String) := [
  (.loopCall, "loop-call"),
  (.conditionalCall, "conditional-call"),
  (.orderMismatch, "order-mismatch"),
  (.invalidHost, "invalid-host"),
  (.asyncHost, "async-host"),
  (.missingDependency, "missing-dependency"),
  (.unnecessaryDependency, "unnecessary-dependency"),
  (.missingDependencyArray, "missing-dependency-array"),
  (.complexDependency, "complex-dependency"),
  (.nonArrayDependencies, "non-array-dependencies"),
  (.unknownCallback, "unknown-callback"),
  (.asyncEffect, "async-effect"),
  (.memoWithoutDependencies, "memo-without-dependencies"),
  (.setterWithoutDependencies, "setter-without-dependencies"),
  (.staleAssignment, "stale-assignment"),
  (.parseError, "parse-error")]

def name (violation : Violation) : String := (names.lookup violation).getD ""

def ofName? (name : String) : Option Violation := (names.find? (·.2 = name)).map (·.1)

def severity : Violation → Level
  | .loopCall | .conditionalCall | .orderMismatch | .invalidHost | .asyncHost => .high
  | .setterWithoutDependencies | .parseError => .high
  | .unnecessaryDependency | .complexDependency | .unknownCallback => .low
  | _ => .medium

end Violation

structure Suggestion where
  dependencies : List Value
  text : String
  span : Option Span
deriving Repr, Inhabited

structure Diagnostic where
  kind : Violation
  rule : String
  message : String
  location : Location
  file : String := ""
  severity : Level := kind.severity
  confidence : Level := .high
  data : Fields := []
  suggestion : Option Suggestion := none
deriving Inhabited

def Suggestion.report (suggestion : Suggestion) : Value :=
  .made [
    ("dependencies", .list suggestion.dependencies),
    ("text", .str suggestion.text),
    ("range", (suggestion.span.map fun span => Value.list [span.start, span.stop]).getD .null)]

namespace Diagnostic

def row (diagnostic : Diagnostic) : List Value :=
  [.str diagnostic.file, diagnostic.location.line, diagnostic.location.column, .str diagnostic.kind.name]

def le (a b : Diagnostic) : Bool := rowLe a.row b.row

def report (diagnostic : Diagnostic) : Value :=
  let base : Fields := [
    ("kind", .str diagnostic.kind.name),
    ("rule", .str diagnostic.rule),
    ("message", .str diagnostic.message),
    ("file", .str diagnostic.file),
    ("line", diagnostic.location.line),
    ("column", diagnostic.location.column),
    ("end_line", diagnostic.location.endLine),
    ("end_column", diagnostic.location.endColumn),
    ("severity", .str diagnostic.severity.name),
    ("confidence", .str diagnostic.confidence.name)]
  let data : Fields := if diagnostic.data.isEmpty then [] else [("data", .made diagnostic.data)]
  let suggestion : Fields := match diagnostic.suggestion with
    | some suggestion => [("suggestion", suggestion.report)]
    | none => []
  .made (base ++ data ++ suggestion)

end Diagnostic

end HookLint
