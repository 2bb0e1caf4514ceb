import HookLint.Analysis

/-!
From source texts to reports. A text is first taken to be a module and then, if it is none, to be a
script; both outcomes are given. If neither is one, the complaint about the module counts.
-/

namespace HookLint

structure Complaint where
  message : String
  description : Value := .null
  line : Value := .int 0
  column : Value := .int 0
deriving Repr, Inhabited

def Complaint.reason (complaint : Complaint) : Value :=
  if complaint.description.given then complaint.description else .str complaint.message

structure Source where
  asModule : Except Complaint Value
  asScript : Except Complaint Value

inductive SourceType where
  | module
  | script
deriving DecidableEq, Repr, Inhabited

def SourceType.name : SourceType → String
  | .module => "module"
  | .script => "script"

structure Parsed where
  tree : Value
  sourceType : SourceType
deriving Inhabited

namespace Source

def parse (source : Source) : Except Complaint Parsed :=
  match source.asModule with
  | .ok tree => .ok { tree, sourceType := .module }
  | .error complaint =>
    match source.asScript with
    | .ok tree => .ok { tree, sourceType := .script }
    | .error _ => .error complaint

end Source

def Complaint.located (complaint : Complaint) (file : String) : String :=
  file ++ ":" ++ complaint.line.orZero.plain ++ ":" ++ complaint.column.orZero.plain ++ ": " ++ complaint.reason.plain

def Complaint.diagnostic (complaint : Complaint) (file : String) : Diagnostic :=
  { kind := .parseError
    rule := "parser"
    message := "Could not parse file: " ++ complaint.reason.plain
    location := { line := complaint.line.orZero, column := complaint.column.orZero }
    file }

def analyzeSource (registry : Registry) (file : String) (source : Source) : Except Fault Report :=
  match source.parse with
  | .ok parsed => analyzeProgram registry file parsed.tree
  | .error complaint => .ok { diagnostics := [complaint.diagnostic file], files := 1 }

end HookLint
