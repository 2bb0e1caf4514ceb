import HookLint.Value

namespace HookLint.Log

inductive Level where
  | trace
  | debug
  | info
  | success
  | warning
  | error
  | critical
deriving DecidableEq, Repr, Inhabited

namespace Level

def names : List (String × Level) := [
  ("TRACE", .trace), ("DEBUG", .debug), ("INFO", .info), ("SUCCESS", .success), ("WARNING", .warning),
  ("ERROR", .error), ("CRITICAL", .critical)]

def ofName? (name : String) : Option Level := names.lookup name

def named (name : String) : Except Fault Level :=
  match ofName? name with
  | some level => .ok level
  | none => .error .unknownName

def rank : Level → Nat
  | .trace => 0
  | .debug => 1
  | .info => 2
  | .success => 3
  | .warning => 4
  | .error => 5
  | .critical => 6

def code : Level → Int
  | .trace => 10
  | .debug => 20
  | .info | .success => 30
  | .warning => 40
  | .error => 50
  | .critical => 60

end Level

structure Problem where
  kind : Option String
  text : Option String
deriving DecidableEq, Repr, Inhabited

structure Record where
  level : String
  message : String
  time : Int := 0
  pid : Int := 0
  extra : Fields := []
  problem : Option Problem := none
deriving Inhabited

def milliseconds (microseconds : Int) : Int :=
  let seconds := Float.ofScientific microseconds.natAbs true 6
  let size := (seconds * 1000.0).toUInt64.toNat
  if microseconds < 0 then -(size : Int) else size

def Problem.report (problem : Problem) : Value :=
  .made [("type", .str ((problem.kind.filter (!·.isEmpty)).getD "Error")), ("message", .str (problem.text.getD ""))]

/-- A record as one flat document. What is attached to a record stands beside the standard fields,
and overrides them. -/
def Record.report (requestId : String) (entry : Record) : Fields :=
  let standard : Fields := [
    ("level", .int (((Level.ofName? entry.level).map (·.code)).getD 30)),
    ("time", .int (milliseconds entry.time)),
    ("msg", .str entry.message),
    ("pid", .int entry.pid),
    ("request_id", .str requestId)]
  let fields := entry.extra.foldl (fun fields (key, value) => fields.set key value) standard
  match entry.problem with
  | some problem => fields.set "err" problem.report
  | none => fields

/-- Where records go: to the terminal, as documents or for people, from a level on; and to a file
from `debug` on. -/
structure Sinks where
  level : Level := .warning
  asDocuments : Bool := false
  toFile : Bool := false
deriving DecidableEq, Repr, Inhabited

namespace Sinks

def count (sinks : Sinks) : Nat := if sinks.toFile then 2 else 1

def reaches (lowest : Level) (entry : Record) : Bool :=
  (Level.ofName? entry.level).any fun level => lowest.rank ≤ level.rank

def terminal (sinks : Sinks) (entries : List Record) : List Record := entries.filter (reaches sinks.level)

def file (sinks : Sinks) (entries : List Record) : List Record :=
  if sinks.toFile then entries.filter (reaches .debug) else []

end Sinks

end HookLint.Log
