import HookLint.Command.Arguments
import HookLint.Command.Console
import HookLint.Config.Load
import HookLint.Project.Analysis

namespace HookLint.Command

structure Context where
  files : Project.Directory := {}
  sources : Config.Sources := {}
  requestId : String := ""
  wording : Wording

namespace Context

def canWrite (context : Context) (path : String) : Bool := context.files.isWritable (.ofText path)

def errorLog : String := ".hookauditor/error.log"

def failed (context : Context) : Outcome := .failed (context.canWrite errorLog)

end Context

def tableHeader : List String := ["Location", "Kind", "Severity", "Message"]

def diagnosticRow (diagnostic : Diagnostic) : List String := [
  diagnostic.file ++ ":" ++ diagnostic.location.line.plain ++ ":" ++ diagnostic.location.column.plain,
  diagnostic.kind.name,
  levelMarkup diagnostic.severity,
  escape diagnostic.message]

def summaryText (report : Report) : String :=
  let counts := report.byKind.map fun (kind, n) => (kind.name, n)
  let sorted := counts.mergeSort fun a b => decide (a.1 ≤ b.1)
  ", ".intercalate (sorted.map fun (name, n) => name ++ ": " ++ toString n)

def findingsTable (report : Report) (maxRows : Int) : List Item :=
  let total := report.diagnostics.length
  let hidden := (total : Int) - maxRows
  let shown := if maxRows < 0 then (maxRows + total).toNat else min maxRows.toNat total
  let rows := (report.diagnostics.take shown).map diagnosticRow
  let more := if hidden > 0 then
      [.line ("[dim]... " ++ toString hidden ++ " more finding(s) not shown (report.max_rows="
        ++ toString maxRows ++ ")[/dim]")]
    else []
  [Item.heading "HOOK FINDINGS", .table tableHeader rows] ++ more ++ [
    .line ("\n" ++ toString total ++ " finding(s) in " ++ toString report.files ++ " file(s) ("
      ++ summaryText report ++ ")")]

def failureWarning (wording : Wording) (failure : Failure) : Item :=
  let unit := if failure.unitName.given then failure.unitName.plain else ""
  .warning (failure.path ++ ": " ++ unit ++ " " ++ escape (failure.text wording))

def reportItems (wording : Wording) (report : Report) (maxRows : Int) : List Item :=
  let findings := if report.hasFindings then findingsTable report maxRows
    else [.success ("No hook findings in " ++ toString report.files ++ " file(s)")]
  findings ++ report.failures.map (failureWarning wording)

namespace Check

structure Request where
  paths : List String
  asJson : Bool := false
  output : Option String := none
  effectPattern : Option String := none
  logDir : Option String := none
  failOnFindings : Bool := true
deriving DecidableEq, Repr, Inhabited

def logName : String := "hookauditor.log"

def given? (text : Option String) : Option String := text.filter (!·.isEmpty)

def report (context : Context) (request : Request) : Except Fault (Config.Settings × Report) := do
  let settings := (← Config.load context.sources).settings
  let options := settings.options
  let options := match given? request.effectPattern with
    | some pattern => { options with effectPattern := .str pattern }
    | none => options
  let registry ← Registry.ofOptions options
  settings.ensureFlat .exclude
  let selection : Project.Selection := {
    extensions := settings.names .extensions
    exclude := settings.names .exclude }
  return (settings, ← Project.analyzePaths registry context.files selection request.paths)

def outcome (context : Context) (request : Request) (settings : Config.Settings) (report : Report) : Outcome :=
  let document := report.toFields context.wording ++ [("request_id", .str context.requestId)]
  if (given? request.output).any (!context.canWrite ·) then context.failed
  else {
    exitCode := report.exitCode request.failOnFindings
    printed := if request.asJson then [] else reportItems context.wording report (settings.number .maxRows)
    document := if request.asJson then some document else none
    saved := (given? request.output).map (·, document) }

def run (context : Context) (request : Request) : Outcome :=
  let logs := given? request.logDir
  if logs.any fun directory => !context.canWrite (directory ++ "/" ++ logName) then context.failed
  else
    let result := match report context request with
      | .ok (settings, found) => outcome context request settings found
      | .error _ => context.failed
    { result with logFile := logs.isSome }

def switches : List Switch := [
  { names := ["--json"] },
  { names := ["--output"], takesValue := true },
  { names := ["--workers"], takesValue := true },
  { names := ["--additional-hooks"], takesValue := true },
  { names := ["--log-dir"], takesValue := true },
  { names := ["--fail-on-findings"] },
  { names := ["--no-fail"] },
  { names := ["--help"] }]

def failsOnFindings (arguments : Arguments) : Bool :=
  let chosen := arguments.options.filter fun (name, _) => name = "--fail-on-findings" || name = "--no-fail"
  chosen.getLast?.all fun (name, _) => name = "--fail-on-findings"

def requestOf (arguments : Arguments) : Request :=
  { paths := arguments.others
    asJson := arguments.has "--json"
    output := arguments.value? "--output"
    effectPattern := arguments.value? "--additional-hooks"
    logDir := arguments.value? "--log-dir"
    failOnFindings := failsOnFindings arguments }

def exists? (files : Project.Directory) (path : String) : Bool := (files.findText path).isOk

def isFile (files : Project.Directory) (path : String) : Bool := files.findText path matches .ok (.file _)

/-- Whether the command can be run: there are paths, they all exist, the number of workers is one,
and the log directory is no file. -/
def isProper (context : Context) (arguments : Arguments) : Bool :=
  !arguments.others.isEmpty && arguments.others.all (exists? context.files)
    && (arguments.value? "--workers").all (Text.integer · |>.isOk)
    && (arguments.value? "--log-dir").all (!isFile context.files ·)

def hasBadPath (arguments : Arguments) : Bool :=
  (arguments.others ++ (arguments.value? "--output").toList ++ (arguments.value? "--log-dir").toList).any
    Project.hasBadName

def command (context : Context) (words : List String) : Outcome :=
  match readArguments switches false {} words with
  | none => .misuse
  | some arguments =>
    if arguments.has "--help" then { exitCode := 0 }
    else if hasBadPath arguments then .failed false
    else if !isProper context arguments then .misuse
    else run context (requestOf arguments)

end Check

end HookLint.Command
