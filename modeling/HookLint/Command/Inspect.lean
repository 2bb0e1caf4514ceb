import HookLint.Command.Check
import HookLint.Flow.Report

namespace HookLint.Command.Inspect

structure Request where
  path : String
  function : String
  asJson : Bool := false
deriving DecidableEq, Repr, Inhabited

def askRecord (value : Value) (key : String) : Except Fault Value :=
  match value with
  | .record _ fields => .ok ((Fields.find? fields key).getD (.made []))
  | other => .error (.notRecord other.form)

def startLine (statement : Value) : Except Fault (Key × Value) := do
  let start ← askRecord (← askRecord statement "loc") "start"
  match start with
  | .record _ fields =>
    let line := (Fields.find? fields "line").getD (.int 0)
    return (← line.key, line)
  | other => throw (.notRecord other.form)

def distinctLines (lines : List (Key × Value)) : List (Key × Value) :=
  lines.foldl (fun kept line => if kept.any (·.1 = line.1) then kept else kept ++ [line]) []

def lineTexts (statements : List Value) : Except Fault (List String) := do
  let lines ← statements.mapM startLine
  let known := (distinctLines lines).filter fun line => some line.1 ≠ (Value.int 0).key?
  return (← sortBy (fun line => [line.2]) known).map (·.2.plain)

def successorText (graph : FlowGraph) (number successor : Nat) : String :=
  toString successor ++ "(" ++ "/".intercalate (graph.edgeNames number successor) ++ ")"

def blockRow (graph : FlowGraph) (repeatable : List Nat) (number : Nat) (block : Flow.Block) : Except Fault (List String) := do
  let lines ← lineTexts block.statements
  let marker := if repeatable.contains number then " *" else ""
  return [
    toString number ++ marker,
    block.kind.name,
    ",".intercalate lines,
    toString block.calls.length,
    ", ".intercalate ((sortedSet (graph.successors number)).map (successorText graph number))]

def header : List String := ["Block", "Type", "Lines", "Calls", "Successors"]

def approximationLine (approximation : Flow.Approximation) : Item :=
  .line ("[warning]approximated[/warning] " ++ approximation.kind.plain ++ " at line "
    ++ approximation.line.plain ++ ": " ++ approximation.reason.text)

def table (context : Context) (request : Request) (unit : CodeUnit) (graph : FlowGraph) : Outcome :=
  let heading := Item.heading ("CFG " ++ request.function ++ " (" ++ unit.host.name ++ ")")
  let repeatable := graph.repeatable
  match graph.blocks.zipIdx.mapM fun (block, number) => blockRow graph repeatable number block with
  | .error _ => { context.failed with printed := [heading] }
  | .ok rows => {
      exitCode := 0
      printed := [heading, .table header rows, .line "[dim]* block lies on a cycle or inside a loop body[/dim]"]
        ++ graph.approximations.map approximationLine }

def document (unit : CodeUnit) (graph : FlowGraph) : Except Fault Fields := do
  return (← graph.report) ++ [
    ("host_kind", .str unit.host.name),
    ("loop_blocks", FlowGraph.numbers graph.repeatable)]

def unitNamed (context : Context) (program : Value) (name : String) : Except Fault (Option CodeUnit) := do
  let settings := (← Config.load context.sources).settings
  let registry ← Registry.ofOptions settings.options
  let scopes ← Scopes.ofProgram program
  return (← codeUnits registry scopes program).find? (·.name.equal (.str name))

def display (context : Context) (request : Request) (unit : CodeUnit) : Outcome :=
  match FlowGraph.ofUnit (.str request.function) unit.node with
  | .error _ => context.failed
  | .ok graph =>
    if request.asJson then
      match document unit graph with
      | .ok fields => { exitCode := 0, document := some fields }
      | .error _ => context.failed
    else table context request unit graph

def run (context : Context) (request : Request) (source : Source) : Outcome :=
  match source.parse with
  | .error complaint => { exitCode := 2, printed := [.error (complaint.located request.path)] }
  | .ok parsed =>
    match unitNamed context parsed.tree request.function with
    | .error _ => context.failed
    | .ok none =>
      { exitCode := 3
        printed := [.error ("Function '" ++ request.function ++ "' not found in " ++ request.path)] }
    | .ok (some unit) => display context request unit

def switches : List Switch := [
  { names := ["--function", "-f"], takesValue := true },
  { names := ["--json"] },
  { names := ["--help"] }]

def command (context : Context) (words : List String) : Outcome :=
  match readArguments switches false {} words with
  | none => .misuse
  | some arguments =>
    if arguments.has "--help" then { exitCode := 0 }
    else match arguments.others, arguments.value? "--function" with
      | [path], some function =>
        match context.files.findText path with
        | .error .badName => .failed false
        | .ok (.file source) => run context { path, function, asJson := arguments.has "--json" } source
        | _ => .misuse
      | _, _ => .misuse

end HookLint.Command.Inspect
