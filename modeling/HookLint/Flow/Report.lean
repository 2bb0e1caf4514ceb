import HookLint.Flow.Build
import HookLint.Graph.Loop

namespace HookLint

namespace Flow

def statementReport (statement : Value) : Except Fault Value := do
  return .made [("type", ← statement.ask "type"), ("line", (← statement.location).line)]

def Approximation.report (approximation : Approximation) : Value :=
  .made [("type", approximation.kind), ("line", approximation.line), ("reason", .str approximation.reason.text)]

end Flow

def Edge.report (edge : Edge) : Value :=
  .made [("source", .int edge.source), ("target", .int edge.target), ("kind", .str edge.kind.name)]

def Edge.describe (edge : Edge) : String :=
  "<CFGEdge " ++ toString edge.source ++ " -> " ++ toString edge.target ++ " (" ++ edge.kind.name ++ ")>"

namespace FlowGraph

def numbers (ns : List Nat) : Value := .list (ns.map fun n => .int (Int.ofNat n))

def blockReport (graph : FlowGraph) (number : Nat) (block : Flow.Block) : Except Fault Value := do
  let statements ← block.statements.mapM Flow.statementReport
  let lines ← block.calls.mapM fun call => do return (← call.location).line
  return .made [
    ("id", .int number),
    ("type", .str block.kind.name),
    ("statements", .list statements),
    ("calls", .list lines),
    ("predecessors", numbers (sortedSet (graph.predecessors number))),
    ("successors", numbers (sortedSet (graph.successors number)))]

def blockReports (graph : FlowGraph) : Except Fault Fields :=
  graph.blocks.zipIdx.mapM fun (block, number) => do
    return (toString number, ← graph.blockReport number block)

def report (graph : FlowGraph) : Except Fault Fields := do
  return [
    ("name", graph.name),
    ("nodes", .made (← graph.blockReports)),
    ("edges", .list (graph.edges.map Edge.report)),
    ("entry_node_id", .int graph.entry),
    ("exit_node_id", .int graph.exit),
    ("throw_exit_node_id", (graph.throwExit.map fun block => Value.int block).getD .null),
    ("approximations", .list (graph.approximations.map Flow.Approximation.report)),
    ("loop_body_blocks", numbers (sortedSet graph.loopBody))]

def describeBlock (number : Nat) (block : Flow.Block) : Except Fault String := do
  let kinds ← block.statements.mapM fun statement =>
    match statement with
    | .record _ fields => .ok ((Fields.find? fields "type").getD (.str "Unknown")).display
    | other => .error (Fault.notRecord other.form)
  return "<CFGNode id=" ++ toString number ++ " type='" ++ block.kind.name ++ "' stmts="
    ++ Text.bracketed kinds ++ " calls=" ++ toString block.calls.length ++ ">"

def describe (graph : FlowGraph) : Except Fault (List String) := do
  let blocks ← graph.blocks.zipIdx.mapM fun (block, number) => describeBlock number block
  return blocks ++ graph.edges.map Edge.describe

end FlowGraph

end HookLint
