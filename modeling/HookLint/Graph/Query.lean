import HookLint.Fault
import HookLint.Graph.Dominator

/-!
Graphs put together by hand, and questions about their blocks by number. A number that is none of
the graph is a fault.
-/

namespace HookLint.Graph

def ensureBlock (graph : Graph) (block : Nat) : Except Fault Unit :=
  if graph.nodes.contains block then .ok () else .error .unknownBlock

def link (graph : Graph) (edge : Edge) : Except Fault Graph := do
  graph.ensureBlock edge.source
  graph.ensureBlock edge.target
  return graph.connect edge

def ofParts (nodes : List Nat) (edges : List Edge) (entry exit : Nat) : Except Fault Graph := do
  let blocks : Graph := { nodes := nodes.eraseDups, entry, exit }
  let graph ← edges.foldlM link blocks
  graph.ensureBlock entry
  graph.ensureBlock exit
  return graph

def reachable (graph : Graph) (start : Nat) (avoid : List Nat) : Except Fault (List Nat) := do
  unless avoid.contains start do graph.ensureBlock start
  return graph.reachableFrom start avoid

def neighbours (graph : Graph) (block : Nat) : Except Fault (List Nat × List Nat) := do
  graph.ensureBlock block
  return (graph.predecessors block, graph.successors block)

def treeFrom (graph : Graph) (direction : Direction) (root : Nat) : Except Fault DominatorTree := do
  graph.ensureBlock root
  return graph.dominatorTree direction root

end HookLint.Graph
