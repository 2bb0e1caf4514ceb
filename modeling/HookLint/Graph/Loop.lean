import HookLint.Graph.Cycle
import HookLint.Graph.Dominator

namespace HookLint

structure NaturalLoop where
  header : Nat
  body : List Nat
  tails : List Nat
deriving Repr, Inhabited

namespace Graph

def tailsOf (graph : Graph) (tree : DominatorTree) (header : Nat) : List Nat :=
  sortedSet ((graph.predecessors header).filter fun block => tree.dominates header block)

def loopBodyOf (graph : Graph) (header : Nat) (tails : List Nat) : List Nat :=
  let start := tails.filter (· ≠ header)
  sortedSet (search graph.predecessors graph.rounds (header :: start) start)

def naturalLoops (graph : Graph) : List NaturalLoop :=
  let tree := graph.dominators
  let loops := (sortedSet graph.nodes).filterMap fun header =>
    match graph.tailsOf tree header with
    | [] => none
    | tails => some { header, body := graph.loopBodyOf header tails, tails }
  loops.mergeSort (fun a b => decide (b.body.length ≤ a.body.length))

def loopBlocks (graph : Graph) : List Nat :=
  sortedSet (graph.naturalLoops.flatMap (·.body) ++ graph.cyclicBlocks)

/-- The blocks that lie on a cycle or in the body of a loop, whether or not the loop comes round. -/
def repeatable (graph : Graph) : List Nat := sortedSet (graph.loopBlocks ++ graph.loopBody)

end Graph

end HookLint
