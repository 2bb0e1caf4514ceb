import HookLint.Graph.Basic

namespace HookLint

/-- Adds to the seen blocks all that can be reached from the waiting ones. Every round takes one
waiting block, and a block waits at most once. -/
def search (next : Nat → List Nat) : Nat → List Nat → List Nat → List Nat
  | 0, seen, _ => seen
  | _, seen, [] => seen
  | fuel + 1, seen, block :: waiting =>
    let fresh := (next block).filter fun other => !seen.contains other
    search next fuel (seen ++ fresh) (fresh ++ waiting)

/-- Visits the waiting blocks depth first. The second list collects the blocks as they are left,
the last one first. -/
def depthFirst (next : Nat → List Nat) : Nat → List Nat → List Nat × List Nat → List Nat × List Nat
  | 0, _, state => state
  | _, [], state => state
  | fuel + 1, block :: waiting, (visited, left) =>
    if visited.contains block then depthFirst next fuel waiting (visited, left)
    else
      let (visited, left) := depthFirst next fuel (next block) (block :: visited, left)
      depthFirst next fuel waiting (visited, block :: left)

namespace Graph

def rounds (graph : Graph) : Nat := graph.edges.length + 1

def reachableFrom (graph : Graph) (start : Nat) (avoid : List Nat) : List Nat :=
  if avoid.contains start then []
  else
    search (fun block => (graph.successors block).filter fun other => !avoid.contains other)
      graph.rounds [start] [start]

/-- The blocks reachable from a root in reverse of the order in which a search leaves them: every
block comes before those that it leads to, loops apart. -/
def reversePostorder (graph : Graph) (direction : Direction) (root : Nat) : List Nat :=
  (depthFirst (graph.next direction) (2 * graph.rounds + 1) [root] ([], [])).2

end Graph

end HookLint
