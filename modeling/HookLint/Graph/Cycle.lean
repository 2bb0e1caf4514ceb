import HookLint.Graph.Reach

/-!
The blocks on cycles. A depth-first search numbers the blocks as it meets them and keeps a block open
until the blocks are known that lead to it and back. These are complete when the search leaves a
block from which it has found no open block with a smaller number.
-/

namespace HookLint

def sortedSet (numbers : List Nat) : List Nat := numbers.eraseDups.mergeSort (fun a b => decide (a ≤ b))

/-- A block under way, with the smallest number of an open block that was found from it and the
successors still to be looked at. -/
structure Visit where
  block : Nat
  low : Nat
  rest : List Nat
deriving Repr, Inhabited

structure Sweep where
  numbers : List (Nat × Nat) := []
  opened : List Nat := []
  visits : List Visit := []
  cyclic : List Nat := []
deriving Repr, Inhabited

namespace Sweep

def enter (next : Nat → List Nat) (sweep : Sweep) (block : Nat) : Sweep :=
  let number := sweep.numbers.length
  { sweep with
    numbers := (block, number) :: sweep.numbers
    opened := block :: sweep.opened
    visits := ⟨block, number, next block⟩ :: sweep.visits }

def lower (low : Nat) : List Visit → List Visit
  | [] => []
  | visit :: visits => { visit with low := min visit.low low } :: visits

def upTo (block : Nat) : List Nat → List Nat × List Nat
  | [] => ([], [])
  | top :: others =>
    if top = block then ([top], others)
    else
      let found := upTo block others
      (top :: found.1, found.2)

/-- Closes a block and the open blocks above it. A single block is on a cycle only if it leads to
itself. -/
def complete (next : Nat → List Nat) (sweep : Sweep) (block : Nat) : Sweep :=
  let closed := upTo block sweep.opened
  let repeats := closed.1.length > 1 || (next block).contains block
  { sweep with
    opened := closed.2
    cyclic := if repeats then closed.1 ++ sweep.cyclic else sweep.cyclic }

def step (next : Nat → List Nat) (sweep : Sweep) : Sweep :=
  match sweep.visits with
  | [] => sweep
  | ⟨block, low, other :: rest⟩ :: visits =>
    match sweep.numbers.lookup other with
    | none => enter next { sweep with visits := ⟨block, low, rest⟩ :: visits } other
    | some number =>
      let low := if sweep.opened.contains other then min low number else low
      { sweep with visits := ⟨block, low, rest⟩ :: visits }
  | ⟨block, low, []⟩ :: visits =>
    let left := { sweep with visits := lower low visits }
    if sweep.numbers.lookup block = some low then left.complete next block else left

def run (next : Nat → List Nat) : Nat → Sweep → Sweep
  | 0, sweep => sweep
  | fuel + 1, sweep => if sweep.visits.isEmpty then sweep else run next fuel (sweep.step next)

def visitFrom (next : Nat → List Nat) (fuel : Nat) (sweep : Sweep) (start : Nat) : Sweep :=
  if (sweep.numbers.lookup start).isSome then sweep else run next fuel (sweep.enter next start)

end Sweep

namespace Graph

def ahead (graph : Graph) (block : Nat) : List Nat := sortedSet (graph.successors block)

/-- The search from all blocks in turn. From each of them it looks once at an edge, and it leaves a
block once. -/
def sweep (graph : Graph) : Sweep :=
  (sortedSet graph.nodes).foldl (Sweep.visitFrom graph.ahead (2 * graph.rounds)) {}

def cyclicBlocks (graph : Graph) : List Nat := sortedSet graph.sweep.cyclic

end Graph

end HookLint
