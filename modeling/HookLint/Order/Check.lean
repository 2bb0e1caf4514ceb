import HookLint.Graph.Loop
import HookLint.Order.Slot

/-!
Whether a graph makes the same calls in the same order on every way through it. A call must not be
repeated, every complete way must pass some call that takes its slot, and no two slots may be taken
in both orders. Ways that end in an exception do not count if there are others.
-/

namespace HookLint.Order

inductive Finding where
  | repeated (call : Placement)
  | unreachable (call : Placement)
  | conditional (call : Placement) (early : Bool)
  | reversed (call : Placement) (other : Slot)
deriving DecidableEq, Repr, Inhabited

def endBlock (graph : Graph) : Option Nat :=
  let reachable := graph.reachableFrom graph.entry []
  if reachable.contains graph.exit then some graph.exit
  else graph.throwExit.filter reachable.contains

structure Ending where
  block : Nat
  tree : DominatorTree

def ending (graph : Graph) : Option Ending :=
  (endBlock graph).map fun block => { block, tree := graph.postDominators block }

def Ending.covered (ending : Ending) (graph : Graph) : List Nat → Bool
  | [block] => ending.tree.dominates block graph.entry
  | blocks => !(graph.reachableFrom graph.entry blocks).contains ending.block

def blocksTaking (calls : List Slotted) (slot : Slot) : List Nat :=
  ((calls.filter (·.slots = [slot])).map (·.block)).eraseDups

/-- Whether every complete way takes the slot of a call. Without complete ways it suffices that
there is one slot. -/
def isUnconditional (graph : Graph) (ending : Option Ending) (calls : List Slotted) (call : Slotted) : Bool :=
  match call.slots with
  | [slot] =>
    match ending with
    | some ending => ending.covered graph (blocksTaking calls slot)
    | none => true
  | _ => false

def bypassedByReturn (graph : Graph) (blocks : List Nat) : Bool :=
  let before := graph.reachableFrom graph.entry blocks
  let after := blocks.flatMap (graph.reachableFrom · [])
  before.any fun block =>
    !after.contains block && graph.edges.any fun edge => edge.source = block && edge.kind = .earlyReturn

def placementFinding? (graph : Graph) (ending : Option Ending) (calls : List Slotted) (call : Slotted) : Option Finding :=
  if isUnconditional graph ending calls call then none
  else if ending.any (·.tree.dominates call.block graph.entry) then none
  else match call.slots with
    | [] => some (.unreachable call.toPlacement)
    | [slot] => some (.conditional call.toPlacement (bypassedByReturn graph (blocksTaking calls slot)))
    | _ => some (.conditional call.toPlacement (bypassedByReturn graph [call.block]))

def seenIn (graph : Graph) (calls : List Slotted) : Facts Slot :=
  let pass := fun block seen => (calls.filter (·.block = block)).foldl (fun seen call => Facts.absorb seen call.slots) seen
  Facts.ofEntry graph pass [] (slotBound (calls.map (·.toPlacement)))

def observed (seen : Facts Slot) (calls : List Slotted) (call : Slotted) : List (Slot × Slot) :=
  match seen.lookup call.block with
  | none => []
  | some known =>
    let before := calls.filter (·.earlier call.toPlacement)
    let known := before.foldl (fun seen call => Facts.absorb seen call.slots) known
    call.slots.flatMap fun later => (known.filter (· ≠ later)).map (·, later)

def pairLe (a b : Slot × Slot) : Bool := if a.1 = b.1 then a.2.le b.2 else a.1.le b.1

def graphOrder (a b : Slotted) : Bool := a.block < b.block || (a.block = b.block && a.ordinal ≤ b.ordinal)

def reversals (graph : Graph) (calls : List Slotted) : List Finding :=
  let seen := seenIn graph calls
  let pairs := calls.flatMap (observed seen calls)
  (calls.mergeSort graphOrder).filterMap fun call =>
    let reversed := (observed seen calls call).filter fun (earlier, later) => pairs.contains (later, earlier)
    (reversed.mergeSort pairLe).head?.map fun (earlier, _) => .reversed call.toPlacement earlier

def check (graph : Graph) (placements : List Placement) : List Finding :=
  let repeatable := graph.repeatable
  let (loops, straight) := placements.partition fun placement => repeatable.contains placement.block
  let calls := slotted graph straight
  let ending := ending graph
  loops.map .repeated ++ calls.filterMap (placementFinding? graph ending calls) ++ reversals graph calls

end HookLint.Order
