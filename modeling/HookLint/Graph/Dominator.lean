import HookLint.Graph.Reach

/-!
Dominator trees. A block dominates another if every walk from the root to the other passes
through it; the tree of nearest dominators is found by refining a guess until nothing changes.
-/

namespace HookLint

abbrev Nearest := List (Nat × Nat)

namespace Nearest

def set : Nearest → Nat → Nat → Nearest
  | [], block, value => [(block, value)]
  | (other, old) :: rest, block, value =>
    if other = block then (block, value) :: rest else (other, old) :: set rest block value

/-- Goes up from two blocks until they meet, from the one that comes later in the order. Nothing is
found if a block has no place in the order or no entry. -/
def meet (order : List Nat) (nearest : Nearest) : Nat → Nat → Nat → Option Nat
  | 0, _, _ => none
  | fuel + 1, a, b =>
    if a = b then some a
    else do
      let placeA ← order.idxOf? a
      let placeB ← order.idxOf? b
      if placeA > placeB then meet order nearest fuel (← nearest.lookup a) b
      else meet order nearest fuel a (← nearest.lookup b)

def meetAll (order : List Nat) (nearest : Nearest) (first : Nat) (others : List Nat) : Option Nat :=
  others.foldlM (meet order nearest (2 * order.length + 1)) first

/-- Revises the entry of one block from those of the blocks before it; the flag tells whether it
changed. -/
def revise (order : List Nat) (before : Nat → List Nat) (state : Nearest × Bool) (block : Nat) : Option (Nearest × Bool) :=
  let (nearest, changed) := state
  match (before block).filter fun other => (nearest.lookup other).isSome with
  | [] => some state
  | first :: others => do
    let met ← meetAll order nearest first others
    if nearest.lookup block = some met then some (nearest, changed) else some (nearest.set block met, true)

def refine (order : List Nat) (before : Nat → List Nat) (root : Nat) : Nat → Nearest → Option Nearest
  | 0, _ => none
  | fuel + 1, nearest => do
    let (nearest, changed) ← (order.filter (· ≠ root)).foldlM (revise order before) (nearest, false)
    if changed then refine order before root fuel nearest else some nearest

end Nearest

structure DominatorTree where
  root : Nat
  nearest : Nearest
deriving Repr, Inhabited

namespace Graph

/-- The nearest dominators in a direction. The blocks one step back from a block are gone through as
they are listed. A round that changes something moves an entry up in the order, which bounds the
number of rounds. -/
def nearestDominatorsBy? (graph : Graph) (direction : Direction) (root : Nat) (before : Nat → List Nat) : Option Nearest :=
  let order := graph.reversePostorder direction root
  let rounds := (order.length + 1) * (order.length + 1)
  Nearest.refine order before root rounds [(root, root)]

def dominatorTreeBy (graph : Graph) (direction : Direction) (root : Nat) (before : Nat → List Nat) : DominatorTree :=
  ⟨root, (graph.nearestDominatorsBy? direction root before).getD [(root, root)]⟩

def dominatorTree (graph : Graph) (direction : Direction) (root : Nat) : DominatorTree :=
  graph.dominatorTreeBy direction root (graph.previous direction)

def dominators (graph : Graph) : DominatorTree := graph.dominatorTree .forward graph.entry

def postDominators (graph : Graph) (root : Nat) : DominatorTree := graph.dominatorTree .backward root

end Graph

namespace DominatorTree

def isReachable (tree : DominatorTree) (block : Nat) : Bool := (tree.nearest.lookup block).isSome

def chainFrom (tree : DominatorTree) : Nat → Nat → List Nat
  | 0, _ => []
  | fuel + 1, block =>
    match tree.nearest.lookup block with
    | none => []
    | some up => if up = block then [block] else block :: chainFrom tree fuel up

def dominatorsOf (tree : DominatorTree) (block : Nat) : List Nat := tree.chainFrom tree.nearest.length block

def dominates (tree : DominatorTree) (a b : Nat) : Bool := (tree.dominatorsOf b).contains a

def strictlyDominates (tree : DominatorTree) (a b : Nat) : Bool := a ≠ b && tree.dominates a b

def children (tree : DominatorTree) (block : Nat) : List Nat :=
  (tree.nearest.filter fun entry => entry.2 = block && entry.1 ≠ block).map (·.1)

end DominatorTree

end HookLint
