import HookLint.Graph.Dataflow

namespace HookLint.Order

/-- A call whose order matters. Calls under review have different numbers, and within a block they
happen in the order of their ordinals. -/
structure Placement where
  number : Nat
  callee : String
  block : Nat
  ordinal : Nat
deriving DecidableEq, Repr, Inhabited

def Placement.earlier (a b : Placement) : Bool :=
  a.block = b.block && (a.ordinal < b.ordinal || (a.ordinal = b.ordinal && a.number < b.number))

structure Slot where
  callee : String
  index : Nat
deriving DecidableEq, Repr, Inhabited

def Slot.le (a b : Slot) : Bool := a.callee < b.callee || (a.callee = b.callee && a.index ≤ b.index)

def slotBound (placements : List Placement) : Nat := placements.length * (placements.length + 1)

def passCounts (placements : List Placement) (block : Nat) (counts : List Slot) : List Slot :=
  counts.map fun count =>
    { count with index := count.index + placements.countP fun p => p.block = block && p.callee = count.callee }

def countsIn (graph : Graph) (placements : List Placement) : Facts Slot :=
  let callees := (placements.map (·.callee)).eraseDups
  Facts.ofEntry graph (passCounts placements) (callees.map (⟨·, 0⟩)) (slotBound placements)

def slotsOf (counts : Facts Slot) (placements : List Placement) (placement : Placement) : List Slot :=
  match counts.lookup placement.block with
  | none => []
  | some known =>
    let before := placements.countP fun p => p.earlier placement && p.callee = placement.callee
    (known.filter (·.callee = placement.callee)).map fun count => { count with index := count.index + before + 1 }

structure Slotted extends Placement where
  slots : List Slot
deriving DecidableEq, Repr, Inhabited

def slotted (graph : Graph) (placements : List Placement) : List Slotted :=
  let counts := countsIn graph placements
  placements.map fun placement => { toPlacement := placement, slots := slotsOf counts placements placement }

end HookLint.Order
