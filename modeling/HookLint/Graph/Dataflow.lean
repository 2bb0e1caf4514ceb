import HookLint.Graph.Basic

/-!
Facts that flow along the edges of a graph. A block knows what holds on some way to it; whatever
it learns is handed on to its successors until nobody learns anything new.
-/

namespace HookLint

abbrev Facts (α : Type) := List (Nat × List α)

namespace Facts

variable {α : Type} [BEq α]

def absorb (known fresh : List α) : List α := known ++ fresh.filter (!known.contains ·)

structure Spread (α : Type) where
  pending : List Nat
  facts : Facts α

def tell (fresh : List α) (spread : Spread α) (block : Nat) : Spread α :=
  match spread.facts.lookup block with
  | none => { pending := block :: spread.pending, facts := (block, fresh) :: spread.facts }
  | some known =>
    if fresh.all known.contains then spread
    else {
      pending := block :: spread.pending
      facts := spread.facts.map fun entry => if entry.1 = block then (block, absorb known fresh) else entry }

/-- Spreads facts for a number of rounds. In each round one block passes on what it knows, changed
by what happens in it. -/
def spread (graph : Graph) (pass : Nat → List α → List α) : Nat → Spread α → Facts α
  | 0, state => state.facts
  | rounds + 1, state =>
    match state.pending with
    | [] => state.facts
    | block :: rest =>
      let fresh := pass block ((state.facts.lookup block).getD [])
      spread graph pass rounds ((graph.successors block).foldl (tell fresh) { state with pending := rest })

/-- What is known in each block, from what is known at the entry. No block ever knows more facts
than `bound`, so no block has news more than `bound + 1` times. -/
def ofEntry (graph : Graph) (pass : Nat → List α → List α) (start : List α) (bound : Nat) : Facts α :=
  spread graph pass (graph.nodes.length * (bound + 1) + 1) {
    pending := [graph.entry]
    facts := [(graph.entry, start)] }

end Facts

end HookLint
