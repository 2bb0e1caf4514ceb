import HookLint.Proofs.Graph.Exactness

/-!
The search for nearest dominators under way. Main statement: in every table all blocks that it asks for have a
place in the order and an entry, two blocks meet, and the rounds come to an end.
-/

namespace HookLint.Nearest

open List

-- The tables of the search, each with the blocks whose turn comes in the same round.
inductive Passing (order : List Nat) (before : Nat → List Nat) (root : Nat) : List Nat → Nearest → Prop where
  | start : Passing order before root (order.filter (· ≠ root)) [(root, root)]
  | revised {block : Nat} {rest : List Nat} {nearest after : Nearest} {was changed : Bool}
      (passing : Passing order before root (block :: rest) nearest)
      (run : revise order before (nearest, was) block = some (after, changed)) : Passing order before root rest after
  | again {nearest : Nearest} (passing : Passing order before root [] nearest) :
      Passing order before root (order.filter (· ≠ root)) nearest

variable {next before : Nat → List Nat} {root : Nat} {order waiting : List Nat} {nearest : Nearest}

theorem Passing.underway (passing : Passing order before root waiting nearest) (ordered : Ordered next root order)
    (listed : ∀ a b, b ∈ next a ↔ a ∈ before b) :
    ∃ most done, order.filter (· ≠ root) = done ++ waiting ∧ Underway next root order most done nearest := by
  induction passing with
  | start => exact ⟨0, [], rfl, underway_start ordered⟩
  | revised _ run ih =>
    obtain ⟨most, done, split, state⟩ := ih
    obtain ⟨_, _, same, state⟩ := state.step ordered listed _ _ split _
    cases same.symm.trans run
    exact ⟨most, _, by rw [split, append_assoc, singleton_append], state⟩
  | again _ ih =>
    obtain ⟨most, done, split, state⟩ := ih
    rw [append_nil] at split
    exact ⟨most + 1, [], rfl, (split ▸ state).next_round ordered⟩

end HookLint.Nearest

namespace HookLint.Graph

open List Nearest

-- Each step of a meeting moves a block up in the order, so the two places bound their number.
theorem dominator_rounds_end (graph : Graph) (direction : Direction) (root : Nat) (before : Nat → List Nat)
    (listed : ∀ block, (before block).Perm (graph.previous direction block)) :
    let order := graph.reversePostorder direction root
    (graph.nearestDominatorsBy? direction root before).isSome ∧
      (∀ rounds, order.length < rounds → (refine order before root rounds [(root, root)]).isSome) ∧
      ∀ waiting nearest, Passing order before root waiting nearest → (∀ block up, nearest.lookup block = some up →
          block ∈ order ∧ (block ≠ root → (nearest.lookup up).isSome ∧ order.idxOf up < order.idxOf block)) ∧
        (∀ a b, (nearest.lookup a).isSome → (nearest.lookup b).isSome → ∀ steps, order.idxOf a + order.idxOf b < steps →
          (meet order nearest steps a b).isSome) ∧
        ∀ block rest changed, waiting = block :: rest → (revise order before (nearest, changed) block).isSome := by
  have ordered := graph.reverse_postorder_ordered direction root
  have iff := graph.listed_iff direction before listed
  have ends (rounds : Nat) (enough : (graph.reversePostorder direction root).length < rounds) :
      (refine (graph.reversePostorder direction root) before root rounds [(root, root)]).isSome := by
    obtain ⟨final, found, _⟩ := (underway_start ordered).refine_ends ordered iff rounds (Nat.zero_le _) enough
    exact Option.isSome_of_eq_some found
  refine ⟨ends _ (Nat.lt_of_lt_of_le (Nat.lt_succ_self _) (Nat.le_mul_of_pos_left _ (Nat.succ_pos _))), ends, fun waiting nearest passing => ?_⟩
  obtain ⟨most, done, split, state⟩ := passing.underway ordered iff
  refine ⟨fun block up entry => ⟨state.rising.listed block up entry, state.rising.rises block up entry⟩, ?_, ?_⟩
  · intro a b entryA entryB steps enough
    obtain ⟨met, found⟩ := state.rising.meet_some ordered steps a b entryA entryB enough
    exact Option.isSome_of_eq_some found
  · rintro block rest changed rfl
    obtain ⟨after, changed', run, _⟩ := state.step ordered iff block rest split changed
    exact Option.isSome_of_eq_some run

theorem tangled_rounds_end : (tangledGraph.nearestDominatorsBy? .backward 3 fun block => (tangledGraph.successors block).reverse).isSome ∧
    (Nearest.refine (tangledGraph.reversePostorder .backward 3) (fun block => (tangledGraph.successors block).reverse) 3 9 [(3, 3)]).isSome := by
  obtain ⟨found, ends, _⟩ := dominator_rounds_end tangledGraph .backward 3 (fun block => (tangledGraph.successors block).reverse)
    fun block => reverse_perm _
  exact ⟨found, ends 9 (by cbv)⟩

end HookLint.Graph
