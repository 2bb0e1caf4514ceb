import HookLint.Proofs.Order.Soundness

namespace HookLint.Order

open List

variable {call : Placement} {last : Nat} {other path : List Nat}

theorem nth_place {α : Type} [BEq α] [LawfulBEq α] (item : α) (first second early late : List α)
    (same : first ++ item :: early = second ++ item :: late) (count : first.count item = second.count item) : first = second := by
  rcases append_eq_append_iff.mp same with ⟨between, longer, rest⟩ | ⟨between, longer, rest⟩
  · cases between with
    | nil => simpa using longer.symm
    | cons head between =>
      obtain ⟨rfl, _⟩ := List.cons.inj rest
      simp [longer] at count
  cases between with
  | nil => simpa using longer
  | cons head between =>
    obtain ⟨rfl, _⟩ := List.cons.inj rest
    simp [longer] at count

theorem slot_place (run other before after first last : List Placement) (call taker : Placement) (distinct : run.Nodup)
    (otherDistinct : other.Nodup) (same : run.map (·.callee) = other.map (·.callee))
    (split : run = before ++ call :: after) (otherSplit : other = first ++ taker :: last)
    (slot : slotOn run call = slotOn other taker) : before.length = first.length := by
  rw [slot_on_of_nodup run before after call distinct split, slot_on_of_nodup other first last taker otherDistinct otherSplit] at slot
  obtain ⟨callee, index⟩ := Slot.mk.inj slot
  simp only [split, otherSplit, map_append, map_cons, callee] at same
  have equal := nth_place taker.callee _ _ _ _ same (by
    rw [callee, count_callee_map, count_callee_map] at index
    omega)
  simpa using congrArg List.length equal

theorem slot_taken (run other : List Placement) (call : Placement) (distinct : run.Nodup) (otherDistinct : other.Nodup)
    (same : run.map (·.callee) = other.map (·.callee)) (made : call ∈ run) : ∃ taker ∈ other, slotOn other taker = slotOn run call := by
  obtain ⟨before, after, split⟩ := append_of_mem made
  rw [split, map_append, map_cons] at same
  obtain ⟨first, rest, otherSplit, firstSame, restSame⟩ := map_eq_append_iff.mp same.symm
  obtain ⟨taker, last, rfl, callee, _⟩ := map_eq_cons_iff.mp restSame
  refine ⟨taker, by simp [otherSplit], ?_⟩
  rw [slot_on_of_nodup run before after call distinct split,
    slot_on_of_nodup other first last taker otherDistinct otherSplit, callee, count_callee_map, count_callee_map, firstSame]

theorem eq_singleton {α : Type} {items : List α} {item : α} (distinct : items.Nodup) (member : item ∈ items)
    (only : ∀ other ∈ items, other = item) : items = [item] := by
  refine perm_singleton.mp ((perm_ext_iff_of_nodup distinct (nodup_singleton item)).mpr fun other => ?_)
  rw [mem_singleton]
  exact ⟨only other, fun same => same ▸ member⟩

-- Calls that all complete walks make in one order, each of them on some complete walk.
structure Stable (graph : Graph) (placements : List Placement) (final : Nat) : Prop extends Straight graph placements where
  placed : ∀ call ∈ placements, ∃ path, Walk graph.successors graph.entry path final ∧ call.block ∈ path
  agree : ∀ path other, Walk graph.successors graph.entry path final → Walk graph.successors graph.entry other final →
    callees placements path = callees placements other

section
variable {graph : Graph} {placements : List Placement} {final : Nat}

section
variable (stable : Stable graph placements final)
include stable

section
variable (member : call ∈ placements)
include member

theorem Stable.completes : ∃ after, Walk graph.successors call.block (call.block :: after) final := by
  obtain ⟨path, walk, visited⟩ := stable.placed call member
  obtain ⟨before, after, _, _, rest⟩ := walk_split walk visited
  exact ⟨after, rest⟩

theorem Stable.agree_before {before : List Nat} (walk : Walk graph.successors graph.entry (before ++ [call.block]) call.block)
    (otherWalk : Walk graph.successors graph.entry (other ++ [call.block]) call.block) :
    callees placements before = callees placements other := by
  obtain ⟨after, rest⟩ := stable.completes member
  have same := stable.agree _ _ (walk_append walk rest) (walk_append otherWalk rest)
  simp only [callees, executed_append, map_append, append_assoc] at same
  exact append_cancel_right same

theorem Stable.slot_unique (walk : Walk graph.successors graph.entry path call.block)
    (otherWalk : Walk graph.successors graph.entry other call.block) :
    slotOn (executed placements path) call = slotOn (executed placements other) call := by
  have reaching (before : List Nat) (walk : Walk graph.successors graph.entry (before ++ [call.block]) call.block) :
      call.block ∉ before := by
    have once := walk_count_le_one walk (stable.acyclic call member)
    apply count_eq_zero.mp
    simpa [count_append] using once
  obtain ⟨before, rfl⟩ := walk_ends walk
  obtain ⟨first, rfl⟩ := walk_ends otherWalk
  have same := stable.agree_before member walk otherWalk
  rw [slot_on_reaching placements stable.sequenced call member before (reaching before walk),
    slot_on_reaching placements stable.sequenced call member first (reaching first otherWalk),
    count_callee_map, count_callee_map]
  simp only [callees] at same
  rw [same]

end

theorem Stable.only_slot (call : Placement) (member : call ∈ placements) :
    ∃ slot, slotsOf (countsIn graph placements) placements call = [slot] := by
  obtain ⟨path, walk, visited⟩ := stable.placed call member
  obtain ⟨before, _, rfl, reaching, _⟩ := walk_split walk visited
  refine ⟨slotOn (executed placements (before ++ [call.block])) call, ?_⟩
  have exact := slots_of_exact stable.toStraight call member
  refine eq_singleton (slots_of_nodup stable.toStraight call) ?_ ?_
  · exact (exact _).mpr ⟨_, reaching, rfl⟩
  · intro slot taken
    obtain ⟨other, otherWalk, rfl⟩ := (exact slot).mp taken
    exact stable.slot_unique member otherWalk reaching

section
variable (walk : Walk graph.successors graph.entry path last)
include walk

theorem Stable.takes (call : Slotted) (listed : call ∈ slotted graph placements)
    (made : call.toPlacement ∈ executed placements path) (slot : Slot) (taken : slot ∈ call.slots) :
    slotOn (executed placements path) call.toPlacement = slot := by
  obtain ⟨member, slots⟩ := (mem_slotted graph placements call).mp listed
  obtain ⟨only, single⟩ := stable.only_slot call.toPlacement member
  have here := walk_takes stable.toStraight path last walk call.toPlacement made
  rw [single, mem_singleton] at here
  rw [slots, single, mem_singleton] at taken
  rw [here, taken]

theorem Stable.run_nodup : (executed placements path).Nodup :=
  executed_nodup stable.sequenced stable.acyclic walk

end

theorem Stable.slot_covered (call : Slotted)
    (listed : call ∈ slotted graph placements) (slot : Slot) (only : call.slots = [slot]) (path : List Nat)
    (walk : Walk graph.successors graph.entry path final) :
    ∃ taker ∈ slotted graph placements, taker.slots = [slot] ∧ taker.block ∈ path := by
  obtain ⟨member, _⟩ := (mem_slotted graph placements call).mp listed
  obtain ⟨other, otherWalk, visited⟩ := stable.placed call.toPlacement member
  have made := (mem_executed placements other call.toPlacement).mpr ⟨member, visited⟩
  have takes := stable.takes otherWalk call listed made slot (by simp [only])
  obtain ⟨taker, takerMade, takerSlot⟩ := slot_taken _ _ call.toPlacement (stable.run_nodup otherWalk)
    (stable.run_nodup walk) (stable.agree other path otherWalk walk) made
  obtain ⟨takerMember, takerVisited⟩ := (mem_executed placements path taker).mp takerMade
  obtain ⟨single, isSingle⟩ := stable.only_slot taker takerMember
  have takerTakes := walk_takes stable.toStraight path final walk taker takerMade
  rw [isSingle, mem_singleton, takerSlot, takes] at takerTakes
  have takerListed : (⟨taker, [slot]⟩ : Slotted) ∈ slotted graph placements :=
    (mem_slotted graph placements _).mpr ⟨takerMember, by rw [isSingle, takerTakes]⟩
  exact ⟨_, takerListed, rfl, takerVisited⟩

theorem Stable.no_placement_finding
    (reached : ∃ path, Walk graph.successors graph.entry path final) (call : Slotted) (listed : call ∈ slotted graph placements) :
    placementFinding? graph (some ⟨final, graph.postDominators final⟩) (slotted graph placements) call = none := by
  obtain ⟨member, slots⟩ := (mem_slotted graph placements call).mp listed
  obtain ⟨slot, single⟩ := stable.only_slot call.toPlacement member
  have only : call.slots = [slot] := slots.trans single
  exact (placement_none_iff reached _ call).mpr (.inl ⟨slot, only, stable.slot_covered call listed slot only⟩)

theorem Stable.unreversed (early late : Slot) (pair : (early, late) ∈ observedPairs graph (slotted graph placements)) :
    (late, early) ∉ observedPairs graph (slotted graph placements) := by
  intro back
  -- each order shows on some complete walk
  have shown (early late : Slot) (pair : (early, late) ∈ observedPairs graph (slotted graph placements)) :
      ∃ path, Walk graph.successors graph.entry path final ∧ ∃ before a between b after,
        executed placements path = before ++ a :: between ++ b :: after ∧
          slotOn (executed placements path) a = early ∧ slotOn (executed placements path) b = late := by
    obtain ⟨_, a, hasA, b, hasB, takesA, takesB, path, walk, inOrder⟩ := (mem_observed_pairs stable.toStraight early late).mp pair
    obtain ⟨after, rest⟩ := stable.completes ((mem_slotted graph placements b).mp hasB).1
    have whole := walk_append walk rest
    have inOrder : [a.toPlacement, b.toPlacement].Sublist (executed placements (path ++ after)) := by
      rw [executed_append]
      exact inOrder.trans (sublist_append_left _ _)
    have slotA := stable.takes whole a hasA (inOrder.subset (by simp)) early takesA
    have slotB := stable.takes whole b hasB (inOrder.subset (by simp)) late takesB
    obtain ⟨before, between, after, split⟩ := pair_split inOrder
    exact ⟨_, whole, before, a.toPlacement, between, b.toPlacement, after, split, slotA, slotB⟩
  obtain ⟨path, walk, before, a, between, b, after, split, slotA, slotB⟩ := shown early late pair
  obtain ⟨other, otherWalk, first, c, middle, d, last, otherSplit, slotC, slotD⟩ := shown late early back
  have same := stable.agree path other walk otherWalk
  have distinct := stable.run_nodup walk
  have otherDistinct := stable.run_nodup otherWalk
  have placeEarly := slot_place _ _ before (between ++ b :: after) (first ++ c :: middle) last a d distinct otherDistinct
    same (by simp [split]) otherSplit (slotA.trans slotD.symm)
  have placeLate := slot_place _ _ (before ++ a :: between) after first (middle ++ d :: last) b c distinct otherDistinct
    same split (by simp [otherSplit]) (slotB.trans slotC.symm)
  simp only [length_append, length_cons] at placeEarly placeLate
  omega

theorem Stable.no_reversals : reversals graph (slotted graph placements) = [] := by
  refine filterMap_eq_nil_iff.mpr fun call listed => ?_
  rw [Option.map_eq_none_iff, List.head?_eq_none_iff, ← length_eq_zero_iff, length_mergeSort, length_eq_zero_iff, filter_eq_nil_iff]
  rintro ⟨early, late⟩ seen reversed
  have pair : (early, late) ∈ observedPairs graph (slotted graph placements) :=
    mem_flatMap.mpr ⟨call, mem_mergeSort.mp listed, seen⟩
  exact stable.unreversed early late pair (by simpa [observedPairs] using reversed)

end

end

theorem stable_order_clean (graph : Graph) (placements : List Placement) (wellFormed : graph.WellFormed)
    (numbered : placements.Pairwise (·.number < ·.number)) (final : Nat) (ends : endBlock graph = some final)
    (outside : ∀ call ∈ placements, call.block ∉ graph.loopBlocks ∧ call.block ∉ graph.loopBody)
    (placed : ∀ call ∈ placements, ∃ path, Walk graph.successors graph.entry path final ∧ call.block ∈ path)
    (agree : ∀ path other, Walk graph.successors graph.entry path final → Walk graph.successors graph.entry other final →
      callees placements path = callees placements other) : check graph placements = [] := by
  have away : ∀ call ∈ placements, call.block ∉ graph.repeatable := by
    intro call member
    rw [Graph.repeatable, mem_sorted_set, mem_append]
    exact not_or.mpr (outside call member)
  have straight := straight_of_outside graph placements wellFormed (numbered_sequenced placements numbered) away
  have stable : Stable graph placements final := ⟨straight, placed, agree⟩
  have isEnding : ending graph = some ⟨final, graph.postDominators final⟩ := by simp [ending, ends]
  rw [check_straight graph placements away, stable.no_reversals, append_nil, filterMap_eq_nil_iff, isEnding]
  exact fun call listed => stable.no_placement_finding (end_block_reached graph final ends) call listed

theorem forked_callees (start : Nat) (path : List Nat) (walk : Walk forkedGraph.successors start path 4) :
    callees forkedCalls path = if start ≤ 2 then ["useState", "useEffect"] else ["useEffect"] := by
  have each : ∀ link ∈ forkedGraph.edges, callees forkedCalls [link.source] ++
      (if link.target ≤ 2 then ["useState", "useEffect"] else ["useEffect"]) =
      if link.source ≤ 2 then ["useState", "useEffect"] else ["useEffect"] := by
    intro link member
    fin_cases member <;> cbv
  generalize isEnd : 4 = final at walk
  induction walk with
  | single block =>
    subst isEnd
    cbv
  | step start via final path edge rest ih =>
    have first : callees forkedCalls (start :: path) = callees forkedCalls [start] ++ callees forkedCalls path := by
      simp [callees, executed]
    obtain ⟨link, member, rfl, rfl⟩ := (forkedGraph.mem_successors start via).mp edge
    rw [first, ih isEnd, each link member]

theorem forked_order_clean : endBlock forkedGraph = some 4 ∧ (∃ call ∈ forkedCalls, call.block = 1) ∧
    check forkedGraph forkedCalls = [] := by
  have wellFormed : forkedGraph.WellFormed := ⟨by decide, by decide, by decide⟩
  have ends : endBlock forkedGraph = some 4 := by cbv
  have leaves : Walk forkedGraph.successors 3 [3, 4] 4 := .step 3 4 4 [4] (by decide) (.single 4)
  have left : Walk forkedGraph.successors 0 [0, 1, 3, 4] 4 := .step 0 1 4 _ (by decide) (.step 1 3 4 _ (by decide) leaves)
  have right : Walk forkedGraph.successors 0 [0, 2, 3, 4] 4 := .step 0 2 4 _ (by decide) (.step 2 3 4 _ (by decide) leaves)
  refine ⟨ends, by decide, stable_order_clean forkedGraph forkedCalls wellFormed (by simp [forkedCalls]) 4 ends ?_ ?_ ?_⟩
  · have loops : forkedGraph.loopBlocks = [3] := by cbv
    have bodies : forkedGraph.loopBody = [] := rfl
    rw [loops, bodies]
    decide
  · intro call member
    have either : call.block ∈ [0, 1, 3, 4] ∨ call.block ∈ [0, 2, 3, 4] := by
      revert call
      decide
    exact either.elim (fun visited => ⟨_, left, visited⟩) fun visited => ⟨_, right, visited⟩
  · intro path other walk otherWalk
    rw [forked_callees 0 path walk, forked_callees 0 other otherWalk]

end HookLint.Order
