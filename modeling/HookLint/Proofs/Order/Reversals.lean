import HookLint.Proofs.Order.Conditional

namespace HookLint.Order

open List

variable {early late : Slot} {final : Nat} {path : List Nat} {slottedCalls : List Slotted}

variable {call : Placement} {other slot : Slot}

-- A walk takes the one slot before the other.
def TakenInOrder (calls : List Placement) (path : List Nat) (early late : Slot) : Prop :=
  ∃ first last, [first, last].Sublist (executed calls path) ∧ slotOn (executed calls path) first = early ∧
    slotOn (executed calls path) last = late

-- A call takes the same slot on all walks to it.
def OneSlot (graph : Graph) (calls : List Placement) (call : Placement) : Prop :=
  ∀ path other, Walk graph.successors graph.entry path call.block → Walk graph.successors graph.entry other call.block →
    slotOn (executed calls path) call = slotOn (executed calls other) call

-- One walk makes a call after it has taken some slot, and another walk takes the two slots the other way round.
def ReversedAt (graph : Graph) (calls : List Placement) (call : Placement) (other : Slot) : Prop :=
  ∃ path final back last, Walk graph.successors graph.entry path final ∧ Walk graph.successors graph.entry back last ∧
    call ∈ executed calls path ∧ TakenInOrder calls path other (slotOn (executed calls path) call) ∧
    TakenInOrder calls back (slotOn (executed calls path) call) other

section
variable {graph : Graph} {calls placements : List Placement}

-- What is reported at a call is a pair of slots that is observed there, and the other way round at some call.
theorem reversed_observed
    (found : .reversed call other ∈ reversals graph slottedCalls) : ∃ reported ∈ slottedCalls, reported.toPlacement = call ∧ ∃ late,
      (other, late) ∈ observed (seenIn graph slottedCalls) slottedCalls reported ∧ (late, other) ∈ observedPairs graph slottedCalls := by
  obtain ⟨reported, listed, found⟩ := mem_filterMap.mp found
  obtain ⟨⟨early, late⟩, first, made⟩ := Option.map_eq_some_iff.mp found
  obtain ⟨rfl, rfl⟩ := Finding.reversed.inj made
  have member := mem_mergeSort.mp (mem_of_head? first)
  obtain ⟨seen, reversed⟩ := mem_filter.mp member
  exact ⟨reported, mem_mergeSort.mp listed, rfl, late, seen, by simpa [observedPairs] using reversed⟩

theorem observed_reversed {call : Slotted} (listed : call ∈ slottedCalls)
    (seen : (early, late) ∈ observed (seenIn graph slottedCalls) slottedCalls call)
    (reversed : (late, early) ∈ observedPairs graph slottedCalls) :
    ∃ other, .reversed call.toPlacement other ∈ reversals graph slottedCalls := by
  let pairs := (observed (seenIn graph slottedCalls) slottedCalls call).filter fun pair =>
    (slottedCalls.flatMap (observed (seenIn graph slottedCalls) slottedCalls)).contains pair.swap
  have inside : (early, late) ∈ pairs.mergeSort pairLe := by
    refine mem_mergeSort.mpr (mem_filter.mpr ⟨seen, ?_⟩)
    simpa [observedPairs] using reversed
  have isFirst := List.head?_eq_some_head (ne_nil_of_mem inside)
  exact ⟨_, mem_filterMap.mpr ⟨call, mem_mergeSort.mpr listed, Option.map_eq_some_iff.mpr ⟨_, isFirst, rfl⟩⟩⟩

section
variable (straight : Straight graph calls)
include straight

theorem OneSlot.of_slots (member : call ∈ calls)
    (only : slotsOf (countsIn graph calls) calls call = [slot]) : OneSlot graph calls call := by
  have exact := slots_of_exact straight call member
  rw [only] at exact
  intro path other walk otherWalk
  rw [mem_singleton.mp ((exact _).mpr ⟨path, walk, rfl⟩), mem_singleton.mp ((exact _).mpr ⟨other, otherWalk, rfl⟩)]

theorem OneSlot.taken {call : Slotted} (listed : call ∈ slotted graph calls)
    (only : OneSlot graph calls call.toPlacement) (takes : slot ∈ call.slots)
    (walk : Walk graph.successors graph.entry path final) (made : call.toPlacement ∈ executed calls path) :
    slotOn (executed calls path) call.toPlacement = slot := by
  obtain ⟨placed, slots⟩ := (mem_slotted graph calls call).mp listed
  rw [slots] at takes
  have exact := slots_of_exact straight call.toPlacement placed
  obtain ⟨way, reaching, isSlot⟩ := (exact slot).mp takes
  obtain ⟨other, otherReaching, isOther⟩ := (exact _).mp (walk_takes straight path final walk call.toPlacement made)
  rw [isOther, isSlot]
  exact only other way otherReaching reaching

theorem TakenInOrder.lt (walk : Walk graph.successors graph.entry path final)
    (inOrder : TakenInOrder calls path early late) (same : early.callee = late.callee) : early.index < late.index := by
  obtain ⟨first, last, pair, rfl, rfl⟩ := inOrder
  have distinct := executed_nodup straight.sequenced straight.acyclic walk
  obtain ⟨before, between, after, split⟩ := pair_split pair
  rw [split] at distinct ⊢
  exact slot_on_lt before between after first last distinct same

theorem slot_callee {call : Slotted} (listed : call ∈ slotted graph calls) (takes : slot ∈ call.slots) : slot.callee = call.callee := by
  obtain ⟨placed, slots⟩ := (mem_slotted graph calls call).mp listed
  rw [slots] at takes
  obtain ⟨_, _, rfl⟩ := (slots_of_exact straight call.toPlacement placed slot).mp takes
  rfl

end

theorem reversed_mem_check : .reversed call other ∈ check graph placements ↔
    .reversed call other ∈ reversals graph (slotted graph (outsideLoops graph placements)) := by
  simp only [check, partition_eq_filter_filter, outside_loops_eq, mem_append]
  refine ⟨?_, .inr⟩
  rintro ((repeated | placed) | reversed)
  · obtain ⟨_, _, made⟩ := mem_map.mp repeated
    cases made
  · obtain ⟨_, _, found⟩ := mem_filterMap.mp placed
    cases placement_finding_conditional found
  · exact reversed

theorem reversed_real (straight : Straight graph calls) (found : .reversed call other ∈ reversals graph (slotted graph calls))
    (settled : ∀ one ∈ calls, one.callee = call.callee ∨ one.callee = other.callee → OneSlot graph calls one) :
    ReversedAt graph calls call other ∧ other.callee ≠ call.callee := by
  have placed {call : Slotted} (listed : call ∈ slotted graph calls) := ((mem_slotted graph calls call).mp listed).1
  obtain ⟨reported, hasReported, rfl, late, seen, reversed⟩ := reversed_observed found
  obtain ⟨_, takesLate, a, hasA, takesOther, path, walk, pair⟩ := (mem_observed straight reported hasReported other late).mp seen
  obtain ⟨_, c, hasC, d, hasD, takesBack, takesLast, back, backWalk, backPair⟩ := (mem_observed_pairs straight late other).mp reversed
  have isLate := slot_callee straight hasReported takesLate
  -- each of the four calls takes on its walk the slot that it is observed with
  have taken {one : Slotted} (hasOne : one ∈ slotted graph calls) {slot : Slot} (takes : slot ∈ one.slots)
      (either : slot.callee = reported.callee ∨ slot.callee = other.callee) {path : List Nat} {final : Nat}
      (walk : Walk graph.successors graph.entry path final) (made : one.toPlacement ∈ executed calls path) :
      slotOn (executed calls path) one.toPlacement = slot := by
    rw [slot_callee straight hasOne takes] at either
    exact (settled _ (placed hasOne) either).taken straight hasOne takes walk made
  have isOwn := taken hasReported takesLate (.inl isLate) walk (pair.subset (by simp))
  have forth : TakenInOrder calls path other late := ⟨_, _, pair, taken hasA takesOther (.inr rfl) walk (pair.subset (by simp)), isOwn⟩
  have reverse : TakenInOrder calls back late other :=
    ⟨_, _, backPair, taken hasC takesBack (.inl isLate) backWalk (backPair.subset (by simp)),
      taken hasD takesLast (.inr rfl) backWalk (backPair.subset (by simp))⟩
  refine ⟨⟨path, _, back, _, walk, backWalk, pair.subset (by simp), ?_, ?_⟩, fun same => ?_⟩
  · rw [isOwn]
    exact forth
  · rw [isOwn]
    exact reverse
  · have less := forth.lt straight walk (same.trans isLate.symm)
    have greater := reverse.lt straight backWalk (isLate.trans same.symm)
    omega

theorem real_reversed (straight : Straight graph calls) (real : ReversedAt graph calls call other) :
    ∃ found, .reversed call found ∈ reversals graph (slotted graph calls) := by
  obtain ⟨path, final, back, last, walk, backWalk, made, ⟨first, again, pair, rfl, isOwn⟩, ⟨c, d, backPair, isLate, isOther⟩⟩ := real
  have distinct := executed_nodup straight.sequenced straight.acyclic walk
  obtain rfl : again = call := slot_on_injective _ distinct _ _ (pair.subset (by simp)) made isOwn
  let slottedOf (one : Placement) : Slotted := ⟨one, slotsOf (countsIn graph calls) calls one⟩
  have listed {path : List Nat} {one : Placement} (made : one ∈ executed calls path) : slottedOf one ∈ slotted graph calls :=
    (mem_slotted graph calls _).mpr ⟨((mem_executed calls path one).mp made).1, rfl⟩
  have takes := walk_takes straight path final walk
  have backTakes := walk_takes straight back last backWalk
  have different : slotOn (executed calls path) first ≠ slotOn (executed calls path) again := by
    intro same
    obtain rfl := slot_on_injective _ distinct _ _ (pair.subset (by simp)) made same
    exact pair_not_reversed distinct pair pair
  have seen : (slotOn (executed calls path) first, slotOn (executed calls path) again) ∈
      observed (seenIn graph (slotted graph calls)) (slotted graph calls) (slottedOf again) :=
    (mem_observed straight _ (listed made) _ _).mpr ⟨different, takes again made, slottedOf first,
      listed (pair.subset (by simp)), takes first (pair.subset (by simp)), pair_ending straight walk pair⟩
  refine observed_reversed (listed made) seen (walk_observed straight back last backWalk (slottedOf c) (slottedOf d)
    (listed (backPair.subset (by simp))) (listed (backPair.subset (by simp))) backPair _ ?_ _ ?_ different.symm)
  · exact isLate ▸ backTakes c (backPair.subset (by simp))
  · exact isOther ▸ backTakes d (backPair.subset (by simp))

end

-- A reversal on the walks of a graph is reported. What is reported is a reversal on them if the calls of its two callees have one slot each.
theorem reversal_reports_real (graph : Graph) (placements : List Placement) (wellFormed : graph.WellFormed)
    (numbered : placements.Pairwise (·.number < ·.number)) (call : Placement) (other : Slot) :
    (.reversed call other ∈ check graph placements →
      (∀ one ∈ outsideLoops graph placements, one.callee = call.callee ∨ one.callee = other.callee →
        OneSlot graph (outsideLoops graph placements) one) →
      ReversedAt graph (outsideLoops graph placements) call other ∧ other.callee ≠ call.callee) ∧
    (ReversedAt graph (outsideLoops graph placements) call other → ∃ found, .reversed call found ∈ check graph placements) := by
  have straight := outside_straight placements wellFormed numbered
  simp only [reversed_mem_check]
  exact ⟨reversed_real straight, real_reversed straight⟩

-- Without that condition the report can be wrong: here the walks call `useState, useRef` once or twice.
-- Two branches make the same two calls, each in its own order.
def crossedGraph : Graph where
  nodes := [0, 1, 2, 3]
  wiring := .of [⟨0, 1, .whenTrue⟩, ⟨0, 2, .whenFalse⟩, ⟨1, 3, .unconditional⟩, ⟨2, 3, .unconditional⟩]
  exit := 3

def crossedCalls : List Placement := [⟨0, "useState", 1, 0⟩, ⟨1, "useRef", 1, 1⟩, ⟨2, "useRef", 2, 0⟩, ⟨3, "useState", 2, 1⟩]

theorem crossed_calls_reversed : .reversed ⟨1, "useRef", 1, 1⟩ ⟨"useState", 1⟩ ∈ check crossedGraph crossedCalls ∧
    ReversedAt crossedGraph (outsideLoops crossedGraph crossedCalls) ⟨1, "useRef", 1, 1⟩ ⟨"useState", 1⟩ := by
  have wellFormed : crossedGraph.WellFormed := ⟨by decide, by decide, by decide⟩
  have numbered : crossedCalls.Pairwise (·.number < ·.number) := by simp [crossedCalls]
  have loops : crossedGraph.loopBlocks = [] := by cbv
  have bodies : crossedGraph.loopBody = [] := rfl
  have all : outsideLoops crossedGraph crossedCalls = crossedCalls := by simp [outsideLoops, loops, bodies]
  have straight := outside_straight crossedCalls wellFormed numbered
  have found : .reversed ⟨1, "useRef", 1, 1⟩ ⟨"useState", 1⟩ ∈ check crossedGraph crossedCalls := by
    have whole : check crossedGraph crossedCalls =
        [.reversed ⟨1, "useRef", 1, 1⟩ ⟨"useState", 1⟩, .reversed ⟨3, "useState", 2, 1⟩ ⟨"useRef", 1⟩] := by cbv
    rw [whole]
    exact mem_cons_self
  have settled : ∀ one ∈ crossedCalls, OneSlot crossedGraph crossedCalls one := by
    have slots : crossedCalls.map (slotsOf (countsIn crossedGraph crossedCalls) crossedCalls) = crossedCalls.map fun one => [⟨one.callee, 1⟩] := by
      cbv
    intro one member
    exact .of_slots (all ▸ straight) member (map_inj_left.mp slots one member)
  refine ⟨found, ((reversal_reports_real crossedGraph crossedCalls wellFormed numbered _ _).1 found ?_).1⟩
  rw [all]
  exact fun one member _ => settled one member

end HookLint.Order
