import HookLint.Order.Report
import HookLint.Proofs.Graph.Cycles
import HookLint.Proofs.Graph.Exactness
import HookLint.Proofs.Order.Slots

namespace HookLint.Order

open List

variable {a b : Placement} {calls : List Slotted} {final : Nat} {finding : Finding} {graph : Graph} {path : List Nat}

section
variable {graph : Graph} {placements : List Placement}

theorem mem_slotted (graph : Graph) (placements : List Placement) (call : Slotted) :
    call ∈ slotted graph placements ↔ call.toPlacement ∈ placements ∧
      call.slots = slotsOf (countsIn graph placements) placements call.toPlacement := by
  simp only [slotted, mem_map]
  constructor
  · rintro ⟨placement, member, rfl⟩
    exact ⟨member, rfl⟩
  · rintro ⟨member, slots⟩
    exact ⟨call.toPlacement, member, by rw [← slots]⟩

theorem slotted_placements (graph : Graph) (placements : List Placement) : (slotted graph placements).map (·.toPlacement) = placements := by
  simp [slotted, Function.comp_def]

theorem slotted_slot (straight : Straight graph placements) (call : Slotted)
    (member : call ∈ slotted graph placements) (slot : Slot) (taken : slot ∈ call.slots) :
    slot.callee ∈ placements.map (·.callee) ∧ slot.index ≤ placements.length := by
  obtain ⟨placed, slots⟩ := (mem_slotted graph placements call).mp member
  rw [slots] at taken
  obtain ⟨path, walk, rfl⟩ := (slots_of_exact straight call.toPlacement placed slot).mp taken
  refine ⟨mem_map.mpr ⟨call.toPlacement, placed, rfl⟩, ?_⟩
  have made : call.toPlacement ∈ executed placements path := (mem_executed placements path _).mpr ⟨placed, walk_final_mem walk⟩
  obtain ⟨before, after, split, fresh⟩ := eq_append_cons_of_mem made
  have short := executed_length straight.sequenced straight.acyclic walk
  have part := countP_le_length (p := (·.callee = call.callee)) (l := before)
  rw [split, slot_on_split before after _ fresh]
  rw [split, length_append, length_cons] at short
  simp only
  omega

theorem mem_fold_absorb (calls : List Slotted) (known : List Slot) (slot : Slot) :
    slot ∈ calls.foldl (fun seen call => Facts.absorb seen call.slots) known ↔ slot ∈ known ∨ ∃ call ∈ calls, slot ∈ call.slots := by
  induction calls generalizing known with
  | nil => simp
  | cons call calls ih =>
    rw [foldl_cons, ih, Facts.mem_absorb]
    simp [or_assoc]

theorem fold_absorb_nodup (calls : List Slotted) (known : List Slot) (distinct : known.Nodup) (slots : ∀ call ∈ calls, call.slots.Nodup) :
    (calls.foldl (fun seen call => Facts.absorb seen call.slots) known).Nodup := by
  induction calls generalizing known with
  | nil => exact distinct
  | cons call calls ih =>
    rw [foldl_cons]
    exact ih _ (Facts.absorb_nodup known call.slots distinct (slots call (by simp))) fun other member => slots other (by simp [member])

def passSeen (calls : List Slotted) (block : Nat) (seen : List Slot) : List Slot :=
  (calls.filter (·.block = block)).foldl (fun seen call => Facts.absorb seen call.slots) seen

-- The slots of the calls that were made on some way before reaching a block.
def TakenBefore (graph : Graph) (calls : List Slotted) (block : Nat) (slot : Slot) : Prop :=
  ∃ before, Walk graph.successors graph.entry (before ++ [block]) block ∧ ∃ call ∈ calls, call.block ∈ before ∧ slot ∈ call.slots

section
variable (straight : Straight graph placements)
include straight

theorem slotted_reached (call : Slotted) (member : call ∈ slotted graph placements) (slot : Slot) (taken : slot ∈ call.slots) :
    ∃ before, Walk graph.successors graph.entry (before ++ [call.block]) call.block := by
  obtain ⟨placed, slots⟩ := (mem_slotted graph placements call).mp member
  rw [slots] at taken
  obtain ⟨path, walk, _⟩ := (slots_of_exact straight call.toPlacement placed slot).mp taken
  obtain ⟨before, rfl⟩ := walk_ends walk
  exact ⟨before, walk⟩

theorem seen_flowing : Facts.Flowing graph (passSeen (slotted graph placements)) []
      (slotBound ((slotted graph placements).map (·.toPlacement))) (TakenBefore graph (slotted graph placements)) := by
  refine ⟨by simp, nodup_nil, ?_, ?_, ?_⟩
  · intro a b edge known holds slot member
    rcases (mem_fold_absorb _ known slot).mp member with old | ⟨call, listed, taken⟩
    · obtain ⟨before, walk, call, listed, visited, taken⟩ := holds slot old
      exact ⟨before ++ [a], walk_snoc walk edge, call, listed, by simp [visited], taken⟩
    · obtain ⟨listed, here⟩ : call ∈ slotted graph placements ∧ call.block = a := by simpa using listed
      obtain ⟨before, walk⟩ := slotted_reached straight call listed slot taken
      rw [here] at walk
      exact ⟨before ++ [a], walk_snoc walk edge, call, listed, by simp [here], taken⟩
  · intro a known distinct
    refine fold_absorb_nodup _ known distinct fun call listed => ?_
    obtain ⟨_, slots⟩ := (mem_slotted graph placements call).mp (mem_filter.mp listed).1
    rw [slots]
    exact slots_of_nodup straight call.toPlacement
  · intro block known distinct holds
    rw [slotted_placements]
    refine few_slots placements known distinct fun slot member => ?_
    obtain ⟨_, _, call, listed, _, taken⟩ := holds slot member
    exact slotted_slot straight call listed slot taken

theorem seen_in_walk (before : List Nat) (block : Nat) (walk : Walk graph.successors graph.entry (before ++ [block]) block) :
    ∃ known, (seenIn graph (slotted graph placements)).lookup block = some known ∧
      ∀ call ∈ slotted graph placements, call.block ∈ before → ∀ slot ∈ call.slots, slot ∈ known := by
  have solved := Facts.of_entry_solved straight.wellFormed (seen_flowing straight)
  let Carried (path : List Nat) (slot : Slot) : Prop := ∃ call ∈ slotted graph placements, call.block ∈ path.dropLast ∧ slot ∈ call.slots
  have first : ∀ slot, Carried [graph.entry] slot → slot ∈ ([] : List Slot) := by
    rintro slot ⟨call, _, visited, _⟩
    simp at visited
  have further : ∀ before last final slot, Walk graph.successors graph.entry before last →
      final ∈ graph.successors last → Carried (before ++ [final]) slot →
      ∀ known, (∀ slot, Carried before slot → slot ∈ known) → slot ∈ passSeen (slotted graph placements) last known := by
    rintro before last final slot walk _ ⟨call, member, visited, taken⟩ known sub
    obtain ⟨front, rfl⟩ := walk_ends walk
    apply (mem_fold_absorb _ known slot).mpr
    simp only [dropLast_concat, mem_append, mem_singleton] at visited
    rcases visited with earlier | here
    · exact .inl (sub slot ⟨call, member, by simpa using earlier, taken⟩)
    · exact .inr ⟨call, mem_filter.mpr ⟨member, by simpa using here⟩, taken⟩
  obtain ⟨known, entry, carried⟩ := Facts.solved_walk solved Carried first further _ block walk
  exact ⟨known, entry, fun call member visited slot taken => carried slot ⟨call, member, by simpa using visited, taken⟩⟩

theorem pair_reaching (walk : Walk graph.successors graph.entry path final) (pair : [a, b].Sublist (executed placements path)) :
    ∃ before, Walk graph.successors graph.entry (before ++ [b.block]) b.block ∧ (a.block ∈ before ∨ a.earlier b = true) := by
  rcases executed_pair placements straight.sequenced path a b pair with earlier | ⟨before, after, rfl, visited⟩
  · have made : b ∈ executed placements path := pair.subset (by simp)
    obtain ⟨before, after, rfl, reaching, _⟩ := walk_split walk ((mem_executed placements path b).mp made).2
    exact ⟨before, reaching, .inr earlier⟩
  · exact ⟨before, (walk_cut walk).1, .inl visited⟩

theorem reaching_pair {before : List Nat} (hasA : a ∈ placements) (hasB : b ∈ placements) (first : a.block ∈ before ∨ a.earlier b = true) :
    [a, b].Sublist (executed placements (before ++ [b.block])) := by
  have last : executed placements [b.block] = inBlock placements b.block := by simp [executed]
  have inBlockB := (mem_in_block placements b.block b).mpr ⟨hasB, rfl⟩
  rw [executed_append, last]
  rcases first with visited | earlier
  · exact (singleton_sublist.mpr ((mem_executed placements before a).mpr ⟨hasA, visited⟩)).append (singleton_sublist.mpr inBlockB)
  · have inBlockA := (mem_in_block placements b.block a).mpr ⟨hasA, earlier_block a b earlier⟩
    exact (in_block_pair straight.sequenced inBlockA inBlockB earlier).trans (sublist_append_right _ _)

theorem pair_ending (walk : Walk graph.successors graph.entry path final) (pair : [a, b].Sublist (executed placements path)) :
    ∃ path, Walk graph.successors graph.entry path b.block ∧ [a, b].Sublist (executed placements path) := by
  have placed {call : Placement} (made : call ∈ executed placements path) := ((mem_executed placements path call).mp made).1
  obtain ⟨before, reaching, first⟩ := pair_reaching straight walk pair
  exact ⟨_, reaching, reaching_pair straight (placed (pair.subset (by simp))) (placed (pair.subset (by simp))) first⟩

-- What is observed at a call: the slots of it after those of the calls that some way makes before.
theorem mem_observed (b : Slotted) (hasB : b ∈ slotted graph placements) (early late : Slot) :
    (early, late) ∈ observed (seenIn graph (slotted graph placements)) (slotted graph placements) b ↔
      early ≠ late ∧ late ∈ b.slots ∧ ∃ a ∈ slotted graph placements, early ∈ a.slots ∧ ∃ path,
        Walk graph.successors graph.entry path b.block ∧ [a.toPlacement, b.toPlacement].Sublist (executed placements path) := by
  have placed {call : Slotted} (listed : call ∈ slotted graph placements) : call.toPlacement ∈ placements :=
    ((mem_slotted graph placements call).mp listed).1
  rw [observed]
  constructor
  · cases entry : (seenIn graph (slotted graph placements)).lookup b.block with
    | none => simp
    | some known =>
      intro seen
      simp only [mem_flatMap, mem_map, Prod.mk.injEq] at seen
      obtain ⟨later, taken, before, listed, rfl, rfl⟩ := seen
      obtain ⟨listed, different⟩ := mem_filter.mp listed
      refine ⟨of_decide_eq_true different, taken, ?_⟩
      rcases (mem_fold_absorb _ known before).mp listed with old | ⟨a, earlier, takes⟩
      · have solved := Facts.of_entry_solved straight.wellFormed (seen_flowing straight)
        obtain ⟨front, walk, a, hasA, visited, takes⟩ := (solved.holds b.block known entry).2 before old
        exact ⟨a, hasA, takes, _, walk, reaching_pair straight (placed hasA) (placed hasB) (.inl visited)⟩
      · obtain ⟨hasA, earlier⟩ := mem_filter.mp earlier
        obtain ⟨front, walk⟩ := slotted_reached straight b hasB later taken
        exact ⟨a, hasA, takes, _, walk, reaching_pair straight (placed hasA) (placed hasB) (.inr earlier)⟩
  · rintro ⟨different, takesLate, a, hasA, takesEarly, path, walk, pair⟩
    obtain ⟨before, reaching, first⟩ := pair_reaching straight walk pair
    obtain ⟨known, entry, seen⟩ := seen_in_walk straight before b.block reaching
    rw [entry]
    refine mem_flatMap.mpr ⟨late, takesLate, mem_map.mpr ⟨early, ?_, rfl⟩⟩
    refine mem_filter.mpr ⟨(mem_fold_absorb _ known early).mpr ?_, by simpa using different⟩
    rcases first with visited | earlier
    · exact .inl (seen a hasA visited early takesEarly)
    · exact .inr ⟨a, mem_filter.mpr ⟨hasA, earlier⟩, takesEarly⟩

end

def observedPairs (graph : Graph) (calls : List Slotted) : List (Slot × Slot) := calls.flatMap (observed (seenIn graph calls) calls)

-- Two slots are seen one after the other if they are slots of two calls that some way makes in this order.
theorem mem_observed_pairs (straight : Straight graph placements) (early late : Slot) :
    (early, late) ∈ observedPairs graph (slotted graph placements) ↔ early ≠ late ∧
      ∃ a ∈ slotted graph placements, ∃ b ∈ slotted graph placements, early ∈ a.slots ∧ late ∈ b.slots ∧
        ∃ path, Walk graph.successors graph.entry path b.block ∧ [a.toPlacement, b.toPlacement].Sublist (executed placements path) := by
  rw [observedPairs, mem_flatMap]
  constructor
  · rintro ⟨b, hasB, seen⟩
    obtain ⟨different, takesLate, a, hasA, takesEarly, way⟩ := (mem_observed straight b hasB early late).mp seen
    exact ⟨different, a, hasA, b, hasB, takesEarly, takesLate, way⟩
  · rintro ⟨different, a, hasA, b, hasB, takesEarly, takesLate, way⟩
    exact ⟨b, hasB, (mem_observed straight b hasB early late).mpr ⟨different, takesLate, a, hasA, takesEarly, way⟩⟩

theorem walk_observed (straight : Straight graph placements) (path : List Nat) (final : Nat)
    (walk : Walk graph.successors graph.entry path final) (a b : Slotted) (hasA : a ∈ slotted graph placements)
    (hasB : b ∈ slotted graph placements) (pair : [a.toPlacement, b.toPlacement].Sublist (executed placements path)) (early : Slot)
    (takesEarly : early ∈ a.slots) (late : Slot) (takesLate : late ∈ b.slots) (different : early ≠ late) :
    (early, late) ∈ observedPairs graph (slotted graph placements) := by
  exact (mem_observed_pairs straight early late).mpr ⟨different, a, hasA, b, hasB, takesEarly, takesLate, pair_ending straight walk pair⟩

theorem unreversed_of_clean (graph : Graph) (calls : List Slotted) (clean : reversals graph calls = [])
    (early late : Slot) (pair : (early, late) ∈ observedPairs graph calls) : (late, early) ∉ observedPairs graph calls := by
  intro back
  obtain ⟨call, member, seen⟩ := mem_flatMap.mp pair
  have none := filterMap_eq_nil_iff.mp clean call (mem_mergeSort.mpr member)
  rw [Option.map_eq_none_iff, List.head?_eq_none_iff] at none
  refine not_mem_nil (a := (early, late)) (none ▸ mem_mergeSort.mpr (mem_filter.mpr ⟨seen, ?_⟩))
  simpa [observedPairs] using back

-- Whether a group of blocks is one block or several, its coverage is the cut that it makes.
theorem covered_iff_cut (final : Nat) (before : Nat → List Nat) (listed : ∀ block, (before block).Perm (graph.successors block))
    (reached : Reachable graph.successors graph.entry final) (blocks : List Nat) :
    Ending.covered ⟨final, graph.dominatorTreeBy .backward final before⟩ graph blocks = true ↔
      final ∉ graph.reachableFrom graph.entry blocks := by
  rcases blocks with _ | ⟨block, _ | ⟨second, rest⟩⟩
  · simp [Ending.covered]
  · rw [Ending.covered, graph.post_dominates_iff final before listed, graph.reachable_from_exact, not_exists]
    refine (and_iff_right reached).trans (forall_congr' fun path => ?_)
    simp
  · simp [Ending.covered]

section
variable {final : Nat} (reached : Reachable graph.successors graph.entry final)
include reached

theorem covered_iff (blocks : List Nat) : Ending.covered ⟨final, graph.postDominators final⟩ graph blocks = true ↔
    ∀ path, Walk graph.successors graph.entry path final → ∃ block ∈ blocks, block ∈ path := by
  refine (covered_iff_cut final _ (fun _ => List.Perm.refl _) reached blocks).trans ?_
  rw [graph.reachable_from_exact, not_exists]
  refine forall_congr' fun path => ?_
  simp only [not_and, not_forall, not_not, exists_prop]
  exact imp_congr_right fun _ => exists_congr fun _ => and_comm

theorem unconditional_iff (slottedCalls : List Slotted) (call : Slotted) :
    isUnconditional graph (some ⟨final, graph.postDominators final⟩) slottedCalls call = true ↔
      ∃ slot, call.slots = [slot] ∧ ∀ path, Walk graph.successors graph.entry path final →
        ∃ taker ∈ slottedCalls, taker.slots = [slot] ∧ taker.block ∈ path := by
  have taking (slot : Slot) (path : List Nat) : (∃ block ∈ blocksTaking slottedCalls slot, block ∈ path) ↔
      ∃ taker ∈ slottedCalls, taker.slots = [slot] ∧ taker.block ∈ path := by
    simp [blocksTaking, mem_eraseDups, and_assoc]
  unfold isUnconditional
  split
  · next slot only =>
      simp only [covered_iff reached, taking, only, List.cons.injEq, and_true]
      refine ⟨fun all => ⟨slot, rfl, all⟩, ?_⟩
      rintro ⟨other, rfl, all⟩
      exact all
  · next several =>
      refine ⟨by simp, ?_⟩
      rintro ⟨slot, only, _⟩
      exact absurd only (several slot)

theorem placement_none_iff (slottedCalls : List Slotted) (call : Slotted) :
    placementFinding? graph (some ⟨final, graph.postDominators final⟩) slottedCalls call = none ↔
      (∃ slot, call.slots = [slot] ∧ ∀ path, Walk graph.successors graph.entry path final →
        ∃ taker ∈ slottedCalls, taker.slots = [slot] ∧ taker.block ∈ path) ∨
      ∀ path, Walk graph.successors graph.entry path final → call.block ∈ path := by
  have always : (graph.postDominators final).dominates call.block graph.entry = true ↔ _ :=
    (graph.post_dominates_iff final _ (fun _ => List.Perm.refl _) call.block graph.entry).trans (and_iff_right reached)
  rw [← unconditional_iff reached, ← always]
  unfold placementFinding?
  by_cases unconditional : isUnconditional graph (some ⟨final, graph.postDominators final⟩) slottedCalls call = true
  · simp [unconditional]
  by_cases dominates : (graph.postDominators final).dominates call.block graph.entry = true
  · simp [unconditional, dominates]
  · rw [if_neg unconditional, if_neg (by simpa using dominates)]
    refine ⟨fun none => ?_, fun either => absurd either (by simp [unconditional, dominates])⟩
    split at none <;> cases none

end

end

theorem end_block_reached (graph : Graph) (final : Nat) (ends : endBlock graph = some final) :
    ∃ path, Walk graph.successors graph.entry path final := by
  have listed : final ∈ graph.reachableFrom graph.entry [] := by
    simp only [endBlock] at ends
    split at ends
    · next reachable =>
        cases ends
        simpa using reachable
    · simpa using (Option.filter_eq_some_iff.mp ends).2
  obtain ⟨path, walk, _⟩ := (graph.reachable_from_exact graph.entry [] final).mp listed
  exact ⟨path, walk⟩

theorem placement_finding_call {ending : Option Ending} {call : Slotted}
    (found : placementFinding? graph ending calls call = some finding) : finding.call = call.toPlacement := by
  unfold placementFinding? at found
  split at found
  · cases found
  · split at found
    · cases found
    · split at found <;> cases found <;> rfl

theorem reversal_call (found : finding ∈ reversals graph calls) : ∃ call ∈ calls, finding.call = call.toPlacement := by
  obtain ⟨call, isCall, found⟩ := mem_filterMap.mp found
  obtain ⟨_, _, rfl⟩ := Option.map_eq_some_iff.mp found
  exact ⟨call, mem_mergeSort.mp isCall, rfl⟩

theorem check_straight (graph : Graph) (placements : List Placement) (outside : ∀ call ∈ placements, call.block ∉ graph.repeatable) :
    check graph placements = (slotted graph placements).filterMap
      (placementFinding? graph (ending graph) (slotted graph placements)) ++ reversals graph (slotted graph placements) := by
  have none : placements.filter (fun placement => graph.repeatable.contains placement.block) = [] := by simpa using outside
  have all : placements.filter (not ∘ fun placement => graph.repeatable.contains placement.block) = placements := by
    apply filter_eq_self.mpr
    simpa using outside
  simp only [check, partition_eq_filter_filter, none, all, map_nil, nil_append]

theorem straight_of_outside (graph : Graph) (placements : List Placement) (wellFormed : graph.WellFormed)
    (sequenced : Sequenced placements) (outside : ∀ call ∈ placements, call.block ∉ graph.repeatable) : Straight graph placements := by
  refine ⟨wellFormed, sequenced, fun call member cyclic => ?_⟩
  obtain ⟨via, edge, path, walk⟩ := cyclic
  have inside : call.block ∈ graph.nodes :=
    wellFormed.walk_mem walk (wellFormed.successor_mem call.block via edge) call.block (walk_final_mem walk)
  refine outside call member (graph.cyclic_repeatable call.block ?_)
  exact graph.cyclic_of_on_cycle inside ⟨via, edge, path, walk⟩

theorem check_clean (graph : Graph) (placements : List Placement) (wellFormed : graph.WellFormed)
    (apart : Apart placements) (clean : check graph placements = []) : Straight graph placements ∧ (∀ call ∈ slotted graph placements,
        placementFinding? graph (ending graph) (slotted graph placements) call = none) ∧
      reversals graph (slotted graph placements) = [] := by
  have outside : ∀ call ∈ placements, call.block ∉ graph.repeatable := by
    simp only [check, partition_eq_filter_filter, append_eq_nil_iff, map_eq_nil_iff] at clean
    simpa using filter_eq_nil_iff.mp clean.1.1
  rw [check_straight graph placements outside, append_eq_nil_iff] at clean
  exact ⟨straight_of_outside graph placements wellFormed (apart_sequenced placements apart) outside,
    filterMap_eq_nil_iff.mp clean.1, clean.2⟩

-- The calls along the complete walks of a graph.
def CompleteRun (graph : Graph) (placements : List Placement) (final : Nat) (run : List Placement) : Prop :=
  ∃ path, Walk graph.successors graph.entry path final ∧ run = executed placements path

theorem clean_reviewed (graph : Graph) (placements : List Placement) (wellFormed : graph.WellFormed)
    (apart : Apart placements) (clean : check graph placements = []) (final : Nat) (ends : endBlock graph = some final) :
    Reviewed (slotsOf (countsIn graph placements) placements) (observedPairs graph (slotted graph placements))
      (CompleteRun graph placements final) := by
  obtain ⟨straight, placed, unreversed⟩ := check_clean graph placements wellFormed apart clean
  have slottedOf (call : Placement) (member : call ∈ placements) :
      (⟨call, slotsOf (countsIn graph placements) placements call⟩ : Slotted) ∈ slotted graph placements :=
    (mem_slotted graph placements _).mpr ⟨member, rfl⟩
  have placementOf (path : List Nat) (call : Placement) (made : call ∈ executed placements path) : call ∈ placements :=
    ((mem_executed placements path call).mp made).1
  have isEnding : ending graph = some ⟨final, graph.postDominators final⟩ := by simp [ending, ends]
  refine ⟨?_, ?_, ?_, ?_, ?_, unreversed_of_clean graph _ unreversed⟩
  · rintro _ ⟨path, walk, rfl⟩
    exact executed_nodup straight.sequenced straight.acyclic walk
  · rintro _ ⟨path, walk, rfl⟩ call made
    exact walk_takes straight path final walk call made
  · rintro _ _ a b ⟨path, walk, rfl⟩ ⟨other, otherWalk, rfl⟩ forth
    exact executed_ordered straight.sequenced straight.acyclic walk otherWalk a b forth
  · rintro _ a b ⟨path, walk, rfl⟩ pair early takesEarly late takesLate different
    exact walk_observed straight path final walk _ _ (slottedOf a (placementOf path a (pair.subset (by simp))))
      (slottedOf b (placementOf path b (pair.subset (by simp)))) pair early takesEarly late takesLate different
  rintro _ ⟨path, walk, rfl⟩ call made
  have member := placementOf path call made
  have finding := placed _ (slottedOf call member)
  rw [isEnding] at finding
  rcases (placement_none_iff (end_block_reached graph final ends) _ _).mp finding with ⟨slot, only, taken⟩ | always
  · refine .inl ⟨slot, only, ?_⟩
    rintro _ ⟨other, otherWalk, rfl⟩
    obtain ⟨taker, listed, takerOnly, visited⟩ := taken other otherWalk
    obtain ⟨takerPlaced, takerSlots⟩ := (mem_slotted graph placements taker).mp listed
    exact ⟨taker.toPlacement, (mem_executed placements other _).mpr ⟨takerPlaced, visited⟩, takerSlots ▸ takerOnly⟩
  · refine .inr ?_
    rintro _ ⟨other, otherWalk, rfl⟩
    exact (mem_executed placements other call).mpr ⟨member, always other otherWalk⟩

theorem clean_walks_agree (graph : Graph) (placements : List Placement) (wellFormed : graph.WellFormed)
    (apart : Apart placements) (clean : check graph placements = []) (final : Nat) (ends : endBlock graph = some final)
    (path other : List Nat) (walk : Walk graph.successors graph.entry path final)
    (otherWalk : Walk graph.successors graph.entry other final) : callees placements path = callees placements other :=
  (clean_reviewed graph placements wellFormed apart clean final ends).agree _ _ ⟨path, walk, rfl⟩ ⟨other, otherWalk, rfl⟩

-- Both sides of a branch make the same call, then a loop goes round without calls.
def forkedGraph : Graph where
  nodes := [0, 1, 2, 3, 4]
  wiring := .of [⟨0, 1, .whenTrue⟩, ⟨0, 2, .whenFalse⟩, ⟨1, 3, .unconditional⟩, ⟨2, 3, .unconditional⟩, ⟨3, 3, .loopBack⟩, ⟨3, 4, .loopExit⟩]
  exit := 4

def forkedCalls : List Placement := [⟨0, "useState", 1, 0⟩, ⟨1, "useState", 2, 0⟩, ⟨2, "useEffect", 4, 0⟩]

theorem forked_walks_agree : check forkedGraph forkedCalls = [] ∧ endBlock forkedGraph = some 4 ∧
    callees forkedCalls [0, 1, 3, 4] = callees forkedCalls [0, 2, 3, 3, 4] := by
  have wellFormed : forkedGraph.WellFormed := ⟨by decide, by decide, by decide⟩
  have apart : Apart forkedCalls := by simp [Apart, forkedCalls]
  have clean : check forkedGraph forkedCalls = [] := by cbv
  have ends : endBlock forkedGraph = some 4 := by cbv
  have leaves : Walk forkedGraph.successors 3 [3, 4] 4 := .step 3 4 4 [4] (by decide) (.single 4)
  have once : Walk forkedGraph.successors 0 [0, 1, 3, 4] 4 := .step 0 1 4 _ (by decide) (.step 1 3 4 _ (by decide) leaves)
  have twice : Walk forkedGraph.successors 0 [0, 2, 3, 3, 4] 4 :=
    .step 0 2 4 _ (by decide) (.step 2 3 4 _ (by decide) (.step 3 3 4 _ (by decide) leaves))
  exact ⟨clean, ends, clean_walks_agree forkedGraph forkedCalls wellFormed apart clean 4 ends _ _ once twice⟩

end HookLint.Order
