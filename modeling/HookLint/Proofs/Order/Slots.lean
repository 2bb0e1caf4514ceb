import HookLint.Order.Check
import HookLint.Proofs.Graph.Dataflow
import HookLint.Proofs.Graph.Search
import HookLint.Proofs.Order.Trace

namespace HookLint.Order

open List

-- Calls as the review sees them after it has sorted out those that can be repeated.
structure Straight (graph : Graph) (placements : List Placement) : Prop where
  wellFormed : graph.WellFormed
  sequenced : Sequenced placements
  acyclic : ∀ call ∈ placements, ¬ OnCycle graph.successors call.block

-- All slots of the callees up to a number of calls.
def slotsUpTo (placements : List Placement) (most : Nat) : List Slot :=
  placements.flatMap fun call => (List.range (most + 1)).map (⟨call.callee, ·⟩)

section
variable (placements : List Placement)
include placements

theorem mem_slots_up_to (most : Nat) (slot : Slot) :
    slot ∈ slotsUpTo placements most ↔ slot.callee ∈ placements.map (·.callee) ∧ slot.index ≤ most := by
  obtain ⟨callee, index⟩ := slot
  simp only [slotsUpTo, mem_flatMap, mem_map, mem_range, Slot.mk.injEq]
  constructor
  · rintro ⟨call, member, _, less, rfl, rfl⟩
    exact ⟨⟨call, member, rfl⟩, Nat.le_of_lt_succ less⟩
  · rintro ⟨⟨call, member, rfl⟩, le⟩
    exact ⟨call, member, index, Nat.lt_succ_of_le le, rfl, rfl⟩

theorem length_slots_up_to (most : Nat) : (slotsUpTo placements most).length = placements.length * (most + 1) := by
  simp [slotsUpTo, length_flatMap]

theorem few_slots (known : List Slot) (distinct : known.Nodup)
    (inside : ∀ slot ∈ known, slot.callee ∈ placements.map (·.callee) ∧ slot.index ≤ placements.length) :
    known.length ≤ slotBound placements := by
  have sub : known ⊆ slotsUpTo placements placements.length := fun slot member =>
    (mem_slots_up_to placements _ slot).mpr (inside slot member)
  have bound := (distinct.subperm sub).length_le
  rwa [length_slots_up_to] at bound

end

-- The calls of a callee that were made on some way before reaching a block.
def MadeBefore (graph : Graph) (placements : List Placement) (block : Nat) (count : Slot) : Prop :=
  count.callee ∈ placements.map (·.callee) ∧ ∃ before, Walk graph.successors graph.entry (before ++ [block]) block ∧
    count.index = (executed placements before).countP (·.callee = count.callee)

theorem count_in_block (placements : List Placement) (block : Nat) (callee : String) :
    (inBlock placements block).countP (·.callee = callee) = placements.countP fun p => p.block = block && p.callee = callee := by
  rw [inBlock, (mergeSort_perm _ _).countP_eq, countP_filter]
  exact countP_congr fun p _ => by simp [and_comm]

theorem executed_snoc_count (placements : List Placement) (before : List Nat) (block : Nat) (callee : String) :
    (executed placements (before ++ [block])).countP (·.callee = callee) = (executed placements before).countP (·.callee = callee) +
        placements.countP fun p => p.block = block && p.callee = callee := by
  rw [executed_append, countP_append, ← count_in_block]
  simp [executed]

theorem shift_injective (shift : String → Nat) :
    Function.Injective fun count : Slot => { count with index := count.index + shift count.callee } := by
  intro a b same
  obtain ⟨callee, index⟩ := Slot.mk.inj same
  rw [callee] at index
  cases a
  cases b
  simp_all

section
variable {graph : Graph} {placements : List Placement}

theorem counts_flowing (straight : Straight graph placements) :
    Facts.Flowing graph (passCounts placements) ((placements.map (·.callee)).eraseDups.map (⟨·, 0⟩))
      (slotBound placements) (MadeBefore graph placements) := by
  refine ⟨?_, ?_, ?_, ?_, ?_⟩
  · intro count member
    obtain ⟨callee, listed, rfl⟩ := mem_map.mp member
    exact ⟨mem_eraseDups.mp listed, [], .single graph.entry, rfl⟩
  · exact (erase_dups_nodup _).map fun a b same => congrArg Slot.callee same
  · intro a b edge known holds count member
    obtain ⟨old, listed, rfl⟩ := mem_map.mp member
    obtain ⟨callee, before, walk, index⟩ := holds old listed
    refine ⟨callee, before ++ [a], walk_snoc walk edge, ?_⟩
    rw [executed_snoc_count, ← index]
  · intro a known distinct
    exact distinct.map (shift_injective fun callee => placements.countP fun p => p.block = a && p.callee = callee)
  intro block known distinct holds
  refine few_slots placements known distinct fun count member => ?_
  obtain ⟨callee, before, walk, index⟩ := holds count member
  refine ⟨callee, ?_⟩
  have whole := executed_length straight.sequenced straight.acyclic walk
  rw [executed_append, length_append] at whole
  have part := countP_le_length (p := (·.callee = count.callee)) (l := executed placements before)
  omega

-- Counts of the calls made before each block that are complete.
abbrev Counted (graph : Graph) (placements : List Placement) : Facts Slot → Prop :=
  Facts.Solved graph (passCounts placements) ((placements.map (·.callee)).eraseDups.map (⟨·, 0⟩)) (MadeBefore graph placements)

theorem counts_counted (straight : Straight graph placements) : Counted graph placements (countsIn graph placements) :=
  Facts.of_entry_solved straight.wellFormed (counts_flowing straight)

theorem counts_in_walk {counts : Facts Slot} (counted : Counted graph placements counts) (before : List Nat) (block : Nat)
    (walk : Walk graph.successors graph.entry (before ++ [block]) block) (callee : String) (member : callee ∈ placements.map (·.callee)) :
    ∃ known, counts.lookup block = some known ∧ ⟨callee, (executed placements before).countP (·.callee = callee)⟩ ∈ known := by
  let Carried (path : List Nat) (count : Slot) : Prop := count.callee ∈ placements.map (·.callee) ∧
    count.index = (executed placements path.dropLast).countP (·.callee = count.callee)
  have first : ∀ count, Carried [graph.entry] count → count ∈ (placements.map (·.callee)).eraseDups.map (⟨·, 0⟩) := by
    rintro ⟨callee, index⟩ ⟨listed, zero⟩
    obtain rfl : index = 0 := by simpa [executed] using zero
    exact mem_map.mpr ⟨callee, mem_eraseDups.mpr listed, rfl⟩
  have further : ∀ before last final count, Walk graph.successors graph.entry before last →
      final ∈ graph.successors last → Carried (before ++ [final]) count →
      ∀ known, (∀ count, Carried before count → count ∈ known) → count ∈ passCounts placements last known := by
    rintro before last final ⟨callee, index⟩ walk _ ⟨listed, count⟩ known sub
    have made := sub ⟨callee, (executed placements before.dropLast).countP (·.callee = callee)⟩ ⟨listed, rfl⟩
    refine mem_map.mpr ⟨_, made, ?_⟩
    obtain ⟨front, rfl⟩ := walk_ends walk
    rw [dropLast_concat, executed_snoc_count] at count
    simpa using count.symm
  obtain ⟨known, entry, carried⟩ := Facts.solved_walk counted Carried first further _ block walk
  exact ⟨known, entry, carried _ ⟨member, by simp⟩⟩

theorem slot_on_append (first second : List Placement) (call : Placement) (member : call ∈ first) :
    slotOn (first ++ second) call = slotOn first call := by
  obtain ⟨before, after, rfl, fresh⟩ := eq_append_cons_of_mem member
  rw [slot_on_split before after call fresh, append_assoc, cons_append, slot_on_split before _ call fresh]

section
variable (straight : Straight graph placements)
include straight

theorem slots_counted {counts : Facts Slot} (counted : Counted graph placements counts)
    (call : Placement) (member : call ∈ placements) (slot : Slot) : slot ∈ slotsOf counts placements call ↔
      ∃ path, Walk graph.successors graph.entry path call.block ∧ slot = slotOn (executed placements path) call := by
  have reaching (before : List Nat) (walk : Walk graph.successors graph.entry (before ++ [call.block]) call.block) :
      call.block ∉ before := by
    have once := walk_count_le_one walk (straight.acyclic call member)
    apply count_eq_zero.mp
    simpa [count_append] using once
  rw [slotsOf]
  constructor
  · cases entry : counts.lookup call.block with
    | none => simp
    | some known =>
      intro listed
      obtain ⟨⟨callee, index⟩, isCount, rfl⟩ := mem_map.mp listed
      obtain ⟨isCount, same⟩ := mem_filter.mp isCount
      obtain rfl : callee = call.callee := by simpa using same
      obtain ⟨_, before, walk, made⟩ := (counted.holds call.block known entry).2 _ isCount
      refine ⟨before ++ [call.block], walk, ?_⟩
      rw [slot_on_reaching placements straight.sequenced call member before (reaching before walk), ← made]
  · rintro ⟨path, walk, rfl⟩
    obtain ⟨before, rfl⟩ := walk_ends walk
    obtain ⟨known, entry, isCount⟩ := counts_in_walk counted before call.block walk call.callee (mem_map.mpr ⟨call, member, rfl⟩)
    rw [entry, slot_on_reaching placements straight.sequenced call member before (reaching before walk)]
    exact mem_map.mpr ⟨_, mem_filter.mpr ⟨isCount, by simp⟩, rfl⟩

theorem slots_of_exact (call : Placement) (member : call ∈ placements) (slot : Slot) :
    slot ∈ slotsOf (countsIn graph placements) placements call ↔
      ∃ path, Walk graph.successors graph.entry path call.block ∧ slot = slotOn (executed placements path) call :=
  slots_counted straight (counts_counted straight) call member slot

theorem slots_of_nodup (call : Placement) : (slotsOf (countsIn graph placements) placements call).Nodup := by
  have counted := counts_counted straight
  rw [slotsOf]
  cases entry : (countsIn graph placements).lookup call.block with
  | none => simp
  | some known =>
    refine ((counted.holds call.block known entry).1.filter _).map ?_
    exact shift_injective fun _ => placements.countP (fun p => p.earlier call && decide (p.callee = call.callee)) + 1

theorem walk_takes (path : List Nat) (final : Nat)
    (walk : Walk graph.successors graph.entry path final) (call : Placement) (made : call ∈ executed placements path) :
    slotOn (executed placements path) call ∈ slotsOf (countsIn graph placements) placements call := by
  obtain ⟨member, visited⟩ := (mem_executed placements path call).mp made
  obtain ⟨before, after, rfl, reaching, _⟩ := walk_split walk visited
  refine (slots_of_exact straight call member _).mpr ⟨before ++ [call.block], reaching, ?_⟩
  rw [append_cons, executed_append]
  exact slot_on_append _ _ call ((mem_executed placements _ call).mpr ⟨member, by simp⟩)

end

end

end HookLint.Order
