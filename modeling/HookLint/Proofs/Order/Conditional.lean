import HookLint.Proofs.Order.Completeness

namespace HookLint.Order

open List

variable {call : Placement} {slottedCalls : List Slotted} {graph : Graph}

-- Not every complete way makes the call, or no way at all.
def Finding.isConditional : Finding → Bool
  | .unreachable _ | .conditional _ _ => true
  | .repeated _ | .reversed _ _ => false

-- What the check has to say about whether a call is made.
def conditionals (graph : Graph) (placements : List Placement) (call : Placement) : List Finding :=
  (check graph placements).filter fun finding => finding.isConditional && finding.call = call

def outsideLoops (graph : Graph) (placements : List Placement) : List Placement :=
  placements.filter fun call => call.block ∉ graph.loopBlocks ∧ call.block ∉ graph.loopBody

-- There are walks to a call, and on all of them it is the one call of its callee with this number.
def Turn (graph : Graph) (calls : List Placement) (call : Placement) (turn : Nat) : Prop :=
  (∃ path, Walk graph.successors graph.entry path call.block) ∧
    ∀ path, Walk graph.successors graph.entry path call.block → (slotOn (executed calls path) call).index = turn

-- Some complete walk goes past a call, and its turn is not settled or goes by on some complete walk.
def MayMiss (graph : Graph) (calls : List Placement) (final : Nat) (call : Placement) : Prop :=
  (∃ path, Walk graph.successors graph.entry path final ∧ call.block ∉ path) ∧ ((¬ ∃ turn, Turn graph calls call turn) ∨
      ∃ turn, Turn graph calls call turn ∧ ∃ path, Walk graph.successors graph.entry path final ∧
        ∀ other ∈ calls, other.callee = call.callee → Turn graph calls other turn → other.block ∉ path)

section
variable {graph : Graph} {calls placements : List Placement} {final : Nat}

theorem turn_iff (straight : Straight graph calls) (member : call ∈ calls) (turn : Nat) :
    Turn graph calls call turn ↔ slotsOf (countsIn graph calls) calls call = [⟨call.callee, turn⟩] := by
  have exact := slots_of_exact straight call member
  constructor
  · rintro ⟨⟨path, walk⟩, every⟩
    have taken : ∀ path, Walk graph.successors graph.entry path call.block → slotOn (executed calls path) call = ⟨call.callee, turn⟩ :=
      fun path walk => congrArg (Slot.mk call.callee) (every path walk)
    refine eq_singleton (slots_of_nodup straight call) ((exact _).mpr ⟨path, walk, (taken path walk).symm⟩) fun slot isSlot => ?_
    obtain ⟨other, otherWalk, rfl⟩ := (exact slot).mp isSlot
    exact taken other otherWalk
  intro only
  rw [only] at exact
  obtain ⟨path, walk, _⟩ := (exact _).mp (mem_singleton.mpr rfl)
  refine ⟨⟨path, walk⟩, fun other otherWalk => ?_⟩
  exact congrArg Slot.index (mem_singleton.mp ((exact _).mpr ⟨other, otherWalk, rfl⟩))

theorem turn_unique {turn other : Nat} (isTurn : Turn graph calls call turn) (isOther : Turn graph calls call other) : turn = other := by
  obtain ⟨⟨path, walk⟩, every⟩ := isTurn
  rw [← every path walk, isOther.2 path walk]

theorem may_miss_iff (straight : Straight graph calls) (reached : ∃ path, Walk graph.successors graph.entry path final)
    (member : call ∈ calls) :
    MayMiss graph calls final call ↔ placementFinding? graph (some ⟨final, graph.postDominators final⟩) (slotted graph calls)
      ⟨call, slotsOf (countsIn graph calls) calls call⟩ ≠ none := by
  -- the calls that have one slot only are those with a settled turn
  have takers (turn : Nat) (path : List Nat) : (∃ taker ∈ slotted graph calls, taker.slots = [⟨call.callee, turn⟩] ∧ taker.block ∈ path) ↔
      ∃ other ∈ calls, other.callee = call.callee ∧ Turn graph calls other turn ∧ other.block ∈ path := by
    constructor
    · rintro ⟨taker, listed, only, visited⟩
      obtain ⟨placed, slots⟩ := (mem_slotted graph calls taker).mp listed
      have same : taker.callee = call.callee := by
        obtain ⟨_, _, taken⟩ := (slots_of_exact straight taker.toPlacement placed ⟨call.callee, turn⟩).mp (by rw [← slots, only]; simp)
        exact (congrArg Slot.callee taken).symm
      refine ⟨taker.toPlacement, placed, same, (turn_iff straight placed turn).mpr ?_, visited⟩
      rw [← slots, only, same]
    · rintro ⟨other, placed, same, settled, visited⟩
      have only := (turn_iff straight placed turn).mp settled
      rw [same] at only
      exact ⟨⟨other, _⟩, (mem_slotted graph calls _).mpr ⟨placed, rfl⟩, only, visited⟩
  have settled : (∃ slot, slotsOf (countsIn graph calls) calls call = [slot] ∧ ∀ path, Walk graph.successors graph.entry path final →
        ∃ taker ∈ slotted graph calls, taker.slots = [slot] ∧ taker.block ∈ path) ↔
      ∃ turn, Turn graph calls call turn ∧ ∀ path, Walk graph.successors graph.entry path final →
        ∃ other ∈ calls, other.callee = call.callee ∧ Turn graph calls other turn ∧ other.block ∈ path := by
    simp only [turn_iff straight member, ← takers]
    constructor
    · rintro ⟨slot, only, all⟩
      obtain ⟨_, _, taken⟩ := (slots_of_exact straight call member slot).mp (by rw [only]; simp)
      have isSlot : slot = ⟨call.callee, slot.index⟩ := by rw [taken, slotOn]
      rw [isSlot] at only all
      exact ⟨slot.index, only, all⟩
    · rintro ⟨turn, only, all⟩
      exact ⟨_, only, all⟩
  rw [ne_eq, placement_none_iff reached, settled, not_or]
  constructor
  · rintro ⟨⟨path, walk, missed⟩, unsettled⟩
    refine ⟨?_, fun always => missed (always path walk)⟩
    rintro ⟨turn, isTurn, taken⟩
    rcases unsettled with never | ⟨other, isOther, around, walkAround, gone⟩
    · exact never ⟨turn, isTurn⟩
    · obtain ⟨taker, placed, same, settled, visited⟩ := taken around walkAround
      rw [turn_unique isTurn isOther] at settled
      exact gone taker placed same settled visited
  · rintro ⟨unsettled, notAlways⟩
    push Not at unsettled notAlways
    refine ⟨notAlways, or_iff_not_imp_left.mpr fun some => ?_⟩
    obtain ⟨turn, isTurn⟩ := not_not.mp some
    obtain ⟨path, walk, gone⟩ := unsettled turn isTurn
    exact ⟨turn, isTurn, path, walk, gone⟩

theorem findings_of_call {find : Slotted → Option Finding} (distinct : (slottedCalls.map (·.toPlacement)).Nodup)
    (about : ∀ call finding, find call = some finding → finding.call = call.toPlacement) {call : Slotted} (member : call ∈ slottedCalls) :
    (slottedCalls.filterMap find).filter (fun finding => finding.call = call.toPlacement) = (find call).toList := by
  obtain ⟨before, after, rfl⟩ := append_of_mem member
  rw [map_append, map_cons, nodup_middle] at distinct
  have others (part : List Slotted) (included : ∀ other ∈ part, other ∈ before ++ after) :
      (part.filterMap find).filter (fun finding => finding.call = call.toPlacement) = [] := by
    refine filter_eq_nil_iff.mpr fun finding found => ?_
    obtain ⟨other, isOther, found⟩ := mem_filterMap.mp found
    rw [decide_eq_true_iff, about other finding found]
    rintro same
    refine distinct.notMem ?_
    rw [← map_append, ← same]
    exact mem_map_of_mem (included other isOther)
  rw [filterMap_append, filter_append, others before (by simp +contextual), filterMap_cons, nil_append]
  cases found : find call with
  | none => exact others after (by simp +contextual)
  | some finding =>
    rw [filter_cons_of_pos (by simpa using about call finding found), others after (by simp +contextual)]
    rfl

end

theorem outside_loops_eq (graph : Graph) (placements : List Placement) :
    placements.filter (not ∘ fun call => graph.repeatable.contains call.block) = outsideLoops graph placements := by
  refine filter_congr fun call _ => ?_
  simp [Graph.repeatable, mem_sorted_set]

theorem outside_straight (placements : List Placement) (wellFormed : graph.WellFormed)
    (numbered : placements.Pairwise (·.number < ·.number)) : Straight graph (outsideLoops graph placements) := by
  refine straight_of_outside graph _ wellFormed (numbered_sequenced _ (numbered.filter _)) fun call member => ?_
  rw [Graph.repeatable, mem_sorted_set, mem_append]
  exact not_or.mpr (of_decide_eq_true (mem_filter.mp member).2)

theorem placement_finding_conditional {ending : Option Ending} {call : Slotted} {finding : Finding}
    (found : placementFinding? graph ending slottedCalls call = some finding) : finding.isConditional = true := by
  unfold placementFinding? at found
  split at found
  · cases found
  · split at found
    · cases found
    · split at found <;> cases found <;> rfl

theorem reversal_unconditional {finding : Finding} (found : finding ∈ reversals graph slottedCalls) : finding.isConditional = false := by
  obtain ⟨call, _, found⟩ := mem_filterMap.mp found
  obtain ⟨_, _, rfl⟩ := Option.map_eq_some_iff.mp found
  rfl

theorem conditionals_eq (graph : Graph) (placements : List Placement) (distinct : placements.Nodup) {call : Slotted}
    (member : call ∈ slotted graph (outsideLoops graph placements)) : conditionals graph placements call.toPlacement =
      (placementFinding? graph (ending graph) (slotted graph (outsideLoops graph placements)) call).toList := by
  have once : ((slotted graph (outsideLoops graph placements)).map (·.toPlacement)).Nodup := by
    rw [slotted_placements]
    exact distinct.filter _
  have repeated (calls : List Placement) :
      (calls.map Finding.repeated).filter (fun finding => finding.isConditional && finding.call = call.toPlacement) = [] := by
    refine filter_eq_nil_iff.mpr fun finding member => ?_
    obtain ⟨_, _, rfl⟩ := mem_map.mp member
    exact nofun
  have reversed : (reversals graph (slotted graph (outsideLoops graph placements))).filter
      (fun finding => finding.isConditional && finding.call = call.toPlacement) = [] := by
    refine filter_eq_nil_iff.mpr fun finding member => ?_
    rw [reversal_unconditional member]
    exact nofun
  rw [← findings_of_call once (fun _ _ => placement_finding_call) member, conditionals, check]
  simp only [partition_eq_filter_filter, outside_loops_eq, filter_append, repeated, reversed, nil_append, append_nil]
  refine filter_congr fun finding listed => ?_
  obtain ⟨_, _, found⟩ := mem_filterMap.mp listed
  rw [placement_finding_conditional found, Bool.true_and]

-- The test of one block by the tree of post-dominators and the search past a group of blocks tell the same.
theorem post_dominators_cut (graph : Graph) (final : Nat) (before : Nat → List Nat)
    (listed : ∀ block, (before block).Perm (graph.successors block)) (reached : final ∈ graph.reachableFrom graph.entry []) :
    let tree := graph.dominatorTreeBy .backward final before
    (∀ block, tree.dominates block graph.entry = true ↔ final ∉ graph.reachableFrom graph.entry [block]) ∧
      ∀ blocks, Ending.covered ⟨final, tree⟩ graph blocks = true ↔ final ∉ graph.reachableFrom graph.entry blocks := by
  obtain ⟨path, walk, _⟩ := (graph.reachable_from_exact graph.entry [] final).mp reached
  have cuts := covered_iff_cut final before listed ⟨path, walk⟩
  exact ⟨fun block => cuts [block], cuts⟩

-- Whether a call outside of loops is reported as conditional depends on the walks of the graph alone.
theorem conditional_iff_may_miss (graph : Graph) (placements : List Placement) (wellFormed : graph.WellFormed)
    (numbered : placements.Pairwise (·.number < ·.number)) (final : Nat) (ends : endBlock graph = some final) (call : Placement)
    (member : call ∈ placements) (outside : call.block ∉ graph.loopBlocks ∧ call.block ∉ graph.loopBody) :
    ((∃ finding, conditionals graph placements call = [finding]) ↔ MayMiss graph (outsideLoops graph placements) final call) ∧
      (¬ MayMiss graph (outsideLoops graph placements) final call → conditionals graph placements call = []) := by
  have straight := outside_straight placements wellFormed numbered
  have straightCall : call ∈ outsideLoops graph placements := mem_filter.mpr ⟨member, decide_eq_true outside⟩
  have distinct : placements.Nodup := numbered.imp fun {a b} less same => by simp [same] at less
  have isEnding : ending graph = some ⟨final, graph.postDominators final⟩ := by simp [ending, ends]
  have missed := may_miss_iff straight (end_block_reached graph final ends) straightCall
  have own := conditionals_eq graph placements distinct ((mem_slotted graph (outsideLoops graph placements)
    ⟨call, slotsOf (countsIn graph (outsideLoops graph placements)) (outsideLoops graph placements) call⟩).mpr ⟨straightCall, rfl⟩)
  rw [own, isEnding, missed]
  cases placementFinding? graph (some ⟨final, graph.postDominators final⟩) (slotted graph (outsideLoops graph placements))
      ⟨call, slotsOf (countsIn graph (outsideLoops graph placements)) (outsideLoops graph placements) call⟩ with
  | none => simp
  | some finding => simp

-- A call under a condition, and a second one of the same callee behind it.
def guardedGraph : Graph where
  nodes := [0, 1, 2]
  wiring := .of [⟨0, 1, .whenTrue⟩, ⟨0, 2, .whenFalse⟩, ⟨1, 2, .unconditional⟩]
  exit := 2

def guardedCalls : List Placement := [⟨0, "useState", 1, 0⟩, ⟨1, "useState", 2, 0⟩]

theorem guarded_block_passed : 2 ∈ guardedGraph.reachableFrom guardedGraph.entry [] ∧
    (guardedGraph.dominatorTreeBy .backward 2 guardedGraph.successors).dominates 1 0 = false ∧
    2 ∈ guardedGraph.reachableFrom 0 [1] ∧ 2 ∉ guardedGraph.reachableFrom 0 [2] := by
  have reached : 2 ∈ guardedGraph.reachableFrom guardedGraph.entry [] := by decide
  have passed : (guardedGraph.dominatorTreeBy .backward 2 guardedGraph.successors).dominates 1 0 = false := by cbv
  obtain ⟨cuts, _⟩ := post_dominators_cut guardedGraph 2 guardedGraph.successors (fun _ => List.Perm.refl _) reached
  refine ⟨reached, passed, not_not.mp (mt (cuts 1).mpr (ne_true_of_eq_false passed)), (cuts 2).mp (by cbv)⟩

theorem guarded_call_conditional : endBlock guardedGraph = some 2 ∧
    ∃ finding, conditionals guardedGraph guardedCalls ⟨0, "useState", 1, 0⟩ = [finding] := by
  have wellFormed : guardedGraph.WellFormed := ⟨by decide, by decide, by decide⟩
  have ends : endBlock guardedGraph = some 2 := by cbv
  have past : Walk guardedGraph.successors 0 [0, 2] 2 := .step 0 2 2 [2] (by decide) (.single 2)
  have loops : guardedGraph.loopBlocks = [] := by cbv
  have bodies : guardedGraph.loopBody = [] := rfl
  have through : Walk guardedGraph.successors 0 [0, 1, 2] 2 := .step 0 1 2 [1, 2] (by decide) (.step 1 2 2 [2] (by decide) (.single 2))
  have all : outsideLoops guardedGraph guardedCalls = guardedCalls := by simp [outsideLoops, loops, bodies]
  -- the second call is the first or the second one of its callee
  have unsettled (turn : Nat) : ¬ Turn guardedGraph guardedCalls ⟨1, "useState", 2, 0⟩ turn := by
    rintro ⟨_, every⟩
    have once := every [0, 2] past
    have twice := every [0, 1, 2] through
    have first : (slotOn (executed guardedCalls [0, 2]) ⟨1, "useState", 2, 0⟩).index = 1 := by cbv
    have second : (slotOn (executed guardedCalls [0, 1, 2]) ⟨1, "useState", 2, 0⟩).index = 2 := by cbv
    omega
  refine ⟨ends, (conditional_iff_may_miss guardedGraph guardedCalls wellFormed (by simp [guardedCalls]) 2 ends ⟨0, "useState", 1, 0⟩
    (by decide) (by rw [loops, bodies]; decide)).1.mpr ⟨⟨[0, 2], past, by decide⟩, ?_⟩⟩
  rw [all]
  refine or_iff_not_imp_left.mpr fun settled => ?_
  obtain ⟨turn, isTurn⟩ := not_not.mp settled
  refine ⟨turn, isTurn, [0, 2], past, fun other member _ isOther => ?_⟩
  rcases mem_cons.mp member with rfl | later
  · decide
  · obtain rfl := mem_singleton.mp later
    exact absurd isOther (unsettled turn)

end HookLint.Order
