import HookLint.Proofs.Graph.Search

namespace HookLint

open List

theorem unseen_mono (sources seen wider : List Nat) (sub : ∀ block ∈ seen, block ∈ wider) :
    (unseen sources wider).length ≤ (unseen sources seen).length := by
  apply List.Sublist.length_le
  apply monotone_filter_right
  intro block away
  have outside : block ∉ wider := by simpa using away
  simpa using fun member => outside (sub block member)

theorem unseen_cons (sources seen : List Nat) (block : Nat) (fresh : block ∉ seen) :
    sources.count block + (unseen sources (block :: seen)).length ≤ (unseen sources seen).length := by
  induction sources with
  | nil => simp [unseen]
  | cons head sources ih =>
    simp only [unseen, count_cons, filter_cons] at ih ⊢
    by_cases same : head = block
    · subst head
      simp [fresh] at ih ⊢
      omega
    · by_cases known : head ∈ seen <;> simp [same, known] at ih ⊢ <;> omega

section
variable (next : Nat → List Nat) (sources : List Nat)

-- What one call of the depth-first search leaves behind: everything that waited
-- is visited, and every newly visited block is left again with all its
-- neighbours visited.
structure Explored (waiting : List Nat) (before after : List Nat × List Nat) : Prop where
  visited_kept : ∀ block ∈ before.1, block ∈ after.1
  left_kept : ∀ block ∈ before.2, block ∈ after.2
  waiting_visited : ∀ block ∈ waiting, block ∈ after.1
  left_of_visited : ∀ block ∈ after.1, block ∉ before.1 → block ∈ after.2
  closed : ∀ block ∈ after.1, block ∉ before.1 → ∀ other ∈ next block, other ∈ after.1

theorem depth_first_explored (outgoing : ∀ block, (next block).length ≤ sources.count block)
    (fuel : Nat) (waiting : List Nat) (state : List Nat × List Nat) (enough : waiting.length + (unseen sources state.1).length ≤ fuel) :
    Explored next waiting state (depthFirst next fuel waiting state) := by
  induction fuel generalizing waiting state with
  | zero =>
    obtain rfl : waiting = [] := length_eq_zero_iff.mp (by omega)
    rw [depthFirst]
    exact ⟨by simp, by simp, by simp, by simp_all, by simp_all⟩
  | succ fuel ih =>
    obtain ⟨visited, left⟩ := state
    cases waiting with
    | nil =>
      rw [depthFirst]
      exact ⟨by simp, by simp, by simp, by simp_all, by simp_all⟩
      simp
    | cons block waiting =>
      simp only [length_cons] at enough
      rw [depthFirst]
      by_cases known : block ∈ visited
      · simp only [contains_iff_mem, known, if_true]
        have rest := ih waiting (visited, left) (by simp; omega)
        refine ⟨rest.visited_kept, rest.left_kept, ?_, rest.left_of_visited, rest.closed⟩
        intro other member
        rcases mem_cons.mp member with rfl | later
        · exact rest.visited_kept other known
        · exact rest.waiting_visited other later
      · simp only [contains_iff_mem, known, if_false]
        have fewer := unseen_cons sources visited block known
        have degree := outgoing block
        have inner := ih (next block) (block :: visited, left) (by simp; omega)
        generalize depthFirst next fuel (next block) (block :: visited, left) = middle at inner
        obtain ⟨visitedInner, leftInner⟩ := middle
        have shrunk := unseen_mono sources (block :: visited) visitedInner inner.visited_kept
        have outer := ih waiting (visitedInner, block :: leftInner) (by simp; omega)
        generalize depthFirst next fuel waiting (visitedInner, block :: leftInner) = final at outer
        have blockVisited : block ∈ visitedInner := inner.visited_kept block (by simp)
        refine ⟨?_, ?_, ?_, ?_, ?_⟩
        · exact fun other member => outer.visited_kept other (inner.visited_kept other (by simp [member]))
        · exact fun other member => outer.left_kept other (by simp [inner.left_kept other member])
        · intro other member
          rcases mem_cons.mp member with rfl | later
          · exact outer.visited_kept other blockVisited
          · exact outer.waiting_visited other later
        · intro other member fresh
          by_cases inside : other ∈ visitedInner
          · apply outer.left_kept
            by_cases same : other = block
            · simp [same]
            · exact mem_cons_of_mem _ (inner.left_of_visited other inside (by simpa [same] using fresh))
          · exact outer.left_of_visited other member inside
        · intro other member fresh ahead edge
          by_cases inside : other ∈ visitedInner
          · apply outer.visited_kept
            by_cases same : other = block
            · subst other
              exact inner.waiting_visited ahead edge
            · exact inner.closed other inside (by simpa [same] using fresh) ahead edge
          · exact outer.closed other member inside ahead edge

-- The blocks that one call of the depth-first search leaves, the last one first: each once, none of
-- them visited before, and each waited for or led to by one that stands in front of it.
structure Left (waiting visited after fresh : List Nat) : Prop where
  kept : ∀ block ∈ visited, block ∈ after
  distinct : fresh.Nodup
  new : ∀ block ∈ fresh, block ∉ visited ∧ block ∈ after
  reached : ∀ block ∈ fresh, ∃ start ∈ waiting, ∃ path, Walk next start path block
  led : ∀ block ∈ fresh, block ∈ waiting ∨ ∃ front parent back, fresh = front ++ parent :: back ∧ block ∈ back ∧ block ∈ next parent

theorem left_nothing (waiting visited : List Nat) : Left next waiting visited visited [] :=
  ⟨fun _ member => member, nodup_nil, by simp, by simp, by simp⟩

theorem left_longer {waiting visited after fresh : List Nat} (block : Nat) (left : Left next waiting visited after fresh) :
    Left next (block :: waiting) visited after fresh := by
  refine ⟨left.kept, left.distinct, left.new, fun other member => ?_, fun other member => ?_⟩
  · obtain ⟨start, isStart, path, walk⟩ := left.reached other member
    exact ⟨start, by simp [isStart], path, walk⟩
  · exact (left.led other member).imp_left (mem_cons_of_mem block)

theorem left_block {block : Nat} {waiting visited inner outer freshInner freshOuter : List Nat}
    (unknown : block ∉ visited) (first : Left next (next block) (block :: visited) inner freshInner)
    (second : Left next waiting inner outer freshOuter) :
    Left next (block :: waiting) visited outer (freshOuter ++ block :: freshInner) := by
  have here : block ∈ inner := first.kept block (by simp)
  refine ⟨fun other member => second.kept other (first.kept other (by simp [member])), ?_, ?_, ?_, ?_⟩
  · refine nodup_append.mpr ⟨second.distinct, nodup_cons.mpr ⟨fun again => ?_, first.distinct⟩, ?_⟩
    · exact (first.new block again).1 (by simp)
    intro a late b early same
    subst b
    rcases mem_cons.mp early with rfl | early
    · exact (second.new a late).1 here
    · exact (second.new a late).1 (first.new a early).2
  · intro other member
    rcases mem_append.mp member with late | early
    · exact ⟨fun known => (second.new other late).1 (first.kept other (by simp [known])), (second.new other late).2⟩
    · rcases mem_cons.mp early with rfl | early
      · exact ⟨unknown, second.kept other here⟩
      · exact ⟨fun known => (first.new other early).1 (by simp [known]), second.kept other (first.new other early).2⟩
  · intro other member
    rcases mem_append.mp member with late | early
    · obtain ⟨start, isStart, path, walk⟩ := second.reached other late
      exact ⟨start, by simp [isStart], path, walk⟩
    · rcases mem_cons.mp early with rfl | early
      · exact ⟨other, by simp, [other], .single other⟩
      · obtain ⟨start, isStart, path, walk⟩ := first.reached other early
        exact ⟨block, by simp, block :: path, .step block start other path isStart walk⟩
  · intro other member
    rcases mem_append.mp member with late | early
    · rcases second.led other late with waits | ⟨front, parent, back, split, after, edge⟩
      · exact .inl (by simp [waits])
      · exact .inr ⟨front, parent, back ++ block :: freshInner, by simp [split], by simp [after], edge⟩
    rcases mem_cons.mp early with rfl | early
    · exact .inl (by simp)
    · rcases first.led other early with waits | ⟨front, parent, back, split, after, edge⟩
      · exact .inr ⟨freshOuter, block, freshInner, rfl, early, waits⟩
      · exact .inr ⟨freshOuter ++ block :: front, parent, back, by simp [split], after, edge⟩

theorem depth_first_left (fuel : Nat) (waiting visited left : List Nat) :
    ∃ fresh, (depthFirst next fuel waiting (visited, left)).2 = fresh ++ left ∧
      Left next waiting visited (depthFirst next fuel waiting (visited, left)).1 fresh := by
  induction fuel generalizing waiting visited left with
  | zero =>
    rw [depthFirst]
    exact ⟨[], rfl, left_nothing next waiting visited⟩
  | succ fuel ih =>
    cases waiting with
    | nil =>
      rw [depthFirst]
      · exact ⟨[], rfl, left_nothing next [] visited⟩
      · simp
    | cons block waiting =>
      rw [depthFirst]
      by_cases known : block ∈ visited
      · simp only [contains_iff_mem, known, if_true]
        obtain ⟨fresh, lists, rest⟩ := ih waiting visited left
        exact ⟨fresh, lists, left_longer next block rest⟩
      simp only [contains_iff_mem, known, if_false]
      obtain ⟨freshInner, listsInner, first⟩ := ih (next block) (block :: visited) left
      generalize depthFirst next fuel (next block) (block :: visited, left) = middle at listsInner first
      obtain ⟨inner, leftInner⟩ := middle
      obtain ⟨freshOuter, listsOuter, second⟩ := ih waiting inner (block :: leftInner)
      refine ⟨freshOuter ++ block :: freshInner, ?_, left_block next known first second⟩
      rw [listsOuter, show leftInner = freshInner ++ left from listsInner]
      simp

end

namespace Graph

-- The blocks that edges lead away from in a direction, with repetitions.
def sources (graph : Graph) : Direction → List Nat
  | .forward => graph.edges.map (·.source)
  | .backward => graph.edges.map (·.target)

section
variable (graph : Graph) (direction : Direction)
include graph direction

theorem next_length (block : Nat) : (graph.next direction block).length ≤ (graph.sources direction).count block := by
  have counted (f : Edge → Nat) : (graph.edges.filter (f · = block)).length = (graph.edges.map f).count block := by
    simp [List.count, countP_eq_length_filter, filter_map, Function.comp_def, BEq.beq]
  -- each neighbour is listed once and stands for an edge of its own
  cases direction with
  | forward =>
    have included : graph.successors block ⊆ (graph.edges.filter (·.source = block)).map (·.target) := fun target ahead => by
      simpa [and_assoc] using (mem_successors graph block target).mp ahead
    have shorter := (subperm_of_subset (graph.wiring.outgoing_nodup block) included).length_le
    rwa [length_map, counted] at shorter
  | backward =>
    have included : graph.predecessors block ⊆ (graph.edges.filter (·.target = block)).map (·.source) := fun source behind => by
      simpa [and_assoc, and_comm] using (mem_predecessors graph source block).mp behind
    have shorter := (subperm_of_subset (graph.wiring.incoming_nodup block) included).length_le
    rwa [length_map, counted] at shorter

theorem reverse_postorder_complete (root block : Nat) (path : List Nat)
    (walk : Walk (graph.next direction) root path block) : block ∈ graph.reversePostorder direction root := by
  have bound : (unseen (graph.sources direction) []).length = graph.edges.length := by cases direction <;> simp [unseen, sources]
  have explored := depth_first_explored (graph.next direction) (graph.sources direction)
    (next_length graph direction) (2 * graph.rounds + 1) [root] ([], []) (by simp [rounds]; omega)
  have reached := walk_closed _ (fun a member b edge => explored.closed a member (by simp) b edge) walk
    (explored.waiting_visited root (by simp)) block (walk_final_mem walk)
  exact explored.left_of_visited block reached (by simp)

theorem reverse_postorder_left (root : Nat) : ∃ rest visited, graph.reversePostorder direction root = root :: rest ∧
      Left (graph.next direction) [root] [] visited (root :: rest) := by
  obtain ⟨fresh, lists, left⟩ := depth_first_left (graph.next direction) (2 * graph.rounds) (graph.next direction root) [root] []
  rw [append_nil] at lists
  have none : root ∉ ([] : List Nat) := not_mem_nil
  refine ⟨fresh, _, ?_, left_block (graph.next direction) none left (left_nothing _ [] _)⟩
  rw [reversePostorder, depthFirst]
  simp only [contains_nil, Bool.false_eq_true, if_false]
  rw [depthFirst, lists]
  simp [rounds]

end

end Graph

end HookLint
