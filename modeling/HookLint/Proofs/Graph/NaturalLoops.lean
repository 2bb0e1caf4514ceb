import HookLint.Proofs.Graph.Cycles
import HookLint.Proofs.Graph.Exactness

namespace HookLint

open List

-- The one block can be reached from the other by a walk that does not visit a third.
def Clear (next : Nat → List Nat) (avoid a b : Nat) : Prop := ∃ path, Walk next a path b ∧ avoid ∉ path

section
variable {next : Nat → List Nat} {root avoid a b c : Nat}

theorem clear_self (other : avoid ≠ a) : Clear next avoid a a := ⟨[a], .single a, by simpa using other⟩

theorem Clear.trans (first : Clear next avoid a b) (second : Clear next avoid b c) : Clear next avoid a c := by
  obtain ⟨path, walk, away⟩ := first
  obtain ⟨rest, walkRest, awayRest⟩ := second
  obtain ⟨tail, rfl⟩ : ∃ tail, rest = b :: tail := by cases walkRest <;> exact ⟨_, rfl⟩
  exact ⟨path ++ tail, walk_append walk walkRest, not_mem_append away fun late => awayRest (mem_cons_of_mem b late)⟩

theorem Clear.snoc (clear : Clear next avoid a b) (edge : c ∈ next b) (other : avoid ≠ c) : Clear next avoid a c := by
  obtain ⟨path, walk, away⟩ := clear
  exact ⟨path ++ [c], walk_snoc walk edge, not_mem_append away (by simpa using other)⟩

theorem Clear.reachable (clear : Clear next avoid a b) : Reachable next a b := by
  obtain ⟨path, walk, _⟩ := clear
  exact ⟨path, walk⟩

theorem on_every_walk_clear (unavoidable : OnEveryWalk next root a c) (clear : Clear next a b c) : OnEveryWalk next root a b := by
  intro path walk
  by_contra away
  obtain ⟨long, walkLong, awayLong⟩ := Clear.trans ⟨path, walk, away⟩ clear
  exact awayLong (unavoidable long walkLong)

theorem Dominates.reaches (dominates : Dominates next root a b) : Reachable next a b := by
  obtain ⟨⟨path, walk⟩, unavoidable⟩ := dominates
  obtain ⟨_, _, _, _, rest⟩ := walk_split walk (unavoidable path walk)
  exact ⟨_, rest⟩

-- A straight walk passes the dominators of its last block in one order, the order in which they
-- dominate each other.
theorem dominates_earlier {front back : List Nat} (dominates : Dominates next root a c)
    (walk : Walk next root (front ++ b :: back) c) (distinct : (front ++ b :: back).Nodup) (early : a ∈ front) :
    Dominates next root a b := by
  obtain ⟨first, rest⟩ := walk_cut walk
  have away : a ∉ b :: back := fun late => (nodup_append.mp distinct).2.2 a early a late rfl
  exact ⟨⟨_, first⟩, on_every_walk_clear dominates.2 ⟨_, rest, away⟩⟩

theorem dominators_comparable (first : Dominates next root a c) (second : Dominates next root b c) :
    Dominates next root a b ∨ Dominates next root b a := by
  obtain ⟨path, walk⟩ := first.1
  obtain ⟨short, straight, distinct, _⟩ := walk_straight walk
  obtain ⟨front, back, rfl⟩ := append_of_mem (first.2 short straight)
  rcases mem_append.mp (second.2 _ straight) with early | late
  · exact .inr (dominates_earlier second straight distinct early)
  rcases mem_cons.mp late with rfl | late
  · exact .inl ⟨⟨_, (walk_cut straight).1⟩, on_every_walk_self b⟩
  · obtain ⟨between, rest, rfl⟩ := append_of_mem late
    rw [← cons_append, ← append_assoc] at straight distinct
    exact .inl (dominates_earlier first straight distinct (by simp))

theorem Dominates.clear_before (dominates : Dominates next root a b) (other : a ≠ b) : Clear next b root a := by
  obtain ⟨path, walk⟩ := dominates.1
  obtain ⟨short, straight, distinct, _⟩ := walk_straight walk
  obtain ⟨before, rfl⟩ := walk_ends straight
  have early : a ∈ before := by simpa [other] using dominates.2 _ straight
  obtain ⟨front, back, rfl⟩ := append_of_mem early
  have visited : Walk next root (front ++ a :: (back ++ [b])) b := by simpa using straight
  refine ⟨_, (walk_cut visited).1, fun late => ?_⟩
  refine (nodup_append.mp distinct).2.2 b ?_ b mem_cons_self rfl
  rcases mem_append.mp late with late | late
  · exact mem_append_left _ late
  · exact absurd (mem_singleton.mp late).symm other

theorem Dominates.clear_after (above : Dominates next root a b) (other : a ≠ b) (dominates : Dominates next root b c) :
    Clear next a b c := by
  obtain ⟨path, walk⟩ := dominates.1
  obtain ⟨short, straight, distinct, _⟩ := walk_straight walk
  obtain ⟨front, back, rfl, first, rest⟩ := walk_split straight (dominates.2 short straight)
  have early : a ∈ front := by simpa [other] using above.2 _ first
  exact ⟨_, rest, fun late => (nodup_append.mp distinct).2.2 a early a late rfl⟩

end

-- The one list holds all blocks of the other and more.
def Within (inner outer : List Nat) : Prop := inner ⊆ outer ∧ ¬ outer ⊆ inner

theorem within_length {inner outer : List Nat} (within : Within inner outer) (distinct : inner.Nodup) : inner.length < outer.length := by
  have smaller := distinct.subperm within.1
  by_contra long
  exact within.2 (smaller.perm_of_length_le (by omega)).symm.subset

-- Of two items of a sorted list the one that may not stand behind the other stands before it.
theorem sublist_of_pairwise {α : Type} {rel : α → α → Prop} {items : List α} (sorted : items.Pairwise rel) {a b : α}
    (first : a ∈ items) (second : b ∈ items) (other : a ≠ b) (strict : ¬ rel b a) : [a, b].Sublist items := by
  obtain ⟨front, back, rfl⟩ := append_of_mem first
  rcases mem_append.mp second with early | late
  · exact absurd ((pairwise_append.mp sorted).2.2 b early a mem_cons_self) strict
  · have late : b ∈ back := by simpa [Ne.symm other] using late
    exact ((singleton_sublist.mpr late).cons_cons a).trans (sublist_append_right front _)

namespace Graph

def BackEdge (graph : Graph) (tail header : Nat) : Prop :=
  header ∈ graph.successors tail ∧ Dominates graph.successors graph.entry header tail

-- The loop of a header: the header and the blocks that lead to a back edge past it.
def Around (graph : Graph) (header block : Nat) : Prop :=
  block = header ∨ ∃ tail, graph.BackEdge tail header ∧ Clear graph.successors header block tail

theorem mem_tails_of (graph : Graph) (tail header : Nat) : tail ∈ graph.tailsOf graph.dominators header ↔ graph.BackEdge tail header := by
  rw [tailsOf, mem_sorted_set, mem_filter, ← successors_iff_predecessors]
  exact and_congr_right fun _ => dominates_iff graph .forward graph.entry _ (fun _ => .refl _) header tail

section
variable (graph : Graph) (header : Nat) {tails : List Nat} (distinct : tails.Nodup) (back : ∀ tail ∈ tails, header ∈ graph.successors tail)
include distinct back

-- Going backwards from the tails ends in time: another block to look at is the source of an edge.
theorem body_closed (block : Nat) (found : block ∈ graph.loopBodyOf header tails) (other : block ≠ header) (before : Nat)
    (edge : before ∈ graph.predecessors block) : before ∈ graph.loopBodyOf header tails := by
  rw [loopBodyOf, mem_sorted_set] at found ⊢
  have possible (a b : Nat) (edge : b ∈ graph.predecessors a) : b ∈ graph.edges.map (·.source) := by
    obtain ⟨found, member, source, _⟩ := (mem_predecessors graph b a).mp edge
    exact mem_map.mpr ⟨found, member, source⟩
  refine search_closed _ (graph.edges.map (·.source)) (predecessors_nodup graph) possible _ _ _ ?_ [header] ?_ block found
    (by simpa using other) before edge
  · have fewer := unseen_fresh (graph.edges.map (·.source)) [header] (tails.filter (· ≠ header)) (distinct.filter _)
      (fun tail member => possible header tail ((successors_iff_predecessors graph _ _).mp (back tail (mem_filter.mp member).1)))
      (by simp)
    have all := length_filter_le (fun block => !([header].contains block)) (graph.edges.map (·.source))
    simp only [length_map, rounds, singleton_append, unseen] at all fewer ⊢
    omega
  · intro a seen apart
    exact .inl ((mem_cons.mp seen).resolve_left (by simpa using apart))

theorem mem_loop_body_of (block : Nat) :
    block ∈ graph.loopBodyOf header tails ↔ block = header ∨ ∃ tail ∈ tails, Clear graph.successors header block tail := by
  constructor
  · intro found
    rw [loopBodyOf, mem_sorted_set] at found
    rcases search_reached _ _ _ _ block found with seen | ⟨start, isStart, path, walk, away⟩
    · rcases mem_cons.mp seen with rfl | start
      · exact .inl rfl
      · obtain ⟨member, other⟩ : block ∈ tails ∧ block ≠ header := by simpa using start
        exact .inr ⟨block, member, clear_self (Ne.symm other)⟩
    obtain ⟨member, other⟩ : start ∈ tails ∧ start ≠ header := by simpa using isStart
    refine .inr ⟨start, member, _, walk_reverse (fun a b => (successors_iff_predecessors graph b a).mpr) walk, ?_⟩
    rw [mem_reverse, mem_cons]
    rintro (same | late)
    · exact other same.symm
    · exact away header late mem_cons_self
  · rintro (rfl | ⟨tail, member, path, walk, away⟩)
    · rw [loopBodyOf, mem_sorted_set]
      exact search_keeps _ _ _ _ _ mem_cons_self
    have other : tail ≠ header := fun same => away (same ▸ walk_final_mem walk)
    have backwards := walk_avoiding (walk_reverse (fun a b => (successors_iff_predecessors graph a b).mp) walk)
      fun visited late => show visited ∉ [header] from fun same => away (mem_singleton.mp same ▸ mem_reverse.mp late)
    have start : tail ∈ (graph.loopBodyOf header tails).filter (· ≠ header) := by
      rw [mem_filter, loopBodyOf, mem_sorted_set]
      exact ⟨search_keeps _ _ _ _ _ (by simp [member, other]), by simpa using other⟩
    refine mem_of_mem_filter (walk_closed _ ?_ backwards start block (walk_final_mem backwards))
    intro a inside b edge
    obtain ⟨inside, apart⟩ := mem_filter.mp inside
    obtain ⟨edge, away⟩ := mem_filter.mp edge
    exact mem_filter.mpr ⟨body_closed graph header distinct back a inside (by simpa using apart) b edge, by simpa using away⟩

end

section
variable {graph : Graph} {header outer inner block : Nat}

theorem around_dominated (around : graph.Around header block) (reached : Reachable graph.successors graph.entry block) :
    Dominates graph.successors graph.entry header block := by
  rcases around with rfl | ⟨tail, back, clear⟩
  · exact ⟨reached, on_every_walk_self _⟩
  · exact ⟨reached, on_every_walk_clear back.2.2 clear⟩

section
variable (above : Dominates graph.successors graph.entry outer inner) (other : outer ≠ inner)
include above other

theorem outer_not_around {tail : Nat} (back : graph.BackEdge tail inner) : ¬ Clear graph.successors inner outer tail := by
  intro clear
  obtain ⟨path, walk, away⟩ := (above.clear_before other).trans clear
  exact away (back.2.2 path walk)

theorem around_clear (around : graph.Around inner block) : Clear graph.successors outer block inner := by
  rcases around with rfl | ⟨tail, back, path, walk, away⟩
  · exact clear_self other
  have past : outer ∉ path := by
    intro visited
    obtain ⟨front, rest, rfl, _, cut⟩ := walk_split walk visited
    exact outer_not_around above other back ⟨_, cut, fun late => away (mem_append_right front late)⟩
  exact Clear.snoc ⟨path, walk, past⟩ back.1 other

theorem around_nested (inOuter : graph.Around outer block) (inInner : graph.Around inner block) (reached : Reachable graph.successors graph.entry block) :
    (∀ member, graph.Around inner member → graph.Around outer member) ∧ ¬ graph.Around inner outer := by
  have outside : ¬ graph.Around inner outer := by
    rintro (same | ⟨tail, back, clear⟩)
    · exact other same
    · exact outer_not_around above other back clear
  refine ⟨fun member around => ?_, outside⟩
  rcases inOuter with rfl | ⟨tail, back, clear⟩
  · exact absurd inInner outside
  · have down := above.clear_after other (around_dominated inInner reached)
    exact .inr ⟨tail, back, ((around_clear above other around).trans down).trans clear⟩

end

theorem around_cycle (around : graph.Around header block) (tails : ∃ tail, graph.BackEdge tail header)
    (reached : Reachable graph.successors graph.entry block) : OnCycle graph.successors block := by
  have onward {a tail : Nat} (back : graph.BackEdge tail header) (reaches : Reachable graph.successors a tail) :
      Leads graph.successors a header := by
    by_cases same : a = tail
    · exact same ▸ ⟨header, back.1, _, .single header⟩
    · exact leads_trans (reaches.leads same) ⟨header, back.1, _, .single header⟩
  by_cases same : block = header
  · subst same
    obtain ⟨tail, back⟩ := tails
    exact onward back back.2.reaches
  · obtain ⟨tail, back, clear⟩ := around.resolve_left same
    exact leads_trans (onward back clear.reachable) ((around_dominated around reached).reaches.leads (Ne.symm same))

end

section
variable (graph : Graph)

theorem natural_loop_headers : (graph.naturalLoops.map (·.header)).Perm
    ((sortedSet graph.nodes).filter fun header => graph.tailsOf graph.dominators header ≠ []) := by
  refine ((mergeSort_perm ..).map _).trans (.of_eq ?_)
  induction sortedSet graph.nodes with
  | nil => rfl
  | cons header headers ih =>
    cases tails : graph.tailsOf graph.dominators header with
    | nil | cons tail rest => simpa [filterMap_cons, tails] using ih

theorem mem_natural_loops (loop : NaturalLoop) (listed : loop ∈ graph.naturalLoops) :
    loop.tails = graph.tailsOf graph.dominators loop.header ∧
      loop.body = graph.loopBodyOf loop.header (graph.tailsOf graph.dominators loop.header) := by
  obtain ⟨header, _, made⟩ := mem_filterMap.mp (mem_mergeSort.mp listed)
  cases tails : graph.tailsOf graph.dominators header with
  | nil => simp [tails] at made
  | cons tail rest =>
    obtain rfl : _ = loop := by simpa [tails] using made
    simp [tails]

theorem mem_natural_loop_headers (wellFormed : graph.WellFormed) (header : Nat) :
    header ∈ graph.naturalLoops.map (·.header) ↔ ∃ tail, graph.BackEdge tail header := by
  rw [(natural_loop_headers graph).mem_iff, mem_filter, mem_sorted_set, decide_eq_true_eq]
  constructor
  · rintro ⟨_, some⟩
    obtain ⟨tail, member⟩ := exists_mem_of_ne_nil _ some
    exact ⟨tail, (mem_tails_of graph tail header).mp member⟩
  · rintro ⟨tail, back⟩
    exact ⟨wellFormed.successor_mem tail header back.1, ne_nil_of_mem ((mem_tails_of graph tail header).mpr back)⟩

theorem mem_natural_loop_body (loop : NaturalLoop) (listed : loop ∈ graph.naturalLoops) (block : Nat) :
    block ∈ loop.body ↔ graph.Around loop.header block := by
  have distinct : (graph.tailsOf graph.dominators loop.header).Nodup := sorted_set_nodup _
  rw [(mem_natural_loops graph loop listed).2,
    mem_loop_body_of graph loop.header distinct fun tail member => ((mem_tails_of graph tail _).mp member).1]
  simp only [mem_tails_of, Around]

theorem natural_loops_nested (outer inner : NaturalLoop) (first : outer ∈ graph.naturalLoops)
    (second : inner ∈ graph.naturalLoops) (other : outer.header ≠ inner.header) (block : Nat)
    (reached : Reachable graph.successors graph.entry block) (inOuter : block ∈ outer.body) (inInner : block ∈ inner.body)
    (above : Dominates graph.successors graph.entry outer.header inner.header) : Within inner.body outer.body := by
  have inFirst := mem_natural_loop_body graph outer first
  have inSecond := mem_natural_loop_body graph inner second
  obtain ⟨inside, outside⟩ := around_nested above other ((inFirst block).mp inOuter) ((inSecond block).mp inInner) reached
  refine ⟨fun member held => (inFirst member).mpr (inside member ((inSecond member).mp held)), fun all => outside ?_⟩
  exact (inSecond _).mp (all ((inFirst _).mpr (.inl rfl)))

theorem natural_loops_exact (wellFormed : graph.WellFormed) : (graph.naturalLoops.map (·.header)).Nodup ∧
      (∀ header, header ∈ graph.naturalLoops.map (·.header) ↔ ∃ tail, graph.BackEdge tail header) ∧
      (∀ loop ∈ graph.naturalLoops, loop.tails.Nodup ∧ (∀ tail, tail ∈ loop.tails ↔ graph.BackEdge tail loop.header) ∧
        ∀ block, block ∈ loop.body ↔ graph.Around loop.header block) ∧
      (∀ first ∈ graph.naturalLoops, ∀ second ∈ graph.naturalLoops, first.header ≠ second.header →
        (∀ block, Reachable graph.successors graph.entry block → ¬ (block ∈ first.body ∧ block ∈ second.body)) ∨
          Within first.body second.body ∨ Within second.body first.body) ∧
      ∀ inner ∈ graph.naturalLoops, ∀ outer ∈ graph.naturalLoops, Within inner.body outer.body →
        [outer, inner].Sublist graph.naturalLoops := by
  refine ⟨?_, mem_natural_loop_headers graph wellFormed, ?_, ?_, ?_⟩
  · exact (natural_loop_headers graph).nodup_iff.mpr ((sorted_set_nodup _).filter _)
  · intro loop listed
    rw [(mem_natural_loops graph loop listed).1]
    exact ⟨sorted_set_nodup _, fun tail => mem_tails_of graph tail _, mem_natural_loop_body graph loop listed⟩
  · intro first inFirst second inSecond other
    refine Classical.or_iff_not_imp_left.mpr fun shared => ?_
    push Not at shared
    obtain ⟨block, reached, held, heldToo⟩ := shared
    have dominated (loop : NaturalLoop) (listed : loop ∈ graph.naturalLoops) (held : block ∈ loop.body) :=
      around_dominated ((mem_natural_loop_body graph loop listed block).mp held) reached
    rcases dominators_comparable (dominated first inFirst held) (dominated second inSecond heldToo) with above | above
    · exact .inr (natural_loops_nested graph first second inFirst inSecond other block reached held heldToo above)
    · exact .inl (natural_loops_nested graph second first inSecond inFirst (Ne.symm other) block reached heldToo held above)
  · intro inner inInner outer inOuter within
    have shorter := within_length within ((mem_natural_loops graph inner inInner).2 ▸ sorted_set_nodup _)
    have sorted : graph.naturalLoops.Pairwise fun a b => decide (b.body.length ≤ a.body.length) = true :=
      pairwise_mergeSort (by grind) (by grind) _
    refine sublist_of_pairwise sorted inOuter inInner ?_ (by simpa using shorter)
    rintro rfl
    exact within.2 within.1

end

-- A loop in a loop, with a block that nothing leads to and that leads into both.
def windingGraph : Graph where
  nodes := [0, 1, 2, 3, 4, 5]
  wiring := .of [⟨0, 1, .unconditional⟩, ⟨1, 2, .whenTrue⟩, ⟨1, 4, .whenFalse⟩, ⟨2, 3, .unconditional⟩, ⟨3, 2, .loopBack⟩,
    ⟨3, 1, .loopBack⟩, ⟨5, 3, .unconditional⟩]
  exit := 4

theorem winding_well_formed : windingGraph.WellFormed := ⟨by decide, by decide, by decide⟩

theorem winding_loops : windingGraph.WellFormed ∧ windingGraph.BackEdge 3 1 ∧ windingGraph.BackEdge 3 2 ∧
    ¬ windingGraph.BackEdge 5 3 ∧ windingGraph.Around 1 5 ∧ windingGraph.Around 2 5 ∧ ¬ windingGraph.Around 2 1 := by
  obtain ⟨_, headers, each, _⟩ := natural_loops_exact windingGraph winding_well_formed
  have loops : windingGraph.naturalLoops = [⟨1, [1, 2, 3, 5], [3]⟩, ⟨2, [2, 3, 5], [3]⟩] := by cbv
  rw [loops] at headers each
  obtain ⟨_, tailsOuter, bodyOuter⟩ := each ⟨1, [1, 2, 3, 5], [3]⟩ (by simp)
  obtain ⟨_, tailsInner, bodyInner⟩ := each ⟨2, [2, 3, 5], [3]⟩ (by simp)
  refine ⟨winding_well_formed, (tailsOuter 3).mp (by simp), (tailsInner 3).mp (by simp), fun back => ?_,
    (bodyOuter 5).mp (by simp), (bodyInner 5).mp (by simp), mt (bodyInner 1).mpr (by simp)⟩
  simpa using (headers 3).mpr ⟨5, back⟩

theorem loop_blocks_agree (graph : Graph) (wellFormed : graph.WellFormed) :
    (∀ block, Reachable graph.successors graph.entry block → (block ∈ graph.loopBlocks ↔ block ∈ graph.cyclicBlocks)) ∧
      ∀ block ∈ graph.cyclicBlocks, block ∈ graph.loopBlocks := by
  have listed (block : Nat) (cyclic : block ∈ graph.cyclicBlocks) : block ∈ graph.loopBlocks := by
    rw [loopBlocks, mem_sorted_set]
    exact mem_append_right _ cyclic
  refine ⟨fun block reached => ⟨fun looping => ?_, listed block⟩, listed⟩
  rw [loopBlocks, mem_sorted_set, mem_append, mem_flatMap] at looping
  rcases looping with ⟨loop, member, held⟩ | cyclic
  · have inside : block ∈ graph.nodes := by
      obtain ⟨path, walk⟩ := reached
      exact wellFormed.walk_mem walk wellFormed.entry_mem block (walk_final_mem walk)
    have tails := (mem_natural_loop_headers graph wellFormed loop.header).mp (mem_map_of_mem member)
    exact cyclic_of_on_cycle graph inside (around_cycle ((mem_natural_loop_body graph loop member block).mp held) tails reached)
  · exact cyclic

theorem winding_blocks_agree : windingGraph.WellFormed ∧ Reachable windingGraph.successors 0 3 ∧
    3 ∈ windingGraph.loopBlocks ∧ 3 ∈ windingGraph.cyclicBlocks ∧ 5 ∈ windingGraph.loopBlocks ∧ 5 ∉ windingGraph.cyclicBlocks := by
  have cyclic : windingGraph.cyclicBlocks = [1, 2, 3] := by cbv
  have loops : windingGraph.loopBlocks = [1, 2, 3, 5] := by cbv
  have reached : Reachable windingGraph.successors 0 3 :=
    ⟨_, .step 0 1 3 _ (by decide) (.step 1 2 3 _ (by decide) (.step 2 3 3 _ (by decide) (.single 3)))⟩
  refine ⟨winding_well_formed, reached, ((loop_blocks_agree windingGraph winding_well_formed).1 3 reached).mpr ?_, ?_⟩ <;>
    simp [cyclic, loops]

end Graph

end HookLint
