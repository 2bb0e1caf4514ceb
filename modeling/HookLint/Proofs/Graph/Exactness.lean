import HookLint.Proofs.Graph.Nearest

namespace HookLint

open List Option

variable {most : Nat} {done : List Nat}

namespace Nearest

section
variable {next before : Nat → List Nat} {root : Nat} {order : List Nat} {nearest : Nearest}

-- Going up from a block stays on all walks to it that visit no more than a number of blocks.
def Tight (next : Nat → List Nat) (root : Nat) (nearest : Nearest) (most block : Nat) : Prop :=
  ∀ path, Walk next root path block → path.length ≤ most → ∀ a, Up nearest a block → a ∈ path

section
variable {after : Nearest} {block met most : Nat}

theorem Meeting.visited (meeting : Meeting before nearest block met) (other : block ≠ root)
    (listed : ∀ last, block ∈ next last → last ∈ before block)
    (full : ∀ last path, Walk next root path last → path.length ≤ most → (nearest.lookup last).isSome)
    (tight : ∀ block, Tight next root nearest most block) (path : List Nat) (walk : Walk next root path block)
    (short : path.length ≤ most + 1) (a : Nat) (up : Up nearest a met) : a ∈ path := by
  rcases walk_snoc_cases walk with ⟨isRoot, _⟩ | ⟨front, last, rfl, walk, edge⟩
  · exact absurd isRoot.symm other
  · have fits : front.length ≤ most := by simpa using short
    have below := meeting.above last (listed last edge) (full last front walk fits)
    exact mem_append_left _ (tight last front walk fits a (up_trans up below))

section
variable (revised : Revised nearest after block met)
  (visited : ∀ path, Walk next root path block → path.length ≤ most → ∀ a, Up nearest a met → a ∈ path)
include revised visited

theorem Revised.tight_kept (b : Nat) (tight : Tight next root nearest most b) : Tight next root after most b := by
  intro path walk short a up
  rcases revised.up_cases up with old | ⟨through, beyond⟩
  · exact tight path walk short a old
  obtain ⟨first, rest, rfl, cut, _⟩ := walk_split walk (tight path walk short block through)
  have fits : (first ++ [block]).length ≤ most := by
    simp only [length_append, length_cons, length_nil] at short ⊢
    omega
  have early := visited _ cut fits a beyond
  rw [append_cons]
  exact mem_append_left rest early

theorem Revised.tight_here : Tight next root after most block := by
  intro path walk short a up
  cases up with
  | here => exact walk_final_mem walk
  | above up _ found rest =>
    rw [revised block, if_pos rfl] at found
    cases found
    exact visited path walk short a ((revised.up_cases rest).elim id And.right)

end

end

-- The state of a round of revisions: the blocks that are done have entries and are tight for longer
-- walks than the others.
structure Underway (next : Nat → List Nat) (root : Nat) (order : List Nat) (most : Nat) (done : List Nat)
    (nearest : Nearest) : Prop where
  rising : Rising next root order nearest
  entered : ∀ block ∈ done, (nearest.lookup block).isSome
  full : ∀ block path, Walk next root path block → path.length ≤ most → (nearest.lookup block).isSome
  tight : ∀ block, Tight next root nearest most block
  tighter : ∀ block ∈ done, Tight next root nearest (most + 1) block

theorem order_pairwise (order : List Nat) (distinct : order.Nodup) : order.Pairwise fun a b => order.idxOf a < order.idxOf b := by
  rw [pairwise_iff_getElem]
  intro i j validI validJ less
  rwa [distinct.idxOf_getElem i validI, distinct.idxOf_getElem j validJ]

section
variable (state : Underway next root order most done nearest) (ordered : Ordered next root order)
include state ordered

theorem Underway.parent_entered (block : Nat) (rest : List Nat) (split : order.filter (· ≠ root) = done ++ block :: rest) :
    ∃ parent, order.idxOf parent < order.idxOf block ∧ block ∈ next parent ∧ (nearest.lookup parent).isSome := by
  have member : block ∈ order.filter (· ≠ root) := by rw [split]; simp
  obtain ⟨inOrder, notRoot⟩ : block ∈ order ∧ block ≠ root := by simpa using member
  obtain ⟨parent, parentMember, earlier, edge⟩ := ordered.led block inOrder notRoot
  refine ⟨parent, earlier, edge, ?_⟩
  by_cases isRoot : parent = root
  · simp [isRoot, state.rising.rooted]
  have sorted := (order_pairwise order ordered.distinct).sublist (filter_sublist (p := fun a => decide (a ≠ root)))
  have listed : parent ∈ order.filter (· ≠ root) := by simp [parentMember, isRoot]
  rw [split] at sorted listed
  rcases mem_append.mp listed with early | late
  · exact state.entered parent early
  · rcases mem_cons.mp late with rfl | late
    · exact absurd earlier (Nat.lt_irrefl _)
    · have after := (pairwise_cons.mp (pairwise_append.mp sorted).2.1).1 parent late
      omega

theorem Underway.step (listed : ∀ a b, b ∈ next a ↔ a ∈ before b) (block : Nat) (rest : List Nat)
    (split : order.filter (· ≠ root) = done ++ block :: rest) (changed : Bool) :
    ∃ after changed', revise order before (nearest, changed) block = some (after, changed') ∧
      Underway next root order most (done ++ [block]) after := by
  obtain ⟨parent, earlier, edge, entry⟩ := state.parent_entered ordered block rest split
  have member : block ∈ order.filter (· ≠ root) := by rw [split]; simp
  obtain ⟨inOrder, notRoot⟩ : block ∈ order ∧ block ≠ root := by simpa using member
  have isBefore := (listed parent block).mp edge
  obtain ⟨met, meeting, run⟩ := state.rising.revise_some ordered block parent changed isBefore entry
  have goes (after : Nearest) (revised : Revised nearest after block met) : Underway next root order most (done ++ [block]) after := by
    have visited := meeting.visited notRoot (fun last edge => (listed last block).mp edge) state.full state.tight
    have visitedShort : ∀ path, Walk next root path block → path.length ≤ most → ∀ a, Up nearest a met → a ∈ path :=
      fun path walk short => visited path walk (Nat.le_succ_of_le short)
    refine ⟨revised.rising meeting state.rising notRoot inOrder (fun last => (listed last block).mpr) parent isBefore
      entry earlier, ?_, fun b path walk short => revised.keeps (state.full b path walk short),
      fun b => revised.tight_kept visitedShort b (state.tight b), ?_⟩
    · intro b isDone
      rcases mem_append.mp isDone with old | new
      · exact revised.keeps (state.entered b old)
      · rw [revised b, if_pos (by simpa using new)]
        rfl
    · intro b isDone
      rcases mem_append.mp isDone with old | new
      · exact revised.tight_kept visited b (state.tighter b old)
      · obtain rfl : b = block := by simpa using new
        exact revised.tight_here visited
  by_cases same : nearest.lookup block = some met
  · rw [if_pos same] at run
    exact ⟨nearest, changed, run, goes nearest (revised_same nearest block met same)⟩
  · rw [if_neg same] at run
    exact ⟨nearest.set block met, true, run, goes _ (revised_set nearest block met)⟩

theorem Underway.round (listed : ∀ a b, b ∈ next a ↔ a ∈ before b) (blocks : List Nat)
    (split : order.filter (· ≠ root) = done ++ blocks) (changed : Bool) :
    ∃ after changed', blocks.foldlM (revise order before) (nearest, changed) = some (after, changed') ∧
      Underway next root order most (order.filter (· ≠ root)) after := by
  induction blocks generalizing done nearest changed with
  | nil =>
    rw [append_nil] at split
    exact ⟨nearest, changed, rfl, split ▸ state⟩
  | cons block blocks ih =>
    obtain ⟨middle, changedOnce, run, next⟩ := state.step ordered listed block blocks split changed
    obtain ⟨after, changedTwice, runRest, final⟩ := ih next (by rw [split]; simp) changedOnce
    refine ⟨after, changedTwice, ?_, final⟩
    rw [foldlM_cons, run]
    exact runRest

end

theorem Rising.root_tight (rising : Rising next root order nearest) (most : Nat) : Tight next root nearest most root := by
  intro path walk _ a up
  rw [up_root rising.rooted up]
  exact walk_start_mem walk

theorem Underway.next_round (state : Underway next root order most (order.filter (· ≠ root)) nearest)
    (ordered : Ordered next root order) : Underway next root order (most + 1) [] nearest := by
  have cases' (block : Nat) (path : List Nat) (walk : Walk next root path block) : block = root ∨ block ∈ order.filter (· ≠ root) := by
    by_cases same : block = root
    · exact .inl same
    · exact .inr (by simp [ordered.complete block path walk, same])
  refine ⟨state.rising, by simp, ?_, ?_, by simp⟩
  · intro block path walk _
    rcases cases' block path walk with rfl | member
    · simp [state.rising.rooted]
    · exact state.entered block member
  · intro block path walk
    rcases cases' block path walk with rfl | member
    · exact state.rising.root_tight (most + 1) path walk
    · exact state.tighter block member path walk

-- A table that is tight for all walks tells the dominators, and a further round finds them again.
theorem Underway.unavoidable (state : Underway next root order most done nearest)
    (ordered : Ordered next root order) (enough : order.length ≤ most) {a b : Nat} (up : Up nearest a b) : OnEveryWalk next root a b := by
  intro path walk
  obtain ⟨short, straight, fits, sub⟩ := ordered.short_walk walk
  exact sub a (state.tight b short straight (Nat.le_trans fits enough) a up)

section
variable (state : Underway next root order most [] nearest) (ordered : Ordered next root order) (listed : ∀ a b, b ∈ next a ↔ a ∈ before b)
include state ordered listed

theorem Underway.unchanged (enough : order.length ≤ most) (block : Nat) (member : block ∈ order) (other : block ≠ root) (changed : Bool) :
    revise order before (nearest, changed) block = some (nearest, changed) := by
  have tells {a b : Nat} (up : Up nearest a b) : OnEveryWalk next root a b := state.unavoidable ordered enough up
  have full (b : Nat) (inOrder : b ∈ order) : (nearest.lookup b).isSome := by
    obtain ⟨path, walk⟩ := ordered.reached b inOrder
    obtain ⟨short, straight, fits, _⟩ := ordered.short_walk walk
    exact state.full b short straight (Nat.le_trans fits enough)
  obtain ⟨parent, parentMember, earlier, edge⟩ := ordered.led block member other
  have entry := full parent parentMember
  obtain ⟨met, meeting, run⟩ := state.rising.revise_some ordered block parent changed ((listed parent block).mp edge) entry
  obtain ⟨up, found⟩ := isSome_iff_exists.mp (full block member)
  obtain ⟨upEntry, upPlace⟩ := state.rising.rises block up found other
  have metUp := meeting.above parent ((listed parent block).mp edge) entry
  obtain ⟨metEntry, metPlace⟩ := state.rising.up_place metUp entry
  have down : Up nearest up met := by
    refine meeting.lowest up fun last isBefore lastEntry => ?_
    have unavoidable := tells (.above up block found .here : Up nearest up block)
    have different : up ≠ block := fun same => by subst same; omega
    exact state.rising.dominator_up lastEntry (on_every_walk_back unavoidable different ((listed last block).mpr isBefore))
  have beyond : OnEveryWalk next root met block := by
    intro path walk
    rcases walk_snoc_cases walk with ⟨isRoot, _⟩ | ⟨front, last, rfl, walk, edge⟩
    · exact absurd isRoot.symm other
    · have lastEntry := full last (ordered.complete last front walk)
      exact mem_append_left _ (tells (meeting.above last ((listed last block).mp edge) lastEntry) front walk)
  have different : met ≠ block := fun same => by subst same; omega
  have above : Up nearest met up := state.rising.dominator_up upEntry (state.rising.dominated block up found other met beyond different)
  rw [run, found, state.rising.up_antisymm above down upEntry, if_pos rfl]

theorem Underway.refine_ends (fuel : Nat) (early : most ≤ order.length) (enough : order.length + 1 ≤ fuel + most) :
    ∃ final, refine order before root fuel nearest = some final ∧ Rising next root order final ∧
      ∀ block ∈ order, (final.lookup block).isSome := by
  induction fuel generalizing most nearest with
  | zero => omega
  | succ fuel ih =>
    rw [refine]
    obtain ⟨after, changed, run, passed⟩ := state.round ordered listed (order.filter (· ≠ root)) rfl false
    rw [run]
    simp only [bind_eq_bind, bind_some]
    cases changed with
    | false =>
      refine ⟨after, rfl, passed.rising, fun block member => ?_⟩
      obtain ⟨path, walk⟩ := ordered.reached block member
      by_cases same : block = root
      · simp [same, passed.rising.rooted]
      · exact passed.entered block (by simp [member, same])
    | true =>
      have more : most < order.length := by
        by_contra all
        have quiet : ∀ blocks : List Nat, (∀ block ∈ blocks, block ∈ order ∧ block ≠ root) →
            blocks.foldlM (revise order before) (nearest, false) = some (nearest, false) := by
          intro blocks inside
          induction blocks with
          | nil => rfl
          | cons block blocks ih =>
            obtain ⟨member, other⟩ := inside block (by simp)
            rw [foldlM_cons, state.unchanged ordered listed (by omega) block member other false]
            exact ih fun block member => inside block (by simp [member])
        rw [quiet _ (by simp)] at run
        cases run
      exact ih (passed.next_round ordered) more (by omega)

end

theorem underway_start (ordered : Ordered next root order) : Underway next root order 0 [] [(root, root)] := by
  have found (block up : Nat) (entry : List.lookup block [(root, root)] = some up) : block = root := by
    by_contra other
    simp [List.lookup, beq_false_of_ne other] at entry
  have nowhere (path : List Nat) (block : Nat) (walk : Walk next root path block) : ¬ path.length ≤ 0 := by
    have visited := walk_final_mem walk
    cases path <;> simp at visited ⊢
  refine ⟨⟨by simp, ?_, ?_, ?_⟩, by simp, ?_, ?_, by simp⟩
  · exact fun block up entry => found block up entry ▸ ordered.root_mem
  · exact fun block up entry other => absurd (found block up entry) other
  · exact fun block up entry other => absurd (found block up entry) other
  · exact fun block path walk short => absurd short (nowhere path block walk)
  · exact fun block path walk short => absurd short (nowhere path block walk)

end

end Nearest

namespace DominatorTree

theorem up_chain {next : Nat → List Nat} {order : List Nat} (tree : DominatorTree)
    (rising : Nearest.Rising next tree.root order tree.nearest) (fuel a b : Nat) (up : Nearest.Up tree.nearest a b)
    (entry : (tree.nearest.lookup b).isSome) (enough : order.idxOf b < fuel) : a ∈ tree.chainFrom fuel b := by
  induction fuel generalizing b with
  | zero => omega
  | succ fuel ih =>
    obtain ⟨parent, found⟩ := isSome_iff_exists.mp entry
    rw [chainFrom, found]
    by_cases same : parent = b
    · obtain rfl : b = tree.root := by
        by_contra other
        have less := (rising.rises b parent found other).2
        rw [same] at less
        exact Nat.lt_irrefl _ less
      simp [same, Nearest.up_root rising.rooted up]
    have other : b ≠ tree.root := fun isRoot => by
      subst isRoot
      exact same (Option.some.inj (found.symm.trans rising.rooted))
    obtain ⟨parentEntry, less⟩ := rising.rises b parent found other
    simp only [same, if_false, mem_cons]
    cases up with
    | here => exact .inl rfl
    | above up _ foundUp rest =>
      obtain rfl : parent = up := Option.some.inj (found.symm.trans foundUp)
      exact .inr (ih parent rest parentEntry (by omega))

end DominatorTree

namespace Graph

section
variable (graph : Graph) (direction : Direction) (root : Nat) (before : Nat → List Nat)
  (listed : ∀ block, (before block).Perm (graph.previous direction block))
include listed

theorem listed_iff (a b : Nat) : b ∈ graph.next direction a ↔ a ∈ before b :=
  (next_iff_previous graph direction a b).trans (listed b).mem_iff.symm

theorem nearest_found : ∃ nearest, graph.dominatorTreeBy direction root before = ⟨root, nearest⟩ ∧
    Nearest.Rising (graph.next direction) root (graph.reversePostorder direction root) nearest ∧
    (∀ block, (nearest.lookup block).isSome ↔ Reachable (graph.next direction) root block) ∧
    ∀ a b, Nearest.Up nearest a b → OnEveryWalk (graph.next direction) root a b := by
  have ordered := graph.reverse_postorder_ordered direction root
  have iff := graph.listed_iff direction before listed
  obtain ⟨nearest, found, rising, full⟩ := (Nearest.underway_start ordered).refine_ends ordered iff
    ((_ + 1) * (_ + 1)) (Nat.zero_le _) (Nat.le_mul_of_pos_left _ (Nat.succ_pos _))
  obtain ⟨rooted, settled⟩ := Nearest.refine_settled _ before root _ _ nearest (by simp) found
  have up := graph.settled_up_mem direction root before (fun a b => (iff a b).mp) nearest rooted settled
  refine ⟨nearest, ?_, rising, fun block => ⟨fun entry => ?_, fun ⟨path, walk⟩ => (up block path walk).1⟩,
    fun a b isUp path walk => (up b path walk).2 a isUp⟩
  · rw [dominatorTreeBy, nearestDominatorsBy?, found]
    rfl
  · obtain ⟨up, entry⟩ := isSome_iff_exists.mp entry
    exact ordered.reached block (rising.listed block up entry)

theorem is_reachable_iff (block : Nat) : (graph.dominatorTreeBy direction root before).isReachable block = true ↔
    Reachable (graph.next direction) root block := by
  obtain ⟨nearest, tree, _, reachable, _⟩ := graph.nearest_found direction root before listed
  rw [tree]
  exact reachable block

theorem mem_dominators_of_iff (a b : Nat) : a ∈ (graph.dominatorTreeBy direction root before).dominatorsOf b ↔
    Dominates (graph.next direction) root a b := by
  obtain ⟨nearest, tree, rising, reachable, unavoidable⟩ := graph.nearest_found direction root before listed
  have ordered := graph.reverse_postorder_ordered direction root
  rw [tree]
  constructor
  · intro member
    obtain ⟨up, entry⟩ := DominatorTree.chain_up _ _ b a member
    exact ⟨(reachable b).mp entry, unavoidable a b up⟩
  rintro ⟨reached, always⟩
  have entry := (reachable b).mpr reached
  obtain ⟨up, found⟩ := isSome_iff_exists.mp entry
  refine DominatorTree.up_chain ⟨root, nearest⟩ rising nearest.length a b (rising.dominator_up entry always) entry ?_
  -- every block of the order has an entry of its own
  have covered : graph.reversePostorder direction root ⊆ nearest.map (·.1) := by
    intro block member
    obtain ⟨up, found⟩ := isSome_iff_exists.mp ((reachable block).mpr (ordered.reached block member))
    obtain ⟨first, rest, split, _⟩ := lookup_eq_some_iff.mp found
    simp [split]
  have place := idxOf_lt_length_of_mem (rising.listed b up found)
  have long := (ordered.distinct.subperm covered).length_le
  rw [length_map] at long
  omega

theorem dominates_iff (a b : Nat) : (graph.dominatorTreeBy direction root before).dominates a b = true ↔
    Dominates (graph.next direction) root a b := by
  rw [DominatorTree.dominates, contains_iff_mem]
  exact graph.mem_dominators_of_iff direction root before listed a b

theorem nearest_dominator (block : Nat) (other : block ≠ root) (reached : Reachable (graph.next direction) root block) :
    ∃ up, (graph.dominatorTreeBy direction root before).nearest.lookup block = some up ∧ up ≠ block ∧
      Dominates (graph.next direction) root up block ∧
      ∀ a, a ≠ block → Dominates (graph.next direction) root a block → Dominates (graph.next direction) root a up := by
  obtain ⟨nearest, tree, rising, reachable, unavoidable⟩ := graph.nearest_found direction root before listed
  obtain ⟨up, found⟩ := isSome_iff_exists.mp ((reachable block).mpr reached)
  obtain ⟨upEntry, less⟩ := rising.rises block up found other
  rw [tree]
  refine ⟨up, found, fun same => by subst same; omega, ⟨reached, unavoidable up block (.above up block found .here)⟩, ?_⟩
  exact fun a different dominates => ⟨(reachable up).mp upEntry, rising.dominated block up found other a dominates.2 different⟩

end

-- Backwards from a block, those are above another one that are on all walks from it to the block.
theorem post_dominates_iff (graph : Graph) (final : Nat) (before : Nat → List Nat)
    (listed : ∀ block, (before block).Perm (graph.successors block)) (a start : Nat) :
    (graph.dominatorTreeBy .backward final before).dominates a start = true ↔
      Reachable graph.successors start final ∧ ∀ path, Walk graph.successors start path final → a ∈ path := by
  have forth {path : List Nat} (walk : Walk graph.successors start path final) : Walk graph.predecessors final path.reverse start :=
    walk_reverse (fun a b => (graph.successors_iff_predecessors a b).mp) walk
  have back {path : List Nat} (walk : Walk graph.predecessors final path start) : Walk graph.successors start path.reverse final :=
    walk_reverse (fun a b => (graph.successors_iff_predecessors b a).mpr) walk
  rw [graph.dominates_iff .backward final before listed]
  constructor
  · rintro ⟨⟨path, walk⟩, always⟩
    exact ⟨⟨_, back walk⟩, fun path walk => mem_reverse.mp (always _ (forth walk))⟩
  · rintro ⟨⟨path, walk⟩, always⟩
    exact ⟨⟨_, forth walk⟩, fun path walk => mem_reverse.mp (always _ (back walk))⟩

theorem dominator_tree_exact (graph : Graph) (direction : Direction) (root : Nat) (before : Nat → List Nat)
    (listed : ∀ block, (before block).Perm (graph.previous direction block)) :
    let tree := graph.dominatorTreeBy direction root before
    (∀ block, tree.isReachable block = true ↔ Reachable (graph.next direction) root block) ∧
      (∀ a b, tree.dominates a b = true ↔ Dominates (graph.next direction) root a b) ∧
      (∀ a b, a ∈ tree.dominatorsOf b ↔ Dominates (graph.next direction) root a b) ∧
      ∀ block, block ≠ root → Reachable (graph.next direction) root block →
        ∃ up, tree.nearest.lookup block = some up ∧ up ≠ block ∧ Dominates (graph.next direction) root up block ∧
          ∀ a, a ≠ block → Dominates (graph.next direction) root a block → Dominates (graph.next direction) root a up :=
  ⟨graph.is_reachable_iff direction root before listed, graph.dominates_iff direction root before listed,
    graph.mem_dominators_of_iff direction root before listed, graph.nearest_dominator direction root before listed⟩

-- Two blocks that lead to each other and are both entered from outside, a block that leads to itself,
-- and one that nothing leads to.
def tangledGraph : Graph where
  nodes := [0, 1, 2, 3, 4]
  wiring := .of [⟨0, 1, .whenTrue⟩, ⟨0, 2, .whenFalse⟩, ⟨1, 2, .unconditional⟩, ⟨2, 1, .loopBack⟩, ⟨1, 3, .loopExit⟩,
    ⟨3, 3, .loopBack⟩, ⟨4, 3, .unconditional⟩]
  exit := 3

theorem tangled_dominators :
    let tree := tangledGraph.dominatorTreeBy .forward 0 fun block => (tangledGraph.predecessors block).reverse
    tree.nearest.lookup 3 = some 1 ∧ Dominates tangledGraph.successors 0 1 3 ∧ ¬ Dominates tangledGraph.successors 0 2 1 ∧
      ¬ Reachable tangledGraph.successors 0 4 := by
  obtain ⟨reachable, dominates, _, _⟩ := dominator_tree_exact tangledGraph .forward 0
    (fun block => (tangledGraph.predecessors block).reverse) fun block => reverse_perm _
  refine ⟨by cbv, (dominates 1 3).mp (by cbv), mt (dominates 2 1).mpr ?_, mt (reachable 4).mpr ?_⟩
  · exact ne_true_of_eq_false (by cbv)
  · exact ne_true_of_eq_false (by cbv)

end Graph

end HookLint
