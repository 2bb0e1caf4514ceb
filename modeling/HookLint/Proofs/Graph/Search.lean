import Mathlib.Data.List.Perm.Subperm
import HookLint.Graph.Loop
import HookLint.Proofs.Graph.Walk

namespace HookLint

open List

theorem erase_dups_sublist {α : Type} [BEq α] [LawfulBEq α] (items : List α) : items.eraseDups.Sublist items := by
  cases items with
  | nil => simp
  | cons head tail =>
    rw [eraseDups_cons]
    exact ((erase_dups_sublist (tail.filter fun b => !b == head)).trans filter_sublist).cons_cons head
termination_by items.length
decreasing_by exact Nat.lt_succ_of_le (length_filter_le ..)

theorem erase_dups_nodup {α : Type} [BEq α] [LawfulBEq α] (items : List α) : items.eraseDups.Nodup := by
  cases items with
  | nil => simp
  | cons head tail =>
    rw [eraseDups_cons, nodup_cons]
    exact ⟨by simp [mem_eraseDups], erase_dups_nodup (tail.filter fun b => !b == head)⟩
termination_by items.length
decreasing_by exact Nat.lt_succ_of_le (length_filter_le ..)

theorem mem_sorted_set (numbers : List Nat) (number : Nat) : number ∈ sortedSet numbers ↔ number ∈ numbers := by
  simp [sortedSet, mem_mergeSort, mem_eraseDups]

theorem sorted_set_nodup (numbers : List Nat) : (sortedSet numbers).Nodup :=
  (mergeSort_perm ..).nodup_iff.mpr (erase_dups_nodup numbers)

-- What a search can still find among its possible targets.
def unseen (targets seen : List Nat) : List Nat := targets.filter fun block => !seen.contains block

theorem unseen_fresh (targets seen fresh : List Nat) (distinct : fresh.Nodup)
    (possible : ∀ block ∈ fresh, block ∈ targets) (isFresh : ∀ block ∈ fresh, block ∉ seen) :
    fresh.length + (unseen targets (seen ++ fresh)).length ≤ (unseen targets seen).length := by
  have parts := length_eq_length_filter_add (l := unseen targets seen) fun block => fresh.contains block
  have left : unseen targets (seen ++ fresh) = (unseen targets seen).filter fun block => !fresh.contains block := by
    simp only [unseen, filter_filter]
    congr 1
    funext block
    simp [Bool.and_comm]
  have found : fresh.length ≤ ((unseen targets seen).filter fun block => fresh.contains block).length := by
    apply List.Subperm.length_le
    apply distinct.subperm
    intro block member
    simp [unseen, member, possible block member, isFresh block member]
  rw [left]
  omega

section
variable (next : Nat → List Nat)

theorem search_keeps (fuel : Nat) (seen waiting : List Nat) : ∀ block ∈ seen, block ∈ search next fuel seen waiting := by
  induction fuel generalizing seen waiting with
  | zero => simp [search]
  | succ fuel ih =>
    cases waiting with
    | nil => simp [search]
    | cons head waiting =>
      intro block member
      rw [search]
      exact ih _ _ block (by simp [member])

theorem search_reached (fuel : Nat) (seen waiting : List Nat) (block : Nat) (found : block ∈ search next fuel seen waiting) :
    block ∈ seen ∨ ∃ start ∈ waiting, ∃ path, Walk next start (start :: path) block ∧ ∀ visited ∈ path, visited ∉ seen := by
  induction fuel generalizing seen waiting with
  | zero => exact .inl (by simpa [search] using found)
  | succ fuel ih =>
    cases waiting with
    | nil => exact .inl (by simpa [search] using found)
    | cons head waiting =>
      have ahead {other : Nat} (member : other ∈ (next head).filter fun other => !seen.contains other) :
          other ∈ next head ∧ other ∉ seen := by simpa using member
      rw [search] at found
      rcases ih _ _ found with old | ⟨start, member, path, walk, away⟩
      · rcases mem_append.mp old with old | fresh
        · exact .inl old
        · obtain ⟨edge, new⟩ := ahead fresh
          exact .inr ⟨head, by simp, [block], .step head block block _ edge (.single block), by simpa using new⟩
      have old (visited : Nat) (member : visited ∈ path) : visited ∉ seen := fun known =>
        away visited member (mem_append_left _ known)
      rcases mem_append.mp member with fresh | later
      · obtain ⟨edge, new⟩ := ahead fresh
        exact .inr ⟨head, by simp, start :: path, .step head start block _ edge walk, forall_mem_cons.mpr ⟨new, old⟩⟩
      · exact .inr ⟨start, by simp [later], path, walk, old⟩

-- With enough rounds a search ends only when nobody waits: every block that was
-- seen then has all its neighbours seen, apart from blocks that never waited. Each
-- round uses up one waiting block, and a block joins the waiting ones only when it
-- stops being unseen.
theorem search_closed (targets : List Nat) (distinct : ∀ block, (next block).Nodup)
    (possible : ∀ a, ∀ b ∈ next a, b ∈ targets) (fuel : Nat) (seen waiting : List Nat)
    (enough : waiting.length + (unseen targets seen).length ≤ fuel) (apart : List Nat)
    (handled : ∀ a ∈ seen, a ∉ apart → a ∈ waiting ∨ ∀ b ∈ next a, b ∈ seen) :
    ∀ a ∈ search next fuel seen waiting, a ∉ apart → ∀ b ∈ next a, b ∈ search next fuel seen waiting := by
  induction fuel generalizing seen waiting with
  | zero =>
    obtain rfl : waiting = [] := length_eq_zero_iff.mp (by omega)
    intro a member
    simpa [search] using handled a (by simpa [search] using member)
  | succ fuel ih =>
    cases waiting with
    | nil =>
      intro a member
      simpa [search] using handled a (by simpa [search] using member)
    | cons head waiting =>
      rw [search]
      have fewer := unseen_fresh targets seen ((next head).filter fun other => !seen.contains other)
        ((distinct head).filter _) (fun block member => possible head block (mem_filter.mp member).1)
        (fun block member => by simpa using (mem_filter.mp member).2)
      apply ih
      · simp only [length_cons, length_append] at enough ⊢
        omega
      intro a member asked
      rcases mem_append.mp member with old | fresh
      · rcases handled a old asked with waits | done
        · rcases mem_cons.mp waits with rfl | waits
          · refine .inr fun b edge => ?_
            by_cases known : b ∈ seen <;> simp [known, edge]
          · exact .inl (by simp [waits])
        · exact .inr fun b edge => by simp [done b edge]
      · exact .inl (by simp only [mem_append]; exact .inl fresh)

end

namespace Graph

def targets (graph : Graph) : List Nat := graph.edges.map (·.target)

section
variable (graph : Graph)
include graph

theorem successors_nodup (block : Nat) : (graph.successors block).Nodup := graph.wiring.outgoing_nodup block

theorem predecessors_nodup (block : Nat) : (graph.predecessors block).Nodup := graph.wiring.incoming_nodup block

theorem successor_target (a b : Nat) (ahead : b ∈ graph.successors a) : b ∈ graph.targets := by
  obtain ⟨edge, member, _, rfl⟩ := (mem_successors graph a b).mp ahead
  exact mem_map.mpr ⟨edge, member, rfl⟩

theorem unseen_targets_length (seen : List Nat) : (unseen graph.targets seen).length ≤ graph.edges.length := by
  simpa [unseen, targets] using length_filter_le (fun block => !seen.contains block) graph.targets

theorem reachable_from_exact (start : Nat) (avoid : List Nat) (block : Nat) : block ∈ graph.reachableFrom start avoid ↔
      ∃ path, Walk graph.successors start path block ∧ ∀ visited ∈ path, visited ∉ avoid := by
  unfold reachableFrom
  by_cases avoided : start ∈ avoid
  · simp only [contains_iff_mem, avoided, if_true, not_mem_nil, false_iff]
    rintro ⟨path, walk, avoids⟩
    exact avoids start (walk_start_mem walk) avoided
  simp only [contains_iff_mem, avoided, if_false]
  constructor
  · intro found
    have inside : ∀ a b, b ∈ (graph.successors a).filter (fun other => !avoid.contains other) →
        b ∈ graph.successors a := fun a b member => (mem_filter.mp member).1
    have reached : ∃ path, Walk (fun block => (graph.successors block).filter fun other => !avoid.contains other) start path block := by
      rcases search_reached _ _ _ _ block found with same | ⟨first, member, path, walk, _⟩
      · obtain rfl : block = start := by simpa using same
        exact ⟨_, .single block⟩
      · obtain rfl : first = start := by simpa using member
        exact ⟨_, walk⟩
    obtain ⟨path, walk⟩ := reached
    refine ⟨path, walk_mono inside walk, ?_⟩
    clear found
    induction walk with
    | single => simpa using avoided
    | step start via final path edge rest ih =>
      intro visited member
      rcases mem_cons.mp member with rfl | later
      · exact avoided
      · exact ih (by simpa using (mem_filter.mp edge).2) visited later
  · rintro ⟨path, walk, avoids⟩
    refine walk_closed _ ?_ (walk_avoiding walk avoids) ?_ block (walk_final_mem walk)
    · intro a member
      refine search_closed _ graph.targets (fun block => (successors_nodup graph block).filter _)
        (fun a b member => successor_target graph a b (mem_filter.mp member).1) _ _ _ ?_ []
        (fun a member _ => .inl member) a member not_mem_nil
      have bound := unseen_targets_length graph [start]
      simp only [length_singleton, rounds]
      omega
    · exact search_keeps _ _ _ _ start (by simp)

theorem cyclic_repeatable (block : Nat) (cyclic : block ∈ graph.cyclicBlocks) : block ∈ graph.repeatable := by
  simp [repeatable, loopBlocks, mem_sorted_set, cyclic]

end

end Graph

end HookLint
