import HookLint.Proofs.Graph.Postorder

namespace HookLint

open List Option

namespace Nearest

-- The blocks met on the way up from a block, the block itself included.
inductive Up (nearest : Nearest) (ancestor : Nat) : Nat → Prop where
  | here : Up nearest ancestor ancestor
  | above (up block : Nat) (entry : nearest.lookup block = some up) (rest : Up nearest ancestor up) :
      Up nearest ancestor block

theorem up_trans {nearest : Nearest} {a b c : Nat} (upper : Up nearest a b) (lower : Up nearest b c) : Up nearest a c := by
  induction lower with
  | here => exact upper
  | above up block entry rest ih => exact .above up block entry ih

theorem up_root {nearest : Nearest} {root ancestor : Nat} (rooted : nearest.lookup root = some root)
    (up : Up nearest ancestor root) : ancestor = root := by
  generalize same : root = block at up ⊢
  induction up with
  | here => rfl
  | above up block entry rest ih =>
    subst same
    have stays : root = up := Option.some.inj (rooted.symm.trans entry)
    exact (ih stays).trans stays.symm

theorem lookup_set (nearest : Nearest) (block value other : Nat) :
    (nearest.set block value).lookup other = if other = block then some value else nearest.lookup other := by
  induction nearest with
  | nil => by_cases same : other = block <;> simp [set, List.lookup, same, beq_false_of_ne]
  | cons entry nearest ih =>
    obtain ⟨name, old⟩ := entry
    by_cases here : name = block
    · subst name
      by_cases same : other = block <;> simp [set, lookup_cons, same, beq_false_of_ne]
    · by_cases same : other = name
      · subst name
        simp [set, here]
      · simp [set, lookup_cons, here, beq_false_of_ne same, ih]

theorem meet_up (order : List Nat) (nearest : Nearest) (fuel a b met : Nat)
    (found : meet order nearest fuel a b = some met) : Up nearest met a ∧ Up nearest met b := by
  induction fuel generalizing a b with
  | zero => simp [meet] at found
  | succ fuel ih =>
    rw [meet] at found
    by_cases same : a = b
    · obtain rfl : a = met := by simpa [same] using found
      exact ⟨.here, same ▸ .here⟩
    simp only [same, if_false, bind_eq_bind, bind_eq_some_iff] at found
    obtain ⟨placeA, _, placeB, _, found⟩ := found
    split at found
    · obtain ⟨up, entry, found⟩ := bind_eq_some_iff.mp found
      obtain ⟨left, right⟩ := ih up b found
      exact ⟨.above up a entry left, right⟩
    · obtain ⟨up, entry, found⟩ := bind_eq_some_iff.mp found
      obtain ⟨left, right⟩ := ih a up found
      exact ⟨left, .above up b entry right⟩

theorem meet_all_up (order : List Nat) (nearest : Nearest) (first met : Nat) (others : List Nat)
    (found : meetAll order nearest first others = some met) : Up nearest met first ∧ ∀ other ∈ others, Up nearest met other := by
  induction others generalizing first with
  | nil =>
    obtain rfl : first = met := by simpa [meetAll] using found
    exact ⟨.here, by simp⟩
  | cons other others ih =>
    simp only [meetAll, foldlM_cons, bind_eq_bind, bind_eq_some_iff] at found
    obtain ⟨middle, joined, found⟩ := found
    obtain ⟨left, right⟩ := meet_up order nearest _ first other middle joined
    obtain ⟨below, rest⟩ := ih middle found
    refine ⟨up_trans below left, fun block member => ?_⟩
    rcases mem_cons.mp member with rfl | later
    · exact up_trans below right
    · exact rest block later

-- A table that a revision of one block leaves as it is: the entry of the block is
-- a block above all entries before it.
def Settled (before : Nat → List Nat) (nearest : Nearest) (block : Nat) : Prop :=
  ∀ other ∈ before block, (nearest.lookup other).isSome → ∃ met, nearest.lookup block = some met ∧ Up nearest met other

section
variable (order : List Nat) (before : Nat → List Nat)

theorem revise_root (root block : Nat) (state after : Nearest × Bool)
    (other : block ≠ root) (revised : revise order before state block = some after) : after.1.lookup root = state.1.lookup root := by
  obtain ⟨nearest, changed⟩ := state
  simp only [revise] at revised
  split at revised
  · cases revised; rfl
  · obtain ⟨met, _, revised⟩ := bind_eq_some_iff.mp revised
    split at revised <;> cases revised
    · rfl
    · simp [lookup_set, Ne.symm other]

theorem revise_unchanged (block : Nat) (state : Nearest × Bool)
    (nearest : Nearest) (revised : revise order before state block = some (nearest, false)) :
    state = (nearest, false) ∧ Settled before nearest block := by
  obtain ⟨old, changed⟩ := state
  simp only [revise] at revised
  split at revised
  next none =>
    cases revised
    refine ⟨rfl, fun other member entry => ?_⟩
    have listed : other ∈ (before block).filter fun other => (List.lookup other nearest).isSome := mem_filter.mpr ⟨member, entry⟩
    simp [none] at listed
  rename_i first others split
  obtain ⟨met, found, revised⟩ := bind_eq_some_iff.mp revised
  split at revised
  next same =>
    cases revised
    obtain ⟨left, right⟩ := meet_all_up order nearest first met others found
    refine ⟨rfl, fun other member entry => ⟨met, same, ?_⟩⟩
    have listed : other ∈ first :: others := split ▸ mem_filter.mpr ⟨member, entry⟩
    rcases mem_cons.mp listed with rfl | later
    · exact left
    · exact right other later
  next => cases revised

theorem revise_all_root (root : Nat) (blocks : List Nat) (others : ∀ block ∈ blocks, block ≠ root) (state after : Nearest × Bool)
    (revised : blocks.foldlM (revise order before) state = some after) : after.1.lookup root = state.1.lookup root := by
  induction blocks generalizing state with
  | nil => cases revised; rfl
  | cons block blocks ih =>
    obtain ⟨middle, first, rest⟩ := bind_eq_some_iff.mp revised
    rw [ih (fun block member => others block (by simp [member])) middle rest]
    exact revise_root order before root block state middle (others block (by simp)) first

theorem revise_all_unchanged (blocks : List Nat) (state : Nearest × Bool) (nearest : Nearest)
    (revised : blocks.foldlM (revise order before) state = some (nearest, false)) :
    state = (nearest, false) ∧ ∀ block ∈ blocks, Settled before nearest block := by
  induction blocks generalizing state with
  | nil => exact ⟨by cases revised; rfl, by simp⟩
  | cons block blocks ih =>
    obtain ⟨middle, first, rest⟩ := bind_eq_some_iff.mp revised
    obtain ⟨rfl, settled⟩ := ih middle rest
    obtain ⟨same, here⟩ := revise_unchanged order before block state nearest first
    refine ⟨same, fun other member => ?_⟩
    rcases mem_cons.mp member with rfl | later
    · exact here
    · exact settled other later

theorem refine_settled (root fuel : Nat) (start nearest : Nearest)
    (rooted : start.lookup root = some root) (refined : refine order before root fuel start = some nearest) :
    nearest.lookup root = some root ∧ ∀ block ∈ order, block ≠ root → Settled before nearest block := by
  induction fuel generalizing start with
  | zero => simp [refine] at refined
  | succ fuel ih =>
    rw [refine] at refined
    obtain ⟨⟨after, changed⟩, round, refined⟩ := bind_eq_some_iff.mp refined
    have kept := revise_all_root order before root _ (by simp) _ _ round
    cases changed with
    | true => exact ih after (kept.trans rooted) refined
    | false =>
      cases refined
      obtain ⟨_, settled⟩ := revise_all_unchanged order before _ _ _ round
      exact ⟨kept.trans rooted, fun block member other => settled block (by simp [member, other])⟩

end

end Nearest

namespace DominatorTree

theorem chain_up (tree : DominatorTree) (fuel block ancestor : Nat) (member : ancestor ∈ tree.chainFrom fuel block) :
    Nearest.Up tree.nearest ancestor block ∧ (tree.nearest.lookup block).isSome := by
  induction fuel generalizing block with
  | zero => simp [chainFrom] at member
  | succ fuel ih =>
    rw [chainFrom] at member
    cases entry : tree.nearest.lookup block with
    | none => simp [entry] at member
    | some up =>
      refine ⟨?_, by simp⟩
      by_cases same : up = block
      · obtain rfl : ancestor = block := by simpa [entry, same] using member
        exact .here
      · simp only [entry, same, if_false, mem_cons] at member
        rcases member with rfl | later
        · exact .here
        · exact .above up block entry (ih up later).1

end DominatorTree

namespace Graph

theorem settled_up_mem (graph : Graph) (direction : Direction) (root : Nat) (before : Nat → List Nat)
    (listed : ∀ a b, b ∈ graph.next direction a → a ∈ before b) (nearest : Nearest) (rooted : nearest.lookup root = some root)
    (settled : ∀ block ∈ graph.reversePostorder direction root, block ≠ root → Nearest.Settled before nearest block)
    (block : Nat) (path : List Nat) (walk : Walk (graph.next direction) root path block) :
    (nearest.lookup block).isSome ∧ ∀ ancestor, Nearest.Up nearest ancestor block → ancestor ∈ path := by
  refine walk_snoc_induction (motive := fun path block => (nearest.lookup block).isSome ∧
    ∀ ancestor, Nearest.Up nearest ancestor block → ancestor ∈ path) ?_ ?_ walk
  · exact ⟨by simp [rooted], fun ancestor up => by simp [Nearest.up_root rooted up]⟩
  · intro path last final walk edge ⟨lastEntry, lastUp⟩
    by_cases same : final = root
    · subst final
      exact ⟨by simp [rooted], fun ancestor up => by simp [Nearest.up_root rooted up]⟩
    have ordered := reverse_postorder_complete graph direction root final _ (walk_snoc walk edge)
    obtain ⟨met, entry, metUp⟩ := settled final ordered same last (listed last final edge) lastEntry
    refine ⟨by simp [entry], fun ancestor up => ?_⟩
    cases up with
    | here => simp
    | above up _ entryUp rest =>
      obtain rfl : met = up := Option.some.inj (entry.symm.trans entryUp)
      exact mem_append_left _ (lastUp ancestor (Nearest.up_trans rest metUp))

end Graph

end HookLint
