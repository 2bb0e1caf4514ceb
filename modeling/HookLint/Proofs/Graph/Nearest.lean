import HookLint.Proofs.Graph.Dominance

namespace HookLint

open List Option

variable {a b block : Nat} {path : List Nat}

def OnEveryWalk (next : Nat → List Nat) (root a b : Nat) : Prop := ∀ path, Walk next root path b → a ∈ path

-- A block dominates another if no walk leads past it to the other, and there is a walk at all.
def Dominates (next : Nat → List Nat) (root a b : Nat) : Prop := Reachable next root b ∧ OnEveryWalk next root a b

section
variable {next : Nat → List Nat} {root : Nat}

theorem on_every_walk_self (block : Nat) : OnEveryWalk next root block block := fun _ walk => walk_final_mem walk

theorem on_every_walk_root (unavoidable : OnEveryWalk next root a root) : a = root := by
  simpa using unavoidable [root] (.single root)

-- What all walks to a block pass before it, they pass on the way to each block in front of it.
theorem on_every_walk_back {last : Nat} (unavoidable : OnEveryWalk next root a block) (other : a ≠ block)
    (edge : block ∈ next last) : OnEveryWalk next root a last := by
  intro path walk
  simpa [other] using unavoidable (path ++ [block]) (walk_snoc walk edge)

theorem walk_straight {start final : Nat} (walk : Walk next start path final) :
    ∃ short, Walk next start short final ∧ short.Nodup ∧ ∀ block ∈ short, block ∈ path := by
  induction walk with
  | single block => exact ⟨[block], .single block, by simp, by simp⟩
  | step start via final path edge rest ih =>
    obtain ⟨short, walk, distinct, sub⟩ := ih
    by_cases again : start ∈ short
    · obtain ⟨before, after, rfl, _, cut⟩ := walk_split walk again
      refine ⟨start :: after, cut, distinct.sublist (sublist_append_right before _), ?_⟩
      exact fun block member => mem_cons_of_mem start (sub block (mem_append_right before member))
    refine ⟨start :: short, .step start via final short edge walk, nodup_cons.mpr ⟨again, distinct⟩, ?_⟩
    intro block member
    rcases mem_cons.mp member with rfl | later
    · exact mem_cons_self
    · exact mem_cons_of_mem start (sub block later)

end

-- An order of the reachable blocks in which the root comes first and every other block after one
-- that leads to it.
structure Ordered (next : Nat → List Nat) (root : Nat) (order : List Nat) : Prop where
  distinct : order.Nodup
  root_mem : root ∈ order
  first : order.idxOf root = 0
  reached : ∀ block ∈ order, Reachable next root block
  complete : ∀ block path, Walk next root path block → block ∈ order
  led : ∀ block ∈ order, block ≠ root → ∃ parent ∈ order, order.idxOf parent < order.idxOf block ∧ block ∈ next parent

theorem Ordered.short_walk {next : Nat → List Nat} {root : Nat} {order : List Nat} (ordered : Ordered next root order)
    (walk : Walk next root path block) :
    ∃ short, Walk next root short block ∧ short.length ≤ order.length ∧ ∀ visited ∈ short, visited ∈ path := by
  obtain ⟨short, straight, distinct, sub⟩ := walk_straight walk
  have inside : short ⊆ order := by
    intro visited member
    obtain ⟨first, rest, rfl, cut, _⟩ := walk_split straight member
    exact ordered.complete visited _ cut
  exact ⟨short, straight, (distinct.subperm inside).length_le, sub⟩

theorem Graph.reverse_postorder_ordered (graph : Graph) (direction : Direction) (root : Nat) :
    Ordered (graph.next direction) root (graph.reversePostorder direction root) := by
  have complete := graph.reverse_postorder_complete direction root
  obtain ⟨rest, visited, lists, left⟩ := graph.reverse_postorder_left direction root
  rw [lists] at complete ⊢
  refine ⟨left.distinct, by simp, by simp, ?_, complete, ?_⟩
  · intro block member
    obtain ⟨start, isStart, path, walk⟩ := left.reached block member
    obtain rfl : start = root := by simpa using isStart
    exact ⟨path, walk⟩
  intro block member other
  obtain ⟨front, parent, back, split, later, edge⟩ := (left.led block member).resolve_left (by simpa using other)
  have distinct := left.distinct
  rw [split] at distinct ⊢
  obtain ⟨_, distinctBack, apart⟩ := nodup_append.mp distinct
  have parentNew : parent ∉ front := fun early => apart parent early parent (by simp) rfl
  have blockNew : block ∉ front := fun early => apart block early block (by simp [later]) rfl
  have different : parent ≠ block := fun same => (nodup_cons.mp distinctBack).1 (same ▸ later)
  refine ⟨parent, by simp, ?_, edge⟩
  rw [idxOf_append_of_notMem parentNew, idxOf_append_of_notMem blockNew, idxOf_cons_self, idxOf_cons_ne _ different]
  omega

theorem place_eq (order : List Nat) (block : Nat) (member : block ∈ order) : order.idxOf? block = some (order.idxOf block) := by
  induction order with
  | nil => cases member
  | cons head order ih =>
    by_cases same : head = block
    · simp [List.idxOf?_cons, same]
    · have later : block ∈ order := by simpa [Ne.symm same] using member
      simp [List.idxOf?_cons, same, ih later]

namespace Nearest

-- A table in which every entry stands for a block further up in the order, and no dominator is left
-- out on the way up.
structure Rising (next : Nat → List Nat) (root : Nat) (order : List Nat) (nearest : Nearest) : Prop where
  rooted : nearest.lookup root = some root
  listed : ∀ block up, nearest.lookup block = some up → block ∈ order
  rises : ∀ block up, nearest.lookup block = some up → block ≠ root → (nearest.lookup up).isSome ∧ order.idxOf up < order.idxOf block
  dominated : ∀ block up, nearest.lookup block = some up → block ≠ root →
    ∀ a, OnEveryWalk next root a block → a ≠ block → OnEveryWalk next root a up

section
variable {next before : Nat → List Nat} {root : Nat} {order : List Nat} {nearest : Nearest}

section
variable (rising : Rising next root order nearest)
include rising

theorem Rising.up_place (up : Up nearest a b)
    (entry : (nearest.lookup b).isSome) : (nearest.lookup a).isSome ∧ order.idxOf a ≤ order.idxOf b := by
  induction up with
  | here => exact ⟨entry, Nat.le_refl _⟩
  | above up block found rest ih =>
    by_cases same : block = root
    · subst block
      obtain rfl : root = up := Option.some.inj (rising.rooted.symm.trans found)
      exact ih entry
    · obtain ⟨upEntry, less⟩ := rising.rises block up found same
      obtain ⟨found, le⟩ := ih upEntry
      exact ⟨found, by omega⟩

theorem Rising.up_antisymm (up : Up nearest a b) (down : Up nearest b a) (entry : (nearest.lookup b).isSome) : a = b := by
  obtain ⟨entryA, le⟩ := rising.up_place up entry
  have ge := (rising.up_place down entryA).2
  obtain ⟨up, found⟩ := isSome_iff_exists.mp entryA
  exact (idxOf_inj (rising.listed a up found)).mp (Nat.le_antisymm le ge)

theorem Rising.dominator_up (entry : (nearest.lookup b).isSome) (unavoidable : OnEveryWalk next root a b) : Up nearest a b := by
  induction place : order.idxOf b using Nat.strongRecOn generalizing b with
  | ind _ ih =>
    by_cases same : a = b
    · exact same ▸ .here
    · have notRoot : b ≠ root := fun isRoot => same ((on_every_walk_root (isRoot ▸ unavoidable)).trans isRoot.symm)
      obtain ⟨up, found⟩ := isSome_iff_exists.mp entry
      obtain ⟨upEntry, less⟩ := rising.rises b up found notRoot
      exact .above up b found (ih _ (place ▸ less) upEntry (rising.dominated b up found notRoot a unavoidable same) rfl)

theorem Rising.dominator_between {middle : Nat} (up : Up nearest middle b)
    (unavoidable : OnEveryWalk next root a b) (above : Up nearest a middle) (entry : (nearest.lookup b).isSome) :
    OnEveryWalk next root a middle := by
  induction up with
  | here => exact unavoidable
  | above up block found rest ih =>
    by_cases same : a = block
    · subst block
      rw [rising.up_antisymm (.above up a found rest) above entry]
      exact on_every_walk_self a
    · have notRoot : block ≠ root := fun isRoot => same ((on_every_walk_root (isRoot ▸ unavoidable)).trans isRoot.symm)
      exact ih (rising.dominated block up found notRoot a unavoidable same) (rising.rises block up found notRoot).1

theorem Rising.meet_lowest (fuel a b met x : Nat) (found : meet order nearest fuel a b = some met) (entryA : (nearest.lookup a).isSome)
    (entryB : (nearest.lookup b).isSome) (aboveA : Up nearest x a) (aboveB : Up nearest x b) : Up nearest x met := by
  have member (block : Nat) (entry : (nearest.lookup block).isSome) : block ∈ order := by
    obtain ⟨up, entry⟩ := isSome_iff_exists.mp entry
    exact rising.listed block up entry
  induction fuel generalizing a b with
  | zero => simp [meet] at found
  | succ fuel ih =>
    rw [meet] at found
    by_cases same : a = b
    · obtain rfl : a = met := by simpa [same] using found
      exact aboveA
    rw [if_neg same, place_eq order a (member a entryA), place_eq order b (member b entryB)] at found
    simp only [bind_eq_bind, bind_some] at found
    by_cases later : order.idxOf a > order.idxOf b
    · rw [if_pos later] at found
      obtain ⟨up, entry, found⟩ := bind_eq_some_iff.mp found
      cases aboveA with
      | here => exact absurd (rising.up_place aboveB entryB).2 (by omega)
      | above other _ entryOther rest =>
        obtain rfl : up = other := Option.some.inj (entry.symm.trans entryOther)
        have upEntry := (rising.up_place (.above up a entry .here) entryA).1
        exact ih up b found upEntry entryB rest aboveB
    · rw [if_neg later] at found
      obtain ⟨up, entry, found⟩ := bind_eq_some_iff.mp found
      cases aboveB with
      | here =>
        have le := (rising.up_place aboveA entryA).2
        have equal : order.idxOf a = order.idxOf x := by omega
        exact absurd ((idxOf_inj (member a entryA)).mp equal) same
      | above other _ entryOther rest =>
        obtain rfl : up = other := Option.some.inj (entry.symm.trans entryOther)
        have upEntry := (rising.up_place (.above up b entry .here) entryB).1
        exact ih a up found entryA upEntry aboveA rest

theorem Rising.meet_some (ordered : Ordered next root order) (fuel a b : Nat)
    (entryA : (nearest.lookup a).isSome) (entryB : (nearest.lookup b).isSome)
    (enough : order.idxOf a + order.idxOf b < fuel) : ∃ met, meet order nearest fuel a b = some met := by
  induction fuel generalizing a b with
  | zero => omega
  | succ fuel ih =>
    obtain ⟨upA, foundA⟩ := isSome_iff_exists.mp entryA
    obtain ⟨upB, foundB⟩ := isSome_iff_exists.mp entryB
    have memberA := rising.listed a upA foundA
    have memberB := rising.listed b upB foundB
    rw [meet]
    by_cases same : a = b
    · exact ⟨a, if_pos same⟩
    rw [if_neg same, place_eq order a memberA, place_eq order b memberB, foundA, foundB]
    simp only [bind_eq_bind, bind_some]
    have different : order.idxOf a ≠ order.idxOf b := fun equal => same ((idxOf_inj memberA).mp equal)
    have first := ordered.first
    by_cases later : order.idxOf a > order.idxOf b
    · rw [if_pos later]
      obtain ⟨entry, less⟩ := rising.rises a upA foundA (fun isRoot => by subst isRoot; omega)
      exact ih upA b entry entryB (by omega)
    · rw [if_neg later]
      obtain ⟨entry, less⟩ := rising.rises b upB foundB (fun isRoot => by subst isRoot; omega)
      exact ih a upB entryA entry (by omega)

theorem Rising.meet_all_lowest (first met x : Nat) (others : List Nat)
    (found : meetAll order nearest first others = some met) (entries : ∀ other ∈ first :: others, (nearest.lookup other).isSome)
    (above : ∀ other ∈ first :: others, Up nearest x other) : Up nearest x met := by
  induction others generalizing first with
  | nil =>
    obtain rfl : first = met := by simpa [meetAll] using found
    exact above first (by simp)
  | cons other others ih =>
    simp only [meetAll, foldlM_cons, bind_eq_bind, bind_eq_some_iff] at found
    obtain ⟨middle, joined, found⟩ := found
    have low := rising.meet_lowest _ first other middle x joined (entries first (by simp)) (entries other (by simp))
      (above first (by simp)) (above other (by simp))
    have entry := (rising.up_place (meet_up order nearest _ first other middle joined).1 (entries first (by simp))).1
    refine ih middle found ?_ ?_
    · simp only [forall_mem_cons] at entries ⊢
      exact ⟨entry, entries.2.2⟩
    · simp only [forall_mem_cons] at above ⊢
      exact ⟨low, above.2.2⟩

theorem Rising.meet_all_some (ordered : Ordered next root order)
    (first : Nat) (others : List Nat) (entries : ∀ other ∈ first :: others, (nearest.lookup other).isSome) :
    ∃ met, meetAll order nearest first others = some met := by
  have place (block : Nat) (entry : (nearest.lookup block).isSome) : order.idxOf block < order.length := by
    obtain ⟨up, entry⟩ := isSome_iff_exists.mp entry
    exact idxOf_lt_length_of_mem (rising.listed block up entry)
  induction others generalizing first with
  | nil => exact ⟨first, rfl⟩
  | cons other others ih =>
    simp only [forall_mem_cons] at entries
    obtain ⟨entryFirst, entryOther, later⟩ := entries
    have placeFirst := place first entryFirst
    have placeOther := place other entryOther
    obtain ⟨middle, joined⟩ := rising.meet_some ordered (2 * order.length + 1) first other entryFirst entryOther (by omega)
    have entry := (rising.up_place (meet_up order nearest _ first other middle joined).1 entryFirst).1
    obtain ⟨met, found⟩ := ih middle (forall_mem_cons.mpr ⟨entry, later⟩)
    refine ⟨met, ?_⟩
    rw [meetAll, foldlM_cons, joined]
    exact found

end

-- The lowest block above all that come before a block and have an entry.
structure Meeting (before : Nat → List Nat) (nearest : Nearest) (block met : Nat) : Prop where
  above : ∀ other ∈ before block, (nearest.lookup other).isSome → Up nearest met other
  lowest : ∀ x, (∀ other ∈ before block, (nearest.lookup other).isSome → Up nearest x other) → Up nearest x met

-- The table after a block was given the entry that its revision finds.
def Revised (nearest after : Nearest) (block met : Nat) : Prop :=
  ∀ other, after.lookup other = if other = block then some met else nearest.lookup other

theorem Rising.revise_some (rising : Rising next root order nearest) (ordered : Ordered next root order)
    (block parent : Nat) (changed : Bool) (isBefore : parent ∈ before block) (entry : (nearest.lookup parent).isSome) :
    ∃ met, Meeting before nearest block met ∧ revise order before (nearest, changed) block =
      if nearest.lookup block = some met then some (nearest, changed) else some (nearest.set block met, true) := by
  have listed (other : Nat) : other ∈ (before block).filter (fun other => (nearest.lookup other).isSome) ↔
      other ∈ before block ∧ (nearest.lookup other).isSome := mem_filter
  cases split : (before block).filter fun other => (nearest.lookup other).isSome with
  | nil =>
    have member := (listed parent).mpr ⟨isBefore, entry⟩
    simp [split] at member
  | cons first others =>
    simp only [split] at listed
    have entries : ∀ other ∈ first :: others, (nearest.lookup other).isSome := fun other member => ((listed other).mp member).2
    obtain ⟨met, found⟩ := rising.meet_all_some ordered first others entries
    refine ⟨met, ⟨fun other member entry => ?_, fun x above => ?_⟩, ?_⟩
    · obtain ⟨left, right⟩ := meet_all_up order nearest first met others found
      rcases mem_cons.mp ((listed other).mpr ⟨member, entry⟩) with rfl | later
      · exact left
      · exact right other later
    · refine rising.meet_all_lowest first met x others found entries fun other member => ?_
      obtain ⟨isBefore, entry⟩ := (listed other).mp member
      exact above other isBefore entry
    · simp only [revise, split, found, bind_eq_bind, bind_some]

theorem revised_set (nearest : Nearest) (block met : Nat) : Revised nearest (nearest.set block met) block met :=
  lookup_set nearest block met

theorem revised_same (nearest : Nearest) (block met : Nat) (entry : nearest.lookup block = some met) :
    Revised nearest nearest block met := by
  intro other
  by_cases same : other = block
  · rw [if_pos same, same, entry]
  · rw [if_neg same]

section
variable {after : Nearest} {block met : Nat}

section
variable (revised : Revised nearest after block met)
include revised

theorem Revised.keeps {other : Nat} (entry : (nearest.lookup other).isSome) : (after.lookup other).isSome := by
  rw [revised other]
  split
  · rfl
  · exact entry

theorem Revised.rising (meeting : Meeting before nearest block met)
    (rising : Rising next root order nearest) (other : block ≠ root) (member : block ∈ order)
    (back : ∀ last, last ∈ before block → block ∈ next last) (parent : Nat) (isBefore : parent ∈ before block)
    (entry : (nearest.lookup parent).isSome) (earlier : order.idxOf parent < order.idxOf block) : Rising next root order after := by
  have metUp := meeting.above parent isBefore entry
  obtain ⟨metEntry, metPlace⟩ := rising.up_place metUp entry
  refine ⟨?_, ?_, ?_, ?_⟩
  · rw [revised root, if_neg (Ne.symm other)]
    exact rising.rooted
  · intro a up found
    by_cases same : a = block
    · exact same ▸ member
    · rw [revised a, if_neg same] at found
      exact rising.listed a up found
  · intro a up found notRoot
    rw [revised a] at found
    by_cases same : a = block
    · rw [if_pos same] at found
      cases found
      exact ⟨revised.keeps metEntry, by rw [same]; omega⟩
    · rw [if_neg same] at found
      obtain ⟨upEntry, less⟩ := rising.rises a up found notRoot
      exact ⟨revised.keeps upEntry, less⟩
  · intro a up found notRoot ancestor unavoidable different
    rw [revised a] at found
    by_cases same : a = block
    · rw [if_pos same] at found
      cases found
      subst a
      have passed (last : Nat) (isBefore : last ∈ before block) : OnEveryWalk next root ancestor last :=
        on_every_walk_back unavoidable different (back last isBefore)
      refine rising.dominator_between metUp (passed parent isBefore) (meeting.lowest ancestor ?_) entry
      exact fun last isBefore lastEntry => rising.dominator_up lastEntry (passed last isBefore)
    · rw [if_neg same] at found
      exact rising.dominated a up found notRoot ancestor unavoidable different

-- On the way up in a revised table, one goes as before, or through the revised block and on from
-- its new entry.
theorem Revised.up_cases (up : Up after a b) : Up nearest a b ∨ (Up nearest block b ∧ Up nearest a met) := by
  induction up with
  | here => exact .inl .here
  | above up other found rest ih =>
    rw [revised other] at found
    by_cases same : other = block
    · rw [if_pos same] at found
      cases found
      exact .inr ⟨same ▸ .here, ih.elim id And.right⟩
    · rw [if_neg same] at found
      exact ih.imp (.above up other found) fun ⟨through, beyond⟩ => ⟨.above up other found through, beyond⟩

end

end

end

end Nearest

end HookLint
