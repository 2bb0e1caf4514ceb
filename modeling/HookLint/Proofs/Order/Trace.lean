import Mathlib.Data.List.Pairwise
import HookLint.Proofs.Graph.Walk
import HookLint.Proofs.Order.Agreement

namespace HookLint.Order

open List

-- The calls that a block makes, in the order in which it makes them.
def inBlock (placements : List Placement) (block : Nat) : List Placement :=
  (placements.filter (·.block = block)).mergeSort fun a b => decide (a.ordinal ≤ b.ordinal)

-- The calls that are made along a list of blocks.
def executed (placements : List Placement) (path : List Nat) : List Placement := path.flatMap (inBlock placements)

-- The callees along a list of blocks, one for each call.
def callees (placements : List Placement) (path : List Nat) : List String := (executed placements path).map (·.callee)

-- No two calls stand at the same place of the same block.
def Apart (placements : List Placement) : Prop := placements.Pairwise fun a b => a.block ≠ b.block ∨ a.ordinal ≠ b.ordinal

section
variable (placements : List Placement)
include placements

theorem apart_eq (apart : Apart placements) (a b : Placement) (hasA : a ∈ placements)
    (hasB : b ∈ placements) (block : a.block = b.block) (ordinal : a.ordinal = b.ordinal) : a = b := by
  by_contra different
  have symmetric : Std.Symm fun a b : Placement => a.block ≠ b.block ∨ a.ordinal ≠ b.ordinal :=
    ⟨fun _ _ unequal => unequal.imp Ne.symm Ne.symm⟩
  rcases apart.forall hasA hasB different with other | other
  · exact other block
  · exact other ordinal

theorem apart_nodup (apart : Apart placements) : placements.Nodup :=
  apart.imp fun {a b} different same => by simp [same] at different

theorem mem_in_block (block : Nat) (call : Placement) : call ∈ inBlock placements block ↔ call ∈ placements ∧ call.block = block := by
  simp [inBlock, mem_mergeSort]

end

theorem pair_not_reversed {α : Type} {items : List α} {a b : α} (distinct : items.Nodup) (pair : [a, b].Sublist items) :
    ¬ [b, a].Sublist items := by
  induction items with
  | nil => cases pair
  | cons head items ih =>
    obtain ⟨fresh, distinct⟩ := nodup_cons.mp distinct
    intro back
    rw [sublist_cons_iff] at pair back
    rcases pair with later | ⟨rest, split, inRest⟩
    · rcases back with laterBack | ⟨rest, split, inRest⟩
      · exact ih distinct later laterBack
      · obtain ⟨rfl, rfl⟩ : b = head ∧ [a] = rest := by simpa using split
        exact fresh (later.subset (by simp))
    obtain ⟨rfl, rfl⟩ : a = head ∧ [b] = rest := by simpa using split
    rcases back with laterBack | ⟨rest, split, inRestBack⟩
    · exact fresh (laterBack.subset (by simp))
    · obtain ⟨rfl, rfl⟩ : b = a ∧ [a] = rest := by simpa using split
      exact fresh (by simpa using inRest)

theorem earlier_block (a b : Placement) (earlier : a.earlier b = true) : a.block = b.block := by
  simp only [Placement.earlier, Bool.and_eq_true, decide_eq_true_eq] at earlier
  exact earlier.1

theorem earlier_asymm (a b : Placement) (earlier : a.earlier b = true) : ¬ b.earlier a = true := by
  simp only [Placement.earlier, Bool.and_eq_true, Bool.or_eq_true, decide_eq_true_eq] at earlier ⊢
  omega

-- The calls of a block are made one after the other.
def Sequenced (placements : List Placement) : Prop := ∀ block, (inBlock placements block).Pairwise fun a b => a.earlier b = true

section
variable (placements : List Placement)
include placements

theorem in_block_ordinals (block : Nat) : (inBlock placements block).Pairwise fun a b => a.ordinal ≤ b.ordinal := by
  refine (pairwise_mergeSort ?_ ?_ _).imp fun {a b} le => by simpa using le
  · simp only [decide_eq_true_eq]
    exact fun a b c first second => Nat.le_trans first second
  · intro a b
    simpa using Nat.le_total a.ordinal b.ordinal

theorem apart_sequenced (apart : Apart placements) : Sequenced placements := by
  intro block
  have distinct : (inBlock placements block).Nodup := (mergeSort_perm _ _).nodup_iff.mpr ((apart_nodup placements apart).filter _)
  refine ((in_block_ordinals placements block).and distinct).imp_of_mem fun {a b} hasA hasB ⟨le, different⟩ => ?_
  obtain ⟨memberA, blockA⟩ := (mem_in_block placements block a).mp hasA
  obtain ⟨memberB, blockB⟩ := (mem_in_block placements block b).mp hasB
  have less : a.ordinal < b.ordinal := Nat.lt_of_le_of_ne le fun same => different
    (apart_eq placements apart a b memberA memberB (blockA.trans blockB.symm) same)
  simp [Placement.earlier, blockA, blockB, less]

theorem numbered_sequenced (numbered : placements.Pairwise (·.number < ·.number)) : Sequenced placements := by
  intro block
  have filtered : (placements.filter (·.block = block)).Pairwise (·.number < ·.number) := numbered.filter _
  have distinct : (inBlock placements block).Nodup :=
    (mergeSort_perm _ _).nodup_iff.mpr (filtered.imp fun {a b} less same => by simp [same] at less)
  rw [pairwise_iff_forall_sublist]
  intro a b pair
  have le : a.ordinal ≤ b.ordinal := pairwise_iff_forall_sublist.mp (in_block_ordinals placements block) pair
  have hasA := pair.subset (mem_cons_self : a ∈ [a, b])
  have hasB := pair.subset (mem_cons_of_mem a mem_cons_self : b ∈ [a, b])
  obtain ⟨memberA, blockA⟩ := (mem_in_block placements block a).mp hasA
  obtain ⟨memberB, blockB⟩ := (mem_in_block placements block b).mp hasB
  have different : a ≠ b := pairwise_iff_forall_sublist.mp distinct pair
  simp only [Placement.earlier, blockA, blockB, Bool.and_eq_true, Bool.or_eq_true, decide_eq_true_eq, true_and]
  by_cases less : a.ordinal < b.ordinal
  · exact .inl less
  refine .inr ⟨by omega, ?_⟩
  have listed : b ∈ placements.filter (·.block = block) := by simp [memberB, blockB]
  obtain ⟨before, after, split⟩ := append_of_mem listed
  rw [split, pairwise_append] at filtered
  have listedA : a ∈ before ++ b :: after := split ▸ by simp [memberA, blockA]
  rcases mem_append.mp listedA with early | late
  · exact filtered.2.2 a early b (by simp)
  -- the list has the two the other way round, and sorting keeps that
  have late : a ∈ after := by simpa [different] using late
  have back : [b, a].Sublist (inBlock placements block) := by
    refine pair_sublist_mergeSort ?_ ?_ (by simpa using by omega) ?_
    · simp only [decide_eq_true_eq]
      exact fun a b c first second => Nat.le_trans first second
    · intro a b
      simpa using Nat.le_total a.ordinal b.ordinal
    · rw [split]
      exact ((singleton_sublist.mpr late).cons_cons b).trans (sublist_append_right before _)
  exact absurd back (pair_not_reversed distinct pair)

theorem in_block_nodup (sequenced : Sequenced placements) (block : Nat) : (inBlock placements block).Nodup := by
  refine (sequenced block).imp fun {a b} earlier same => ?_
  subst same
  exact earlier_asymm a a earlier earlier

end

theorem pair_split {α : Type} {items : List α} {a b : α} (pair : [a, b].Sublist items) :
    ∃ before between after, items = before ++ a :: between ++ b :: after := by
  obtain ⟨first, rest, rfl, inFirst, inRest⟩ := cons_sublist_iff.mp pair
  obtain ⟨before, between, rfl⟩ := append_of_mem inFirst
  obtain ⟨middle, after, rfl⟩ := append_of_mem (singleton_sublist.mp inRest)
  exact ⟨before, between ++ middle, after, by simp⟩

theorem in_block_pair {placements : List Placement} (sequenced : Sequenced placements) {block : Nat} {a b : Placement}
    (hasA : a ∈ inBlock placements block) (hasB : b ∈ inBlock placements block) (earlier : a.earlier b = true) :
    [a, b].Sublist (inBlock placements block) := by
  have sorted := sequenced block
  obtain ⟨before, after, split⟩ := append_of_mem hasB
  rw [split] at hasA sorted ⊢
  rcases mem_append.mp hasA with early | late
  · exact (singleton_sublist.mpr early).append (singleton_sublist.mpr mem_cons_self)
  · rcases mem_cons.mp late with rfl | late
    · exact absurd earlier (earlier_asymm a a earlier)
    · have later := (pairwise_cons.mp (pairwise_append.mp sorted).2.1).1 a late
      exact absurd later (earlier_asymm a b earlier)

theorem mem_executed (placements : List Placement) (path : List Nat) (call : Placement) :
    call ∈ executed placements path ↔ call ∈ placements ∧ call.block ∈ path := by
  simp [executed, mem_in_block, and_comm]

theorem executed_append (placements : List Placement) (first second : List Nat) :
    executed placements (first ++ second) = executed placements first ++ executed placements second := by
  simp [executed]

theorem pair_in_flat_map {α β : Type} (f : α → List β) (path : List α) (s t : β) (pair : [s, t].Sublist (path.flatMap f)) :
    (∃ a ∈ path, [s, t].Sublist (f a)) ∨ ∃ before b after, path = before ++ b :: after ∧ (∃ a ∈ before, s ∈ f a) ∧ t ∈ f b := by
  induction path with
  | nil => simp at pair
  | cons head path ih =>
    rw [flatMap_cons] at pair
    obtain ⟨early, late, split, inHead, inRest⟩ := sublist_append_iff.mp pair
    match early, split with
    | [], split =>
      rw [nil_append] at split
      rcases ih (split ▸ inRest) with ⟨a, member, pair⟩ | ⟨before, b, after, rfl, ⟨a, member, hasS⟩, hasT⟩
      · exact .inl ⟨a, by simp [member], pair⟩
      · exact .inr ⟨head :: before, b, after, rfl, ⟨a, by simp [member], hasS⟩, hasT⟩
    | [x], split =>
      obtain ⟨rfl, rfl⟩ : s = x ∧ [t] = late := by simpa using split
      obtain ⟨b, member, hasT⟩ : ∃ b ∈ path, t ∈ f b := by simpa using inRest
      obtain ⟨before, after, rfl⟩ := append_of_mem member
      exact .inr ⟨head :: before, b, after, rfl, ⟨head, by simp, by simpa using inHead⟩, hasT⟩
    | [x, y], split =>
      obtain ⟨rfl, rfl, _⟩ : s = x ∧ t = y ∧ [] = late := by simpa using split
      exact .inl ⟨head, by simp, inHead⟩
    | x :: y :: z :: rest, split => simp at split

section
variable (placements : List Placement) (sequenced : Sequenced placements)
include placements sequenced

-- One call before another: earlier in the same block, or in a block that is visited
-- before.
theorem executed_pair (path : List Nat) (s t : Placement) (pair : [s, t].Sublist (executed placements path)) :
    s.earlier t = true ∨ ∃ before after, path = before ++ t.block :: after ∧ s.block ∈ before := by
  rcases pair_in_flat_map _ path s t pair with ⟨block, _, inside⟩ | ⟨before, block, after, rfl, ⟨a, member, hasS⟩, hasT⟩
  · exact .inl (pairwise_iff_forall_sublist.mp (sequenced block) inside)
  · obtain ⟨_, rfl⟩ := (mem_in_block placements block t).mp hasT
    obtain ⟨_, rfl⟩ := (mem_in_block placements a s).mp hasS
    exact .inr ⟨before, after, rfl, member⟩

theorem in_block_count (call : Placement)
    (member : call ∈ placements) (block : Nat) : (inBlock placements block).count call = if block = call.block then 1 else 0 := by
  by_cases same : block = call.block
  · rw [if_pos same]
    have distinct := in_block_nodup placements sequenced block
    exact count_eq_one_of_mem distinct ((mem_in_block placements block call).mpr ⟨member, same.symm⟩)
  · rw [if_neg same]
    refine count_eq_zero.mpr fun listed => same ?_
    exact ((mem_in_block placements block call).mp listed).2.symm

theorem executed_count (call : Placement)
    (member : call ∈ placements) (path : List Nat) : (executed placements path).count call = path.count call.block := by
  induction path with
  | nil => rfl
  | cons block path ih =>
    have here := in_block_count placements sequenced call member block
    rw [count_cons, ← ih]
    simp only [executed, flatMap_cons, count_append, here, beq_iff_eq]
    omega

end

section
variable {placements : List Placement} {next : Nat → List Nat} {start final : Nat} {path : List Nat}

section
variable (sequenced : Sequenced placements) (acyclic : ∀ call ∈ placements, ¬ OnCycle next call.block) (walk : Walk next start path final)
include sequenced acyclic walk

theorem executed_nodup : (executed placements path).Nodup := by
  rw [nodup_iff_count_le_one]
  intro call
  by_cases member : call ∈ placements
  · rw [executed_count placements sequenced call member]
    exact walk_count_le_one walk (acyclic call member)
  · have absent : call ∉ executed placements path := fun listed => member ((mem_executed placements path call).mp listed).1
    simp [count_eq_zero.mpr absent]

theorem executed_ordered {other : List Nat} {otherFinal : Nat} (otherWalk : Walk next start other otherFinal) (s t : Placement)
    (forth : [s, t].Sublist (executed placements path)) : ¬ [t, s].Sublist (executed placements other) := by
  intro back
  have hasS : s ∈ placements := ((mem_executed placements path s).mp (forth.subset (by simp))).1
  rcases executed_pair placements sequenced path s t forth with earlier | ⟨before, after, rfl, early⟩
  · have same := earlier_block s t earlier
    rcases executed_pair placements sequenced other t s back with later | ⟨before, after, rfl, early⟩
    · exact earlier_asymm s t earlier later
    · exact acyclic s hasS (walk_leads otherWalk (same ▸ early))
  · have leads := walk_leads walk early
    rcases executed_pair placements sequenced other t s back with later | ⟨before, after, rfl, early⟩
    · exact acyclic s hasS (earlier_block t s later ▸ leads)
    · exact acyclic s hasS (leads_trans leads (walk_leads otherWalk early))

theorem executed_length : (executed placements path).length ≤ placements.length := by
  apply List.Subperm.length_le
  apply (executed_nodup sequenced acyclic walk).subperm
  exact fun call member => ((mem_executed placements path call).mp member).1

end

end

section
variable (placements : List Placement) (sequenced : Sequenced placements) (call : Placement)
include placements sequenced call

theorem count_before_in_block (before after : List Placement) (split : inBlock placements call.block = before ++ call :: after)
    (test : Placement → Bool) : before.countP test = placements.countP fun p => p.earlier call && test p := by
  have sorted := sequenced call.block
  rw [split, pairwise_append, pairwise_cons] at sorted
  have parts : (inBlock placements call.block).countP (fun p => p.earlier call && test p) = before.countP test := by
    rw [split, countP_append]
    have early : before.countP (fun p => p.earlier call && test p) = before.countP test := by
      refine countP_congr fun p listed => ?_
      simp [sorted.2.2 p listed call (by simp)]
    have late : (call :: after).countP (fun p => p.earlier call && test p) = 0 := by
      refine countP_eq_zero.mpr fun p listed => ?_
      have notEarlier : ¬ p.earlier call = true := by
        rcases mem_cons.mp listed with rfl | listed
        · exact fun earlier => earlier_asymm p p earlier earlier
        · exact earlier_asymm call p (sorted.2.1.1 p listed)
      simp [notEarlier]
    omega
  rw [← parts, inBlock, (mergeSort_perm _ _).countP_eq, countP_filter]
  refine countP_congr fun p listed => ?_
  simp only [Bool.and_eq_true, decide_eq_true_eq]
  exact ⟨fun both => both.1, fun both => ⟨both, earlier_block p call both.1⟩⟩

theorem slot_on_reaching (member : call ∈ placements) (path : List Nat) (fresh : call.block ∉ path) : slotOn (executed placements (path ++ [call.block])) call =
      ⟨call.callee, (executed placements path).countP (·.callee = call.callee) +
        placements.countP (fun p => p.earlier call && p.callee = call.callee) + 1⟩ := by
  obtain ⟨before, after, split⟩ := append_of_mem ((mem_in_block placements call.block call).mpr ⟨member, rfl⟩)
  have whole : executed placements (path ++ [call.block]) = executed placements path ++ before ++ call :: after := by simp [executed, split]
  have first : call ∉ executed placements path ++ before := by
    rw [mem_append, mem_executed]
    rintro (⟨_, visited⟩ | early)
    · exact fresh visited
    · have sorted := sequenced call.block
      rw [split, pairwise_append] at sorted
      have earlier := sorted.2.2 call early call (by simp)
      exact earlier_asymm call call earlier earlier
  rw [whole, slot_on_split _ after call first, countP_append, count_before_in_block placements sequenced call before after split]

end

end HookLint.Order
