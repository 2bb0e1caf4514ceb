import HookLint.Proofs.Order.Soundness

namespace HookLint.Order

-- Where counting begins, and one round of it.
def countStart (graph : Graph) (placements : List Placement) : Facts.Spread Slot :=
  Facts.onset graph ((placements.map (·.callee)).eraseDups.map (⟨·, 0⟩))

abbrev CountRound (graph : Graph) (placements : List Placement) : Facts.Spread Slot → Facts.Spread Slot → Prop :=
  Facts.Round graph (passCounts placements)

-- Counting ends, whatever the order in which blocks are told the news, and always with the slots that walks
-- from the entry take.
theorem counting_ends_exact (graph : Graph) (placements : List Placement) (wellFormed : graph.WellFormed)
    (numbered : placements.Pairwise (·.number < ·.number)) (acyclic : ∀ call ∈ placements, ¬ OnCycle graph.successors call.block) :
    Acc (fun next state => CountRound graph placements state next) (countStart graph placements) ∧
      (∃ final, Relation.ReflTransGen (CountRound graph placements) (countStart graph placements) final ∧ final.pending = [] ∧
        countsIn graph placements = final.facts) ∧
      ∀ final, Relation.ReflTransGen (CountRound graph placements) (countStart graph placements) final → final.pending = [] →
        ∀ call ∈ placements, (∀ slot, slot ∈ slotsOf final.facts placements call ↔
            ∃ path, Walk graph.successors graph.entry path call.block ∧ slot = slotOn (executed placements path) call) ∧
          (slotsOf final.facts placements call = [] ↔ ¬ Reachable graph.successors graph.entry call.block) := by
  have straight : Straight graph placements := ⟨wellFormed, numbered_sequenced placements numbered, acyclic⟩
  have flowing := counts_flowing straight
  have begun := Facts.onset_spreading wellFormed flowing
  refine ⟨Facts.rounds_end wellFormed flowing begun, ?_, fun final rounds none call member => ?_⟩
  · obtain ⟨final, same, none, rounds⟩ := Facts.of_entry_settled wellFormed flowing
    exact ⟨final, rounds, none, same⟩
  have exact := slots_counted straight ((Facts.rounds_spreading wellFormed flowing begun rounds).solved none) call member
  refine ⟨exact, ?_⟩
  rw [List.eq_nil_iff_forall_not_mem, ← not_exists, not_iff_not]
  constructor
  · rintro ⟨slot, listed⟩
    obtain ⟨path, walk, _⟩ := (exact slot).mp listed
    exact ⟨path, walk⟩
  · rintro ⟨path, walk⟩
    exact ⟨_, (exact _).mpr ⟨path, walk, rfl⟩⟩

theorem forked_counting_ends : (∀ call ∈ forkedCalls, ¬ OnCycle forkedGraph.successors call.block) ∧
    ∃ final, Relation.ReflTransGen (CountRound forkedGraph forkedCalls) (countStart forkedGraph forkedCalls) final ∧ final.pending = [] ∧
      ⟨"useEffect", 1⟩ ∈ slotsOf final.facts forkedCalls ⟨2, "useEffect", 4, 0⟩ := by
  have wellFormed : forkedGraph.WellFormed := ⟨by decide, by decide, by decide⟩
  have numbered : forkedCalls.Pairwise (·.number < ·.number) := by simp [forkedCalls]
  have repeats : forkedGraph.repeatable = [3] := by cbv
  have straight := straight_of_outside forkedGraph forkedCalls wellFormed (numbered_sequenced _ numbered) (by rw [repeats]; decide)
  have walk : Walk forkedGraph.successors 0 [0, 2, 3, 3, 4] 4 := .step 0 2 4 _ (by decide) (.step 2 3 4 _ (by decide)
    (.step 3 3 4 _ (by decide) (.step 3 4 4 [4] (by decide) (.single 4))))
  obtain ⟨_, ⟨final, rounds, none, _⟩, settles⟩ := counting_ends_exact forkedGraph forkedCalls wellFormed numbered straight.acyclic
  exact ⟨straight.acyclic, final, rounds, none, ((settles final rounds none _ (by decide)).1 _).mpr ⟨_, walk, by cbv⟩⟩

end HookLint.Order
