import Mathlib.Data.List.Nodup
import Mathlib.Data.List.Perm.Subperm
import HookLint.Order.Slot

namespace HookLint.Order

open List

-- The slot that a call takes in a run: the number of calls of the same callee up to
-- and including it.
def slotOn (run : List Placement) (call : Placement) : Slot := ⟨call.callee, (run.takeWhile (· ≠ call)).countP (·.callee = call.callee) + 1⟩

theorem slot_on_split (before after : List Placement) (call : Placement) (first : call ∉ before) :
    slotOn (before ++ call :: after) call = ⟨call.callee, before.countP (·.callee = call.callee) + 1⟩ := by
  have others : ∀ other ∈ before, decide (other ≠ call) = true := by
    intro other member
    exact decide_eq_true fun same => first (same ▸ member)
  rw [slotOn, takeWhile_append_of_pos others]
  simp

theorem slot_on_of_nodup (run before after : List Placement) (call : Placement) (distinct : run.Nodup)
    (split : run = before ++ call :: after) : slotOn run call = ⟨call.callee, before.countP (·.callee = call.callee) + 1⟩ := by
  subst split
  refine slot_on_split before after call fun early => ?_
  exact (nodup_append.mp distinct).2.2 call early call (by simp) rfl

theorem slot_on_lt (before between after : List Placement) (a b : Placement)
    (distinct : (before ++ a :: between ++ b :: after).Nodup) (same : a.callee = b.callee) :
    (slotOn (before ++ a :: between ++ b :: after) a).index < (slotOn (before ++ a :: between ++ b :: after) b).index := by
  rw [slot_on_of_nodup _ before (between ++ b :: after) a distinct (by simp),
    slot_on_of_nodup _ (before ++ a :: between) after b distinct (by simp)]
  simp [same]

theorem slot_on_injective (run : List Placement) (distinct : run.Nodup) (a b : Placement) (hasA : a ∈ run)
    (hasB : b ∈ run) (same : slotOn run a = slotOn run b) : a = b := by
  by_contra different
  have callee : a.callee = b.callee := congrArg Slot.callee same
  obtain ⟨before, after, rfl⟩ := append_of_mem hasA
  rcases mem_append.mp hasB with early | late
  · obtain ⟨first, between, rfl⟩ := append_of_mem early
    have less := slot_on_lt first between after b a distinct callee.symm
    exact absurd (congrArg Slot.index same) (by omega)
  have late : b ∈ after := by simpa [Ne.symm different] using late
  obtain ⟨between, last, rfl⟩ := append_of_mem late
  have less := slot_on_lt before between last a b (by simpa using distinct) callee
  simp only [append_assoc, cons_append] at less
  exact absurd (congrArg Slot.index same) (by omega)

theorem exists_nth_call (run : List Placement) (callee : String) (n : Nat) (more : n < run.countP (·.callee = callee)) :
    ∃ before call after, run = before ++ call :: after ∧ call.callee = callee ∧ before.countP (·.callee = callee) = n := by
  induction run generalizing n with
  | nil => simp at more
  | cons head run ih =>
    by_cases same : head.callee = callee
    · cases n with
      | zero => exact ⟨[], head, run, rfl, same, rfl⟩
      | succ n =>
        obtain ⟨before, call, after, rfl, found, count⟩ := ih n (by simpa [same] using more)
        exact ⟨head :: before, call, after, rfl, found, by simp [same, count]⟩
    · obtain ⟨before, call, after, rfl, found, count⟩ := ih n (by simpa [same] using more)
      exact ⟨head :: before, call, after, rfl, found, by simp [same, count]⟩

-- Pigeonhole: distinct items that can be matched without sharing are no more than
-- what they are matched with.
theorem length_le_of_match {α β : Type} [Nonempty β] (items : List α) (others : List β) (Match : α → β → Prop)
    (distinct : items.Nodup) (matched : ∀ item ∈ items, ∃ other ∈ others, Match item other)
    (unshared : ∀ a ∈ items, ∀ b ∈ items, ∀ other, Match a other → Match b other → a = b) : items.length ≤ others.length := by
  choose! partner member fits using matched
  have images : (items.map partner).Nodup := by
    refine distinct.map_on fun a hasA b hasB same => ?_
    exact unshared a hasA b hasB (partner a) (fits a hasA) (same ▸ fits b hasB)
  have inside : items.map partner ⊆ others := by
    intro other listed
    obtain ⟨item, hasItem, rfl⟩ := mem_map.mp listed
    exact member item hasItem
  simpa using (images.subperm inside).length_le

-- Runs of calls that a review has found nothing wrong with. `slots` are the slots
-- that a call may take, `pairs` the slots that may be taken one after the other.
structure Reviewed (slots : Placement → List Slot) (pairs : List (Slot × Slot)) (Run : List Placement → Prop) : Prop where
  distinct : ∀ run, Run run → run.Nodup
  takes : ∀ run, Run run → ∀ call ∈ run, slotOn run call ∈ slots call
  ordered : ∀ run other a b, Run run → Run other → [a, b].Sublist run → ¬ [b, a].Sublist other
  observed : ∀ run a b, Run run → [a, b].Sublist run → ∀ early ∈ slots a, ∀ late ∈ slots b, early ≠ late → (early, late) ∈ pairs
  placed : ∀ run, Run run → ∀ call ∈ run, (∃ slot, slots call = [slot] ∧ ∀ other, Run other → ∃ taker ∈ other, slots taker = [slot]) ∨
      ∀ other, Run other → call ∈ other
  unreversed : ∀ early late, (early, late) ∈ pairs → (late, early) ∉ pairs

section
variable {slots : Placement → List Slot} {pairs : List (Slot × Slot)} {Run : List Placement → Prop}

section
variable (reviewed : Reviewed slots pairs Run)
include reviewed

theorem Reviewed.takes_only (run : List Placement) (isRun : Run run)
    (call : Placement) (member : call ∈ run) (slot : Slot) (only : slots call = [slot]) : slotOn run call = slot := by
  simpa [only] using reviewed.takes run isRun call member

-- A call that both runs make cannot come later in the second one: whatever the
-- second run makes before it, or something with the same only slot, the first run
-- makes before it as well.
theorem Reviewed.count_before_le (run other : List Placement)
    (isRun : Run run) (isOther : Run other) (call : Placement) (before after first last : List Placement)
    (split : run = before ++ call :: after) (otherSplit : other = first ++ call :: last) :
    first.countP (·.callee = call.callee) ≤ before.countP (·.callee = call.callee) := by
  by_contra fewer
  have distinct := reviewed.distinct run isRun
  have otherDistinct := reviewed.distinct other isOther
  have slotHere := slot_on_of_nodup run before after call distinct split
  have slotThere := slot_on_of_nodup other first last call otherDistinct otherSplit
  have hasCall : call ∈ run := by simp [split]
  have hasCallThere : call ∈ other := by simp [otherSplit]
  have takesHere := reviewed.takes run isRun call hasCall
  have takesThere := reviewed.takes other isOther call hasCallThere
  -- what comes before the call in the other run, and what stands for it in this one
  let Match (early taker : Placement) : Prop := slotOn other early ∈ slots taker ∧ (early = taker ∨ slots taker = [slotOn other early])
  have earlier : ∀ early ∈ first, [early, call].Sublist other := by
    intro early member
    obtain ⟨one, two, rfl⟩ := append_of_mem member
    simp [otherSplit]
  have matched : ∀ early ∈ first.filter (·.callee = call.callee),
      ∃ taker ∈ before.filter (·.callee = call.callee), Match early taker := by
    intro early listed
    obtain ⟨member, same⟩ : early ∈ first ∧ early.callee = call.callee := by simpa using listed
    have hasEarly : early ∈ other := by simp [otherSplit, member]
    by_cases common : early ∈ run
    · have place : early ∈ before := by
        rcases mem_append.mp (split ▸ common) with here | late
        · exact here
        rcases mem_cons.mp late with rfl | late
        · rw [otherSplit] at otherDistinct
          exact absurd rfl ((nodup_append.mp otherDistinct).2.2 early member early (by simp))
        · obtain ⟨one, two, rfl⟩ := append_of_mem late
          have reversed : [call, early].Sublist run := by simp [split]
          exact absurd reversed (reviewed.ordered other run early call isOther isRun (earlier early member))
      exact ⟨early, by simp [place, same], reviewed.takes other isOther early hasEarly, .inl rfl⟩
    · obtain ⟨slot, only, taken⟩ := (reviewed.placed other isOther early hasEarly).resolve_right fun always => common (always run isRun)
      obtain rfl := reviewed.takes_only other isOther early hasEarly slot only
      obtain ⟨taker, hasTaker, takerOnly⟩ := taken run isRun
      have takerSlot := reviewed.takes_only run isRun taker hasTaker _ takerOnly
      have takerCallee : taker.callee = call.callee := (congrArg Slot.callee takerSlot).trans same
      refine ⟨taker, ?_, by simp [takerOnly], .inr takerOnly⟩
      rw [mem_filter]
      refine ⟨?_, by simpa using takerCallee⟩
      rcases mem_append.mp (split ▸ hasTaker) with here | late
      · exact here
      exfalso
      rcases mem_cons.mp late with rfl | late
      · -- the call itself would have the slot of an earlier one as its only slot
        have equal : slotOn other taker = slotOn other early := by simpa [takerOnly] using takesThere
        have same := slot_on_injective other otherDistinct taker early hasCallThere hasEarly equal
        exact common (same ▸ hasCall)
      obtain ⟨one, two, rfl⟩ := append_of_mem late
      have follows : [call, taker].Sublist run := by simp [split]
      have less := slot_on_lt before one two call taker (by simpa [split] using distinct) takerCallee.symm
      have different : slotOn run call ≠ slotOn other early := by
        intro equal
        rw [← takerSlot, split] at equal
        simp only [append_assoc, cons_append] at less
        exact absurd (congrArg Slot.index equal) (by omega)
      have forth := reviewed.observed run call taker isRun follows _ takesHere _ (by simp [takerOnly]) different
      have back := reviewed.observed other early call isOther (earlier early member) _
        (reviewed.takes other isOther early hasEarly) _ takesHere (Ne.symm different)
      exact reviewed.unreversed _ _ forth back
  have unshared : ∀ a ∈ first.filter (·.callee = call.callee), ∀ b ∈ first.filter (·.callee = call.callee),
      ∀ taker, Match a taker → Match b taker → a = b := by
    intro a hasA b hasB taker matchA matchB
    have inOther : ∀ x ∈ first.filter (·.callee = call.callee), x ∈ other := by
      intro x member
      simp [otherSplit, (mem_filter.mp member).1]
    apply slot_on_injective other otherDistinct a b (inOther a hasA) (inOther b hasB)
    rcases matchA.2 with rfl | onlyA
    · rcases matchB.2 with rfl | onlyB
      · rfl
      · simpa [onlyB] using matchA.1
    · simpa [onlyA, eq_comm] using matchB.1
  have bound := length_le_of_match _ _ Match ((by
    rw [otherSplit] at otherDistinct
    exact (nodup_append.mp otherDistinct).1.filter _) : (first.filter (·.callee = call.callee)).Nodup)
    matched unshared
  simp only [← countP_eq_length_filter] at bound
  exact fewer bound

theorem Reviewed.count_le (run other : List Placement)
    (isRun : Run run) (isOther : Run other) (callee : String) : other.countP (·.callee = callee) ≤ run.countP (·.callee = callee) := by
  by_contra more
  obtain ⟨first, call, last, otherSplit, rfl, count⟩ := exists_nth_call other callee (run.countP (·.callee = callee)) (by omega)
  have hasCall : call ∈ other := by simp [otherSplit]
  have taken := slot_on_of_nodup other first last call (reviewed.distinct other isOther) otherSplit
  rcases reviewed.placed other isOther call hasCall with ⟨slot, only, covered⟩ | always
  · obtain rfl := reviewed.takes_only other isOther call hasCall slot only
    obtain ⟨taker, hasTaker, takerOnly⟩ := covered run isRun
    have takerSlot := reviewed.takes_only run isRun taker hasTaker _ takerOnly
    obtain ⟨before, after, split⟩ := append_of_mem hasTaker
    have place := slot_on_of_nodup run before after taker (reviewed.distinct run isRun) split
    rw [place, taken] at takerSlot
    obtain ⟨callee, index⟩ := Slot.mk.inj takerSlot
    rw [callee] at index
    have total : run.countP (·.callee = call.callee) =
        before.countP (·.callee = call.callee) + (after.countP (·.callee = call.callee) + 1) := by
      simp [split, callee]
    omega
  · obtain ⟨before, after, split⟩ := append_of_mem (always run isRun)
    have bound := reviewed.count_before_le run other isRun isOther call before after first last split otherSplit
    have total : run.countP (·.callee = call.callee) =
        before.countP (·.callee = call.callee) + (after.countP (·.callee = call.callee) + 1) := by
      simp [split]
    omega

end

theorem first_difference {α β : Type} (name : α → β) (a b : List α) (different : a.map name ≠ b.map name) :
    ∃ shared sharedB restA restB, a = shared ++ restA ∧ b = sharedB ++ restB ∧
      shared.map name = sharedB.map name ∧ (restA.map name).head? ≠ (restB.map name).head? := by
  induction a generalizing b with
  | nil =>
    refine ⟨[], [], [], b, rfl, rfl, rfl, ?_⟩
    cases b with
    | nil => exact absurd rfl different
    | cons => simp
  | cons x a ih =>
    cases b with
    | nil => exact ⟨[], [], x :: a, [], rfl, rfl, rfl, by simp⟩
    | cons y b =>
      by_cases same : name x = name y
      · obtain ⟨shared, sharedB, restA, restB, rfl, rfl, equal, part⟩ := ih b (by simpa [same] using different)
        exact ⟨x :: shared, y :: sharedB, restA, restB, rfl, rfl, by simp [same, equal], part⟩
      · exact ⟨[], [], x :: a, y :: b, rfl, rfl, rfl, by simpa using same⟩

theorem count_callee_map (run : List Placement) (callee : String) : run.countP (·.callee = callee) = (run.map (·.callee)).count callee := by
  simp [List.count, countP_map, Function.comp_def, BEq.beq]

-- The next call of the other run comes later in this one, so the two next calls are
-- taken in both orders.
theorem Reviewed.next_observed (reviewed : Reviewed slots pairs Run) (run : List Placement) (isRun : Run run)
    (shared rest : List Placement) (call : Placement) (split : run = shared ++ call :: rest) (callee : String)
    (other : call.callee ≠ callee) (more : shared.countP (·.callee = callee) < run.countP (·.callee = callee)) :
    (⟨call.callee, shared.countP (·.callee = call.callee) + 1⟩, ⟨callee, shared.countP (·.callee = callee) + 1⟩) ∈ pairs := by
  have later : 0 < rest.countP (·.callee = callee) := by
    rw [split] at more
    simpa [other] using more
  obtain ⟨between, late, after, rfl, rfl, none⟩ := exists_nth_call rest callee 0 later
  have distinct := reviewed.distinct run isRun
  have slotCall := slot_on_of_nodup run shared _ call distinct split
  have slotLate := slot_on_of_nodup run (shared ++ call :: between) after late distinct (by simp [split])
  have countLate : (shared ++ call :: between).countP (·.callee = late.callee) = shared.countP (·.callee = late.callee) := by
    simp [other, none]
  rw [countLate] at slotLate
  have follows : [call, late].Sublist run := by simp [split]
  rw [← slotCall, ← slotLate]
  refine reviewed.observed run call late isRun follows _ (reviewed.takes run isRun call (by simp [split])) _
    (reviewed.takes run isRun late (by simp [split])) ?_
  rw [slotCall, slotLate]
  exact fun same => other (congrArg Slot.callee same)

theorem Reviewed.agree (reviewed : Reviewed slots pairs Run) (run other : List Placement) (isRun : Run run)
    (isOther : Run other) : run.map (·.callee) = other.map (·.callee) := by
  by_contra different
  obtain ⟨shared, sharedOther, rest, restOther, split, splitOther, equal, part⟩ := first_difference (·.callee) run other different
  have counts (callee : String) : run.countP (·.callee = callee) = other.countP (·.callee = callee) :=
    Nat.le_antisymm (reviewed.count_le other run isOther isRun callee) (reviewed.count_le run other isRun isOther callee)
  have prefixes (callee : String) : shared.countP (·.callee = callee) = sharedOther.countP (·.callee = callee) := by
    rw [count_callee_map, count_callee_map, equal]
  have remaining (callee : String) : rest.countP (·.callee = callee) = restOther.countP (·.callee = callee) := by
    have total := counts callee
    rw [split, splitOther, countP_append, countP_append, prefixes callee] at total
    omega
  cases rest with
  | nil =>
    cases restOther with
    | nil => exact part rfl
    | cons call restOther => simpa using remaining call.callee
  | cons call rest =>
    cases restOther with
    | nil => simpa using remaining call.callee
    | cons callOther restOther =>
      have apart : call.callee ≠ callOther.callee := by simpa using part
      have forth := reviewed.next_observed run isRun shared rest call split callOther.callee apart (by
        have total := counts callOther.callee
        rw [splitOther, countP_append, ← prefixes] at total
        simp at total
        omega)
      have back := reviewed.next_observed other isOther sharedOther restOther callOther splitOther call.callee (Ne.symm apart) (by
          have total := counts call.callee
          rw [split, countP_append, prefixes] at total
          simp at total
          omega)
      rw [← prefixes, ← prefixes] at back
      exact reviewed.unreversed _ _ forth back

end

end HookLint.Order
