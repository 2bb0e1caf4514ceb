import Mathlib.Algebra.Order.BigOperators.Group.List
import Mathlib.Algebra.Order.Group.Nat
import HookLint.Graph.Dataflow
import HookLint.Proofs.Graph.Walk

namespace HookLint.Facts

open List

variable {α : Type}

theorem lookup_map_entry (facts : Facts α) (block other : Nat) (value : List α) :
    (facts.map fun entry => if entry.1 = block then (block, value) else entry).lookup other =
      if other = block then (facts.lookup block).map fun _ => value else facts.lookup other := by
  induction facts with
  | nil => simp
  | cons entry facts ih =>
    obtain ⟨name, old⟩ := entry
    by_cases here : name = block
    · subst name
      by_cases same : other = block
      · simp [same]
      · simp [lookup_cons, beq_false_of_ne same, ih, same]
    by_cases same : other = name
    · subst other
      simp [here]
    · by_cases target : other = block
      · subst other
        simp [lookup_cons, here, beq_false_of_ne same, ih]
      · simp [lookup_cons, here, beq_false_of_ne same, ih, target]

-- Between two states of spreading, facts only grow, and a block whose facts grew is
-- pending.
structure Grown (before after : Spread α) : Prop where
  pending_kept : ∀ block ∈ before.pending, block ∈ after.pending
  facts_kept : ∀ block known, before.facts.lookup block = some known →
    ∃ wider, after.facts.lookup block = some wider ∧ ∀ fact ∈ known, fact ∈ wider
  quiet : ∀ block, block ∉ after.pending → after.facts.lookup block = before.facts.lookup block

theorem grown_refl (spread : Spread α) : Grown spread spread :=
  ⟨fun _ member => member, fun _ known entry => ⟨known, entry, fun _ member => member⟩, fun _ _ => rfl⟩

theorem grown_trans {first second third : Spread α} (early : Grown first second) (late : Grown second third) : Grown first third := by
  refine ⟨fun block member => late.pending_kept block (early.pending_kept block member), ?_, ?_⟩
  · intro block known entry
    obtain ⟨wider, entry, sub⟩ := early.facts_kept block known entry
    obtain ⟨widest, entry, subWider⟩ := late.facts_kept block wider entry
    exact ⟨widest, entry, fun fact member => subWider fact (sub fact member)⟩
  · intro block absent
    exact (late.quiet block absent).trans (early.quiet block fun member => absent (late.pending_kept block member))

-- What the facts of a graph are in the end: the least ones that hold the start and
-- go along every edge.
structure Solved (graph : Graph) (pass : Nat → List α → List α) (start : List α) (Holds : Nat → α → Prop) (facts : Facts α) : Prop where
  start_known : ∃ known, facts.lookup graph.entry = some known ∧ ∀ fact ∈ start, fact ∈ known
  passed : ∀ a known, facts.lookup a = some known → ∀ b ∈ graph.successors a,
    ∃ wider, facts.lookup b = some wider ∧ ∀ fact ∈ pass a known, fact ∈ wider
  holds : ∀ block known, facts.lookup block = some known → known.Nodup ∧ ∀ fact ∈ known, Holds block fact

theorem solved_walk {graph : Graph} {pass : Nat → List α → List α} {start : List α} {Holds : Nat → α → Prop}
    {facts : Facts α} (solved : Solved graph pass start Holds facts) (Carried : List Nat → α → Prop)
    (first : ∀ fact, Carried [graph.entry] fact → fact ∈ start)
    (further : ∀ before last final fact, Walk graph.successors graph.entry before last →
      final ∈ graph.successors last → Carried (before ++ [final]) fact →
      ∀ known, (∀ fact, Carried before fact → fact ∈ known) → fact ∈ pass last known)
    (path : List Nat) (block : Nat) (walk : Walk graph.successors graph.entry path block) :
    ∃ known, facts.lookup block = some known ∧ ∀ fact, Carried path fact → fact ∈ known := by
  refine walk_snoc_induction (motive := fun path block => ∃ known, facts.lookup block = some known ∧
    ∀ fact, Carried path fact → fact ∈ known) ?_ ?_ walk
  · obtain ⟨known, entry, sub⟩ := solved.start_known
    exact ⟨known, entry, fun fact carried => sub fact (first fact carried)⟩
  · intro before last final walk edge ⟨known, entry, sub⟩
    obtain ⟨wider, entryFinal, passed⟩ := solved.passed last known entry final edge
    exact ⟨wider, entryFinal, fun fact carried => passed fact (further before last final fact walk edge carried known sub)⟩

variable [BEq α] [LawfulBEq α]

-- What a block knows once it has been told something.
def learn (known : Option (List α)) (fresh : List α) : List α :=
  match known with
  | none => fresh
  | some known => absorb known fresh

theorem mem_absorb (known fresh : List α) (fact : α) : fact ∈ absorb known fresh ↔ fact ∈ known ∨ fact ∈ fresh := by
  by_cases old : fact ∈ known <;> simp [absorb, old]

theorem absorb_nodup (known fresh : List α) (knownDistinct : known.Nodup) (freshDistinct : fresh.Nodup) : (absorb known fresh).Nodup := by
  refine nodup_append.mpr ⟨knownDistinct, freshDistinct.filter _, ?_⟩
  intro a member b later same
  subst b
  simp [member] at later

theorem absorb_known (known fresh : List α) (old : fresh.all known.contains = true) : absorb known fresh = known := by
  have none : fresh.filter (fun fact => !known.contains fact) = [] := by simpa using old
  simp only [absorb, none, append_nil]

theorem mem_learn (known : Option (List α)) (fresh : List α) (fact : α) :
    fact ∈ learn known fresh ↔ fact ∈ known.getD [] ∨ fact ∈ fresh := by
  cases known with
  | none => simp [learn]
  | some known => exact mem_absorb known fresh fact

theorem lookup_tell (fresh : List α) (spread : Spread α) (block other : Nat) : (tell fresh spread block).facts.lookup other =
      if other = block then some (learn (spread.facts.lookup block) fresh) else spread.facts.lookup other := by
  unfold tell
  cases entry : spread.facts.lookup block with
  | none =>
    by_cases same : other = block
    · simp [same, learn]
    · simp [lookup_cons, beq_false_of_ne same, same]
  | some known =>
    by_cases old : fresh.all known.contains = true
    · by_cases same : other = block
      · simp only [old, if_true, same, learn, entry, absorb_known known fresh old]
      · simp only [old, if_true, same, if_false]
    · simp only [old, lookup_map_entry, entry, learn, Option.map_some, Bool.false_eq_true, if_false]

-- Telling something new makes the block pending; telling something known does
-- nothing at all.
theorem tell_pending (fresh : List α) (spread : Spread α) (block : Nat) :
    (∃ known, spread.facts.lookup block = some known ∧ tell fresh spread block = spread) ∨
      ((tell fresh spread block).pending = block :: spread.pending ∧
        ∀ known, spread.facts.lookup block = some known → known.length < (absorb known fresh).length) := by
  unfold tell
  cases entry : spread.facts.lookup block with
  | none => exact .inr ⟨rfl, by simp⟩
  | some known =>
    by_cases old : fresh.all known.contains = true
    · exact .inl ⟨known, rfl, by simp only [old, if_true]⟩
    refine .inr ⟨by simp only [old, Bool.false_eq_true, if_false], ?_⟩
    rintro _ ⟨⟩
    have added : fresh.filter (fun fact => !known.contains fact) ≠ [] := by simpa using old
    have positive := length_pos_iff.mpr added
    simp only [absorb, length_append]
    omega

-- A way to read facts: which of them may hold on reaching a block. It starts from
-- those at the entry and goes along with what blocks pass on.
structure Flowing (graph : Graph) (pass : Nat → List α → List α) (start : List α) (bound : Nat) (Holds : Nat → α → Prop) : Prop where
  start_holds : ∀ fact ∈ start, Holds graph.entry fact
  start_nodup : start.Nodup
  pass_holds : ∀ a, ∀ b ∈ graph.successors a, ∀ known : List α, (∀ fact ∈ known, Holds a fact) → ∀ fact ∈ pass a known, Holds b fact
  pass_nodup : ∀ a known, known.Nodup → (pass a known).Nodup
  few : ∀ block, ∀ known : List α, known.Nodup → (∀ fact ∈ known, Holds block fact) → known.length ≤ bound

section
variable {graph : Graph} {pass : Nat → List α → List α} {start : List α} {bound : Nat} {Holds : Nat → α → Prop}

structure Sound (graph : Graph) (Holds : Nat → α → Prop) (spread : Spread α) : Prop where
  holds : ∀ block known, spread.facts.lookup block = some known → block ∈ graph.nodes ∧ known.Nodup ∧ ∀ fact ∈ known, Holds block fact
  pending_known : ∀ block ∈ spread.pending, (spread.facts.lookup block).isSome

-- How often blocks can still have news.
def rank (facts : Facts α) (block : Nat) : Nat := ((facts.lookup block).map fun known => known.length + 1).getD 0

def room (graph : Graph) (bound : Nat) (facts : Facts α) : Nat := (graph.nodes.map fun block => bound + 1 - rank facts block).sum

theorem tell_grown (fresh : List α) (spread : Spread α) (block : Nat) : Grown spread (tell fresh spread block) := by
  rcases tell_pending fresh spread block with ⟨known, _, same⟩ | ⟨pending, _⟩
  · rw [same]
    exact grown_refl spread
  refine ⟨fun other member => by simp [pending, member], ?_, ?_⟩
  · intro other known entry
    by_cases same : other = block
    · subst other
      refine ⟨learn (some known) fresh, by rw [lookup_tell, if_pos rfl, entry], fun fact member => ?_⟩
      exact (mem_learn (some known) fresh fact).mpr (.inl member)
    · exact ⟨known, by rw [lookup_tell, if_neg same, entry], fun fact member => member⟩
  · intro other absent
    have different : other ≠ block := fun same => absent (by simp [pending, same])
    rw [lookup_tell, if_neg different]

section
variable (flowing : Flowing graph pass start bound Holds) (fresh : List α)
include flowing fresh

theorem tell_sound (spread : Spread α)
    (block : Nat) (sound : Sound graph Holds spread) (inside : block ∈ graph.nodes) (freshNodup : fresh.Nodup)
    (freshHolds : ∀ fact ∈ fresh, Holds block fact) : Sound graph Holds (tell fresh spread block) ∧
      (tell fresh spread block).pending.length + room graph bound (tell fresh spread block).facts ≤
        spread.pending.length + room graph bound spread.facts := by
  have learned : (learn (spread.facts.lookup block) fresh).Nodup ∧ ∀ fact ∈ learn (spread.facts.lookup block) fresh, Holds block fact := by
    cases entry : spread.facts.lookup block with
    | none => exact ⟨freshNodup, freshHolds⟩
    | some known =>
      obtain ⟨_, knownNodup, knownHolds⟩ := sound.holds block known entry
      refine ⟨absorb_nodup known fresh knownNodup freshNodup, fun fact member => ?_⟩
      rcases (mem_absorb known fresh fact).mp member with old | new
      · exact knownHolds fact old
      · exact freshHolds fact new
  rcases tell_pending fresh spread block with ⟨known, _, same⟩ | ⟨pending, longer⟩
  · rw [same]
    exact ⟨sound, Nat.le_refl _⟩
  refine ⟨⟨?_, ?_⟩, ?_⟩
  · intro other known entry
    rw [lookup_tell] at entry
    by_cases same : other = block
    · subst other
      rw [if_pos rfl] at entry
      cases entry
      exact ⟨inside, learned⟩
    · rw [if_neg same] at entry
      exact sound.holds other known entry
  · intro other member
    rw [lookup_tell]
    by_cases same : other = block
    · simp [same]
    · rw [if_neg same]
      exact sound.pending_known other (by simpa [pending, same] using member)
  · have short := flowing.few block _ learned.1 learned.2
    have fewer : room graph bound (tell fresh spread block).facts < room graph bound spread.facts := by
      have rankAt (other : Nat) : rank (tell fresh spread block).facts other =
          if other = block then (learn (spread.facts.lookup block) fresh).length + 1
          else rank spread.facts other := by
        by_cases same : other = block <;> simp [rank, lookup_tell, same]
      have higher : rank spread.facts block < (learn (spread.facts.lookup block) fresh).length + 1 := by
        cases entry : spread.facts.lookup block with
        | none => simp [rank, entry]
        | some known => simpa [rank, entry, learn] using longer known entry
      apply sum_lt_sum
      · intro other _
        rw [rankAt]
        by_cases same : other = block
        · subst other
          rw [if_pos rfl]
          omega
        · rw [if_neg same]
      · exact ⟨block, inside, by rw [rankAt, if_pos rfl]; omega⟩
    simp only [pending, length_cons]
    omega

theorem tell_all (freshNodup : fresh.Nodup) (targets : List Nat) (inside : ∀ block ∈ targets, block ∈ graph.nodes)
    (freshHolds : ∀ block ∈ targets, ∀ fact ∈ fresh, Holds block fact) (spread : Spread α) (sound : Sound graph Holds spread) :
    Sound graph Holds (targets.foldl (tell fresh) spread) ∧ Grown spread (targets.foldl (tell fresh) spread) ∧
      (∀ block ∈ targets, ∃ known, (targets.foldl (tell fresh) spread).facts.lookup block = some known ∧ ∀ fact ∈ fresh, fact ∈ known) ∧
      (targets.foldl (tell fresh) spread).pending.length + room graph bound (targets.foldl (tell fresh) spread).facts ≤
        spread.pending.length + room graph bound spread.facts := by
  induction targets generalizing spread with
  | nil => exact ⟨sound, grown_refl spread, by simp, Nat.le_refl _⟩
  | cons block targets ih =>
    obtain ⟨soundFirst, smaller⟩ := tell_sound flowing fresh spread block sound (inside block (by simp)) freshNodup
      (freshHolds block (by simp))
    obtain ⟨soundRest, grown, told, smallerRest⟩ := ih (fun other member => inside other (by simp [member]))
      (fun other member => freshHolds other (by simp [member])) (tell fresh spread block) soundFirst
    rw [foldl_cons]
    refine ⟨soundRest, grown_trans (tell_grown fresh spread block) grown, ?_, Nat.le_trans smallerRest smaller⟩
    intro other member
    rcases mem_cons.mp member with rfl | later
    · obtain ⟨wider, entry, sub⟩ := grown.facts_kept other _ (by rw [lookup_tell, if_pos rfl])
      exact ⟨wider, entry, fun fact new => sub fact ((mem_learn _ fresh fact).mpr (.inr new))⟩
    · exact told other later

end

-- A block that is not pending has passed on all that it knows.
def Handled (graph : Graph) (pass : Nat → List α → List α) (spread : Spread α) : Prop :=
  ∀ a known, spread.facts.lookup a = some known → a ∈ spread.pending ∨
    ∀ b ∈ graph.successors a, ∃ wider, spread.facts.lookup b = some wider ∧ ∀ fact ∈ pass a known, fact ∈ wider

-- One round: the first pending block tells what it knows to those after it, in any order.
inductive Round (graph : Graph) (pass : Nat → List α → List α) : Spread α → Spread α → Prop where
  | told (state : Spread α) (block : Nat) (rest targets : List Nat) (waiting : state.pending = block :: rest)
      (all : targets.Perm (graph.successors block)) :
      Round graph pass state (targets.foldl (tell (pass block ((state.facts.lookup block).getD []))) { state with pending := rest })

-- Facts that are on their way: what is known holds, and who has news is pending.
structure Spreading (graph : Graph) (pass : Nat → List α → List α) (start : List α) (Holds : Nat → α → Prop) (state : Spread α) : Prop where
  sound : Sound graph Holds state
  handled : Handled graph pass state
  started : ∃ known, state.facts.lookup graph.entry = some known ∧ ∀ fact ∈ start, fact ∈ known

-- Each round uses up one pending block, and a block becomes pending only when there is less room left.
theorem round_spreading (wellFormed : graph.WellFormed) (flowing : Flowing graph pass start bound Holds) {state next : Spread α}
    (spreading : Spreading graph pass start Holds state) (round : Round graph pass state next) : Spreading graph pass start Holds next ∧
      next.pending.length + room graph bound next.facts < state.pending.length + room graph bound state.facts := by
  obtain ⟨sound, handled, ⟨first, isEntry, has⟩⟩ := spreading
  obtain ⟨block, rest, targets, waiting, all⟩ := round
  obtain ⟨known, entry⟩ := Option.isSome_iff_exists.mp (sound.pending_known block (by simp [waiting]))
  obtain ⟨inside, knownNodup, knownHolds⟩ := sound.holds block known entry
  have popped : Sound graph Holds { state with pending := rest } :=
    ⟨sound.holds, fun other member => sound.pending_known other (by simp [waiting, member])⟩
  rw [entry, Option.getD_some]
  obtain ⟨soundAfter, grown, told, smaller⟩ := tell_all flowing (pass block known) (flowing.pass_nodup block known knownNodup) targets
    (fun other edge => wellFormed.successor_mem block other (all.mem_iff.mp edge))
    (fun other edge => flowing.pass_holds block other (all.mem_iff.mp edge) known knownHolds)
    { state with pending := rest } popped
  refine ⟨⟨soundAfter, fun a after afterEntry => or_iff_not_imp_left.mpr fun quiet b edge => ?_, ?_⟩, ?_⟩
  · have unchanged := grown.quiet a quiet
    rw [afterEntry] at unchanged
    by_cases same : a = block
    · subst a
      obtain rfl : after = known := Option.some.inj (unchanged.trans entry)
      exact told b (all.mem_iff.mpr edge)
    have absent : a ∉ state.pending := by
      rw [waiting]
      intro member
      rcases mem_cons.mp member with same' | later
      · exact same same'
      · exact quiet (grown.pending_kept a later)
    obtain ⟨wider, entryB, sub⟩ := (handled a after unchanged.symm).resolve_left absent b edge
    obtain ⟨widest, entryAfter, subAfter⟩ := grown.facts_kept b wider entryB
    exact ⟨widest, entryAfter, fun fact member => subAfter fact (sub fact member)⟩
  · obtain ⟨wider, entryAfter, sub⟩ := grown.facts_kept graph.entry first isEntry
    exact ⟨wider, entryAfter, fun fact member => sub fact (has fact member)⟩
  · rw [waiting, length_cons]
    exact Nat.lt_of_le_of_lt smaller (by simp)

theorem rounds_spreading (wellFormed : graph.WellFormed) (flowing : Flowing graph pass start bound Holds) {state last : Spread α}
    (spreading : Spreading graph pass start Holds state) (rounds : Relation.ReflTransGen (Round graph pass) state last) :
    Spreading graph pass start Holds last := by
  induction rounds with
  | refl => exact spreading
  | tail _ round ih => exact (round_spreading wellFormed flowing ih round).1

theorem rounds_end (wellFormed : graph.WellFormed) (flowing : Flowing graph pass start bound Holds) {state : Spread α}
    (spreading : Spreading graph pass start Holds state) : Acc (fun next state => Round graph pass state next) state := by
  induction size : state.pending.length + room graph bound state.facts using Nat.strongRecOn generalizing state with
  | ind _ ih =>
    refine .intro _ fun next round => ?_
    obtain ⟨spreading, smaller⟩ := round_spreading wellFormed flowing spreading round
    exact ih _ (size ▸ smaller) spreading rfl

theorem spread_settled (wellFormed : graph.WellFormed) (flowing : Flowing graph pass start bound Holds)
    (fuel : Nat) (state : Spread α) (spreading : Spreading graph pass start Holds state)
    (enough : state.pending.length + room graph bound state.facts ≤ fuel) :
    ∃ final : Spread α, Facts.spread graph pass fuel state = final.facts ∧ final.pending = [] ∧
      Relation.ReflTransGen (Round graph pass) state final := by
  induction fuel generalizing state with
  | zero => exact ⟨state, rfl, length_eq_zero_iff.mp (by omega), .refl⟩
  | succ fuel ih =>
    rw [Facts.spread]
    cases waiting : state.pending with
    | nil => exact ⟨state, rfl, waiting, .refl⟩
    | cons block rest =>
      have round : Round graph pass state _ := .told state block rest (graph.successors block) waiting (.refl _)
      obtain ⟨spreading, smaller⟩ := round_spreading wellFormed flowing spreading round
      obtain ⟨final, spreads, none, rounds⟩ := ih _ spreading (by omega)
      exact ⟨final, spreads, none, rounds.head round⟩

-- Where spreading begins.
def onset (graph : Graph) (start : List α) : Spread α := ⟨[graph.entry], [(graph.entry, start)]⟩

omit [BEq α] [LawfulBEq α] in
theorem onset_spreading (wellFormed : graph.WellFormed) (flowing : Flowing graph pass start bound Holds) :
    Spreading graph pass start Holds (onset graph start) := by
  have first (block : Nat) (known : List α) (entry : List.lookup block [(graph.entry, start)] = some known) :
      block = graph.entry ∧ start = known := by
    by_cases same : block = graph.entry
    · simpa [same] using entry
    · simp [List.lookup, beq_false_of_ne same] at entry
  refine ⟨⟨fun block known entry => ?_, by simp [onset]⟩, fun a known entry => ?_, start, by simp [onset], fun _ member => member⟩
  · obtain ⟨rfl, rfl⟩ := first block known entry
    exact ⟨wellFormed.entry_mem, flowing.start_nodup, flowing.start_holds⟩
  · exact .inl (by simp [onset, (first a known entry).1])

omit [BEq α] [LawfulBEq α] in
theorem Spreading.solved {final : Spread α} (spreading : Spreading graph pass start Holds final) (none : final.pending = []) :
    Solved graph pass start Holds final.facts :=
  ⟨spreading.started, fun a known entry => (spreading.handled a known entry).resolve_left (by simp [none]),
    fun block known entry => (spreading.sound.holds block known entry).2⟩

section
variable (wellFormed : graph.WellFormed) (flowing : Flowing graph pass start bound Holds)
include wellFormed flowing

theorem of_entry_settled : ∃ final : Spread α, ofEntry graph pass start bound = final.facts ∧ final.pending = [] ∧
      Relation.ReflTransGen (Round graph pass) (onset graph start) final := by
  refine spread_settled wellFormed flowing _ (onset graph start) (onset_spreading wellFormed flowing) ?_
  have fits : room graph bound [(graph.entry, start)] ≤ graph.nodes.length * (bound + 1) := by
    have each := sum_le_card_nsmul (graph.nodes.map fun block => bound + 1 - rank [(graph.entry, start)] block) (bound + 1) (by simp)
    simpa [room] using each
  simp only [onset, length_singleton]
  omega

theorem of_entry_solved : Solved graph pass start Holds (ofEntry graph pass start bound) := by
  obtain ⟨final, same, none, rounds⟩ := of_entry_settled wellFormed flowing
  exact same ▸ (rounds_spreading wellFormed flowing (onset_spreading wellFormed flowing) rounds).solved none

end

end

end HookLint.Facts
