import HookLint.Proofs.Graph.Postorder

namespace HookLint

open List

variable {above below opened : List Nat} {fuel low : Nat} {visit : Visit} {visits : List Visit}

-- Each of two blocks can be reached from the other.
def Tied (next : Nat → List Nat) (a b : Nat) : Prop := Reachable next a b ∧ Reachable next b a

section
variable {next : Nat → List Nat} {a b c : Nat}

theorem reachable_self (block : Nat) : Reachable next block block := ⟨[block], .single block⟩

theorem reachable_edge (edge : b ∈ next a) : Reachable next a b := ⟨[a, b], .step a b b [b] edge (.single b)⟩

theorem Reachable.trans (first : Reachable next a b) (second : Reachable next b c) : Reachable next a c := by
  obtain ⟨path, walk⟩ := first
  obtain ⟨rest, walkRest⟩ := second
  obtain ⟨tail, rfl⟩ : ∃ tail, rest = b :: tail := by cases walkRest <;> exact ⟨_, rfl⟩
  exact ⟨path ++ tail, walk_append walk walkRest⟩

theorem Reachable.leads (reaches : Reachable next a b) (other : a ≠ b) : Leads next a b := by
  obtain ⟨path, walk⟩ := reaches
  cases walk with
  | single => exact absurd rfl other
  | step _ via _ path edge rest => exact ⟨via, edge, path, rest⟩

theorem Tied.symm (tied : Tied next a b) : Tied next b a := ⟨tied.2, tied.1⟩

theorem Tied.trans (first : Tied next a b) (second : Tied next b c) : Tied next a c := ⟨first.1.trans second.1, second.2.trans first.2⟩

theorem Tied.cycle (tied : Tied next a b) (other : a ≠ b) : OnCycle next a :=
  leads_trans (tied.1.leads other) (tied.2.leads (Ne.symm other))

end

namespace Sweep

variable {next : Nat → List Nat} {sweep later : Sweep} {block : Nat}

def Met (sweep : Sweep) (block : Nat) : Prop := ∃ number, sweep.numbers.lookup block = some number

-- A block that was met and is no longer open: all that it leads to is known.
def Done (sweep : Sweep) (block : Nat) : Prop := sweep.Met block ∧ block ∉ sweep.opened

-- A block that was met has no number smaller than the given one, unless it is done.
def Seen (sweep : Sweep) (low block : Nat) : Prop :=
  ∃ number, sweep.numbers.lookup block = some number ∧ (block ∈ sweep.opened → low ≤ number)

theorem Seen.lower {lower : Nat} (seen : sweep.Seen low block) (smaller : lower ≤ low) : sweep.Seen lower block := by
  obtain ⟨number, known, least⟩ := seen
  exact ⟨number, known, fun isOpen => Nat.le_trans smaller (least isOpen)⟩

-- What is known of a visit and of the blocks that were opened during it and stayed open after they were
-- left: they lead to the visited block and back, and nothing found from them has a number below `low`.
structure Layer (next : Nat → List Nat) (sweep : Sweep) (visit : Visit) (above below : List Nat) : Prop where
  tied : ∀ block ∈ above, Tied next block visit.block
  found : ∃ earlier ∈ above ++ visit.block :: below, sweep.numbers.lookup earlier = some visit.low ∧ Reachable next visit.block earlier
  least : ∃ number, sweep.numbers.lookup visit.block = some number ∧ visit.low ≤ number
  looked : ∃ looked, next visit.block = looked ++ visit.rest ∧ ∀ other ∈ looked, sweep.Seen visit.low other
  left : ∀ block ∈ above, ∀ other ∈ next block, sweep.Seen visit.low other

-- The open blocks lie in layers, one for each visit.
inductive Layered (next : Nat → List Nat) (sweep : Sweep) : List Visit → List Nat → Prop where
  | none : Layered next sweep [] []
  | visit {visit : Visit} {above below : List Nat} {visits : List Visit} (layer : Layer next sweep visit above below)
      (entered : ∀ outer ∈ visits.head?, visit.block ∈ next outer.block) (outer : Layered next sweep visits below) :
      Layered next sweep (visit :: visits) (above ++ visit.block :: below)

-- Open blocks were met in the order in which they were opened, and the blocks on cycles are known
-- among those that are done.
structure Steady (next : Nat → List Nat) (sweep : Sweep) : Prop where
  counted : ∀ block number, sweep.numbers.lookup block = some number → number < sweep.numbers.length
  met : ∀ block ∈ sweep.opened, sweep.Met block
  falling : sweep.opened.Pairwise fun late early => ∀ n m, sweep.numbers.lookup late = some n → sweep.numbers.lookup early = some m → m < n
  closed : ∀ block, sweep.Done block → ∀ other ∈ next block, sweep.Done other
  cyclic : ∀ block, block ∈ sweep.cyclic ↔ sweep.Done block ∧ OnCycle next block

structure Sound (next : Nat → List Nat) (sweep : Sweep) : Prop extends Steady next sweep where
  layered : Layered next sweep sweep.visits sweep.opened

-- Numbers stay, and no block is opened that was met before.
structure Follows (sweep later : Sweep) : Prop where
  numbers : ∀ block number, sweep.numbers.lookup block = some number → later.numbers.lookup block = some number
  opened : ∀ block ∈ later.opened, sweep.Met block → block ∈ sweep.opened

theorem Seen.follow (seen : sweep.Seen low block) (follows : Follows sweep later) : later.Seen low block := by
  obtain ⟨number, known, least⟩ := seen
  exact ⟨number, follows.numbers block number known, fun isOpen => least (follows.opened block isOpen ⟨number, known⟩)⟩

theorem Layer.follow (layer : Layer next sweep visit above below) (follows : Follows sweep later) : Layer next later visit above below := by
  obtain ⟨earlier, member, low, reaches⟩ := layer.found
  obtain ⟨number, known, least⟩ := layer.least
  obtain ⟨looked, split, seen⟩ := layer.looked
  exact ⟨layer.tied, ⟨earlier, member, follows.numbers _ _ low, reaches⟩, ⟨number, follows.numbers _ _ known, least⟩,
    ⟨looked, split, fun other member => (seen other member).follow follows⟩,
    fun block member other edge => (layer.left block member other edge).follow follows⟩

theorem Layered.follow (layered : Layered next sweep visits opened) (follows : Follows sweep later) : Layered next later visits opened := by
  induction layered with
  | none => exact .none
  | visit layer entered _ ih => exact .visit (layer.follow follows) entered ih

theorem Layered.reaches (layered : Layered next sweep visits opened) :
    ∀ visit ∈ visits.head?, ∀ block ∈ opened, Reachable next block visit.block := by
  induction layered with
  | none => simp
  | @visit visit above below visits layer entered outer ih =>
    intro _ isLast block member
    cases isLast
    rcases mem_append.mp member with upper | lower
    · exact (layer.tied block upper).1
    rcases mem_cons.mp lower with rfl | lower
    · exact reachable_self _
    · cases outer with
      | none => cases lower
      | @visit around _ _ _ _ _ _ => exact (ih around rfl block lower).trans (reachable_edge (entered around rfl))

-- Entering a block

theorem lookup_enter (next : Nat → List Nat) (sweep : Sweep) (block other : Nat) : (sweep.enter next block).numbers.lookup other =
      if other = block then some sweep.numbers.length else sweep.numbers.lookup other := by
  by_cases same : other = block
  · simp [enter, same]
  · simp [enter, same, lookup_cons, beq_false_of_ne same]

theorem enter_follows (next : Nat → List Nat) (unmet : sweep.numbers.lookup block = none) : Follows sweep (sweep.enter next block) := by
  have other {met number : Nat} (known : sweep.numbers.lookup met = some number) : met ≠ block := by
    rintro rfl
    cases unmet.symm.trans known
  refine ⟨fun met number known => ?_, fun met member ⟨number, known⟩ => ?_⟩
  · rw [lookup_enter, if_neg (other known), known]
  · exact (mem_cons.mp member).resolve_left (other known)

theorem done_enter (unmet : sweep.numbers.lookup block = none) (other : Nat) : (sweep.enter next block).Done other ↔ sweep.Done other := by
  by_cases same : other = block
  · subst same
    refine iff_of_false (fun done => done.2 mem_cons_self) fun done => ?_
    obtain ⟨number, known⟩ := done.1
    cases unmet.symm.trans known
  · simp only [Done, Met, lookup_enter, if_neg same]
    simp [enter, same]

section
variable (steady : Steady next sweep)
include steady

theorem Steady.enter (unmet : sweep.numbers.lookup block = none) : Steady next (sweep.enter next block) := by
  have follows : Follows sweep (sweep.enter next block) := enter_follows next unmet
  have fresh : (sweep.enter next block).numbers.lookup block = some sweep.numbers.length := by simp [lookup_enter]
  refine ⟨fun other number known => ?_, fun other member => ?_, pairwise_cons.mpr ⟨fun early member n m isLate isEarly => ?_, ?_⟩,
    fun other done ahead edge => ?_, fun other => ?_⟩
  · rw [lookup_enter] at known
    split at known
    · cases known
      exact Nat.lt_succ_self _
    · exact Nat.lt_succ_of_lt (steady.counted other number known)
  · rcases mem_cons.mp member with rfl | earlier
    · exact ⟨_, fresh⟩
    · obtain ⟨number, known⟩ := steady.met other earlier
      exact ⟨number, follows.numbers _ _ known⟩
  · obtain ⟨number, known⟩ := steady.met early member
    cases fresh.symm.trans isLate
    cases (follows.numbers _ _ known).symm.trans isEarly
    exact steady.counted early _ known
  · refine steady.falling.imp_of_mem fun {late early} isLate isEarly falls n m hn hm => ?_
    obtain ⟨first, known⟩ := steady.met late isLate
    obtain ⟨second, alsoKnown⟩ := steady.met early isEarly
    cases (follows.numbers _ _ known).symm.trans hn
    cases (follows.numbers _ _ alsoKnown).symm.trans hm
    exact falls _ _ known alsoKnown
  · rw [done_enter unmet] at done ⊢
    exact steady.closed other done ahead edge
  · rw [done_enter unmet]
    exact steady.cyclic other

theorem Steady.low_counted (layer : Layer next sweep visit above below) : visit.low < sweep.numbers.length := by
  obtain ⟨earlier, _, known, _⟩ := layer.found
  exact steady.counted earlier _ known

theorem Steady.enter_sound (unmet : sweep.numbers.lookup block = none) (entered : ∀ outer ∈ sweep.visits.head?, block ∈ next outer.block)
    (layered : Layered next (sweep.enter next block) sweep.visits sweep.opened) : Sound next (sweep.enter next block) := by
  have fresh : (sweep.enter next block).numbers.lookup block = some sweep.numbers.length := by simp [lookup_enter]
  have layer : Layer next (sweep.enter next block) ⟨block, sweep.numbers.length, next block⟩ [] sweep.opened :=
    ⟨by simp, ⟨block, by simp, fresh, reachable_self block⟩, ⟨_, fresh, Nat.le_refl _⟩, ⟨[], rfl, by simp⟩, by simp⟩
  exact ⟨steady.enter unmet, .visit layer entered layered⟩

end

-- Closing a component

theorem up_to_split (block : Nat) (above below : List Nat) (outside : block ∉ above) :
    upTo block (above ++ block :: below) = (above ++ [block], below) := by
  induction above with
  | nil => simp [upTo]
  | cons top above ih =>
    obtain ⟨other, outside⟩ := ne_and_not_mem_of_not_mem_cons outside
    simp [upTo, Ne.symm other, ih outside]

theorem Steady.done_reaches (steady : Steady next sweep) {a b : Nat} (done : sweep.Done a) (reaches : Reachable next a b) :
    sweep.Done b := by
  obtain ⟨path, walk⟩ := reaches
  induction walk with
  | single => exact done
  | step start via final path edge rest ih => exact ih (steady.closed start done via edge)

-- A component by the open blocks above its first one: they lead to it and back, and out of all of them
-- nothing leads to the open blocks below.
structure Component (next : Nat → List Nat) (sweep : Sweep) (block : Nat) (above below : List Nat) : Prop where
  opened : sweep.opened = above ++ block :: below
  outside : block ∉ above
  apart : ∀ member ∈ above ++ [block], member ∉ below
  tied : ∀ member ∈ above, Tied next member block
  inside : ∀ member ∈ above ++ [block], ∀ other ∈ next member, sweep.Met other ∧ other ∉ below

variable {above below : List Nat}

section
variable (component : Component next sweep block above below) (steady : Steady next sweep)
include component steady

theorem Component.on_cycle {member : Nat}
    (isMember : member ∈ above ++ [block]) : OnCycle next member ↔ above ≠ [] ∨ block ∈ next block := by
  constructor
  · intro cycle
    by_contra alone
    obtain ⟨none, noLoop⟩ := not_or.mp alone
    obtain rfl : above = [] := not_not.mp none
    obtain rfl : member = block := by simpa using isMember
    obtain ⟨via, edge, path, walk⟩ := cycle
    obtain ⟨met, away⟩ := component.inside member isMember via edge
    have done : sweep.Done via := by
      refine ⟨met, ?_⟩
      rw [component.opened]
      exact not_mem_cons_of_ne_of_not_mem (fun same => noLoop (same ▸ edge)) away
    refine (steady.done_reaches done ⟨path, walk⟩).2 ?_
    rw [component.opened]
    exact mem_cons_self
  · intro repeats
    rcases mem_append.mp isMember with upper | single
    · exact (component.tied member upper).cycle fun same => component.outside (same ▸ upper)
    obtain rfl := mem_singleton.mp single
    rcases repeats with several | loop
    · obtain ⟨other, upper⟩ := exists_mem_of_ne_nil above several
      exact (component.tied other upper).symm.cycle fun same => component.outside (same ▸ upper)
    · exact ⟨member, loop, [member], .single member⟩

theorem Component.done_complete (other : Nat) : (sweep.Met other ∧ other ∉ below) ↔ sweep.Done other ∨ other ∈ above ++ [block] := by
  have split : other ∈ sweep.opened ↔ other ∈ above ++ [block] ∨ other ∈ below := by simp [component.opened, or_assoc]
  constructor
  · rintro ⟨met, away⟩
    by_cases isMember : other ∈ above ++ [block]
    · exact .inr isMember
    · exact .inl ⟨met, fun isOpen => (split.mp isOpen).elim isMember away⟩
  · rintro (done | isMember)
    · exact ⟨done.1, fun lower => done.2 (split.mpr (.inr lower))⟩
    · exact ⟨steady.met other (split.mpr (.inl isMember)), component.apart other isMember⟩

end

theorem Steady.complete (steady : Steady next sweep) (component : Component next sweep block above below) :
    Steady next (sweep.complete next block) := by
  have split := up_to_split block above below component.outside
  rw [← component.opened] at split
  have shrunk : (sweep.complete next block).opened = below := by simp [Sweep.complete, split]
  have done (other : Nat) : (sweep.complete next block).Done other ↔ sweep.Done other ∨ other ∈ above ++ [block] := by
    rw [← component.done_complete steady, Done, shrunk]
    rfl
  refine ⟨steady.counted, fun other member => ?_, ?_, fun other isDone ahead edge => ?_, fun other => ?_⟩
  · refine steady.met other ?_
    simp [component.opened, shrunk ▸ member]
  · rw [shrunk]
    exact steady.falling.sublist (by simp [component.opened])
  · rcases (done other).mp isDone with old | isMember
    · exact (done ahead).mpr (.inl (steady.closed other old ahead edge))
    · exact (done ahead).mpr ((component.done_complete steady ahead).mp (component.inside other isMember ahead edge))
  have repeats : ((above ++ [block]).length > 1 || (next block).contains block) = true ↔ above ≠ [] ∨ block ∈ next block := by
    simp [length_pos_iff]
  have lists : other ∈ (sweep.complete next block).cyclic ↔
      (other ∈ above ++ [block] ∧ (above ≠ [] ∨ block ∈ next block)) ∨ other ∈ sweep.cyclic := by
    simp only [Sweep.complete, split, repeats]
    split <;> rename_i holds
    · simp only [mem_append, holds, and_true]
    · simp only [holds, and_false, false_or]
  rw [lists, done, steady.cyclic, or_and_right, or_comm]
  exact or_congr_right (and_congr_right fun isMember => (component.on_cycle steady isMember).symm)

-- The four things that a step may do

section
variable {visits : List Visit} {low other number : Nat} {rest : List Nat}

theorem Sound.innermost (sound : Sound next sweep) (current : sweep.visits = visit :: visits) :
    ∃ above below, sweep.opened = above ++ visit.block :: below ∧ Layer next sweep visit above below ∧
      (∀ outer ∈ visits.head?, visit.block ∈ next outer.block) ∧ Layered next sweep visits below := by
  have layered := sound.layered
  rw [current] at layered
  generalize sweep.opened = opened at layered ⊢
  cases layered with
  | @visit _ above below _ layer entered outer => exact ⟨above, below, rfl, layer, entered, outer⟩

theorem Steady.revisit (steady : Steady next sweep) (visits : List Visit) : Steady next { sweep with visits } :=
  ⟨steady.counted, steady.met, steady.falling, steady.closed, steady.cyclic⟩

theorem Steady.layers (steady : Steady next sweep) (layered : Layered next sweep visits sweep.opened) : Sound next { sweep with visits } :=
  ⟨steady.revisit visits, layered.follow ⟨fun _ _ => id, fun _ member _ => member⟩⟩

section
variable (sound : Sound next sweep) (current : sweep.visits = ⟨block, low, other :: rest⟩ :: visits)
include sound current

theorem Sound.look (known : sweep.numbers.lookup other = some number) : Sound next { sweep with visits :=
      ⟨block, if sweep.opened.contains other then min low number else low, rest⟩ :: visits } := by
  obtain ⟨above, below, lists, layer, entered, outer⟩ := sound.innermost current
  obtain ⟨looked, split, seen⟩ := layer.looked
  have edge : other ∈ next block := by simp [split]
  generalize new : (if sweep.opened.contains other then min low number else low) = lowered
  have smaller : lowered ≤ low := by grind
  apply sound.layers
  rw [lists]
  refine .visit ⟨layer.tied, ?_, ?_, ⟨looked ++ [other], by simp [split], fun found member => ?_⟩, ?_⟩ entered outer
  · by_cases lower : lowered = low
    · exact lower ▸ layer.found
    · have isOpen : other ∈ sweep.opened ∧ lowered = number := by grind
      exact ⟨other, lists ▸ isOpen.1, isOpen.2 ▸ known, reachable_edge edge⟩
  · obtain ⟨own, isOwn, least⟩ := layer.least
    exact ⟨own, isOwn, Nat.le_trans smaller least⟩
  · rcases mem_append.mp member with earlier | single
    · exact (seen found earlier).lower smaller
    · obtain rfl := mem_singleton.mp single
      exact ⟨number, known, fun isOpen => by grind⟩
  · exact fun upper member ahead leads => (layer.left upper member ahead leads).lower smaller

theorem Sound.descend (unmet : sweep.numbers.lookup other = none) : Sound next (enter next { sweep with visits := ⟨block, low, rest⟩ :: visits } other) := by
  obtain ⟨above, below, lists, layer, entered, outer⟩ := sound.innermost current
  have counted := sound.low_counted layer
  have follows : Follows sweep (enter next { sweep with visits := ⟨block, low, rest⟩ :: visits } other) :=
    ⟨(enter_follows next unmet).numbers, (enter_follows next unmet).opened⟩
  replace layer := layer.follow follows
  obtain ⟨looked, split, seen⟩ := layer.looked
  refine (sound.revisit _).enter_sound unmet (by simp [split]) ?_
  suffices layered : Layered next (enter next { sweep with visits := ⟨block, low, rest⟩ :: visits } other)
      (⟨block, low, rest⟩ :: visits) (above ++ block :: below) from (congrArg _ lists).mpr layered
  refine .visit ⟨layer.tied, layer.found, layer.least, ⟨looked ++ [other], by simp [split], fun found member => ?_⟩, layer.left⟩
    entered (outer.follow follows)
  rcases mem_append.mp member with earlier | single
  · exact seen found earlier
  · obtain rfl := mem_singleton.mp single
    exact ⟨sweep.numbers.length, by simp [lookup_enter], fun _ => Nat.le_of_lt counted⟩

end

theorem Layer.join {around : Visit} {upper lowest : List Nat} (inner : Layer next sweep around upper lowest)
    (layer : Layer next sweep ⟨block, low, []⟩ above (upper ++ around.block :: lowest)) (tied : Tied next block around.block) :
    Layer next sweep { around with low := min around.low low } (above ++ block :: upper) lowest := by
  obtain ⟨looked, split, seen⟩ := layer.looked
  obtain ⟨lookedAround, splitAround, seenAround⟩ := inner.looked
  obtain ⟨number, known, least⟩ := inner.least
  have smaller := Nat.min_le_left around.low low
  have lowers := Nat.min_le_right around.low low
  refine ⟨fun member isMember => ?_, ?_, ⟨number, known, Nat.le_trans smaller least⟩,
    ⟨lookedAround, splitAround, fun other member => (seenAround other member).lower smaller⟩, fun member isMember ahead edge => ?_⟩
  · rcases mem_append.mp isMember with new | old
    · exact (layer.tied member new).trans tied
    · rcases mem_cons.mp old with rfl | old
      · exact tied
      · exact inner.tied member old
  · obtain ⟨first, isFirst, firstLow, reaches⟩ := layer.found
    obtain ⟨other, isOther, otherLow, otherReachable⟩ := inner.found
    rcases Nat.le_total around.low low with keeps | lower
    · refine ⟨other, ?_, otherLow.trans (congrArg some (Nat.min_eq_left keeps).symm), otherReachable⟩
      rw [append_assoc]
      exact mem_append_right above (mem_cons_of_mem block isOther)
    · refine ⟨first, ?_, firstLow.trans (congrArg some (Nat.min_eq_right lower).symm), tied.2.trans reaches⟩
      rw [append_assoc]
      exact isFirst
  · rcases mem_append.mp isMember with new | old
    · exact (layer.left member new ahead edge).lower lowers
    · rcases mem_cons.mp old with rfl | old
      · exact (seen ahead (by simpa [split] using edge)).lower lowers
      · exact (inner.left member old ahead edge).lower smaller

section
variable (sound : Sound next sweep) (current : sweep.visits = ⟨block, low, []⟩ :: visits)
include sound current

theorem Sound.leave (earlier : sweep.numbers.lookup block ≠ some low) : Sound next { sweep with visits := lower low visits } := by
  obtain ⟨above, below, (lists : sweep.opened = above ++ block :: below), layer, entered, outer⟩ := sound.innermost current
  obtain ⟨own, isOwn, (least : low ≤ own)⟩ := layer.least
  obtain ⟨first, member, isLow, reaches⟩ := layer.found
  have falling := sound.falling
  rw [lists, pairwise_append] at falling
  have lower : first ∈ below := by
    rcases mem_append.mp member with upper | here
    · have later : own < low := falling.2.2 first upper block mem_cons_self low own isLow isOwn
      omega
    · exact (mem_cons.mp here).resolve_left fun (same : first = block) => earlier (same ▸ isLow)
  have back := outer.reaches
  apply sound.layers
  rw [lists]
  cases outer with
  | none => cases lower
  | @visit around upper lowest visits inner entrance outer =>
    have tied : Tied next block around.block := ⟨reaches.trans (back around rfl first lower), reachable_edge (entered around rfl)⟩
    rw [← cons_append, ← append_assoc]
    exact .visit (inner.join layer tied) entrance outer

theorem Sound.finish (root : sweep.numbers.lookup block = some low) : Sound next (complete next { sweep with visits := lower low visits } block) := by
  obtain ⟨above, below, (lists : sweep.opened = above ++ block :: below), layer, entered, outer⟩ := sound.innermost current
  have falling := sound.falling
  rw [lists, pairwise_append, pairwise_cons] at falling
  obtain ⟨_, ⟨belowFalls, _⟩, aboveFalls⟩ := falling
  have outside : block ∉ above := fun again => Nat.lt_irrefl low (aboveFalls block again block mem_cons_self low low root root)
  have component : Component next sweep block above below := by
    refine ⟨lists, outside, fun member isMember lower => ?_, layer.tied, fun member isMember other edge => ?_⟩
    · obtain ⟨number, known⟩ := sound.met member (by simp [lists, lower])
      rcases mem_append.mp isMember with upper | single
      · exact Nat.lt_irrefl _ (aboveFalls member upper member (mem_cons_of_mem block lower) _ _ known known)
      · obtain rfl := mem_singleton.mp single
        exact Nat.lt_irrefl _ (belowFalls member lower _ _ known known)
    have seen : sweep.Seen low other := by
      rcases mem_append.mp isMember with upper | single
      · exact layer.left member upper other edge
      · obtain rfl := mem_singleton.mp single
        obtain ⟨looked, split, seen⟩ := layer.looked
        exact seen other (by simpa [split] using edge)
    obtain ⟨number, known, least⟩ := seen
    refine ⟨⟨number, known⟩, fun lower => ?_⟩
    have := least (by simp [lists, lower])
    have := belowFalls other lower low number root known
    omega
  have kept : lower low visits = visits := by
    cases outer with
    | none => rfl
    | @visit around upper lowest visits inner _ _ =>
      obtain ⟨number, known, least⟩ := inner.least
      have := belowFalls around.block (by simp) low number root known
      simp only [lower, Nat.min_eq_left (show around.low ≤ low by omega)]
  have shrunk : (sweep.complete next block).opened = below := by simp [Sweep.complete, lists, up_to_split block above below outside]
  rw [kept]
  refine (sound.complete component).layers ?_
  rw [shrunk]
  exact outer.follow ⟨fun _ _ => id, fun member lower _ => by simp [lists, shrunk ▸ lower]⟩

end

theorem Sound.step (sound : Sound next sweep) : Sound next (sweep.step next) := by
  unfold Sweep.step
  split
  · exact sound
  · rename_i current
    split
    · rename_i unmet
      exact sound.descend current unmet
    · rename_i known
      exact sound.look current known
  rename_i current
  split
  · rename_i root
    exact sound.finish current root
  · rename_i earlier
    exact sound.leave current earlier

theorem step_keeps (met : sweep.Met block) : (sweep.step next).Met block := by
  unfold Sweep.step
  split
  · exact met
  · split
    · rename_i unmet
      obtain ⟨number, known⟩ := met
      exact ⟨number, (enter_follows next unmet).numbers block number known⟩
    · exact met
  · split <;> exact met

end

-- The steps that are left at most: looks at successors, and leaving blocks.
def cost (sources targets : List Nat) (sweep : Sweep) : Nat :=
  (sweep.visits.map fun visit => visit.rest.length + 1).sum +
    ((unseen sources (sweep.numbers.map (·.1))).length + (unseen targets (sweep.numbers.map (·.1))).length)

section
variable {sources targets : List Nat}

theorem enter_cost (sweep : Sweep) (targets : List Nat) (outgoing : ∀ block, (next block).length ≤ sources.count block) (unmet : sweep.numbers.lookup block = none) :
    (sweep.enter next block).cost sources targets + targets.count block ≤ sweep.cost sources targets + 1 := by
  have fresh : block ∉ sweep.numbers.map (·.1) := by
    intro member
    obtain ⟨entry, isEntry, rfl⟩ := mem_map.mp member
    simpa using lookup_eq_none_iff.mp unmet entry isEntry
  have fewerSources := unseen_cons sources _ block fresh
  have fewerTargets := unseen_cons targets _ block fresh
  have degree := outgoing block
  simp only [cost, enter, map_cons, sum_cons]
  omega

theorem lower_rests (low : Nat) (visits : List Visit) :
    ((lower low visits).map fun visit => visit.rest.length + 1) = visits.map fun visit => visit.rest.length + 1 := by
  cases visits <;> rfl

section
variable (sound : Sound next sweep) (outgoing : ∀ block, (next block).length ≤ sources.count block)
  (possible : ∀ a, ∀ b ∈ next a, b ∈ targets)
include sound outgoing possible

theorem Sound.step_cost (busy : sweep.visits ≠ []) : (sweep.step next).cost sources targets < sweep.cost sources targets := by
  unfold Sweep.step
  split
  · rename_i none
    exact absurd none busy
  · rename_i block low other rest visits current
    have spent : cost sources targets { sweep with visits := ⟨block, low, rest⟩ :: visits } + 1 = sweep.cost sources targets := by
      simp only [cost, current, map_cons, sum_cons, length_cons]
      omega
    split
    · rename_i unmet
      obtain ⟨_, _, _, layer, _⟩ := sound.innermost current
      obtain ⟨looked, split, _⟩ := layer.looked
      have counted : 0 < targets.count other := count_pos_iff.mpr (possible block other (by simp [split]))
      have entered := enter_cost { sweep with visits := ⟨block, low, rest⟩ :: visits } targets outgoing unmet
      omega
    · simp only [cost, map_cons, sum_cons] at spent ⊢
      omega
  · rename_i block low visits current
    have spent : cost sources targets { sweep with visits := lower low visits } < sweep.cost sources targets := by
      simp only [cost, current, lower_rests, map_cons, sum_cons]
      omega
    split <;> exact spent

theorem Sound.run (enough : sweep.cost sources targets ≤ fuel) :
    Sound next (sweep.run next fuel) ∧ (sweep.run next fuel).visits = [] ∧ ∀ block, sweep.Met block → (sweep.run next fuel).Met block := by
  induction fuel generalizing sweep with
  | zero =>
    refine ⟨sound, ?_, fun _ => id⟩
    by_contra busy
    have := sound.step_cost outgoing possible busy
    omega
  | succ fuel ih =>
    rw [Sweep.run]
    split
    · rename_i empty
      exact ⟨sound, isEmpty_iff.mp empty, fun _ => id⟩
    · rename_i busy
      have cheaper := sound.step_cost outgoing possible (fun none => busy (isEmpty_iff.mpr none))
      obtain ⟨final, rested, keeps⟩ := ih sound.step (by omega)
      exact ⟨final, rested, fun block met => keeps block (step_keeps met)⟩

end

theorem Sound.rested (sound : Sound next sweep) (rested : sweep.visits = []) : sweep.opened = [] := by
  have layered := sound.layered
  rw [rested] at layered
  generalize sweep.opened = opened at layered ⊢
  cases layered
  rfl

theorem Sound.visit_from (sound : Sound next sweep) (rested : sweep.visits = [])
    (outgoing : ∀ block, (next block).length ≤ sources.count block) (possible : ∀ a, ∀ b ∈ next a, b ∈ targets)
    (enough : sources.length + targets.length + 1 ≤ fuel) (start : Nat) :
    Sound next (sweep.visitFrom next fuel start) ∧ (sweep.visitFrom next fuel start).visits = [] ∧
      (sweep.visitFrom next fuel start).Met start ∧ ∀ block, sweep.Met block → (sweep.visitFrom next fuel start).Met block := by
  unfold visitFrom
  split
  · rename_i known
    exact ⟨sound, rested, Option.isSome_iff_exists.mp known, fun _ => id⟩
  rename_i unknown
  have unmet := Option.not_isSome_iff_eq_none.mp unknown
  have entered : Sound next (sweep.enter next start) := by
    refine sound.enter_sound unmet (by simp [rested]) ?_
    rw [rested, sound.rested rested]
    exact .none
  have bound : (sweep.enter next start).cost sources targets ≤ fuel := by
    have fewSources := length_filter_le (fun block => !(sweep.numbers.map (·.1)).contains block) sources
    have fewTargets := length_filter_le (fun block => !(sweep.numbers.map (·.1)).contains block) targets
    have costs := enter_cost sweep targets outgoing unmet
    simp only [cost, rested, map_nil, sum_nil, unseen] at costs ⊢
    omega
  obtain ⟨final, empty, keeps⟩ := entered.run outgoing possible bound
  refine ⟨final, empty, keeps start ⟨_, by rw [lookup_enter, if_pos rfl]⟩, ?_⟩
  rintro block ⟨number, known⟩
  exact keeps block ⟨number, (enter_follows next unmet).numbers block number known⟩

end

end Sweep

namespace Graph

section
variable (graph : Graph)
include graph

theorem mem_ahead (a b : Nat) : b ∈ graph.ahead a ↔ b ∈ graph.successors a := mem_sorted_set _ _

theorem ahead_length (block : Nat) : (graph.ahead block).length ≤ (graph.edges.map (·.source)).count block := by
  have shorter := (erase_dups_sublist (graph.successors block)).length_le
  have degree := next_length graph .forward block
  simp only [ahead, sortedSet, length_mergeSort]
  exact Nat.le_trans shorter degree

theorem sweep_sound : Sweep.Sound graph.ahead graph.sweep ∧ graph.sweep.visits = [] ∧ ∀ block ∈ graph.nodes, graph.sweep.Met block := by
  have possible (a b : Nat) (edge : b ∈ graph.ahead a) : b ∈ graph.targets := successor_target graph a b ((mem_ahead graph a b).mp edge)
  have all (starts : List Nat) (sweep : Sweep) (sound : Sweep.Sound graph.ahead sweep) (rested : sweep.visits = []) :
      Sweep.Sound graph.ahead (starts.foldl (Sweep.visitFrom graph.ahead (2 * graph.rounds)) sweep) ∧
      (starts.foldl (Sweep.visitFrom graph.ahead (2 * graph.rounds)) sweep).visits = [] ∧
      ∀ block, block ∈ starts ∨ sweep.Met block → (starts.foldl (Sweep.visitFrom graph.ahead (2 * graph.rounds)) sweep).Met block := by
    induction starts generalizing sweep with
    | nil => exact ⟨sound, rested, fun block met => met.resolve_left not_mem_nil⟩
    | cons start starts ih =>
      obtain ⟨next, empty, met, keeps⟩ := sound.visit_from rested (ahead_length graph) possible
        (show _ ≤ 2 * graph.rounds by simp [targets, rounds]; omega) start
      obtain ⟨final, finalEmpty, finalMet⟩ := ih _ next empty
      refine ⟨final, finalEmpty, fun block known => finalMet block ?_⟩
      rcases known with listed | old
      · rcases mem_cons.mp listed with rfl | later
        · exact .inr met
        · exact .inl later
      · exact .inr (keeps block old)
  have start : Sweep.Sound graph.ahead {} :=
    ⟨⟨by simp, by simp, by simp, by simp [Sweep.Done, Sweep.Met], by simp [Sweep.Done, Sweep.Met]⟩, .none⟩
  obtain ⟨sound, rested, met⟩ := all (sortedSet graph.nodes) {} start rfl
  exact ⟨sound, rested, fun block member => met block (.inl ((mem_sorted_set _ _).mpr member))⟩

theorem on_cycle_ahead (block : Nat) : OnCycle graph.ahead block ↔ OnCycle graph.successors block := by
  constructor
  · rintro ⟨via, edge, path, walk⟩
    exact ⟨via, (mem_ahead graph _ _).mp edge, path, walk_mono (fun a b => (mem_ahead graph a b).mp) walk⟩
  · rintro ⟨via, edge, path, walk⟩
    exact ⟨via, (mem_ahead graph _ _).mpr edge, path, walk_mono (fun a b => (mem_ahead graph a b).mpr) walk⟩

theorem mem_cyclic_blocks (block : Nat) : block ∈ graph.cyclicBlocks ↔ graph.sweep.Met block ∧ OnCycle graph.successors block := by
  obtain ⟨sound, rested, _⟩ := sweep_sound graph
  rw [cyclicBlocks, mem_sorted_set, sound.cyclic, on_cycle_ahead, Sweep.Done, sound.rested rested]
  simp

theorem cyclic_of_on_cycle {block : Nat} (inside : block ∈ graph.nodes) (cycle : OnCycle graph.successors block) :
    block ∈ graph.cyclicBlocks :=
  (mem_cyclic_blocks graph block).mpr ⟨(sweep_sound graph).2.2 block inside, cycle⟩

end

theorem cyclic_blocks_exact (graph : Graph) (inside : graph.EdgesInside) (block : Nat) : block ∈ graph.cyclicBlocks ↔ OnCycle graph.successors block := by
  refine ⟨fun member => ((mem_cyclic_blocks graph block).mp member).2, fun cycle => cyclic_of_on_cycle graph ?_ cycle⟩
  obtain ⟨before, ahead⟩ : ∃ before, block ∈ graph.successors before := by
    obtain ⟨via, edge, path, walk⟩ := cycle
    rcases walk_snoc_cases walk with ⟨rfl, _⟩ | ⟨_, last, _, _, edge⟩
    · exact ⟨_, edge⟩
    · exact ⟨last, edge⟩
  obtain ⟨edge, member, _, rfl⟩ := (mem_successors graph before block).mp ahead
  exact (inside edge member).2

-- A cycle that can be entered in two places, one that nothing leads to, and a block that leads to itself.
def eddyGraph : Graph where
  nodes := [0, 1, 2, 3, 4, 5, 6]
  wiring := .of [⟨0, 1, .whenTrue⟩, ⟨0, 2, .whenFalse⟩, ⟨1, 2, .unconditional⟩, ⟨2, 1, .loopBack⟩, ⟨2, 3, .loopExit⟩,
    ⟨3, 3, .loopBack⟩, ⟨3, 6, .unconditional⟩, ⟨4, 5, .unconditional⟩, ⟨5, 4, .loopBack⟩, ⟨5, 3, .loopExit⟩]
  exit := 6

theorem eddies_found : eddyGraph.EdgesInside ∧ ¬ OnCycle eddyGraph.successors 0 ∧ OnCycle eddyGraph.successors 1 ∧
    OnCycle eddyGraph.successors 3 ∧ OnCycle eddyGraph.successors 4 ∧ ¬ OnCycle eddyGraph.successors 6 := by
  have inside : eddyGraph.EdgesInside := by unfold EdgesInside; decide
  have cyclic : eddyGraph.cyclicBlocks = [1, 2, 3, 4, 5] := by cbv
  simp only [← cyclic_blocks_exact eddyGraph inside, cyclic]
  exact ⟨inside, by decide⟩

end Graph

end HookLint
