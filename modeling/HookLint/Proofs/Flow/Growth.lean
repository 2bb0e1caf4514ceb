import HookLint.Proofs.Flow.Layout

namespace HookLint.Flow

open List

variable {block source target count : Nat} {Post : Unit → Draft → Prop} {kind : EdgeKind} {β : Type} {call : Value}
  {taken : Prop} {edge : Edge}

-- What holds of the answer and the draft that building ends with.
def Ends {α : Type} (action : Build α) (draft : Draft) (Post : α → Draft → Prop) : Prop := Post (action.run draft).1 (action.run draft).2

section
variable {α β : Type} {Post : β → Draft → Prop} {draft : Draft}

theorem ends_pure (answer : β) (post : Post answer draft) : Ends (pure answer) draft Post := post

theorem ends_bind {action : Build α} {rest : α → Build β}
    (ends : Ends action draft fun answer next => Ends (rest answer) next Post) : Ends (action >>= rest) draft Post := ends

theorem ends_mono {action : Build β} {Strong : β → Draft → Prop} (ends : Ends action draft Strong)
    (weaken : ∀ answer next, Strong answer next → Post answer next) : Ends action draft Post := weaken _ _ ends

theorem ends_after {action : Build α} {rest : α → Build β} {Middle : α → Draft → Prop} (ends : Ends action draft Middle)
    (next : ∀ answer after, Middle answer after → Ends (rest answer) after Post) : Ends (action >>= rest) draft Post :=
  ends_bind (ends_mono ends next)

end

namespace Draft

def callsOf (draft : Draft) (block : Nat) : List Value := (draft.blocks[block]?.map (·.calls)).getD []

-- The place after the calls that a block has got so far.
def tip (draft : Draft) (block : Nat) : Nat := (draft.callsOf block).length

-- Control leaves a block for good, other than by an exception in the middle of it.
def Leaves (draft : Draft) (block : Nat) : Prop := ∃ edge ∈ draft.edges, edge.source = block ∧ edge.kind ≠ .exception

structure Valid (draft : Draft) : Prop where
  edges : ∀ edge ∈ draft.edges, edge.source < draft.blocks.length ∧ edge.target < draft.blocks.length
  closed : ∀ block ∈ draft.closed, block < draft.blocks.length
  pending : ∀ jumping ∈ draft.pending, jumping.finalizer < draft.blocks.length ∧ jumping.target < draft.blocks.length

-- A block that may still get calls.
structure Ready (draft : Draft) (block : Nat) : Prop where
  inside : block < draft.blocks.length
  isOpen : block ∉ draft.closed
  quiet : ¬ draft.Leaves block

end Draft

-- Between two drafts nothing is lost, blocks that control leaves get no more calls,
-- and of the blocks below the base only the start is touched.
structure Grows (base start : Nat) (before after : Draft) : Prop where
  size : before.blocks.length ≤ after.blocks.length
  edges : ∀ edge ∈ before.edges, edge ∈ after.edges
  pending : ∀ jumping ∈ before.pending, jumping ∈ after.pending
  calls : ∀ block, before.callsOf block <+: after.callsOf block
  sealed : ∀ block, before.Leaves block → after.callsOf block = before.callsOf block
  kept : ∀ block < base, block ≠ start → after.callsOf block = before.callsOf block ∧
    (after.Leaves block → before.Leaves block) ∧ (block ∈ after.closed → block ∈ before.closed)

section
variable {base start : Nat} {first second third : Draft}

theorem leaves_mono (grows : Grows base start first second) (leaves : first.Leaves block) : second.Leaves block := by
  obtain ⟨edge, member, source, kind⟩ := leaves
  exact ⟨edge, grows.edges edge member, source, kind⟩

theorem grows_refl (base start : Nat) (draft : Draft) : Grows base start draft draft :=
  ⟨Nat.le_refl _, fun _ member => member, fun _ member => member, fun _ => prefix_refl _, fun _ _ => rfl, fun _ _ _ => ⟨rfl, id, id⟩⟩

theorem grows_trans (early : Grows base start first second) (late : Grows base start second third) : Grows base start first third := by
  refine ⟨Nat.le_trans early.size late.size, fun edge member => late.edges edge (early.edges edge member),
    fun jumping member => late.pending jumping (early.pending jumping member),
    fun block => (early.calls block).trans (late.calls block), ?_, ?_⟩
  · intro block leaves
    rw [late.sealed block (leaves_mono early leaves), early.sealed block leaves]
  · intro block below other
    obtain ⟨callsEarly, leavesEarly, closedEarly⟩ := early.kept block below other
    obtain ⟨callsLate, leavesLate, closedLate⟩ := late.kept block below other
    exact ⟨callsLate.trans callsEarly, fun leaves => leavesEarly (leavesLate leaves), fun closed => closedEarly (closedLate closed)⟩

theorem own_trans {start middle final low high : Nat} (own : middle = start ∨ low ≤ middle) (later : final = middle ∨ high ≤ final)
    (size : low ≤ high) : final = start ∨ low ≤ final := by
  omega

-- What is built from one block is, for whoever began earlier, built from a block of
-- their own.
theorem grows_narrow {inner origin : Nat} (grows : Grows inner origin first second) (below : base ≤ inner)
    (own : origin = start ∨ base ≤ origin) : Grows base start first second := by
  refine ⟨grows.size, grows.edges, grows.pending, grows.calls, grows.sealed, fun block small other => ?_⟩
  refine grows.kept block (Nat.lt_of_lt_of_le small below) ?_
  rcases own with rfl | large
  · exact other
  · omega

-- One draft is made from the other, wherever that began.
abbrev Later (before after : Draft) : Prop := Grows 0 0 before after

section
variable (grows : Grows base start first second)
include grows

theorem grows_later : Later first second :=
  grows_narrow grows (Nat.zero_le _) (.inr (Nat.zero_le _))

theorem tip_kept (block : Nat) (small : block < base) (other : block ≠ start) : second.tip block = first.tip block := by
  rw [Draft.tip, (grows.kept block small other).1, Draft.tip]

theorem ready_kept (block : Nat) (small : block < base) (other : block ≠ start) (ready : first.Ready block) : second.Ready block := by
  obtain ⟨_, leaves, closed⟩ := grows.kept block small other
  exact ⟨Nat.lt_of_lt_of_le ready.inside grows.size, fun member => ready.isOpen (closed member),
    fun leaving => ready.quiet (leaves leaving)⟩

end

end

-- What the steps of building do.

-- Some blocks are added, and nothing else changes in what graphs are made of.
structure Padded (count : Nat) (before after : Draft) : Prop where
  size : after.blocks.length = before.blocks.length + count
  calls : ∀ block, after.callsOf block = before.callsOf block
  edges : after.edges = before.edges
  closed : after.closed = before.closed
  pending : after.pending = before.pending

-- An edge is added if a condition holds.
structure Connected (taken : Prop) (edge : Edge) (before after : Draft) : Prop where
  size : after.blocks.length = before.blocks.length
  calls : ∀ block, after.callsOf block = before.callsOf block
  edges : ∀ other, other ∈ after.edges ↔ other ∈ before.edges ∨ (taken ∧ other = edge)
  closed : after.closed = before.closed
  pending : after.pending = before.pending
  fault : after.fault = before.fault

structure Recorded (block : Nat) (call : Value) (before after : Draft) : Prop where
  size : after.blocks.length = before.blocks.length
  here : block < before.blocks.length → after.callsOf block = before.callsOf block ++ [call]
  elsewhere : ∀ other, other ≠ block → after.callsOf other = before.callsOf other
  edges : after.edges = before.edges
  closed : after.closed = before.closed
  pending : after.pending = before.pending
  fault : after.fault = before.fault

section
variable {draft : Draft}

theorem ends_new_block {Post : Nat → Draft → Prop} {inLoop : Bool} {kind : BlockKind}
    (next : ∀ after, Padded 1 draft after → after.fault = draft.fault → after.blocks.length = draft.blocks.length + 1 →
      Post draft.blocks.length after) :
    Ends (newBlock inLoop kind) draft Post := by
  refine next { draft with
    blocks := draft.blocks ++ [{ kind }]
    loopBody := if inLoop then draft.loopBody ++ [draft.blocks.length] else draft.loopBody }
    ⟨by simp, fun block => ?_, rfl, rfl, rfl⟩ rfl (by simp)
  rcases Nat.lt_trichotomy block draft.blocks.length with old | rfl | new
  · simp [Draft.callsOf, List.getElem?_append_left old]
  · simp [Draft.callsOf]
  · simp [Draft.callsOf, List.getElem?_eq_none (show draft.blocks.length ≤ block by omega),
      List.getElem?_append_right (show draft.blocks.length ≤ block by omega),
      List.getElem?_eq_none (show [({ kind } : Block)].length ≤ block - draft.blocks.length by simp; omega)]

theorem ends_connect
    (next : ∀ after, Connected True ⟨source, target, kind⟩ draft after → after.blocks.length = draft.blocks.length → Post () after) :
    Ends (connect source target kind) draft Post := by
  suffices linked : Connected True ⟨source, target, kind⟩ draft { draft with wiring := draft.wiring.add ⟨source, target, kind⟩ } from
    next _ linked linked.size
  exact ⟨rfl, fun _ => rfl, fun other => by rw [draft.wiring.mem_add, and_iff_right trivial], rfl, rfl, rfl⟩

theorem ends_add {Post : β → Draft → Prop} {inLoop : Bool} {kind : BlockKind} {rest : Nat → Build β}
    (next : ∀ after, Padded 1 draft after → after.fault = draft.fault → after.blocks.length = draft.blocks.length + 1 →
      Ends (rest draft.blocks.length) after Post) : Ends (newBlock inLoop kind >>= rest) draft Post :=
  ends_bind (ends_new_block next)

theorem ends_link {Post : β → Draft → Prop} {rest : Unit → Build β}
    (next : ∀ after, Connected True ⟨source, target, kind⟩ draft after → after.blocks.length = draft.blocks.length →
      Ends (rest ()) after Post) : Ends (connect source target kind >>= rest) draft Post := ends_bind (ends_connect next)

theorem ends_is_closed {Post : Bool → Draft → Prop}
    (next : Post (draft.closed.contains block) draft) : Ends (isClosed block) draft Post := next

theorem ends_flow
    (next : ∀ after, Connected (source ∉ draft.closed) ⟨source, target, kind⟩ draft after → after.blocks.length = draft.blocks.length →
      Post () after) :
    Ends (flow source target kind) draft Post := by
  refine ends_bind (ends_is_closed ?_)
  by_cases member : source ∈ draft.closed
  · rw [contains_iff_mem.mpr member]
    exact next draft ⟨rfl, fun _ => rfl, fun other => by simp [member], rfl, rfl, rfl⟩ rfl
  · rw [Bool.eq_false_iff.mpr fun found => member (contains_iff_mem.mp found)]
    refine ends_connect fun after linked size => next after ?_ size
    exact ⟨size, linked.calls, fun other => by simp [linked.edges, member], linked.closed, linked.pending, linked.fault⟩

theorem ends_leave {Post : β → Draft → Prop} {rest : Unit → Build β}
    (next : ∀ after, Connected (source ∉ draft.closed) ⟨source, target, kind⟩ draft after → after.blocks.length = draft.blocks.length →
      Ends (rest ()) after Post) : Ends (flow source target kind >>= rest) draft Post := ends_bind (ends_flow next)

theorem calls_of_modify (blocks : List Block) (number other : Nat) (change : Block → Block) :
    ((blocks.modify number change)[other]?.map (·.calls)).getD [] =
      if other = number then (blocks[other]?.map fun block => (change block).calls).getD []
      else (blocks[other]?.map (·.calls)).getD [] := by
  rw [List.getElem?_modify]
  by_cases same : number = other
  · subst number
    simp [Function.comp_def]
  · simp [same, Ne.symm same]

theorem ends_modify_block {number : Nat} {change : Block → Block} (quiet : ∀ block, (change block).calls = block.calls)
    (next : ∀ after, Padded 0 draft after → after.fault = draft.fault → Post () after) : Ends (modifyBlock number change) draft Post := by
  refine next { draft with blocks := draft.blocks.modify number change } ⟨by simp, fun block => ?_, rfl, rfl, rfl⟩ rfl
  simp only [Draft.callsOf, calls_of_modify, quiet]
  split <;> rfl

theorem ends_record_call (next : ∀ after, Recorded block call draft after → Post () after) : Ends (recordCall block call) draft Post := by
  refine next { draft with
    blocks := draft.blocks.modify block fun b => { b with calls := b.calls ++ [call] } }
    ⟨by simp, fun inside => ?_, fun other different => ?_, rfl, rfl, rfl, rfl⟩
  · simp [Draft.callsOf, inside]
  · simp [Draft.callsOf, calls_of_modify, different]

theorem ends_close (next : ∀ after : Draft, after = { draft with closed := block :: draft.closed } → Post () after) :
    Ends (close block) draft Post := next _ rfl

end

section
variable {before after : Draft}

section
variable (padded : Padded count before after)
include padded

theorem Padded.grows (base start : Nat) : Grows base start before after := by
  have leaves (block : Nat) : after.Leaves block ↔ before.Leaves block := by simp only [Draft.Leaves, padded.edges]
  refine ⟨by rw [padded.size]; omega, fun edge member => padded.edges ▸ member,
    fun jumping member => padded.pending ▸ member, fun block => ?_, fun block _ => padded.calls block,
    fun block _ _ => ⟨padded.calls block, (leaves block).mp, fun member => padded.closed ▸ member⟩⟩
  exact ⟨[], by rw [append_nil, padded.calls]⟩

theorem Padded.valid (valid : before.Valid) : after.Valid := by
  refine ⟨?_, ?_, ?_⟩
  · rw [padded.edges, padded.size]
    intro edge member
    have inside := valid.edges edge member
    omega
  · rw [padded.closed, padded.size]
    intro block member
    have inside := valid.closed block member
    omega
  · rw [padded.pending, padded.size]
    intro jumping member
    have inside := valid.pending jumping member
    omega

theorem Padded.ready (block : Nat) (ready : before.Ready block) : after.Ready block :=
  ready_kept (padded.grows (block + 1) (block + 1)) block (by omega) (by omega) ready

theorem Padded.ready_new (valid : before.Valid) (block : Nat)
    (large : before.blocks.length ≤ block) (small : block < before.blocks.length + count) : after.Ready block := by
  refine ⟨by rw [padded.size]; omega, ?_, ?_⟩
  · rw [padded.closed]
    intro member
    have inside := valid.closed block member
    omega
  · rintro ⟨edge, member, source, _⟩
    rw [padded.edges] at member
    have inside := (valid.edges edge member).1
    omega

theorem Padded.later : Later before after := padded.grows 0 0

end

theorem padded_refl (draft : Draft) : Padded 0 draft draft := ⟨rfl, fun _ => rfl, rfl, rfl, rfl⟩

theorem Padded.tip (padded : Padded count before after) (block : Nat) : after.tip block = before.tip block := by
  rw [Draft.tip, padded.calls, Draft.tip]

theorem Padded.tip_new (padded : Padded count before after) (block : Nat) (large : before.blocks.length ≤ block) : after.tip block = 0 := by
  rw [padded.tip, Draft.tip, Draft.callsOf, List.getElem?_eq_none large]
  rfl

section
variable (connected : Connected taken edge before after)
include connected

theorem Connected.leaves (block : Nat)
    (other : edge.source ≠ block ∨ edge.kind = .exception) (leaves : after.Leaves block) : before.Leaves block := by
  obtain ⟨found, member, source, kind⟩ := leaves
  rcases (connected.edges found).mp member with old | ⟨_, rfl⟩
  · exact ⟨found, old, source, kind⟩
  · rcases other with different | exceptional
    · exact absurd source different
    · exact absurd exceptional kind

theorem Connected.grows (base start : Nat)
    (own : edge.source = start ∨ base ≤ edge.source ∨ edge.kind = .exception) : Grows base start before after := by
  refine ⟨Nat.le_of_eq connected.size.symm, fun found member => (connected.edges found).mpr (.inl member),
    fun jumping member => connected.pending ▸ member, fun block => ?_,
    fun block _ => connected.calls block, fun block small different => ⟨connected.calls block, ?_,
    fun member => connected.closed ▸ member⟩⟩
  · exact ⟨[], by rw [append_nil, connected.calls]⟩
  · refine connected.leaves block ?_
    rcases own with rfl | large | exceptional
    · exact .inl (Ne.symm different)
    · exact .inl (by omega)
    · exact .inr exceptional

theorem Connected.later : Later before after := connected.grows 0 0 (.inr (.inl (Nat.zero_le _)))

theorem Connected.valid (valid : before.Valid)
    (source : edge.source < before.blocks.length) (target : edge.target < before.blocks.length) : after.Valid := by
  refine ⟨?_, ?_, ?_⟩
  · rw [connected.size]
    intro found member
    rcases (connected.edges found).mp member with old | ⟨_, rfl⟩
    · exact valid.edges found old
    · exact ⟨source, target⟩
  · rw [connected.closed, connected.size]
    exact valid.closed
  · rw [connected.pending, connected.size]
    exact valid.pending

theorem Connected.ready (block : Nat)
    (ready : before.Ready block) (other : edge.source ≠ block ∨ edge.kind = .exception) : after.Ready block :=
  ⟨connected.size ▸ ready.inside, connected.closed ▸ ready.isOpen, fun leaves => ready.quiet (connected.leaves block other leaves)⟩

theorem Connected.tip (block : Nat) : after.tip block = before.tip block := by
  rw [Draft.tip, connected.calls, Draft.tip]

theorem Connected.made (holds : taken) : edge ∈ after.edges := (connected.edges edge).mpr (.inr ⟨holds, rfl⟩)

end

section
variable (recorded : Recorded block call before after)
include recorded

theorem Recorded.grows (base start : Nat)
    (own : block = start ∨ base ≤ block) (ready : before.Ready block) : Grows base start before after := by
  have leaves (other : Nat) : after.Leaves other ↔ before.Leaves other := by simp only [Draft.Leaves, recorded.edges]
  refine ⟨Nat.le_of_eq recorded.size.symm, fun edge member => recorded.edges ▸ member,
    fun jumping member => recorded.pending ▸ member, fun other => ?_, fun other leaving => ?_,
    fun other small different => ⟨?_, (leaves other).mp, fun member => recorded.closed ▸ member⟩⟩
  · by_cases same : other = block
    · subst other
      rw [recorded.here ready.inside]
      exact prefix_append _ _
    · exact ⟨[], by rw [append_nil, recorded.elsewhere other same]⟩
  · exact recorded.elsewhere other fun same => ready.quiet (same ▸ leaving)
  · refine recorded.elsewhere other fun same => ?_
    rcases own with rfl | large
    · exact different same
    · omega

theorem Recorded.valid (valid : before.Valid) : after.Valid := by
  refine ⟨?_, ?_, ?_⟩
  · rw [recorded.edges, recorded.size]
    exact valid.edges
  · rw [recorded.closed, recorded.size]
    exact valid.closed
  · rw [recorded.pending, recorded.size]
    exact valid.pending

theorem Recorded.ready (other : Nat) (ready : before.Ready other) : after.Ready other := by
  refine ⟨recorded.size ▸ ready.inside, recorded.closed ▸ ready.isOpen, fun leaves => ready.quiet ?_⟩
  simpa only [Draft.Leaves, recorded.edges] using leaves

end

end

-- Only the calls of one block change.
structure Touched (block : Nat) (before after : Draft) : Prop where
  size : after.blocks.length = before.blocks.length
  here : before.callsOf block <+: after.callsOf block
  elsewhere : ∀ other, other ≠ block → after.callsOf other = before.callsOf other
  edges : after.edges = before.edges
  closed : after.closed = before.closed
  pending : after.pending = before.pending

theorem ends_record_calls {Post : PUnit → Draft → Prop} (calls : List Value) (draft : Draft)
    (next : ∀ after, Touched block draft after → Post () after) : Ends (calls.forM (recordCall block)) draft Post := by
  induction calls generalizing draft with
  | nil => exact next draft ⟨rfl, prefix_refl _, fun _ _ => rfl, rfl, rfl, rfl⟩
  | cons call calls ih =>
    refine ends_bind (ends_record_call fun between recorded => ih between fun after touched => next after ?_)
    refine ⟨touched.size.trans recorded.size, ?_,
      fun other different => (touched.elsewhere other different).trans (recorded.elsewhere other different),
      touched.edges.trans recorded.edges, touched.closed.trans recorded.closed,
      touched.pending.trans recorded.pending⟩
    refine List.IsPrefix.trans ?_ touched.here
    by_cases inside : block < draft.blocks.length
    · rw [recorded.here inside]
      exact prefix_append _ _
    have none : draft.callsOf block = [] := by
      rw [Draft.callsOf, List.getElem?_eq_none (by omega)]
      rfl
    rw [none]
    exact nil_prefix

-- Building from a block on, seen from inside: blocks that were added and are still as
-- they were are kept in mind.
structure Stage (origin : Draft) (start : Nat) (fresh : List Nat) (draft : Draft) : Prop where
  valid : draft.Valid
  grows : Grows origin.blocks.length start origin draft
  untouched : ∀ block ∈ fresh, origin.blocks.length ≤ block ∧ draft.Ready block ∧ draft.tip block = 0

section
variable {origin draft next : Draft} {start : Nat} {fresh : List Nat}

theorem stage_begin (origin : Draft) (start : Nat) (valid : origin.Valid) : Stage origin start [] origin :=
  ⟨valid, grows_refl _ _ _, by simp⟩

section
variable (stage : Stage origin start fresh draft)
include stage

theorem Stage.pad (padded : Padded count draft next) : Stage origin start fresh next := by
  refine ⟨padded.valid stage.valid, grows_trans stage.grows (padded.grows _ _), fun block member => ?_⟩
  obtain ⟨large, ready, empty⟩ := stage.untouched block member
  exact ⟨large, padded.ready block ready, (padded.tip block).trans empty⟩

theorem Stage.add_all (padded : Padded count draft next) : Stage origin start (List.range' draft.blocks.length count ++ fresh) next := by
  refine ⟨padded.valid stage.valid, grows_trans stage.grows (padded.grows _ _), fun block member => ?_⟩
  rcases mem_append.mp member with new | old
  · obtain ⟨large, small⟩ := mem_range'_1.mp new
    exact ⟨Nat.le_trans stage.grows.size large, padded.ready_new stage.valid block large small, padded.tip_new block large⟩
  · exact (stage.pad padded).untouched block old

theorem Stage.add (padded : Padded 1 draft next) : Stage origin start (draft.blocks.length :: fresh) next := stage.add_all padded

theorem Stage.drop {fewer : List Nat} (sub : ∀ block ∈ fewer, block ∈ fresh) : Stage origin start fewer draft :=
  ⟨stage.valid, stage.grows, fun block member => stage.untouched block (sub block member)⟩

theorem Stage.connect (linked : Connected taken ⟨source, target, kind⟩ draft next) (sourceIn : source < draft.blocks.length := by omega)
    (targetIn : target < draft.blocks.length := by omega) (own : source = start ∨ origin.blocks.length ≤ source := by omega)
    (used : source ∉ fresh ∨ kind = .exception := by simp <;> omega) : Stage origin start fresh next := by
  refine ⟨linked.valid stage.valid sourceIn targetIn,
    grows_trans stage.grows (linked.grows _ _ (own.imp_right .inl)), fun block member => ?_⟩
  obtain ⟨large, ready, empty⟩ := stage.untouched block member
  refine ⟨large, linked.ready block ready (used.imp_left ?_), (linked.tip block).trans empty⟩
  rintro absent rfl
  exact absent member

theorem Stage.touch (touched : Touched block draft next)
    (large : origin.blocks.length ≤ block) (absent : block ∉ fresh) (valid : origin.Valid) : Stage origin start fresh next := by
  have leaves (other : Nat) : next.Leaves other ↔ draft.Leaves other := by simp only [Draft.Leaves, touched.edges]
  refine ⟨⟨?_, ?_, ?_⟩, ⟨?_, ?_, ?_, ?_, ?_, ?_⟩, ?_⟩
  · rw [touched.edges, touched.size]
    exact stage.valid.edges
  · rw [touched.closed, touched.size]
    exact stage.valid.closed
  · rw [touched.pending, touched.size]
    exact stage.valid.pending
  · rw [touched.size]
    exact stage.grows.size
  · rw [touched.edges]
    exact stage.grows.edges
  · rw [touched.pending]
    exact stage.grows.pending
  · intro other
    refine (stage.grows.calls other).trans ?_
    by_cases same : other = block
    · exact same ▸ touched.here
    · exact ⟨[], by rw [append_nil, touched.elsewhere other same]⟩
  · intro other leaving
    obtain ⟨edge, member, rfl, _⟩ := leaving
    have inside := (valid.edges edge member).1
    rw [touched.elsewhere _ (by omega), stage.grows.sealed _ ⟨edge, member, rfl, by assumption⟩]
  · intro other less different
    obtain ⟨calls, leaving, closing⟩ := stage.grows.kept other less different
    rw [touched.elsewhere other (by omega), leaves, touched.closed]
    exact ⟨calls, leaving, closing⟩
  intro other member
  obtain ⟨above, ready, empty⟩ := stage.untouched other member
  have different : other ≠ block := fun same => absent (same ▸ member)
  refine ⟨above, ⟨touched.size ▸ ready.inside, touched.closed ▸ ready.isOpen, ?_⟩, ?_⟩
  · rw [leaves]
    exact ready.quiet
  · rw [Draft.tip, touched.elsewhere other different]
    exact empty

theorem Stage.build {fewer : List Nat} (grows : Grows draft.blocks.length block draft next) (valid : next.Valid)
    (own : block = start ∨ origin.blocks.length ≤ block := by omega)
    (sub : ∀ other ∈ fewer, other ∈ fresh ∧ other ≠ block := by simp <;> omega) : Stage origin start fewer next := by
  refine ⟨valid, grows_trans stage.grows (grows_narrow grows stage.grows.size own), fun other member => ?_⟩
  obtain ⟨listed, different⟩ := sub other member
  obtain ⟨large, ready, empty⟩ := stage.untouched other listed
  exact ⟨large, ready_kept grows other ready.inside different ready, (tip_kept grows other ready.inside different).trans empty⟩

theorem Stage.ready (member : block ∈ fresh := by simp) : draft.Ready block := (stage.untouched block member).2.1

theorem Stage.tip (member : block ∈ fresh := by simp) : draft.tip block = 0 := (stage.untouched block member).2.2

end

end

-- Ways through the graph of a draft, from place to place. A block is left at its end
-- only.
inductive Flows (draft : Draft) : Nat → Nat → List Value → Nat → Nat → Prop where
  | stay (block place : Nat) : Flows draft block place [] block place
  | call (block place : Nat) (call : Value) (trace : List Value) (final finalPlace : Nat)
      (made : (draft.callsOf block)[place]? = some call)
      (rest : Flows draft block (place + 1) trace final finalPlace) :
      Flows draft block place (call :: trace) final finalPlace
  | edge (edge : Edge) (trace : List Value) (final finalPlace : Nat) (member : edge ∈ draft.edges)
      (kind : edge.kind ≠ .exception) (rest : Flows draft edge.target 0 trace final finalPlace) :
      Flows draft edge.source (draft.tip edge.source) trace final finalPlace

section
variable {draft : Draft} {block place final finalPlace : Nat} {trace : List Value}

theorem flows_trans {rest : List Value} {last lastPlace : Nat} (early : Flows draft block place trace final finalPlace)
    (late : Flows draft final finalPlace rest last lastPlace) : Flows draft block place (trace ++ rest) last lastPlace := by
  induction early with
  | stay => exact late
  | call block place call trace final finalPlace made _ ih => exact .call block place call _ last lastPlace made (ih late)
  | edge edge trace final finalPlace member kind _ ih => exact .edge edge _ last lastPlace member kind (ih late)

theorem flows_grow {base start : Nat} {after : Draft} (flows : Flows draft block place trace final finalPlace)
    (grows : Grows base start draft after) : Flows after block place trace final finalPlace := by
  induction flows with
  | stay block place => exact .stay block place
  | call block place call trace final finalPlace made _ ih =>
    refine .call block place call trace final finalPlace ?_ ih
    obtain ⟨more, same⟩ := grows.calls block
    rw [← same, List.getElem?_append_left (List.getElem?_eq_some_iff.mp made).1, made]
  | edge edge trace final finalPlace member kind _ ih =>
    have same : after.tip edge.source = draft.tip edge.source := by
      rw [Draft.tip, grows.sealed edge.source ⟨edge, member, rfl, kind⟩, Draft.tip]
    rw [← same]
    exact .edge edge trace final finalPlace (grows.edges edge member) kind ih

theorem flows_edge (member : ⟨source, target, kind⟩ ∈ draft.edges)
    (normal : kind ≠ .exception) : Flows draft source (draft.tip source) [] target 0 :=
  .edge ⟨source, target, kind⟩ [] target 0 member normal (.stay target 0)

end

end HookLint.Flow
