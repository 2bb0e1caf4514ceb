import HookLint.Proofs.Flow.Growth

namespace HookLint.Flow

open List

variable {Middle Strong : List Value → Nat → Nat → Prop} {touched : Nat → Prop}

variable {targets fewer : List Nat} {count source target block more : Nat} {taken : Prop} {kind : EdgeKind} {call : Value}

-- From one draft to another only some blocks change, and others are added.
structure Changes (touched : Nat → Prop) (before after : Draft) : Prop where
  size : before.blocks.length ≤ after.blocks.length
  calls : ∀ block, before.callsOf block <+: after.callsOf block
  same : ∀ block < before.blocks.length, ¬ touched block → after.callsOf block = before.callsOf block
  edges : ∀ edge ∈ after.edges, edge.source < before.blocks.length → ¬ touched edge.source → edge ∈ before.edges
  closed : ∀ block ∈ after.closed, block < before.blocks.length → ¬ touched block → block ∈ before.closed

namespace Draft

-- Where the edges out of a block may lead.
def Out (draft : Draft) (block : Nat) (targets : List Nat) : Prop := ∀ edge ∈ draft.edges, edge.source = block → edge.target ∈ targets

-- A block that nothing leads out of.
structure Bare (draft : Draft) (block : Nat) : Prop where
  inside : block < draft.blocks.length
  isOpen : block ∉ draft.closed
  out : draft.Out block []

end Draft

section
variable {touched others : Nat → Prop} {first second third : Draft} {block : Nat}

theorem changes_refl (touched : Nat → Prop) (draft : Draft) : Changes touched draft draft :=
  ⟨Nat.le_refl _, fun _ => prefix_refl _, fun _ _ _ => rfl, fun _ member _ _ => member, fun _ member _ _ => member⟩

theorem Changes.trans (early : Changes touched first second) (late : Changes others second third) :
    Changes (fun block => touched block ∨ others block) first third := by
  refine ⟨Nat.le_trans early.size late.size, fun block => (early.calls block).trans (late.calls block), ?_, ?_, ?_⟩
  · intro block small outside
    rw [late.same block (Nat.lt_of_lt_of_le small early.size) fun touch => outside (.inr touch),
      early.same block small fun touch => outside (.inl touch)]
  · intro edge member small outside
    refine early.edges edge (late.edges edge member (Nat.lt_of_lt_of_le small early.size) ?_) small ?_
    · exact fun touch => outside (.inr touch)
    · exact fun touch => outside (.inl touch)
  · intro block member small outside
    refine early.closed block (late.closed block member (Nat.lt_of_lt_of_le small early.size) ?_) small ?_
    · exact fun touch => outside (.inr touch)
    · exact fun touch => outside (.inl touch)

section
variable (changes : Changes touched first second)
include changes

theorem Changes.weaken (included : ∀ block, touched block → block < first.blocks.length → others block := by omega) : Changes others first second :=
  ⟨changes.size, changes.calls, fun block small outside => changes.same block small fun touch => outside (included block touch small),
    fun edge member small outside => changes.edges edge member small fun touch => outside (included _ touch small),
    fun block member small outside => changes.closed block member small fun touch => outside (included block touch small)⟩

section
variable (small : block < first.blocks.length) (outside : ¬ touched block)
include small outside

theorem Changes.tip : second.tip block = first.tip block := by
  rw [Draft.tip, changes.same block small outside, Draft.tip]

theorem Changes.out (out : first.Out block targets) : second.Out block targets := by
  intro edge member source
  rw [← source] at small outside
  exact out edge (changes.edges edge member small outside) source

end

theorem Changes.bare (outside : ¬ touched block) (bare : first.Bare block) : second.Bare block :=
  ⟨Nat.lt_of_lt_of_le bare.inside changes.size, fun closed => bare.isOpen (changes.closed block closed bare.inside outside),
    changes.out bare.inside outside bare.out⟩

end

section
variable (padded : Padded count first second)
include padded

theorem Padded.changes (touched : Nat → Prop) : Changes touched first second := by
  refine ⟨by rw [padded.size]; omega, fun block => padded.calls block ▸ prefix_refl _, fun block _ _ => padded.calls block, ?_, ?_⟩
  · exact fun edge member _ _ => padded.edges ▸ member
  · exact fun block member _ _ => padded.closed ▸ member

theorem Padded.out (out : first.Out block targets) : second.Out block targets := fun edge member => out edge (padded.edges ▸ member)

theorem Padded.bare_new (valid : first.Valid)
    (large : first.blocks.length ≤ block) (small : block < first.blocks.length + count) : second.Bare block := by
  refine ⟨by rw [padded.size]; omega, ?_, ?_⟩
  · rw [padded.closed]
    intro member
    have inside := valid.closed block member
    omega
  · intro edge member source
    rw [padded.edges] at member
    have inside := (valid.edges edge member).1
    omega

end

section
variable (connected : Connected taken ⟨source, target, kind⟩ first second)
include connected

theorem Connected.changes_of (reason : taken → touched source) : Changes touched first second := by
  refine ⟨Nat.le_of_eq connected.size.symm, fun block => connected.calls block ▸ prefix_refl _, fun block _ _ => connected.calls block, ?_, ?_⟩
  · intro other member _ outside
    rcases (connected.edges other).mp member with old | ⟨holds, rfl⟩
    · exact old
    · exact absurd (reason holds) outside
  · exact fun block member _ _ => connected.closed ▸ member

theorem Connected.changes : Changes (· = source) first second :=
  connected.changes_of fun _ => rfl

theorem Connected.out (out : first.Out source targets) : second.Out source (target :: targets) := by
  intro other member isSource
  rcases (connected.edges other).mp member with old | ⟨_, rfl⟩
  · exact mem_cons_of_mem _ (out other old isSource)
  · exact mem_cons_self

end

theorem Recorded.changes (recorded : Recorded block call first second) (inside : block < first.blocks.length) :
    Changes (· = block) first second := by
  refine ⟨Nat.le_of_eq recorded.size.symm, fun other => ?_, fun other _ outside => recorded.elsewhere other outside, ?_, ?_⟩
  · by_cases same : other = block
    · rw [same, recorded.here inside]
      exact prefix_append _ _
    · exact recorded.elsewhere other same ▸ prefix_refl _
  · exact fun edge member _ _ => recorded.edges ▸ member
  · exact fun other member _ _ => recorded.closed ▸ member

theorem Recorded.bare {other : Nat} (recorded : Recorded block call first second) (bare : first.Bare other) : second.Bare other :=
  ⟨recorded.size ▸ bare.inside, recorded.closed ▸ bare.isOpen, fun edge member => bare.out edge (recorded.edges ▸ member)⟩

theorem changes_close (draft : Draft) (block : Nat) : Changes (· = block) draft { draft with closed := block :: draft.closed } := by
  refine ⟨Nat.le_refl _, fun _ => prefix_refl _, fun _ _ _ => rfl, fun _ member _ _ => member, ?_⟩
  intro other member _ outside
  rcases mem_cons.mp member with same | old
  · exact absurd same outside
  · exact old

end

-- Building from a block on, with the added blocks kept in mind that are still empty.
structure Staged (origin : Draft) (start : Nat) (fresh : List Nat) (draft : Draft) : Prop where
  valid : draft.Valid
  changes : Changes (· = start) origin draft
  untouched : ∀ block ∈ fresh, origin.blocks.length ≤ block ∧ draft.Bare block ∧ draft.tip block = 0

section
variable {origin draft next : Draft} {start : Nat} {fresh : List Nat}

theorem staged_begin (origin : Draft) (start : Nat) (valid : origin.Valid) : Staged origin start [] origin :=
  ⟨valid, changes_refl _ _, by simp⟩

section
variable (stage : Staged origin start fresh draft)
include stage

theorem Staged.grow (changes : Changes touched draft next) (valid : next.Valid)
    (own : ∀ block, touched block → block = start ∨ origin.blocks.length ≤ block)
    (sub : ∀ other ∈ fewer, other ∈ fresh ∧ ¬ touched other) : Staged origin start fewer next := by
  refine ⟨valid, (stage.changes.trans changes).weaken ?_, fun other member => ?_⟩
  · rintro block (same | touch) small
    · exact same
    · exact (own block touch).resolve_right (by omega)
  · obtain ⟨listed, different⟩ := sub other member
    obtain ⟨large, bare, empty⟩ := stage.untouched other listed
    exact ⟨large, changes.bare different bare, (changes.tip bare.inside different).trans empty⟩

theorem Staged.build (changes : Changes (· = block) draft next) (valid : next.Valid)
    (own : block = start ∨ origin.blocks.length ≤ block := by omega)
    (sub : ∀ other ∈ fewer, other ∈ fresh ∧ other ≠ block := by simp <;> omega) : Staged origin start fewer next :=
  stage.grow changes valid (fun _ same => same ▸ own) sub

theorem Staged.add_all (padded : Padded count draft next) : Staged origin start (List.range' draft.blocks.length count ++ fresh) next := by
  refine ⟨padded.valid stage.valid, (stage.changes.trans (padded.changes (· = start))).weaken, fun block member => ?_⟩
  rcases mem_append.mp member with new | old
  · obtain ⟨large, small⟩ := mem_range'_1.mp new
    exact ⟨Nat.le_trans stage.changes.size large, padded.bare_new stage.valid large small, padded.tip_new block large⟩
  · obtain ⟨large, bare, empty⟩ := stage.untouched block old
    exact ⟨large, (padded.changes fun _ => False).bare id bare, (padded.tip block).trans empty⟩

theorem Staged.add (padded : Padded 1 draft next) : Staged origin start (draft.blocks.length :: fresh) next := stage.add_all padded

theorem Staged.drop (sub : ∀ block ∈ fewer, block ∈ fresh) : Staged origin start fewer draft :=
  ⟨stage.valid, stage.changes, fun block member => stage.untouched block (sub block member)⟩

theorem Staged.connect (linked : Connected taken ⟨source, target, kind⟩ draft next) (sourceIn : source < draft.blocks.length := by omega)
    (targetIn : target < draft.blocks.length := by omega) (own : source = start ∨ origin.blocks.length ≤ source := by omega)
    (used : source ∉ fresh := by simp <;> omega) : Staged origin start fresh next :=
  stage.build linked.changes (linked.valid stage.valid sourceIn targetIn) own fun _ member => ⟨member, fun same => used (same ▸ member)⟩

theorem Staged.bare (member : block ∈ fresh := by simp) : draft.Bare block :=
  (stage.untouched block member).2.1

theorem Staged.tip (member : block ∈ fresh := by simp) : draft.tip block = 0 :=
  (stage.untouched block member).2.2

end

end

-- A way through the graph of a draft to the beginning of a goal, with the number of its steps.
inductive Trail (draft : Draft) (goal : Nat) : Nat → Nat → Nat → List Value → Prop where
  | done : Trail draft goal 0 goal 0 []
  | call (length block offset : Nat) (call : Value) (trace : List Value)
      (made : (draft.callsOf block)[offset]? = some call) (rest : Trail draft goal length block (offset + 1) trace) :
      Trail draft goal (length + 1) block offset (call :: trace)
  | edge (length : Nat) (edge : Edge) (trace : List Value) (member : edge ∈ draft.edges)
      (rest : Trail draft goal length edge.target 0 trace) :
      Trail draft goal (length + 1) edge.source (draft.tip edge.source) trace

-- Every way from a place to the goal passes a place that a condition on the calls so far allows,
-- at least so many steps later.
def Splits (draft : Draft) (goal steps block offset : Nat) (Post : List Value → Nat → Nat → Prop) : Prop :=
  ∀ length trace, Trail draft goal length block offset trace →
    ∃ shorter head tail next nextOffset, shorter + steps ≤ length ∧ trace = head ++ tail ∧ Post head next nextOffset ∧
      Trail draft goal shorter next nextOffset tail

section
variable {draft : Draft} {goal steps block offset : Nat} {Post : List Value → Nat → Nat → Prop}

theorem splits_stay (here : Post [] block offset) : Splits draft goal 0 block offset Post :=
  fun length trace trail => ⟨length, [], trace, block, offset, Nat.le_refl _, rfl, here, trail⟩

theorem splits_mono_le (fewer : steps ≤ more) (splits : Splits draft goal more block offset Strong)
    (weaken : ∀ head next nextOffset, Strong head next nextOffset → Post head next nextOffset) : Splits draft goal steps block offset Post := by
  intro length trace trail
  obtain ⟨shorter, head, tail, next, nextOffset, less, split, post, rest⟩ := splits length trace trail
  exact ⟨shorter, head, tail, next, nextOffset, by omega, split, weaken head next nextOffset post, rest⟩

theorem splits_mono (splits : Splits draft goal steps block offset Strong)
    (weaken : ∀ head next nextOffset, Strong head next nextOffset → Post head next nextOffset) : Splits draft goal steps block offset Post :=
  splits_mono_le (Nat.le_refl _) splits weaken

theorem splits_then (first : Splits draft goal steps block offset Middle)
    (rest : ∀ head next nextOffset, Middle head next nextOffset → Splits draft goal more next nextOffset fun tail => Post (head ++ tail)) :
    Splits draft goal (steps + more) block offset Post := by
  intro length trace trail
  obtain ⟨shorter, head, tail, next, nextOffset, less, rfl, middle, trail⟩ := first length trace trail
  obtain ⟨shortest, between, tail, last, lastOffset, least, rfl, post, trail⟩ := rest head next nextOffset middle shorter tail trail
  exact ⟨shortest, head ++ between, tail, last, lastOffset, by omega, (append_assoc _ _ _).symm, post, trail⟩

theorem splits_bind (first : Splits draft goal more block offset Middle) (rest : ∀ head next nextOffset, Middle head next nextOffset →
      Splits draft goal 0 next nextOffset fun tail => Post (head ++ tail)) : Splits draft goal 0 block offset Post :=
  splits_mono_le (Nat.zero_le _) (splits_then first rest) fun _ _ _ post => post

theorem splits_call (away : block ≠ goal) (made : (draft.callsOf block)[offset]? = some call) :
    Splits draft goal 1 block offset fun trace next nextOffset => trace = [call] ∧ next = block ∧ nextOffset = offset + 1 := by
  intro length trace trail
  cases trail with
  | done => exact absurd rfl away
  | call length _ _ found trace isFound rest =>
    obtain rfl := Option.some.inj (made.symm.trans isFound)
    exact ⟨length, [call], trace, block, offset + 1, Nat.le_refl _, rfl, ⟨rfl, rfl, rfl⟩, rest⟩
  | edge length edge =>
    rw [Draft.tip, List.getElem?_eq_none (Nat.le_refl _)] at made
    cases made

theorem splits_edge (away : block ≠ goal) (out : draft.Out block targets) :
    Splits draft goal 1 block (draft.tip block) fun trace next nextOffset => trace = [] ∧ next ∈ targets ∧ nextOffset = 0 := by
  intro length trace trail
  generalize isOffset : draft.tip block = offset at trail
  cases trail with
  | done => exact absurd rfl away
  | call length _ _ found trace isFound =>
    rw [← isOffset, Draft.tip, List.getElem?_eq_none (Nat.le_refl _)] at isFound
    cases isFound
  | edge length edge trace member rest =>
    exact ⟨length, [], trace, edge.target, 0, Nat.le_refl _, rfl, ⟨rfl, out edge member rfl, rfl⟩, rest⟩

theorem splits_leave {before : Draft} (goal : Nat) (changes : Changes touched before draft)
    (out : before.Out block targets) (away : block ≠ goal := by omega) (small : block < before.blocks.length := by omega)
    (outside : ¬ touched block := by omega) :
    Splits draft goal 1 block (before.tip block) fun trace next nextOffset =>
      trace = [] ∧ next ∈ targets ∧ nextOffset = 0 := by
  rw [← changes.tip small outside]
  exact splits_edge away (changes.out small outside out)

end

end HookLint.Flow
