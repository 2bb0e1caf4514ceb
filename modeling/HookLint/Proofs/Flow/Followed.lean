import HookLint.Proofs.Flow.Completed
import HookLint.Proofs.Flow.Decoded

namespace HookLint.Flow

open List

variable {A B : Runs} {Skips Values : Traces} {first same second : Nat → Build Nat} {kind : EdgeKind} {scene : Scene} {target : Nat}

variable {before after : Draft} {start final : Nat} {more : Runs}

-- The block that may change once a statement has been built, which is none that is there
-- if the last one ends in a jump.
def Draft.tail (draft : Draft) (block : Nat) : Nat := if block ∈ draft.closed then draft.blocks.length else block

-- What is built for a statement lets nothing else through than its runs: in every later
-- draft the ways from where it starts pass where one of its completions lands.
structure Followed (place : Place) (runs : Runs) (before : Draft) (start final : Nat) (after : Draft) : Prop where
  changes : Changes (· = start) before after
  valid : after.Valid
  own : final = start ∨ before.blocks.length ≤ final
  bare : final ∉ after.closed → after.Bare final
  splits : ∀ later goal, Extends before start (after.tail final) after later → goal < before.blocks.length → goal ≠ start →
    Splits later goal 0 start (before.tip start) fun trace block offset =>
      ∃ completion, runs trace completion ∧ place.Lands later final (after.tip final) completion block offset ∧
        (completion = .normal → final ∉ after.closed)

def Follows (place : Place) (around : List Surrounding) (action : Nat → Build Nat) (runs : Runs) : Prop :=
  ∀ before start, before.Valid → before.Bare start → place.Fits around before.blocks.length →
    Ends (action start) before (Followed place runs before start)

-- What follows a jump is built in blocks of its own.
structure Unreached (before : Draft) (start final : Nat) (after : Draft) : Prop where
  changes : Changes (· = before.blocks.length) before after
  valid : after.Valid
  own : (final = start ∧ start ∈ after.closed) ∨ before.blocks.length ≤ final
  bare : final ∉ after.closed → after.Bare final

def FollowsAny (place : Place) (around : List Surrounding) (action : Nat → Build Nat) (runs : Runs) : Prop :=
  ∀ before start, before.Valid → start < before.blocks.length → (start ∉ before.closed → before.Bare start) →
    place.Fits around before.blocks.length →
    Ends (action start) before fun final after =>
      (start ∉ before.closed → Followed place runs before start final after) ∧ (start ∈ before.closed → Unreached before start final after)

section
variable {draft : Draft} {block : Nat}

theorem tail_open (isOpen : block ∉ draft.closed) : draft.tail block = block := if_neg isOpen

theorem tail_closed (closed : block ∈ draft.closed) : draft.tail block = draft.blocks.length := if_pos closed

theorem tail_cases (draft : Draft) (block : Nat) : draft.tail block = block ∨ draft.tail block = draft.blocks.length := by
  by_cases closed : block ∈ draft.closed
  · exact .inr (tail_closed closed)
  · exact .inl (tail_open closed)

end

section
variable {place : Place} {around : List Surrounding} {runs : Runs} {action : Nat → Build Nat}

theorem Staged.followed {fresh : List Nat} (stage : Staged before start fresh after)
    (splits : ∀ later goal, Extends before start final after later → goal < before.blocks.length → goal ≠ start →
      Splits later goal 0 start (before.tip start) fun trace block offset =>
        ∃ completion, runs trace completion ∧ place.Lands later final 0 completion block offset)
    (member : final ∈ fresh := by simp) : Followed place runs before start final after := by
  obtain ⟨large, bare, tip⟩ := stage.untouched final member
  refine ⟨stage.changes, stage.valid, .inr large, fun _ => bare, fun later goal extended below away => ?_⟩
  rw [tail_open bare.isOpen] at extended
  refine splits_mono (splits later goal extended below away) fun trace block offset reached => ?_
  obtain ⟨completion, run, lands⟩ := reached
  exact ⟨completion, run, tip.symm ▸ lands, fun _ => bare.isOpen⟩

section
variable (done : Followed place runs before start final after)
include done

theorem Followed.inside : final < after.blocks.length := by
  by_cases closed : final ∈ after.closed
  · exact done.valid.closed final closed
  · exact (done.bare closed).inside

theorem Followed.weaken (moreRuns : ∀ trace completion, runs trace completion → more trace completion) : Followed place more before start final after := by
  refine ⟨done.changes, done.valid, done.own, done.bare, fun later goal extended below away => ?_⟩
  refine splits_mono (done.splits later goal extended below away) fun trace block offset reached => ?_
  obtain ⟨completion, run, lands, opens⟩ := reached
  exact ⟨completion, moreRuns trace completion run, lands, opens⟩

end

theorem follows_of (follows : Follows place around action runs)
    (moreRuns : ∀ trace completion, runs trace completion → more trace completion := by exact fun _ _ run => run)
    (equal : ∀ start, same start = action start := by intro _; rfl) : Follows place around same more := by
  intro before start valid bare fits
  rw [equal]
  exact ends_mono (follows before start valid bare fits) fun _ _ done => done.weaken moreRuns

theorem follows_any_of (follows : FollowsAny place around action runs)
    (moreRuns : ∀ trace completion, runs trace completion → more trace completion := by exact fun _ _ run => run)
    (equal : ∀ start, same start = action start := by intro _; rfl) : FollowsAny place around same more := by
  intro before start valid small bare fits
  rw [equal]
  exact ends_mono (follows before start valid small bare fits) fun _ _ done => ⟨fun isOpen => (done.1 isOpen).weaken moreRuns, done.2⟩

theorem follows_ready (follows : FollowsAny place around action runs) : Follows place around action runs := by
  intro before start valid bare fits
  exact ends_mono (follows before start valid bare.inside (fun _ => bare) fits) fun _ _ done => done.1 bare.isOpen

theorem follows_evaluated (alone : scene.chainEnd = none)
    (decodes : Decodes scene action Values Skips) : Follows place around action (Normally Values) := by
  intro before start valid bare _
  refine ends_mono (decodes before start valid bare (by simp [alone])) fun final after done => ?_
  refine ⟨done.changes, done.valid, done.own, fun _ => done.bare, fun later goal extended below away => ?_⟩
  rw [tail_open done.bare.isOpen] at extended
  refine splits_mono (done.splits later goal extended below away) fun trace block offset reached => ?_
  rcases reached with ⟨values, rfl, rfl⟩ | ⟨_, known, _⟩
  · exact ⟨.normal, ⟨values, rfl⟩, ⟨rfl, rfl⟩, fun _ => done.bare.isOpen⟩
  · simp [alone] at known

theorem follows_before
    (alone : scene.chainEnd = none) (decodes : Decodes scene first Values Skips) (follows : Follows place around second runs) :
    Follows place around (fun start => first start >>= second) (Before Values runs) := by
  intro before start valid bare fits
  refine ends_after (decodes before start valid bare (by simp [alone])) fun middle between done => ?_
  have size := done.changes.size
  refine ends_mono (follows between middle done.valid done.bare (fits.mono size)) fun final after more => ?_
  have own := done.own
  have ownLast := more.own
  have sizeLast := more.changes.size
  have finalSmall := more.inside
  have tail := tail_cases after final
  refine ⟨(done.changes.trans more.changes).weaken, more.valid, by omega, more.bare, ?_⟩
  intro later goal extended below away
  have early : Extends before start middle between later := (more.changes.trans extended).weaken
  have late : Extends between middle (after.tail final) after later := extended.weaken
  refine splits_bind (done.splits later goal early below away) fun head block offset reached => ?_
  rcases reached with ⟨values, rfl, rfl⟩ | ⟨_, known, _⟩
  · refine splits_mono (more.splits later goal late (by omega) (by omega)) fun tail block offset reached => ?_
    obtain ⟨completion, run, lands, opens⟩ := reached
    exact ⟨completion, ⟨head, tail, values, run, rfl⟩, lands, opens⟩
  · simp [alone] at known

theorem follows_in_turn (followsFirst : Follows place around first A)
    (followsSecond : FollowsAny place around second B) : Follows place around (fun start => first start >>= second) (InTurn A B) := by
  intro before start valid bare fits
  refine ends_after (followsFirst before start valid bare fits) fun middle between done => ?_
  have size := done.changes.size
  refine ends_mono (followsSecond between middle done.valid done.inside done.bare (fits.mono size)) fun final after both => ?_
  have own := done.own
  have middleSmall := done.inside
  have tail := tail_cases after final
  by_cases closed : middle ∈ between.closed
  · have more := both.2 closed
    have ownLast := more.own
    have sizeLast := more.changes.size
    have tailLarge : between.blocks.length ≤ after.tail final := by
      rcases ownLast with ⟨rfl, isClosed⟩ | large
      · rw [tail_closed isClosed]
        exact sizeLast
      · omega
    refine ⟨(done.changes.trans more.changes).weaken, more.valid, by omega, more.bare, ?_⟩
    intro later goal extended below away
    have early : Extends before start (between.tail middle) between later := by
      rw [tail_closed closed]
      exact (more.changes.trans extended).weaken
    refine splits_mono (done.splits later goal early below away) fun trace block offset reached => ?_
    obtain ⟨completion, run, lands, opens⟩ := reached
    have abrupt : completion ≠ .normal := fun normal => opens normal closed
    exact ⟨completion, .inl ⟨run, abrupt⟩, lands_abrupt lands abrupt, fun normal => absurd normal abrupt⟩
  · have more := both.1 closed
    have ownLast := more.own
    have sizeLast := more.changes.size
    have finalSmall := more.inside
    refine ⟨(done.changes.trans more.changes).weaken, more.valid, by omega, more.bare, ?_⟩
    intro later goal extended below away
    have early : Extends before start (between.tail middle) between later := by
      rw [tail_open closed]
      exact (more.changes.trans extended).weaken
    have late : Extends between middle (after.tail final) after later := extended.weaken
    refine splits_bind (done.splits later goal early below away) fun head block offset reached => ?_
    obtain ⟨completion, run, lands, _⟩ := reached
    by_cases normal : completion = .normal
    · subst normal
      obtain ⟨rfl, rfl⟩ := lands
      refine splits_mono (more.splits later goal late (by omega) (by omega)) fun tail block offset reached => ?_
      obtain ⟨last, late, lands, opens⟩ := reached
      exact ⟨last, .inr ⟨head, tail, run, late, rfl⟩, lands, opens⟩
    · refine splits_stay ⟨completion, .inl ⟨by simpa using run, normal⟩, lands_abrupt lands normal, fun same => absurd same normal⟩

theorem follows_marked (change : Block → Block) (quiet : ∀ block, (change block).calls = block.calls)
    (follows : Follows place around action runs) : Follows place around (fun start => do modifyBlock start change; action start) runs := by
  intro before start valid bare fits
  refine ends_bind (ends_modify_block quiet fun marked padded _ => ?_)
  have size := padded.size
  have bareNow : marked.Bare start := (padded.changes fun _ => False).bare id bare
  refine ends_mono (follows marked start (padded.valid valid) bareNow fits.mono) fun final after done => ?_
  have own := done.own
  refine ⟨((padded.changes (· = start)).trans done.changes).weaken, done.valid, by omega, done.bare, ?_⟩
  intro later goal extended below away
  rw [← padded.tip start]
  exact done.splits later goal extended.weaken (by omega) away

theorem follows_noted (node : Value) (follows : Follows place around action runs) :
    Follows place around (fun start => do noteStatement start node; action start) runs :=
  follows_marked (fun block => { block with statements := block.statements ++ [node] }) (fun _ => rfl) follows

theorem follows_refreshed {inLoop : Bool} {kind : BlockKind} (follows : Follows place around action runs) :
    FollowsAny place around (fun start => do
      let block ← if ← isClosed start then newBlock inLoop kind else pure start
      action block) runs := by
  intro before start valid small bare fits
  refine ends_bind (ends_is_closed ?_)
  by_cases member : start ∈ before.closed
  · rw [contains_iff_mem.mpr member]
    refine ends_add fun added padded _ size => ?_
    refine ends_mono (follows added before.blocks.length (padded.valid valid) (padded.bare_new valid (Nat.le_refl _) (by omega))
      fits.mono) fun final after done => ⟨fun isOpen => absurd member isOpen, fun _ => ?_⟩
    have own := done.own
    exact ⟨((padded.changes (· = before.blocks.length)).trans done.changes).weaken, done.valid, .inr (by omega), done.bare⟩
  · rw [Bool.eq_false_iff.mpr fun found => member (contains_iff_mem.mp found)]
    exact ends_mono (follows before start valid (bare member) fits) fun _ _ done => ⟨fun _ => done, fun closed => absurd closed member⟩

theorem follows_nothing (place : Place) (around : List Surrounding) :
    FollowsAny place around (fun start => pure start) (Normally Silent) := by
  intro before start valid small bare _
  refine ends_pure start ⟨fun isOpen => ?_, fun closed => ⟨changes_refl _ _, valid, .inl ⟨rfl, closed⟩, bare⟩⟩
  refine ⟨changes_refl _ _, valid, .inl rfl, bare, fun later goal _ _ _ => ?_⟩
  exact splits_stay ⟨.normal, ⟨rfl, rfl⟩, ⟨rfl, rfl⟩, fun _ => isOpen⟩

theorem follows_jump {completion : Completion} (abrupt : completion ≠ .normal) (small : ∀ size, place.Fits around size → target < size)
    (lands : ∀ draft final finalOffset, place.Lands draft final finalOffset completion target 0) :
    Follows place around (fun start => do connect start target kind; close start; return start)
      fun trace ending => trace = [] ∧ ending = completion := by
  intro before start valid bare fits
  refine ends_link fun linked connected size => ends_bind (ends_close fun closed equal => ends_pure start ?_)
  subst equal
  have startSmall := bare.inside
  have valid := connected.valid valid bare.inside (small _ fits)
  have closing := changes_close linked start
  refine ⟨(connected.changes.trans closing).weaken, ⟨valid.edges, ?_, valid.pending⟩, .inl rfl, ?_, ?_⟩
  · intro block member
    rcases mem_cons.mp member with rfl | old
    · exact size ▸ startSmall
    · exact valid.closed block old
  · exact fun isOpen => absurd mem_cons_self isOpen
  intro later goal extended below away
  rw [tail_closed mem_cons_self] at extended
  have out : ({ linked with closed := start :: linked.closed } : Draft).Out start [target] := connected.out bare.out
  have leave := splits_leave goal extended out (Ne.symm away) (by simp only; omega) (by simp only; omega)
  have startTip : linked.tip start = before.tip start := connected.tip start
  refine splits_mono_le (Nat.zero_le _) (startTip ▸ leave) fun trace block offset reached => ?_
  obtain ⟨rfl, target, rfl⟩ := reached
  obtain rfl := mem_singleton.mp target
  exact ⟨completion, ⟨rfl, rfl⟩, lands _ _ _, fun normal => absurd normal abrupt⟩

example : ((do connect 0 1 .earlyReturn; close 0; return 0 : Build Nat).run {}).2.edges = [⟨0, 1, .earlyReturn⟩] := by decide +kernel

theorem Followed.flows {touched : Nat → Prop} {between linked later : Draft} {count : Nat}
    (done : Followed place runs before start final after) (goal : Nat) (padded : Padded count after between)
    (connected : Connected (final ∉ between.closed) ⟨final, target, kind⟩ between linked) (changes : Changes touched linked later)
    (outside : ∀ block, touched block → block < after.blocks.length → block < before.blocks.length ∧ block ≠ start := by omega)
    (below : goal < before.blocks.length := by omega) (away : goal ≠ start := by omega) :
    Splits later goal 0 start (before.tip start) fun trace block offset =>
      ∃ completion, runs trace completion ∧ place.Lands later target 0 completion block offset := by
  have own := done.own
  have small := done.inside
  have size := padded.size
  have sizeLinked := connected.size
  have flowing : Changes (· = after.tail final) between linked :=
    connected.changes_of fun isOpen => (tail_open (padded.closed ▸ isOpen)).symm
  have extended : Extends before start (after.tail final) after later := by
    refine ((padded.changes (· = after.tail final)).trans (flowing.trans changes)).weaken ?_
    rintro block (same | same | touch) blockSmall
    · exact .inl same
    · exact .inl same
    · exact .inr (outside block touch blockSmall)
  refine splits_bind (done.splits later goal extended below away) fun head block offset reached => ?_
  obtain ⟨completion, run, lands, opens⟩ := reached
  by_cases normal : completion = .normal
  · subst normal
    obtain ⟨rfl, rfl⟩ := lands
    have out : linked.Out block [target] := connected.out (padded.out (done.bare (opens rfl)).out)
    have fixed : ¬ touched block := fun touch => by
      have := outside block touch small
      omega
    have leave := splits_leave goal changes out (by have := done.changes.size; omega) (by omega) fixed
    rw [connected.tip, padded.tip] at leave
    refine splits_mono_le (Nat.zero_le _) leave fun tail next nextOffset reached => ?_
    obtain ⟨rfl, isTarget, rfl⟩ := reached
    exact ⟨.normal, by simpa using run, mem_singleton.mp isTarget, rfl⟩
  · exact splits_stay ⟨completion, by simpa using run, lands_abrupt lands normal⟩

theorem follows_if_else {left right : Nat → Build Nat} (inLoop : Bool) (followsLeft : Follows place around left A)
    (followsRight : Follows place around right B) : Follows place around (Layout.ifElse inLoop left right)
      fun trace completion => A trace completion ∨ B trace completion := by
  intro before start valid bare fits
  have small := bare.inside
  refine ends_add fun d1 added1 _ size1 => ends_link fun d2 linked2 size2 => ?_
  have stage2 := ((staged_begin before start valid).add added1).connect linked2
  refine ends_after (followsLeft d2 before.blocks.length stage2.valid stage2.bare fits.mono) fun bodyEnd d3 body => ?_
  refine ends_add fun d4 added4 _ size4 => ends_leave fun d5 linked5 size5 => ?_
  refine ends_add fun d6 added6 _ size6 => ends_link fun d7 linked7 size7 => ?_
  have size3 := body.changes.size
  have bodySmall := body.inside
  have bodyOwn := body.own
  have stage3 : Staged before start [] d3 := stage2.build body.changes body.valid
  have stage5 := (stage3.add added4).connect linked5
  have stage7 := (stage5.add added6).connect linked7
  refine ends_after (followsRight d7 d5.blocks.length stage7.valid stage7.bare fits.mono) fun otherEnd d8 other => ?_
  refine ends_leave fun d9 linked9 size9 => ends_pure _ ?_
  have size8 := other.changes.size
  have otherSmall := other.inside
  have otherOwn := other.own
  have stage8 : Staged before start [d3.blocks.length] d8 := stage7.build other.changes other.valid
  have stage9 := stage8.connect linked9
  have toBody : d2.Out start [before.blocks.length] := linked2.out (added1.out bare.out)
  have toBoth : d7.Out start [d5.blocks.length, before.blocks.length] :=
    linked7.out (added6.out (linked5.changes.out (by omega) (by omega) (added4.out (body.changes.out (by omega) (by omega) toBody))))
  have startTip : d7.tip start = before.tip start := by
    rw [linked7.tip, added6.tip, linked5.tip, added4.tip, body.changes.tip (by omega) (by omega), linked2.tip, added1.tip]
  refine stage9.followed fun later goal extended below away => ?_
  have after7 := other.changes.trans (linked9.changes.trans extended)
  have after5 := (added6.changes (· = start)).trans (linked7.changes.trans after7)
  have enter := splits_leave goal after7 toBoth
  have left := body.flows goal added4 linked5 after5
  have right := other.flows goal (padded_refl d8) linked9 extended
  rw [startTip] at enter
  rw [stage2.tip] at left
  rw [stage7.tip] at right
  refine splits_bind enter fun head block offset reached => ?_
  obtain ⟨rfl, target, rfl⟩ := reached
  rcases mem_pair.mp target with rfl | rfl
  · refine splits_mono right fun trace block offset reached => ?_
    obtain ⟨completion, run, lands⟩ := reached
    exact ⟨completion, .inr run, lands⟩
  · refine splits_mono left fun trace block offset reached => ?_
    obtain ⟨completion, run, lands⟩ := reached
    exact ⟨completion, .inl run, lands⟩

example : ((Layout.ifElse false pure pure 0).run { blocks := [default] }).2.edges.map (·.target) = [1, 2, 3, 2] := by decide +kernel

theorem follows_if (inLoop : Bool) (follows : Follows place around action runs) :
    Follows place around (Layout.ifThen inLoop action) fun trace completion => runs trace completion ∨ Normally Silent trace completion := by
  intro before start valid bare fits
  have small := bare.inside
  refine ends_add fun d1 added1 _ size1 => ends_link fun d2 linked2 size2 => ?_
  have stage2 := ((staged_begin before start valid).add added1).connect linked2
  refine ends_after (follows d2 before.blocks.length stage2.valid stage2.bare fits.mono) fun bodyEnd d3 body => ?_
  refine ends_add fun d4 added4 _ size4 => ends_leave fun d5 linked5 size5 => ?_
  refine ends_link fun d6 linked6 size6 => ends_pure _ ?_
  have size3 := body.changes.size
  have bodySmall := body.inside
  have bodyOwn := body.own
  have stage3 : Staged before start [] d3 := stage2.build body.changes body.valid
  have stage5 := (stage3.add added4).connect linked5
  have stage6 := stage5.connect linked6
  have toBody : d2.Out start [before.blocks.length] := linked2.out (added1.out bare.out)
  have toBoth : d6.Out start [d3.blocks.length, before.blocks.length] :=
    linked6.out (linked5.changes.out (by omega) (by omega) (added4.out (body.changes.out (by omega) (by omega) toBody)))
  have startTip : d6.tip start = before.tip start := by
    rw [linked6.tip, linked5.tip, added4.tip, body.changes.tip (by omega) (by omega), linked2.tip, added1.tip]
  refine stage6.followed fun later goal extended below away => ?_
  have enter := splits_leave goal extended toBoth
  have inside := body.flows goal added4 linked5 (linked6.changes.trans extended)
  rw [startTip] at enter
  rw [stage2.tip] at inside
  refine splits_bind enter fun head block offset reached => ?_
  obtain ⟨rfl, target, rfl⟩ := reached
  rcases mem_pair.mp target with rfl | rfl
  · exact splits_stay ⟨.normal, .inr ⟨rfl, rfl⟩, ⟨rfl, rfl⟩⟩
  · refine splits_mono inside fun trace block offset reached => ?_
    obtain ⟨completion, run, lands⟩ := reached
    exact ⟨completion, .inl run, lands⟩

theorem follows_labeled {body : Place → Nat → Build Nat} (inLoop : Bool) (label : Option Value)
    (follows : ∀ inner : Place, inner.finalizers = place.finalizers → Follows inner (.labeled label :: around) (body inner) runs) :
    Follows place around (Layout.labeled place inLoop label body) (Catching (Completion.LeavesLabel label) runs) := by
  intro before start valid bare fits
  have small := bare.inside
  refine ends_add fun d1 added1 _ size1 => ?_
  have stage1 := (staged_begin before start valid).add added1
  have within := within_labeled place label before.blocks.length
  have bareNow : d1.Bare start := (added1.changes fun _ => False).bare id bare
  refine ends_after (follows _ within.finalizers d1 start stage1.valid bareNow (labeled_fits fits.mono label)) fun bodyEnd d2 inside => ?_
  refine ends_leave fun d3 linked3 size3 => ends_pure _ ?_
  have size2 := inside.changes.size
  have bodySmall := inside.inside
  have bodyOwn := inside.own
  have stage2 : Staged before start [before.blocks.length] d2 := stage1.build inside.changes inside.valid
  have stage3 := stage2.connect linked3
  refine stage3.followed fun later goal extended below away => ?_
  have inner := inside.flows goal (padded_refl d2) linked3 extended
  rw [added1.tip] at inner
  refine splits_mono inner fun trace block offset reached => ?_
  obtain ⟨completion, run, lands⟩ := reached
  by_cases leaves : completion.LeavesLabel label
  · exact ⟨.normal, .inr ⟨rfl, completion, run, leaves⟩, labeled_left within leaves lands⟩
  · exact ⟨completion, .inl ⟨run, leaves⟩, labeled_outward within leaves lands⟩

end

end HookLint.Flow
