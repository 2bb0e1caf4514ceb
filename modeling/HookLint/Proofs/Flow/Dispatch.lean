import HookLint.Proofs.Flow.Rounds
import HookLint.Proofs.Flow.Switch

namespace HookLint.Flow

open List

-- The tests up to the first one that matches, and the block of its body.
def Chooses : List Case → List Nat → List Value → Nat → Prop
  | .mk (some test) _ :: rest, body :: bodies, trace, block =>
    (test.Evaluates .value trace ∧ block = body) ∨ Then (test.Evaluates .value) (fun tail => Chooses rest bodies tail block) trace
  | .mk none _ :: rest, _ :: bodies, trace, block => Chooses rest bodies trace block
  | _, _, _, _ => False

-- What the tests of a switch come to. The bodies are built later on.
structure Dispatched (cases : List Case) (bodies : List Nat) (before : Draft) (start tested : Nat) (after : Draft) : Prop where
  changes : Changes (· = start) before after
  valid : after.Valid
  own : tested = start ∨ before.blocks.length ≤ tested
  bare : after.Bare tested
  splits : ∀ later goal, Extends before start tested after later → goal < before.blocks.length → goal ≠ start →
    Splits later goal 0 start (before.tip start) fun trace block offset =>
      (Unmatched cases trace ∧ block = tested ∧ offset = after.tip tested) ∨ (Chooses cases bodies trace block ∧ offset = 0)

theorem ends_dispatch {scene : Scene} (alone : scene.chainEnd = none) (cases : List Case) (bodies : List Nat)
    (same : cases.length = bodies.length) (chained : ∀ branch ∈ cases, ChainedIf branch.test) (before : Draft) (start : Nat)
    (valid : before.Valid) (bare : before.Bare start) (small : ∀ body ∈ bodies, body < before.blocks.length) :
    Ends (buildTests scene ((cases.map Case.test).zip bodies) start) before (Dispatched cases bodies before start) := by
  induction cases generalizing bodies before start with
  | nil =>
    refine ends_pure start ⟨changes_refl _ _, valid, .inl rfl, bare, fun later goal _ _ _ => ?_⟩
    exact splits_stay (.inl ⟨rfl, rfl, rfl⟩)
  | cons branch rest ih =>
    obtain ⟨test, statements⟩ := branch
    obtain ⟨body, bodies, rfl⟩ := exists_cons_of_length_eq_add_one same.symm
    simp only [length_cons, Nat.add_right_cancel_iff] at same
    simp only [forall_mem_cons] at small chained
    cases test with
    | none =>
      exact ends_mono (ih bodies same chained.2 before start valid bare small.2) fun tested after done =>
        ⟨done.changes, done.valid, done.own, done.bare, done.splits⟩
    | some test =>
      simp only [map_cons, Case.test, zip_cons_cons, buildTests]
      have testChained : test.Chained false := chained.1
      refine ends_after (test.decodes_alone scene testChained before start valid bare (by simp [alone])) fun checked d1 test => ?_
      refine ends_link fun d2 linked2 size2 => ends_add fun d3 added3 _ size3 => ?_
      refine ends_link fun d4 linked4 size4 => ?_
      have size1 := test.changes.size
      have testSmall := test.bare.inside
      have testOwn := test.own
      have startSmall := bare.inside
      have stage1 : Staged before start [] d1 := ⟨test.valid, test.changes, by simp⟩
      have stage2 := stage1.connect linked2 testSmall (by omega) (by omega) (by simp)
      have stage4 := (stage2.add added3).connect linked4
      refine ends_mono (ih bodies same chained.2 d4 d2.blocks.length stage4.valid stage4.bare
        fun other member => by have := small.2 other member; omega) fun tested after others => ?_
      have size5 := others.changes.size
      have testedOwn := others.own
      have stage5 : Staged before start [] after := stage4.build others.changes others.valid
      have checkedOut : d4.Out checked [d2.blocks.length, body] := linked4.out (added3.out (linked2.out test.bare.out))
      refine ⟨stage5.changes, stage5.valid, .inr (by omega), others.bare, fun later goal extended below away => ?_⟩
      have after4 := others.changes.trans extended
      have after1 := linked2.changes.trans ((added3.changes (· = checked)).trans (linked4.changes.trans after4))
      have leave := splits_leave goal after4 checkedOut
      rw [linked4.tip, added3.tip, linked2.tip] at leave
      have chosen := test.leaves alone after1.weaken below away leave
      have onward := others.splits later goal extended.weaken (by omega) (by omega)
      rw [stage4.tip] at onward
      refine splits_bind chosen fun head block offset reached => ?_
      obtain ⟨values, target, rfl⟩ := reached
      rcases mem_pair.mp target with rfl | rfl
      · refine splits_mono onward fun tail block offset reached => ?_
        rcases reached with ⟨unmatched, rfl, rfl⟩ | ⟨chooses, rfl⟩
        · exact .inl ⟨⟨head, tail, values, unmatched, rfl⟩, rfl, rfl⟩
        · exact .inr ⟨.inr ⟨head, tail, values, chooses, rfl⟩, rfl⟩
      · exact splits_stay (.inr ⟨.inl ⟨by simpa using values, rfl⟩, rfl⟩)

-- From the block of a body on, the runs from its case on are all there is.
def CasesSplit (inner : Place) (draft : Draft) (goal exit : Nat) : List Case → List Nat → Prop
  | branch :: rest, body :: bodies =>
    (Splits draft goal 0 body 0 fun trace block offset =>
      ∃ completion, RunsCases (branch :: rest) trace completion ∧ inner.Lands draft exit 0 completion block offset) ∧
      CasesSplit inner draft goal exit rest bodies
  | [], _ => True
  | _ :: _, [] => False

section
variable {inner : Place} {draft : Draft} {goal exit : Nat}

section
variable (cases : List Case) (bodies : List Nat) (split : CasesSplit inner draft goal exit cases bodies)
include cases bodies split

theorem chosen_splits (head : List Value) (block : Nat) (chooses : Chooses cases bodies head block) : Splits draft goal 0 block 0 fun trace last offset =>
      ∃ completion, RunsMatched cases (head ++ trace) completion ∧ inner.Lands draft exit 0 completion last offset := by
  induction cases generalizing bodies head with
  | nil => exact chooses.elim
  | cons branch rest ih =>
    obtain ⟨test, statements⟩ := branch
    cases bodies with
    | nil => exact split.elim
    | cons body bodies =>
      cases test with
      | none =>
        refine splits_mono (ih bodies split.2 head chooses) fun trace last offset reached => ?_
        exact reached
      | some test =>
        rcases chooses with ⟨matched, rfl⟩ | ⟨first, tail, unmatched, later, rfl⟩
        · refine splits_mono split.1 fun trace last offset reached => ?_
          obtain ⟨completion, run, lands⟩ := reached
          refine ⟨completion, ?_, lands⟩
          exact ⟨head, trace, matched, .inl (run), rfl⟩
        · refine splits_mono (ih bodies split.2 tail later) fun trace last offset reached => ?_
          obtain ⟨completion, run, lands⟩ := reached
          refine ⟨completion, ?_, lands⟩
          exact ⟨first, tail ++ trace, unmatched, .inr run, by simp⟩

theorem default_splits :
    Splits draft goal 0 (((((cases.map Case.test).zip bodies).find? (·.1.isNone)).map (·.2)).getD exit) 0 fun trace block offset =>
        ∃ completion, RunsDefault cases trace completion ∧ inner.Lands draft exit 0 completion block offset := by
  induction cases generalizing bodies with
  | nil => exact splits_stay ⟨.normal, by simp [RunsDefault, Normally, Silent], rfl, rfl⟩
  | cons branch rest ih =>
    obtain ⟨test, statements⟩ := branch
    cases bodies with
    | nil => exact split.elim
    | cons body bodies =>
      cases test with
      | none =>
        refine splits_mono split.1 fun trace block offset reached => ?_
        exact reached
      | some test =>
        refine splits_mono (ih bodies split.2) fun trace block offset reached => ?_
        exact reached

end

theorem dispatched_splits {cases : List Case} {bodies : List Nat} {start startOffset tested testedOffset : Nat}
    (testing : Splits draft goal 0 start startOffset fun trace block offset =>
      (Unmatched cases trace ∧ block = tested ∧ offset = testedOffset) ∨ (Chooses cases bodies trace block ∧ offset = 0))
    (leave : Splits draft goal 1 tested testedOffset fun trace next nextOffset =>
      trace = [] ∧ next ∈ [((((cases.map Case.test).zip bodies).find? (·.1.isNone)).map (·.2)).getD exit] ∧ nextOffset = 0)
    (split : CasesSplit inner draft goal exit cases bodies) : Splits draft goal 0 start startOffset fun trace block offset =>
      ∃ completion, (RunsMatched cases trace completion ∨ Before (Unmatched cases) (RunsDefault cases) trace completion) ∧
        inner.Lands draft exit 0 completion block offset := by
  refine splits_bind testing fun head block offset reached => ?_
  rcases reached with ⟨unmatched, rfl, rfl⟩ | ⟨chooses, rfl⟩
  · refine splits_bind leave fun middle block offset reached => ?_
    obtain ⟨rfl, target, rfl⟩ := reached
    obtain rfl := mem_singleton.mp target
    refine splits_mono (default_splits cases bodies split) fun trace block offset reached => ?_
    obtain ⟨completion, run, lands⟩ := reached
    exact ⟨completion, .inr ⟨head, trace, unmatched, run, by simp⟩, lands⟩
  · refine splits_mono (chosen_splits cases bodies split head block chooses) fun trace block offset reached => ?_
    obtain ⟨completion, run, lands⟩ := reached
    exact ⟨completion, .inl run, lands⟩

theorem switch_splits {place : Place} {runs : Runs} {start startOffset : Nat} {Open : Prop} (isOpen : Open)
    (within : inner.Within place ⟨none, exit, none, place.finalizers.length, true⟩)
    (inside : Splits draft goal 0 start startOffset fun trace block offset =>
      ∃ completion, runs trace completion ∧ inner.Lands draft exit 0 completion block offset) :
    Splits draft goal 0 start startOffset fun trace block offset =>
      ∃ completion, Catching (Completion.LeavesLoop none) runs trace completion ∧
        place.Lands draft exit 0 completion block offset ∧ (completion = .normal → Open) := by
  refine splits_mono inside fun trace block offset reached => ?_
  obtain ⟨completion, run, lands⟩ := reached
  by_cases leaves : completion.LeavesLoop none
  · exact ⟨.normal, .inr ⟨rfl, completion, run, leaves⟩, switch_left within leaves lands, fun _ => isOpen⟩
  · exact ⟨completion, .inl ⟨run, leaves⟩, switch_outward within leaves lands, fun _ => isOpen⟩

end

-- What the bodies of a switch let through, which are built in blocks that are there.
structure CasesFollowed (inner : Place) (cases : List Case) (bodies : List Nat) (previous : Option Nat) (before : Draft)
    (last : Option Nat) (after : Draft) : Prop where
  changes : Changes (fun block => block ∈ bodies ∨ ∃ first, previous = some first ∧ block = before.tail first) before after
  valid : after.Valid
  own : ∀ final, last = some final → (previous = some final ∧ after = before) ∨ final ∈ bodies ∨ before.blocks.length ≤ final
  inside : ∀ final, last = some final → final < after.blocks.length
  bare : ∀ final, last = some final → final ∉ after.closed → after.Bare final
  splits : ∀ touched later goal exit, Changes touched after later → (∀ block, touched block → block < after.blocks.length →
      (∃ final, last = some final ∧ block = after.tail final) ∨ (block < before.blocks.length ∧ block ∉ bodies ∧ previous ≠ some block)) →
    goal < before.blocks.length → goal ∉ bodies → previous ≠ some goal →
    (∀ final, last = some final → final ∉ after.closed → Splits later goal 1 final (after.tip final)
      fun trace next nextOffset => trace = [] ∧ next ∈ [exit] ∧ nextOffset = 0) →
    CasesSplit inner later goal exit cases bodies ∧
      ∀ first, previous = some first → first ∉ before.closed → Splits later goal 0 first (before.tip first)
        fun trace block offset => ∃ completion, RunsCases cases trace completion ∧ inner.Lands later exit 0 completion block offset

theorem ends_cases_followed {inner : Place} {around : List Surrounding} (cases : List Case) (bodies : List Nat)
    (follows : ∀ branch ∈ cases, Follows inner around (branch.build inner) branch.Runs)
    (same : cases.length = bodies.length) (previous : Option Nat) (before : Draft) (valid : before.Valid)
    (fresh : ∀ body ∈ bodies, before.Bare body ∧ before.tip body = 0) (distinct : bodies.Nodup)
    (fits : inner.Fits around before.blocks.length) (first : ∀ block, previous = some block →
      block < before.blocks.length ∧ (block ∉ before.closed → before.Bare block) ∧ block ∉ bodies) :
    Ends (buildCases inner cases bodies previous) before (CasesFollowed inner cases bodies previous before) := by
  induction cases generalizing bodies previous before with
  | nil =>
    obtain rfl := length_eq_zero_iff.mp same.symm
    refine ends_pure previous ⟨changes_refl _ _, valid, fun final known => .inl ⟨known, rfl⟩,
      fun final known => (first final known).1, fun final known => (first final known).2.1, ?_⟩
    intro touched later goal exit changes outside below _ _ finish
    refine ⟨trivial, fun block known isOpen => ?_⟩
    refine splits_mono_le (Nat.zero_le _) (finish block known isOpen) fun trace next offset reached => ?_
    obtain ⟨rfl, target, rfl⟩ := reached
    exact ⟨.normal, by simp [RunsCases, Normally, Silent], mem_singleton.mp target, rfl⟩
  | cons branch rest ih =>
    obtain ⟨body, bodies, rfl⟩ := exists_cons_of_length_eq_add_one same.symm
    simp only [length_cons, Nat.add_right_cancel_iff] at same
    simp only [forall_mem_cons] at follows
    simp only [nodup_cons] at distinct
    have kept (block : Nat) (member : block ∈ body :: bodies) : ¬ ∃ earlier, previous = some earlier ∧ block = before.tail earlier := by
      rintro ⟨earlier, known, isTail⟩
      have small := (fresh block member).1.inside
      rcases tail_cases before earlier with tail | tail
      · exact (first earlier known).2.2 (by rwa [isTail, tail] at member)
      · omega
    -- From here on it does not matter how the first body was reached.
    have build (d1 : Draft) (size1 : d1.blocks.length = before.blocks.length) (valid1 : d1.Valid)
        (changes1 : Changes (fun block => ∃ earlier, previous = some earlier ∧ block = before.tail earlier) before d1)
        (reached : ∀ earlier, previous = some earlier → earlier ∉ before.closed →
          d1.Out earlier [body] ∧ d1.tip earlier = before.tip earlier) :
        Ends (branch.build inner body >>= fun bodyEnd => buildCases inner rest bodies (some bodyEnd)) d1
          (CasesFollowed inner (branch :: rest) (body :: bodies) previous before) := by
      have fresh1 (block : Nat) (member : block ∈ body :: bodies) : d1.Bare block ∧ d1.tip block = 0 := by
        obtain ⟨bare, empty⟩ := fresh block member
        exact ⟨changes1.bare (kept block member) bare, (changes1.tip bare.inside (kept block member)).trans empty⟩
      obtain ⟨bodyBare, bodyEmpty⟩ := fresh1 body mem_cons_self
      have bodySmall := bodyBare.inside
      refine ends_after (follows.1 d1 body valid1 bodyBare (size1 ▸ fits)) fun bodyEnd d2 done => ?_
      have size2 := done.changes.size
      have doneOwn := done.own
      have endSmall := done.inside
      have tail := tail_cases d2 bodyEnd
      have fresh2 (block : Nat) (member : block ∈ bodies) : d2.Bare block ∧ d2.tip block = 0 := by
        obtain ⟨bare, empty⟩ := fresh1 block (mem_cons_of_mem _ member)
        have other : block ≠ body := fun equal => distinct.1 (equal ▸ member)
        exact ⟨done.changes.bare other bare, (done.changes.tip bare.inside other).trans empty⟩
      have endFresh : bodyEnd ∉ bodies := by
        intro member
        rcases doneOwn with equal | large
        · exact distinct.1 (equal ▸ member)
        · have := (fresh1 bodyEnd (mem_cons_of_mem _ member)).1.inside
          omega
      refine ends_mono (ih bodies follows.2 same (some bodyEnd) d2 done.valid fresh2 distinct.2 fits.mono ?_) fun last after others => ?_
      · rintro _ ⟨⟩
        exact ⟨endSmall, done.bare, endFresh⟩
      have size3 := others.changes.size
      refine ⟨((changes1.trans done.changes).trans others.changes).weaken ?_, others.valid, ?_, others.inside, others.bare, ?_⟩
      · rintro block ((earlier | rfl) | member | ⟨_, ⟨⟩, isTail⟩) small
        · exact .inr earlier
        · exact .inl mem_cons_self
        · exact .inl (mem_cons_of_mem _ member)
        · obtain rfl : block = body := by omega
          exact .inl mem_cons_self
      · intro final known
        refine .inr ?_
        rcases others.own final known with ⟨⟨⟩, _⟩ | member | large
        · rcases doneOwn with rfl | large
          · exact .inl mem_cons_self
          · exact .inr (by omega)
        · exact .inl (mem_cons_of_mem _ member)
        · exact .inr (by omega)
      · intro touched later goal exit changes outside below goalFresh goalFirst finish
        simp only [mem_cons, not_or] at goalFresh outside
        have after2 := others.changes.trans changes
        -- What changes later on of what is there once the first body is built.
        have apart (block : Nat) (touch : (block ∈ bodies ∨ ∃ earlier, some bodyEnd = some earlier ∧
            block = d2.tail earlier) ∨ touched block) (small : block < d2.blocks.length) :
            block = d2.tail bodyEnd ∨ block ∈ bodies ∨ (block < before.blocks.length ∧ block ≠ body ∧ previous ≠ some block) := by
          rcases touch with (member | ⟨_, ⟨⟩, isTail⟩) | touch
          · exact .inr (.inl member)
          · exact .inl isTail
          rcases outside block touch (by omega) with ⟨final, known, isTail⟩ | ⟨old, other, notFirst⟩
          · rcases others.own final known with ⟨⟨⟩, rfl⟩ | member | large
            · exact .inl isTail
            · rcases tail_cases after final with tail | tail
              · exact .inr (.inl (by rwa [isTail, tail]))
              · omega
            · have := tail_cases after final
              omega
          · exact .inr (.inr ⟨old, other.1, notFirst⟩)
        have outsideRest (block : Nat) (touch : touched block) (small : block < after.blocks.length) :
            (∃ final, last = some final ∧ block = after.tail final) ∨
              (block < d2.blocks.length ∧ block ∉ bodies ∧ some bodyEnd ≠ some block) := by
          rcases outside block touch small with isLast | ⟨old, other, _⟩
          · exact .inl isLast
          · exact .inr ⟨by omega, other.2, by rintro ⟨⟩; omega⟩
        obtain ⟨splitRest, onward⟩ := others.splits touched later goal exit changes outsideRest (by omega) goalFresh.2
          (by rintro ⟨⟩; omega) finish
        have extended : Extends d1 body (d2.tail bodyEnd) d2 later := by
          refine after2.weaken fun block touch small => ?_
          rcases apart block touch small with isTail | member | ⟨old, other, _⟩
          · exact .inl isTail
          · exact .inr ⟨(fresh1 block (mem_cons_of_mem _ member)).1.inside, fun equal => distinct.1 (equal ▸ member)⟩
          · exact .inr ⟨by omega, other⟩
        have here := done.splits later goal extended (by omega) goalFresh.1
        rw [bodyEmpty] at here
        have split : Splits later goal 0 body 0 fun trace block offset =>
            ∃ completion, RunsCases (branch :: rest) trace completion ∧ inner.Lands later exit 0 completion block offset := by
          refine splits_bind here fun head block offset reached => ?_
          obtain ⟨completion, run, lands, opens⟩ := reached
          by_cases normal : completion = .normal
          · subst normal
            obtain ⟨rfl, rfl⟩ := lands
            refine splits_mono (onward block rfl (opens rfl)) fun trace block offset reached => ?_
            obtain ⟨ending, later, lands⟩ := reached
            refine ⟨ending, ?_, lands⟩
            exact .inr ⟨head, trace, run, later, rfl⟩
          · refine splits_stay ⟨completion, ?_, lands_abrupt lands normal⟩
            exact .inl ⟨by simpa using run, normal⟩
        refine ⟨⟨split, splitRest⟩, fun earlier known isOpen => ?_⟩
        obtain ⟨earlierSmall, _, earlierFresh⟩ := first earlier known
        obtain ⟨out, tip⟩ := reached earlier known isOpen
        simp only [mem_cons, not_or] at earlierFresh
        have leave := splits_leave goal (done.changes.trans after2) out (by rintro rfl; exact goalFirst known) (by omega) (by
          rintro (equal | touch)
          · exact earlierFresh.1 equal
          · rcases apart earlier touch (by omega) with isTail | member | ⟨_, _, notFirst⟩
            · omega
            · exact earlierFresh.2 member
            · exact notFirst known)
        rw [tip] at leave
        refine splits_bind leave fun head block offset reached => ?_
        obtain ⟨rfl, target, rfl⟩ := reached
        obtain rfl := mem_singleton.mp target
        exact split
    have bodySmall := (fresh body mem_cons_self).1.inside
    cases previous with
    | none => exact build before rfl valid (changes_refl _ _) (by rintro _ ⟨⟩)
    | some block =>
      obtain ⟨small, bare, _⟩ := first block rfl
      refine ends_leave fun d1 linked1 _ => build d1 linked1.size (linked1.valid valid small bodySmall) ?_ ?_
      · exact linked1.changes_of fun isOpen => ⟨block, rfl, (tail_open isOpen).symm⟩
      · rintro _ ⟨⟩ isOpen
        exact ⟨linked1.out (bare isOpen).out, linked1.tip block⟩

theorem follows_switch (place : Place) (around : List Surrounding) (cases : List Case)
    (follows : ∀ inner : Place, inner.finalizers = place.finalizers → ∀ branch ∈ cases,
      Follows inner (.switch :: around) (branch.build inner) branch.Runs)
    (chained : ∀ branch ∈ cases, ChainedIf branch.test) (single : (cases.filter (·.test.isNone)).length ≤ 1) :
    Follows place around (Layout.switch place cases) (RunsSwitch cases) := by
  intro before start valid bare fits
  have small := bare.inside
  refine ends_add fun d1 added1 _ size1 => ends_bind (ends_new_blocks cases d1 fun d2 added2 _ => ?_)
  have size2 := added2.size
  have stage2 := ((staged_begin before start valid).add added1).add_all added2
  have same : cases.length = (List.range' d1.blocks.length cases.length).length := by simp
  have distinct : (List.range' d1.blocks.length cases.length).Nodup := nodup_range'
  have listed (block : Nat) (member : block ∈ List.range' d1.blocks.length cases.length) :
      before.blocks.length < block ∧ block < d2.blocks.length := by
    simp only [mem_range'_1] at member
    omega
  generalize List.range' d1.blocks.length cases.length = bodies at *
  have bareNow : d2.Bare start := (added2.changes fun _ => False).bare id ((added1.changes fun _ => False).bare id bare)
  refine ends_after (ends_dispatch rfl cases bodies same chained d2 start stage2.valid bareNow
    fun body member => (listed body member).2) fun tested d3 tests => ?_
  have size3 := tests.changes.size
  have testedSmall := tests.bare.inside
  have testedOwn := tests.own
  have stage3 : Staged before start (bodies ++ [before.blocks.length]) d3 := by
    refine stage2.build tests.changes tests.valid (.inl rfl) fun block member => ⟨member, ?_⟩
    rcases mem_append.mp member with isBody | isExit
    · have := listed block isBody
      omega
    · have := mem_singleton.mp isExit
      omega
  have within := switch_within place before.blocks.length
  have below : before.blocks.length < d3.blocks.length := by omega
  have innerFits := switch_fits (fits.mono (Nat.le_of_lt below)) below
  refine ends_default fun kind _ => ends_link fun d4 linked4 size4 => ?_
  have testedOther : tested ∉ bodies ++ [before.blocks.length] := by
    intro member
    rcases mem_append.mp member with isBody | isExit
    · have := listed tested isBody
      omega
    · have := mem_singleton.mp isExit
      omega
  have stage4 : Staged before start (bodies ++ [before.blocks.length]) d4 :=
    stage3.connect linked4 testedSmall (stage3.bare (default_goal cases bodies _)).inside (by omega) testedOther
  refine ends_after (ends_cases_followed cases bodies (follows _ within.finalizers) same none d4 stage4.valid
    (fun body member => ⟨stage4.bare (mem_append_left _ member), stage4.tip (mem_append_left _ member)⟩) distinct
    (size4 ▸ innerFits) (by simp)) fun last d5 cased => ?_
  have lastOwn (final : Nat) (known : last = some final) : final ∈ bodies ∨ d4.blocks.length ≤ final :=
    (cased.own final known).resolve_left (by simp)
  have size5 := cased.changes.size
  -- The last body, if there is one, runs on into the exit.
  have finish (d6 : Draft) (size6 : d6.blocks.length = d5.blocks.length) (valid6 : d6.Valid)
      (flowing : Changes (fun block => ∃ final, last = some final ∧ block = d5.tail final) d5 d6)
      (reached : ∀ final, last = some final → final ∉ d5.closed → d6.Out final [before.blocks.length] ∧ d6.tip final = d5.tip final) :
      Followed place (RunsSwitch cases) before start before.blocks.length d6 := by
    have lastTail (block : Nat) (viaLast : ∃ final, last = some final ∧ block = d5.tail final) :
        block ∈ bodies ∨ d4.blocks.length ≤ block := by
      obtain ⟨final, known, rfl⟩ := viaLast
      rcases tail_cases d5 final with tail | tail
      · rw [tail]
        exact lastOwn final known
      · omega
    have stage5 : Staged before start [before.blocks.length] d5 := by
      refine stage4.grow cased.changes cased.valid ?_ fun other member => ?_
      · rintro block (isBody | ⟨_, ⟨⟩, _⟩)
        exact .inr (Nat.le_of_lt (listed block isBody).1)
      · obtain rfl := mem_singleton.mp member
        refine ⟨by simp, ?_⟩
        rintro (isBody | ⟨_, ⟨⟩, _⟩)
        exact Nat.lt_irrefl _ (listed _ isBody).1
    have stage6 : Staged before start [before.blocks.length] d6 := by
      refine stage5.grow flowing valid6 (fun block viaLast => ?_) fun other member => ⟨member, fun viaLast => ?_⟩
      · rcases lastTail block viaLast with isBody | large
        · exact .inr (Nat.le_of_lt (listed block isBody).1)
        · exact .inr (by omega)
      · obtain rfl := mem_singleton.mp member
        rcases lastTail _ viaLast with isBody | large
        · exact Nat.lt_irrefl _ (listed _ isBody).1
        · omega
    have exitOpen := (stage6.bare (mem_singleton_self _)).isOpen
    refine ⟨stage6.changes, stage6.valid, .inr (Nat.le_refl _), fun _ => stage6.bare, ?_⟩
    intro later goal extended below away
    rw [tail_open exitOpen] at extended
    have notBody (block : Nat) (old : block ≤ before.blocks.length) : block ∉ bodies := fun isBody => by
      have := listed block isBody
      omega
    have after5 := flowing.trans extended
    have after4 := cased.changes.trans after5
    have after3 := linked4.changes.trans after4
    obtain ⟨split, _⟩ := cased.splits _ later goal before.blocks.length after5 (by
      rintro block (viaLast | rfl | ⟨old, _⟩) _
      · exact .inl viaLast
      · exact .inr ⟨by omega, notBody _ (Nat.le_refl _), by simp⟩
      · exact .inr ⟨by omega, notBody _ (by omega), by simp⟩) (by omega) (notBody goal (by omega)) (by simp) (by
      intro final known isOpen
      have finalSmall := cased.inside final known
      obtain ⟨out, tip⟩ := reached final known isOpen
      rw [← tip]
      rcases lastOwn final known with isBody | large
      · have := listed final isBody
        exact splits_leave goal extended out
      · exact splits_leave goal extended out)
    have testing := tests.splits later goal (after3.weaken (by
      rintro block (rfl | (isBody | ⟨_, ⟨⟩, _⟩) | viaLast | rfl | ⟨old, other⟩) _
      · exact .inl rfl
      · exact .inr ⟨(listed block isBody).2, by have := listed block isBody; omega⟩
      · rcases lastTail block viaLast with isBody | large
        · exact .inr ⟨(listed block isBody).2, by have := listed block isBody; omega⟩
        · omega
      · exact .inr ⟨by omega, by omega⟩
      · exact .inr ⟨by omega, other⟩)) (by omega) away
    have leave := splits_leave goal after4 (linked4.out tests.bare.out) (by omega) (by omega) (by
      simp only [mem_append, mem_singleton, not_or] at testedOther
      rintro ((isBody | ⟨_, ⟨⟩, _⟩) | viaLast | isExit | ⟨old, other⟩)
      · exact testedOther.1 isBody
      · rcases lastTail tested viaLast with isBody | large
        · exact testedOther.1 isBody
        · omega
      · exact testedOther.2 isExit
      · omega)
    rw [linked4.tip, defaultBody, first_default _ (by rwa [default_count cases bodies same])] at leave
    rw [added2.tip, added1.tip] at testing
    rw [stage6.tip]
    exact switch_splits exitOpen within (dispatched_splits testing leave split)
  cases last with
  | none => exact finish d5 rfl cased.valid (changes_refl _ _) (by rintro _ ⟨⟩)
  | some final =>
    have finalSmall := cased.inside final rfl
    refine ends_leave fun d6 linked6 _ => ends_pure _ (finish d6 linked6.size ?_ ?_ ?_)
    · exact linked6.valid cased.valid finalSmall (show before.blocks.length < d5.blocks.length by omega)
    · exact linked6.changes_of fun isOpen => ⟨final, rfl, (tail_open isOpen).symm⟩
    · rintro _ ⟨⟩ isOpen
      exact ⟨linked6.out (cased.bare final rfl isOpen).out, linked6.tip final⟩

end HookLint.Flow
