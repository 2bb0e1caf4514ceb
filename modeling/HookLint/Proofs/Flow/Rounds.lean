import HookLint.Proofs.Flow.Followed

namespace HookLint.Flow

open List

variable {enter leave : Traces} {body : Place → Nat → Build Nat} {goal after : Nat}

-- A loop in general. The number of steps decreases from round to round, for one of the
-- ways to the body and back has a step.
theorem loop_splits {draft : Draft} {place inner : Place} {label : Option Value} {again finish : Traces} {body : Runs}
    {top inside insideOffset next i j : Nat}
    (within : inner.Within place ⟨label, after, some next, place.finalizers.length, true⟩)
    (heads : Splits draft goal i top 0 fun trace block offset =>
      (enter trace ∧ block = inside ∧ offset = insideOffset) ∨ (leave trace ∧ block = after ∧ offset = 0))
    (rounds : Splits draft goal 0 inside insideOffset fun trace block offset =>
      ∃ completion, body trace completion ∧ inner.Lands draft next 0 completion block offset)
    (turns : Splits draft goal j next 0 fun trace block offset =>
      (again trace ∧ block = top ∧ offset = 0) ∨ (finish trace ∧ block = after ∧ offset = 0)) (progress : 0 < i + j) :
    Splits draft goal 0 top 0 fun trace block offset =>
      ∃ completion, Loop label enter leave body again finish trace completion ∧ place.Lands draft after 0 completion block offset := by
  intro length
  induction length using Nat.strongRecOn with
  | ind length ih =>
    intro trace trail
    obtain ⟨n1, head, rest, _, _, less1, rfl, entered | left, trail⟩ := heads length trace trail
    · obtain ⟨enters, rfl, rfl⟩ := entered
      obtain ⟨n2, round, rest, block, offset, less2, rfl, ⟨completion, run, lands⟩, trail⟩ := rounds n1 rest trail
      by_cases leaves : completion.LeavesLoop label
      · refine ⟨n2, head ++ round, rest, block, offset, by omega, by simp, ⟨.normal, ?_, loop_left within leaves lands⟩, trail⟩
        exact .broken head round completion enters run leaves
      by_cases goesOn : completion.GoesOn label
      · obtain ⟨rfl, rfl⟩ := loop_continued within goesOn lands
        obtain ⟨n3, turn, rest, _, _, less3, rfl, returned | finished, trail⟩ := turns n2 rest trail
        · obtain ⟨returns, rfl, rfl⟩ := returned
          obtain ⟨n4, others, rest, block, offset, less4, rfl, ⟨final, loop, lands⟩, trail⟩ := ih n3 (by omega) rest trail
          refine ⟨n4, head ++ (round ++ (turn ++ others)), rest, block, offset, by omega, by simp, ⟨final, ?_, lands⟩, trail⟩
          exact .next head round turn others completion final enters run goesOn returns loop
        · obtain ⟨finishes, rfl, rfl⟩ := finished
          refine ⟨n3, head ++ (round ++ turn), rest, _, 0, by omega, by simp, ⟨.normal, ?_, rfl, rfl⟩, trail⟩
          exact .finished head round turn completion enters run goesOn finishes
      · refine ⟨n2, head ++ round, rest, block, offset, by omega, by simp, ⟨completion, ?_, ?_⟩, trail⟩
        · exact .abrupt head round completion enters run leaves goesOn
        · exact loop_abrupt within leaves goesOn lands
    · obtain ⟨leaves, rfl, rfl⟩ := left
      exact ⟨n1, head, rest, _, 0, by omega, rfl, ⟨.normal, .left head leaves, rfl, rfl⟩, trail⟩

theorem splits_enter {draft : Draft} {block offset top : Nat} {Post : List Value → Nat → Nat → Prop}
    (enter : Splits draft goal 1 block offset fun trace next nextOffset => trace = [] ∧ next ∈ [top] ∧ nextOffset = 0)
    (rest : Splits draft goal 0 top 0 Post) : Splits draft goal 0 block offset Post := by
  refine splits_bind enter fun head block offset reached => ?_
  obtain ⟨rfl, target, rfl⟩ := reached
  obtain rfl := mem_singleton.mp target
  exact rest

section
variable {scene : Scene} {place : Place} {around : List Surrounding} {runs : Runs} {Values Skips : Traces}

theorem Decoded.leaves {before after later : Draft} {start final : Nat} {targets : List Nat}
    (done : Decoded scene Values Skips before start final after) (alone : scene.chainEnd = none)
    (extended : Extends before start final after later) (below : goal < before.blocks.length) (away : goal ≠ start)
    (leave : Splits later goal 1 final (after.tip final) fun trace next nextOffset =>
      trace = [] ∧ next ∈ targets ∧ nextOffset = 0) : Splits later goal 1 start (before.tip start) fun trace next nextOffset =>
      Values trace ∧ next ∈ targets ∧ nextOffset = 0 := by
  refine splits_mono_le (Nat.le_refl (0 + 1)) (splits_then (done.splits later goal extended below away) fun head block offset reached => ?_)
    (fun _ _ _ post => post)
  rcases reached with ⟨values, rfl, rfl⟩ | ⟨_, known, _⟩
  · refine splits_mono leave fun tail next nextOffset reached => ?_
    obtain ⟨rfl, target, rfl⟩ := reached
    exact ⟨by simpa using values, target, rfl⟩
  · simp [alone] at known

section
variable {test : Nat → Build Nat} (inLoop : Bool) (label : Option Value) (alone : scene.chainEnd = none)
  (decodes : Decodes scene test Values Skips)
  (follows : ∀ inner : Place, inner.finalizers = place.finalizers → Follows inner (.loop label :: around) (body inner) runs)
include alone decodes follows

theorem follows_while :
    Follows place around (Layout.whileLoop place inLoop label test body) (Loop label Values Values runs Silent fun _ => False) := by
  intro before start valid bare fits
  have small := bare.inside
  refine ends_add fun d1 added1 _ size1 => ends_link fun d2 linked2 size2 => ?_
  have stage2 := ((staged_begin before start valid).add added1).connect linked2
  refine ends_after (decodes d2 before.blocks.length stage2.valid stage2.bare (by simp [alone])) fun tested d3 test => ?_
  refine ends_add fun d4 added4 _ size4 => ends_add fun d5 added5 _ size5 => ?_
  refine ends_link fun d6 linked6 size6 => ends_link fun d7 linked7 size7 => ?_
  have size3 := test.changes.size
  have testSmall := test.bare.inside
  have testOwn := test.own
  have stage3 : Staged before start [] d3 := stage2.build test.changes test.valid
  have stage6 := ((stage3.add added4).add added5).connect linked6
  have stage7 := stage6.connect linked7
  refine ends_after (follows _ (within_loop_body place label _ _).finalizers d7 d4.blocks.length stage7.valid
    stage7.bare (loop_body_fits fits.mono label)) fun bodyEnd d8 body => ?_
  refine ends_leave fun d9 linked9 size9 => ends_pure _ ?_
  have size8 := body.changes.size
  have bodySmall := body.inside
  have bodyOwn := body.own
  have stage8 : Staged before start [d3.blocks.length] d8 := stage7.build body.changes body.valid
  have stage9 := stage8.connect linked9
  have startOut : d2.Out start [before.blocks.length] := linked2.out (added1.out bare.out)
  have testedOut : d7.Out tested [d3.blocks.length, d4.blocks.length] := linked7.out (linked6.out (added5.out (added4.out test.bare.out)))
  refine stage9.followed fun later goal extended below away => ?_
  have after7 := body.changes.trans (linked9.changes.trans extended)
  have after3 := (added4.changes (· = tested)).trans ((added5.changes (· = tested)).trans
    (linked6.changes.trans (linked7.changes.trans after7)))
  have after2 := test.changes.trans after3
  have enter := splits_leave goal after2 startOut
  have leave := splits_leave goal after7 testedOut
  rw [linked2.tip, added1.tip] at enter
  rw [linked7.tip, linked6.tip, added5.tip, added4.tip] at leave
  have heads := test.leaves alone after3.weaken (by omega : goal < _) (by omega) leave
  have rounds := body.flows goal (padded_refl d8) linked9 extended
  rw [stage2.tip] at heads
  rw [stage7.tip] at rounds
  refine splits_enter enter (loop_splits (within_loop_body place label _ _) (splits_mono heads fun trace next offset reached => ?_)
    rounds (splits_stay (.inl ⟨rfl, rfl, rfl⟩)) (by omega))
  obtain ⟨values, target, rfl⟩ := reached
  rcases mem_pair.mp target with rfl | rfl
  · exact .inr ⟨values, rfl, rfl⟩
  · exact .inl ⟨values, rfl, rfl⟩

theorem follows_do_while :
    Follows place around (Layout.doWhile place inLoop label test body) (Loop label Silent (fun _ => False) runs Values Values) := by
  intro before start valid bare fits
  have small := bare.inside
  refine ends_add fun d1 added1 _ size1 => ends_add fun d2 added2 _ size2 => ?_
  refine ends_add fun d3 added3 _ size3 => ends_link fun d4 linked4 size4 => ?_
  have stage4 := ((((staged_begin before start valid).add added1).add added2).add added3).connect linked4
  refine ends_after (follows _ (within_loop_body place label _ _).finalizers d4 d2.blocks.length stage4.valid
    stage4.bare (loop_body_fits fits.mono label)) fun bodyEnd d5 body => ?_
  refine ends_leave fun d6 linked6 size6 => ?_
  have size5 := body.changes.size
  have bodySmall := body.inside
  have bodyOwn := body.own
  have stage5 : Staged before start [d1.blocks.length, before.blocks.length] d5 :=
    stage4.build body.changes body.valid
  have stage6 := stage5.connect linked6
  refine ends_after (decodes d6 before.blocks.length stage6.valid stage6.bare (by simp [alone])) fun tested d7 test => ?_
  refine ends_link fun d8 linked8 size8 => ends_link fun d9 linked9 size9 => ends_pure _ ?_
  have size7 := test.changes.size
  have testSmall := test.bare.inside
  have testOwn := test.own
  have stage7 : Staged before start [d1.blocks.length] d7 := stage6.build test.changes test.valid
  have stage8 := stage7.connect linked8
  have stage9 := stage8.connect linked9
  have startOut : d4.Out start [d2.blocks.length] := linked4.out (added3.out (added2.out (added1.out bare.out)))
  have testedOut : d9.Out tested [d1.blocks.length, d2.blocks.length] := linked9.out (linked8.out test.bare.out)
  refine stage9.followed fun later goal extended below away => ?_
  have after7 := linked8.changes.trans (linked9.changes.trans extended)
  have after6 := test.changes.trans after7
  have after4 := body.changes.trans (linked6.changes.trans after6)
  have enter := splits_leave goal after4 startOut
  have leave := splits_leave goal extended testedOut
  rw [linked4.tip, added3.tip, added2.tip, added1.tip] at enter
  rw [linked9.tip, linked8.tip] at leave
  have turns := test.leaves alone after7.weaken (by omega : goal < _) (by omega) leave
  have rounds := body.flows goal (padded_refl d5) linked6 after6
  rw [stage6.tip] at turns
  rw [stage4.tip] at rounds
  refine splits_enter enter (loop_splits (within_loop_body place label _ _) (splits_stay (.inl ⟨rfl, rfl, rfl⟩)) rounds
    (splits_mono turns fun trace next offset reached => ?_) (by omega))
  obtain ⟨values, target, rfl⟩ := reached
  rcases mem_pair.mp target with rfl | rfl
  · exact .inr ⟨values, rfl, rfl⟩
  · exact .inl ⟨values, rfl, rfl⟩

end

example : ((Layout.doWhile {} false none pure (fun _ => pure) 0).run { blocks := [default] }).2.edges.map (·.target) = [3, 1, 3, 2] := by
  decide +kernel

theorem follows_for_each (place : Place) {bind : Nat → Build Nat} (inLoop : Bool) (label : Option Value)
    (alone : scene.chainEnd = none) (decodes : Decodes scene bind Values Skips)
    (follows : ∀ inner : Place, inner.finalizers = place.finalizers → Follows inner (.loop label :: around) (body inner) runs) :
    Follows place around (Layout.forEach place inLoop label bind body) (Loop label Values Silent runs Silent fun _ => False) := by
  intro before start valid bare fits
  have small := bare.inside
  refine ends_add fun d1 added1 _ size1 => ends_link fun d2 linked2 size2 => ?_
  refine ends_add fun d3 added3 _ size3 => ends_add fun d4 added4 _ size4 => ?_
  refine ends_link fun d5 linked5 size5 => ends_link fun d6 linked6 size6 => ?_
  have stage2 := ((staged_begin before start valid).add added1).connect linked2
  have stage4 : Staged before start [d3.blocks.length, d2.blocks.length] d4 := ((stage2.add added3).add added4).drop (by simp)
  have stage5 := stage4.connect linked5
  have stage6 := stage5.connect linked6
  refine ends_after (decodes d6 d3.blocks.length stage6.valid stage6.bare (by simp [alone])) fun bound d7 binding => ?_
  have size7 := binding.changes.size
  have boundOwn := binding.own
  have boundSmall := binding.bare.inside
  have stage7 : Staged before start [d2.blocks.length] d7 := stage6.build binding.changes binding.valid
  refine ends_after (follows _ (within_loop_body place label _ _).finalizers d7 bound stage7.valid binding.bare
    (loop_body_fits fits.mono label)) fun bodyEnd d8 body => ?_
  refine ends_leave fun d9 linked9 size9 => ends_pure _ ?_
  have size8 := body.changes.size
  have bodySmall := body.inside
  have bodyOwn := body.own
  have stage8 : Staged before start [d2.blocks.length] d8 := stage7.build body.changes body.valid
  have stage9 := stage8.connect linked9
  have startOut : d2.Out start [before.blocks.length] := linked2.out (added1.out bare.out)
  have headerBare : d2.Bare before.blocks.length := stage2.bare
  have headerOut : d6.Out before.blocks.length [d2.blocks.length, d3.blocks.length] :=
    linked6.out (linked5.out (added4.out (added3.out headerBare.out)))
  have headerTip : d6.tip before.blocks.length = 0 := by rw [linked6.tip, linked5.tip, added4.tip, added3.tip, stage2.tip]
  refine stage9.followed fun later goal extended below away => ?_
  have after7 := body.changes.trans (linked9.changes.trans extended)
  have after6 := binding.changes.trans after7
  have after2 := (added3.changes (· = before.blocks.length)).trans ((added4.changes (· = before.blocks.length)).trans
    (linked5.changes.trans (linked6.changes.trans after6)))
  have enter := splits_leave goal after2 startOut
  have leave := splits_leave goal after6 headerOut
  rw [linked2.tip, added1.tip] at enter
  rw [headerTip] at leave
  have binds := binding.splits later goal after7.weaken (by omega) (by omega)
  have rounds := body.flows goal (padded_refl d8) linked9 extended
  rw [stage6.tip] at binds
  have entering : Splits later goal (1 + 0) before.blocks.length 0 fun trace block offset =>
      (Values trace ∧ block = bound ∧ offset = d7.tip bound) ∨ (Silent trace ∧ block = d2.blocks.length ∧ offset = 0) := by
    refine splits_then leave fun head block offset reached => ?_
    obtain ⟨rfl, target, rfl⟩ := reached
    rcases mem_pair.mp target with rfl | rfl
    · exact splits_stay (.inr ⟨rfl, rfl, rfl⟩)
    · refine splits_mono binds fun trace block offset reached => ?_
      rcases reached with ⟨values, rfl, rfl⟩ | ⟨_, known, _⟩
      · exact .inl ⟨values, rfl, rfl⟩
      · simp [alone] at known
  exact splits_enter enter (loop_splits (within_loop_body place label _ _) entering rounds (splits_stay (.inl ⟨rfl, rfl, rfl⟩)) (by omega))

-- What the head of a loop comes to: a new block for the body, and no other ways from the
-- header than to it and out of the loop.
structure Headed (enter leave : Traces) (before : Draft) (header after inside : Nat) (entered : Draft) : Prop where
  changes : Changes (· = header) before entered
  valid : entered.Valid
  isNew : before.blocks.length ≤ inside
  bare : entered.Bare inside
  tip : entered.tip inside = 0
  splits : ∀ later goal, Extends before header inside entered later → goal < before.blocks.length → goal ≠ header →
    Splits later goal 1 header (before.tip header) fun trace block offset =>
      (enter trace ∧ block = inside ∧ offset = 0) ∨ (leave trace ∧ block = after ∧ offset = 0)

theorem ends_for_headed (alone : scene.chainEnd = none) (test : Option Expr) (chained : ChainedIf test) {before : Draft}
    {header : Nat} (valid : before.Valid) (bare : before.Bare header) (afterSmall : after < before.blocks.length) :
    Ends (Layout.forHead scene test header after) before (Headed (EvaluatesIf test) (leaveTest test) before header after) := by
  have small := bare.inside
  cases test with
  | none =>
    refine ends_add fun d1 added1 _ size1 => ends_link fun d2 linked2 size2 => ends_pure _ ?_
    have stage2 := ((staged_begin before header valid).add added1).connect linked2
    have headerOut : d2.Out header [before.blocks.length] := linked2.out (added1.out bare.out)
    refine ⟨stage2.changes, stage2.valid, Nat.le_refl _, stage2.bare, stage2.tip, ?_⟩
    intro later goal extended below away
    have leave := splits_leave goal extended headerOut
    rw [linked2.tip, added1.tip] at leave
    refine splits_mono leave fun trace block offset reached => ?_
    obtain ⟨rfl, target, rfl⟩ := reached
    exact .inl ⟨by simp [EvaluatesIf, Silent], mem_singleton.mp target, rfl⟩
  | some test =>
    refine ends_after (test.decodes_alone scene chained before header valid bare (by simp [alone])) fun tested d1 done => ?_
    refine ends_add fun d2 added2 _ size2 => ends_link fun d3 linked3 size3 => ?_
    refine ends_link fun d4 linked4 size4 => ends_pure _ ?_
    have size1 := done.changes.size
    have testSmall := done.bare.inside
    have testOwn := done.own
    have stage1 : Staged before header [] d1 := ⟨done.valid, done.changes, by simp⟩
    have stage3 := (stage1.add added2).connect linked3
    have stage4 := stage3.connect linked4
    have testedOut : d4.Out tested [after, d1.blocks.length] := linked4.out (linked3.out (added2.out done.bare.out))
    refine ⟨stage4.changes, stage4.valid, size1, stage4.bare, stage4.tip, ?_⟩
    intro later goal extended below away
    have after1 := (added2.changes (· = tested)).trans (linked3.changes.trans (linked4.changes.trans extended))
    have leave := splits_leave goal extended testedOut
    rw [linked4.tip, linked3.tip, added2.tip] at leave
    refine splits_mono (done.leaves alone after1.weaken below away leave) fun trace block offset reached => ?_
    obtain ⟨values, target, rfl⟩ := reached
    rcases mem_pair.mp target with rfl | rfl
    · exact .inr ⟨values, rfl, rfl⟩
    · exact .inl ⟨by simpa only [EvaluatesIf] using values, rfl, rfl⟩

theorem follows_for (place : Place) {update : Nat → Build Nat} {head : Nat → Nat → Build Nat} (inLoop : Bool) (label : Option Value)
    (alone : scene.chainEnd = none)
    (heads : ∀ before header after, before.Valid → before.Bare header → after < before.blocks.length →
      Ends (head header after) before (Headed enter leave before header after)) (decodes : Decodes scene update Values Skips)
    (follows : ∀ inner : Place, inner.finalizers = place.finalizers → Follows inner (.loop label :: around) (body inner) runs) :
    Follows place around (Layout.forLoop place inLoop label head update body) (Loop label enter leave runs Values fun _ => False) := by
  intro before start valid bare fits
  have small := bare.inside
  refine ends_add fun d1 added1 _ size1 => ends_link fun d2 linked2 size2 => ?_
  refine ends_add fun d3 added3 _ size3 => ends_add fun d4 added4 _ size4 => ?_
  have stage2 := ((staged_begin before start valid).add added1).connect linked2
  have stage4 := (stage2.add added3).add added4
  refine ends_after (heads d4 before.blocks.length d3.blocks.length stage4.valid stage4.bare (by omega)) fun inside d5 entry => ?_
  have size5 := entry.changes.size
  have insideLarge := entry.isNew
  have insideSmall := entry.bare.inside
  have stage5 : Staged before start [d3.blocks.length, d2.blocks.length] d5 :=
    stage4.build entry.changes entry.valid
  refine ends_after (follows _ (within_loop_body place label _ _).finalizers d5 inside stage5.valid entry.bare
    (loop_body_fits fits.mono label)) fun bodyEnd d6 body => ?_
  refine ends_leave fun d7 linked7 size7 => ?_
  have size6 := body.changes.size
  have bodySmall := body.inside
  have bodyOwn := body.own
  have stage6 : Staged before start [d3.blocks.length, d2.blocks.length] d6 :=
    stage5.build body.changes body.valid
  have stage7 := stage6.connect linked7
  refine ends_after (decodes d7 d2.blocks.length stage7.valid stage7.bare (by simp [alone])) fun advanced d8 update => ?_
  refine ends_link fun d9 linked9 size9 => ends_pure _ ?_
  have size8 := update.changes.size
  have updateSmall := update.bare.inside
  have updateOwn := update.own
  have stage8 : Staged before start [d3.blocks.length] d8 := stage7.build update.changes update.valid
  have stage9 := stage8.connect linked9
  have startOut : d2.Out start [before.blocks.length] := linked2.out (added1.out bare.out)
  refine stage9.followed fun later goal extended below away => ?_
  have after8 := linked9.changes.trans extended
  have after7 := update.changes.trans after8
  have after5 := body.changes.trans (linked7.changes.trans after7)
  have after2 := (added3.changes (· = before.blocks.length)).trans ((added4.changes (· = before.blocks.length)).trans (entry.changes.trans after5))
  have starts := splits_leave goal after2 startOut
  have back := splits_leave goal extended (linked9.out update.bare.out)
  rw [linked2.tip, added1.tip] at starts
  rw [linked9.tip] at back
  have entering := entry.splits later goal after5.weaken (by omega) (by omega)
  have rounds := body.flows goal (padded_refl d6) linked7 after7
  have turns := update.leaves alone after8.weaken (by omega : goal < _) (by omega) back
  rw [stage4.tip] at entering
  rw [entry.tip] at rounds
  rw [stage7.tip] at turns
  refine splits_enter starts (loop_splits (within_loop_body place label _ _) entering rounds
    (splits_mono turns fun trace next offset reached => ?_) (by omega))
  exact .inl ⟨reached.1, mem_singleton.mp reached.2.1, reached.2.2⟩

end

example : ((Layout.forLoop {} false none (Layout.forHead {} none) pure (fun _ => pure) 0).run { blocks := [default] }).2.edges.map
    (·.target) = [1, 4, 2, 1] := by decide +kernel

end HookLint.Flow
