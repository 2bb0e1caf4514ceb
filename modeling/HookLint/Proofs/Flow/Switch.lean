import HookLint.Proofs.Flow.Completed

namespace HookLint.Flow

open List

variable {Safe : Case → Prop} {around : List Surrounding} {draft : Draft} {exit : Nat} {inner : Place}

theorem ends_new_blocks {α : Type} {inLoop : Bool} {kind : BlockKind} (items : List α) (draft : Draft) {Post : List Nat → Draft → Prop}
    (next : ∀ after, Padded items.length draft after → after.fault = draft.fault →
      Post (List.range' draft.blocks.length items.length) after) : Ends (items.mapM fun _ => newBlock inLoop kind) draft Post := by
  induction items generalizing draft Post with
  | nil =>
    rw [mapM_nil]
    exact next draft (padded_refl draft) rfl
  | cons item rest ih =>
    rw [mapM_cons]
    refine ends_add fun d1 added1 fault1 size1 => ends_bind (ih d1 fun d2 added2 fault2 => ends_pure _ ?_)
    have size2 := added2.size
    have padded : Padded (rest.length + 1) draft d2 :=
      ⟨by omega, fun block => (added2.calls block).trans (added1.calls block), added2.edges.trans added1.edges,
        added2.closed.trans added1.closed, added2.pending.trans added1.pending⟩
    have post := next d2 padded (fault2.trans fault1)
    rwa [length_cons, List.range'_succ, ← size1] at post

-- Runs from a case on start in the block of its body.
def CasesReach (inner : Place) (draft : Draft) (exit : Nat) : List Case → List Nat → Prop
  | branch :: rest, body :: bodies =>
    (∀ trace completion, RunsCases (branch :: rest) trace completion →
      inner.Reaches draft exit 0 body 0 trace completion) ∧ CasesReach inner draft exit rest bodies
  | [], _ => True
  | _ :: _, [] => False

-- What the tests of a switch come to. The bodies are built later on.
structure Tested (scene : Scene) (cases : List Case) (bodies : List Nat) (before : Draft) (start tested : Nat) (after : Draft) : Prop where
  evaluated : Evaluated scene (∃ items, SpelledCases cases items) (Unmatched cases) Never before start tested after
  matched : ∀ inner later exit, Later after later → CasesReach inner later exit cases bodies →
    ∀ trace completion, RunsMatched cases trace completion → inner.Reaches later exit 0 start (before.tip start) trace completion

theorem ends_tests {scene : Scene} (alone : scene.chainEnd = none) (cases : List Case) (bodies : List Nat)
    (same : cases.length = bodies.length) (before : Draft) (start : Nat) (valid : before.Valid) (ready : before.Ready start)
    (small : ∀ body ∈ bodies, body < before.blocks.length) :
    Ends (buildTests scene ((cases.map Case.test).zip bodies) start) before (Tested scene cases bodies before start) := by
  induction cases generalizing bodies before start with
  | nil =>
    have sceneIn : ∀ chainEnd, scene.chainEnd = some chainEnd → chainEnd < before.blocks.length := by simp [alone]
    have nothing : Evaluated scene True Silent Never before start start before := builds_pure scene True before start valid ready sceneIn
    exact ⟨nothing.weaken (fun _ => trivial) (fun _ run => run) (fun _ run => run), by simp [RunsMatched]⟩
  | cons branch rest ih =>
    obtain ⟨test, statements⟩ := branch
    obtain ⟨body, bodies, rfl⟩ := exists_cons_of_length_eq_add_one same.symm
    simp only [length_cons, Nat.add_right_cancel_iff] at same
    simp only [forall_mem_cons] at small
    cases test with
    | none =>
      refine ends_mono (ih bodies same before start valid ready small.2) fun tested after done => ?_
      refine ⟨done.evaluated.weaken ?_ (fun _ run => run) (fun _ run => run), fun inner later exit grows reach => ?_⟩
      · rintro ⟨_, item, others, rfl, _, spelled⟩
        exact ⟨others, spelled⟩
      · exact done.matched inner later exit grows reach.2
    | some test =>
      simp only [map_cons, Case.test, zip_cons_cons, buildTests]
      refine ends_after (test.builds scene before start valid ready (by simp [alone])) fun checked d1 test => ?_
      refine ends_link fun d2 linked2 size2 => ends_add fun d3 added3 fault3 size3 => ?_
      refine ends_link fun d4 linked4 size4 => ?_
      have size1 := test.grows.size
      have testSmall := test.ready.inside
      have testOwn := test.own
      have stage1 : Stage before start [] d1 := ⟨test.valid, test.grows, by simp⟩
      have stage2 := stage1.connect linked2
      have stage4 := (stage2.add added3).connect linked4
      refine ends_mono (ih bodies same d4 d2.blocks.length stage4.valid stage4.ready fun other member =>
        by have := small.2 other member; omega) fun tested after done => ?_
      have others := done.evaluated
      have testedOwn := others.own
      have stage5 : Stage before start [] after := stage4.build others.grows others.valid
      have to4 := grows_later others.grows
      have to2 := grows_trans added3.later (grows_trans linked4.later to4)
      have to1 := grows_trans linked2.later to2
      have onward := flows_grow (flows_edge (linked4.made trivial) (by simp)) to4
      have chosen := flows_grow (flows_edge (linked2.made trivial) (by simp)) to2
      rw [linked4.tip, added3.tip, linked2.tip] at onward
      rw [linked2.tip] at chosen
      refine ⟨⟨stage5.grows, stage5.valid, .inr (by omega), others.ready, ?_, ?_, fun _ run => run.elim⟩, ?_⟩
      · rintro ⟨_, item, items, rfl, first, spelled⟩ none
        refine others.faultless ⟨items, spelled⟩ ?_
        rw [linked4.fault, fault3, linked2.fault]
        exact test.faultless ⟨_, .inr first.2.1⟩ none
      · rintro _ ⟨head, tail, early, late, rfl⟩
        have more := others.values tail late
        rw [stage4.tip] at more
        exact flows_trans (flows_grow (test.values head early) to1) (flows_trans onward more)
      intro inner later exit grows reach trace completion run
      obtain ⟨head, tail, early, late | late, rfl⟩ := run
      · have here := reach.1 tail completion (late)
        have flows := flows_grow (flows_trans (flows_grow (test.values head early) to1) chosen) grows
        simpa using reaches_before flows here
      · have there := done.matched inner later exit grows reach.2 tail completion late
        have flows := flows_grow (flows_trans (flows_grow (test.values head early) to1) onward) grows
        rw [stage4.tip] at there
        simpa using reaches_before flows there

theorem first_default {α : Type} (tests : List (Option α × Nat)) (single : (tests.filter (·.1.isNone)).length ≤ 1) :
    tests.reverse.find? (·.1.isNone) = tests.find? (·.1.isNone) := by
  rw [← List.head?_filter, ← List.head?_filter, filter_reverse]
  generalize tests.filter (·.1.isNone) = defaults at single ⊢
  match defaults, single with
  | [], _ => rfl
  | [_], _ => rfl

theorem default_count (cases : List Case) (bodies : List Nat) (same : cases.length = bodies.length) :
    (((cases.map Case.test).zip bodies).filter (·.1.isNone)).length = (cases.filter (·.test.isNone)).length := by
  induction cases generalizing bodies with
  | nil => rfl
  | cons branch rest ih =>
    obtain ⟨body, bodies, rfl⟩ := exists_cons_of_length_eq_add_one same.symm
    have rest := ih bodies (by simpa using same)
    cases isDefault : branch.test.isNone <;> simp [isDefault, rest]

theorem default_reaches {block offset : Nat} (cases : List Case) (bodies : List Nat)
    (reach : CasesReach inner draft exit cases bodies) (flows : Flows draft block offset []
      (((((cases.map Case.test).zip bodies).find? (·.1.isNone)).map (·.2)).getD exit) 0)
    (trace : List Value) (completion : Completion) (run : RunsDefault cases trace completion) :
    inner.Reaches draft exit 0 block offset trace completion := by
  induction cases generalizing bodies with
  | nil =>
    obtain ⟨rfl, rfl⟩ := run
    exact reaches_normal.mpr flows
  | cons branch rest ih =>
    obtain ⟨test, statements⟩ := branch
    cases bodies with
    | nil => exact reach.elim
    | cons body bodies =>
      cases test with
      | none =>
        have here := reach.1 trace completion (run)
        exact reaches_before flows here
      | some test => exact ih bodies reach.2 flows (run)

-- What the bodies of a switch come to, which are built in blocks that are there. The
-- body before the first one runs on into it, and the last one into whatever follows.
structure Cased (inner : Place) (Safe : Prop) (cases : List Case) (bodies fresh : List Nat) (previous : Option Nat)
    (origin : Draft) (start : Nat) (before : Draft) (last : Option Nat) (after : Draft) : Prop where
  stage : Stage origin start fresh after
  later : Later before after
  inside : ∀ final, last = some final → previous = some final ∨ (origin.blocks.length ≤ final ∧ final < after.blocks.length ∧ final ∉ fresh)
  faultless : Safe → before.fault = none → after.fault = none
  follows : ∀ block body bodies', previous = some block → bodies = body :: bodies' → block ∉ before.closed →
    Flows after block (before.tip block) [] body 0
  reach : Safe → ∀ later exit, Later after later →
    (∀ final, last = some final → final ∉ after.closed → Flows later final (after.tip final) [] exit 0) →
    CasesReach inner later exit cases bodies
  same : cases = [] → last = previous ∧ after = before

theorem ends_cases {origin : Draft} {start : Nat} (fresh : List Nat) (cases : List Case) (bodies : List Nat)
    (completes : ∀ branch ∈ cases, Completes inner around (branch.build inner) (Safe branch) branch.Runs)
    (same : cases.length = bodies.length) (previous : Option Nat) (before : Draft)
    (stage : Stage origin start (bodies ++ fresh) before) (distinct : (bodies ++ fresh).Nodup)
    (fits : inner.Fits around before.blocks.length) (own : ∀ block, previous = some block →
      origin.blocks.length ≤ block ∧ block < before.blocks.length ∧ block ∉ bodies ++ fresh) :
    Ends (buildCases inner cases bodies previous) before
      (Cased inner (∀ branch ∈ cases, Safe branch) cases bodies fresh previous origin start before) := by
  induction cases generalizing bodies previous before with
  | nil =>
    obtain rfl := length_eq_zero_iff.mp same.symm
    refine ends_pure previous ⟨stage, grows_refl _ _ _, fun final known => .inl known, fun _ none => none, ?_,
      fun _ _ _ _ _ => trivial, fun _ => ⟨rfl, rfl⟩⟩
    rintro _ _ _ _ ⟨⟩
  | cons branch rest ih =>
    obtain ⟨body, bodies, rfl⟩ := exists_cons_of_length_eq_add_one same.symm
    simp only [length_cons, Nat.add_right_cancel_iff] at same
    simp only [forall_mem_cons] at completes
    simp only [cons_append, nodup_cons] at distinct
    have bodySmall : body < before.blocks.length := (stage.untouched body (by simp)).2.1.inside
    -- From here on it does not matter how the first body was reached.
    have build (d1 : Draft) (size1 : d1.blocks.length = before.blocks.length)
        (stage1 : Stage origin start (body :: bodies ++ fresh) d1) (later1 : Later before d1)
        (fault1 : d1.fault = before.fault)
        (follows : ∀ block, previous = some block → block ∉ before.closed → Flows d1 block (before.tip block) [] body 0) :
        Ends (branch.build inner body >>= fun bodyEnd => buildCases inner rest bodies (some bodyEnd)) d1
          (Cased inner (∀ other ∈ branch :: rest, Safe other) (branch :: rest) (body :: bodies) fresh previous origin start before) := by
      have bodyLarge : origin.blocks.length ≤ body := (stage1.untouched body (by simp)).1
      refine ends_after (completes.1 d1 body stage1.valid stage1.ready (size1 ▸ fits)) fun bodyEnd d2 done => ?_
      have size2 := done.grows.size
      have doneOwn := done.own
      have stage2 : Stage origin start (bodies ++ fresh) d2 :=
        stage1.build done.grows done.valid (.inr bodyLarge) fun other member =>
          ⟨mem_cons_of_mem _ member, fun equal => distinct.1 (equal ▸ member)⟩
      have ownNext : ∀ block, some bodyEnd = some block →
          origin.blocks.length ≤ block ∧ block < d2.blocks.length ∧ block ∉ bodies ++ fresh := by
        rintro _ ⟨⟩
        refine ⟨by have := stage.grows.size; omega, done.inside, fun member => ?_⟩
        rcases doneOwn with equal | large
        · exact distinct.1 (equal ▸ member)
        · have := (stage.untouched bodyEnd (mem_cons_of_mem _ member)).2.1.inside
          omega
      refine ends_mono (ih bodies completes.2 same (some bodyEnd) d2 stage2 distinct.2 fits.mono ownNext) fun last after others => ?_
      refine ⟨others.stage, grows_trans later1 (grows_trans (grows_later done.grows) others.later), ?_, ?_, ?_, ?_, by simp⟩
      · intro final known
        refine .inr ?_
        rcases others.inside final known with first | inside
        · obtain ⟨large, small, absent⟩ := ownNext final first
          exact ⟨large, Nat.lt_of_lt_of_le small others.later.size, fun member => absent (mem_append_right _ member)⟩
        · exact inside
      · intro safe none
        simp only [forall_mem_cons] at safe
        exact others.faultless safe.2 (done.faultless safe.1 (fault1.trans none))
      · rintro block _ _ known ⟨⟩ isOpen
        exact flows_grow (follows block known isOpen) (grows_trans (grows_later done.grows) others.later)
      intro safe later exit grows finish
      simp only [forall_mem_cons] at safe
      have reach := others.reach safe.2 later exit grows finish
      refine ⟨fun trace completion run => ?_, reach⟩
      have toLater := grows_trans others.later grows
      have here (trace : List Value) (completion : Completion) (run : branch.Runs trace completion) :=
        reaches_grow (done.reaches safe.1 trace completion run) toLater
      rw [stage1.tip] at here
      rcases run with ⟨early, abrupt⟩ | ⟨head, tail, early, late, rfl⟩
      · exact reaches_abrupt (here trace completion early) abrupt
      have isOpen := done.opens safe.1 head early
      refine reaches_on (here head .normal early) ?_
      cases rest with
      | nil =>
        obtain ⟨rfl, rfl⟩ := others.same rfl
        obtain ⟨rfl, rfl⟩ := late
        exact reaches_normal.mpr (finish bodyEnd rfl isOpen)
      | cons next rest =>
        obtain ⟨second, bodies, rfl⟩ := exists_cons_of_length_eq_add_one same.symm
        have onward := flows_grow (others.follows bodyEnd second bodies rfl rfl isOpen) grows
        exact reaches_before onward (reach.1 tail completion late)
    cases previous with
    | none => exact build before rfl stage (grows_refl _ _ _) rfl (by rintro _ ⟨⟩)
    | some block =>
      obtain ⟨large, small, absent⟩ := own block rfl
      refine ends_leave fun d1 linked1 _ => build d1 linked1.size ?_ linked1.later linked1.fault ?_
      · exact stage.connect linked1 small bodySmall (.inr large) (.inl absent)
      · rintro _ ⟨⟩ isOpen
        have flows := flows_edge (linked1.made isOpen) (by simp : EdgeKind.unconditional ≠ .exception)
        rwa [linked1.tip] at flows

theorem default_member {tests : List (Option Expr)} {bodies : List Nat} {body : Nat}
    (found : defaultBody (tests.zip bodies) = some body) : body ∈ bodies := by
  obtain ⟨⟨test, _⟩, search, rfl⟩ := Option.map_eq_some_iff.mp found
  exact (of_mem_zip (mem_reverse.mp (mem_of_find?_eq_some search))).2

abbrev RunsSwitch (cases : List Case) : Runs := Catching (Completion.LeavesLoop none) fun trace completion =>
  RunsMatched cases trace completion ∨ Before (Unmatched cases) (RunsDefault cases) trace completion

-- What the switch of a place adds to the places around its bodies.
theorem switch_within (place : Place) (after : Nat) :
    (Layout.inSwitch place after).Within place ⟨none, after, none, place.finalizers.length, true⟩ := ⟨rfl, rfl, rfl, rfl⟩

theorem switch_fits {place : Place} {size after : Nat} (fits : place.Fits around size) (small : after < size) :
    (Layout.inSwitch place after).Fits (.switch :: around) size :=
  fits.enter (switch_within place after) ⟨rfl, by simpa using small, by simp, rfl, Nat.le_refl _, rfl⟩

theorem default_goal (cases : List Case) (bodies : List Nat) (exit : Nat) :
    (defaultBody ((cases.map Case.test).zip bodies)).getD exit ∈ bodies ++ [exit] := by
  cases found : defaultBody ((cases.map Case.test).zip bodies) with
  | none => simp
  | some body => exact mem_append_left _ (default_member found)

-- Which edge leads on from the tests does not matter.
theorem ends_default {tests : List (Option Expr × Nat)} {tested : Nat} {rest : Build Nat} {Post : Nat → Draft → Prop}
    (build : ∀ kind, kind ≠ EdgeKind.exception → Ends (do connect tested ((defaultBody tests).getD exit) kind; rest) draft Post) :
    Ends (do
      match defaultBody tests with
      | some body => connect tested body .case
      | none => connect tested exit .whenFalse
      rest) draft Post := by
  cases found : defaultBody tests with
  | none =>
    have built := build .whenFalse (by simp)
    rwa [found] at built
  | some body =>
    have built := build .case (by simp)
    rwa [found] at built

theorem completes_switch (place : Place) {SafeAll : Prop} {runs : Runs} (cases : List Case)
    (completes : ∀ inner : Place, ∀ branch ∈ cases, Completes inner (.switch :: around) (branch.build inner) (Safe branch) branch.Runs)
    (safety : SafeAll → (∀ branch ∈ cases, Safe branch) ∧ (∃ items, SpelledCases cases items) ∧ (cases.filter (·.test.isNone)).length ≤ 1)
    (running : ∀ trace completion, runs trace completion → RunsSwitch cases trace completion) :
    Completes place around (Layout.switch place cases) SafeAll runs := by
  intro before start valid ready fits
  have small := ready.inside
  refine ends_add fun d1 added1 fault1 size1 => ends_bind (ends_new_blocks cases d1 fun d2 added2 fault2 => ?_)
  have size2 := added2.size
  have stage2 := ((stage_begin before start valid).add added1).add_all added2
  have same : cases.length = (List.range' d1.blocks.length cases.length).length := by simp
  have distinct : (List.range' d1.blocks.length cases.length ++ [before.blocks.length]).Nodup := by
    refine nodup_append.mpr ⟨nodup_range', by simp, fun body member other last => ?_⟩
    have := mem_range'_1.mp member
    have := mem_singleton.mp last
    omega
  have listed (block : Nat) (member : block ∈ List.range' d1.blocks.length cases.length ++ [before.blocks.length]) :
      before.blocks.length ≤ block ∧ block < d2.blocks.length := by
    simp only [mem_append, mem_range'_1, mem_singleton] at member
    omega
  generalize List.range' d1.blocks.length cases.length = bodies at *
  refine ends_after (ends_tests rfl cases bodies same d2 start stage2.valid
    (added2.ready start (added1.ready start ready)) fun body member => (listed body (mem_append_left _ member)).2)
    fun tested d3 tests => ?_
  have testing := tests.evaluated
  have size3 := testing.grows.size
  have testedSmall := testing.ready.inside
  have testedOwn := testing.own
  have stage3 : Stage before start (bodies ++ [before.blocks.length]) d3 := by
    refine stage2.build testing.grows testing.valid (.inl rfl) fun block member => ⟨member, ?_⟩
    have := listed block member
    omega
  have within := switch_within place before.blocks.length
  have below : before.blocks.length < d3.blocks.length := by omega
  have innerFits := switch_fits (fits.mono (Nat.le_of_lt below)) below
  refine ends_default fun kind normal => ends_link fun d4 linked4 size4 => ?_
  have stage4 : Stage before start (bodies ++ [before.blocks.length]) d4 := by
    refine stage3.connect linked4 testedSmall (stage3.ready (default_goal cases bodies _)).inside (by omega) (.inl fun member => ?_)
    have := listed tested member
    omega
  refine ends_after (ends_cases [before.blocks.length] cases bodies (completes _) same none d4 stage4 distinct
    (size4 ▸ innerFits) (by simp)) fun last d5 cased => ?_
  have finish (d6 : Draft) (later : Later d5 d6) (stage : Stage before start [before.blocks.length] d6) (fault : d6.fault = d5.fault)
      (ends : ∀ final, last = some final → final ∉ d5.closed → Flows d6 final (d5.tip final) [] before.blocks.length 0) :
      Completed place SafeAll runs before start before.blocks.length d6 := by
    have to4 := grows_trans cased.later later
    have to3 := grows_trans linked4.later to4
    refine ⟨stage.grows, stage.valid, .inr (Nat.le_refl _), (stage.ready).inside,
      fun _ => stage.ready, fun safe none => ?_, fun safe trace completion run => ?_,
      fun _ _ _ => (stage.ready).isOpen⟩
    · rw [fault]
      refine cased.faultless (safety safe).1 ?_
      rw [linked4.fault]
      refine testing.faultless (safety safe).2.1 ?_
      rw [fault2, fault1, none]
    · obtain ⟨safeCases, _, single⟩ := safety safe
      have reach := cased.reach safeCases d6 before.blocks.length later ends
      have chosen := flows_grow (flows_edge (linked4.made trivial) normal) to4
      rw [linked4.tip, defaultBody, first_default _ (by rwa [default_count cases bodies same])] at chosen
      have startTip : d2.tip start = before.tip start := by rw [added2.tip, added1.tip]
      rw [stage.tip]
      refine switch_reaches within (fun trace completion run => ?_) (running trace completion run)
      rw [← startTip]
      rcases run with matched | ⟨head, tail, unmatched, byDefault, rfl⟩
      · exact tests.matched _ d6 _ to3 reach trace completion matched
      · exact reaches_before (flows_grow (testing.values head unmatched) to3)
          (default_reaches cases bodies reach chosen tail completion byDefault)
  cases last with
  | none => exact finish d5 (grows_refl _ _ _) cased.stage rfl (by rintro _ ⟨⟩)
  | some final =>
    rcases cased.inside final rfl with ⟨⟨⟩⟩ | ⟨large, finalSmall, absent⟩
    refine ends_leave fun d6 linked6 _ => ends_pure _ (finish d6 linked6.later ?_ linked6.fault ?_)
    · exact cased.stage.connect linked6 finalSmall (cased.stage.ready).inside (.inr large) (.inl absent)
    · rintro _ ⟨⟩ isOpen
      have flows := flows_edge (linked6.made isOpen) (by simp : EdgeKind.unconditional ≠ .exception)
      rwa [linked6.tip] at flows

end HookLint.Flow
