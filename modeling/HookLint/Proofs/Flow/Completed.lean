import HookLint.Proofs.Flow.Evaluated
import HookLint.Proofs.Flow.Landing

namespace HookLint.Flow

open List

variable {A B : Runs} {SafeFirst SafeSecond : Prop} {first same second : Nat → Build Nat} {linked : Draft} {size target : Nat}

variable {Less : Prop} {fewer : Runs} {before after : Draft} {start final : Nat} {scene : Scene} {Values Skips : Traces}
  {kind : EdgeKind} {body : Place → Nat → Build Nat}

-- What building a statement from a block on comes to. Each run leads from the calls of the block to where its completion
-- lands, and the last block is left open if a run ends there normally.
structure Completed (place : Place) (Safe : Prop) (runs : Runs) (before : Draft) (start final : Nat) (after : Draft) : Prop where
  grows : Grows before.blocks.length start before after
  valid : after.Valid
  own : final = start ∨ before.blocks.length ≤ final
  inside : final < after.blocks.length
  ready : final ∉ after.closed → after.Ready final
  faultless : Safe → before.fault = none → after.fault = none
  reaches : Safe → ∀ trace completion, runs trace completion →
    place.Reaches after final (after.tip final) start (before.tip start) trace completion
  opens : Safe → ∀ trace, runs trace .normal → final ∉ after.closed

def Completes (place : Place) (around : List Surrounding) (action : Nat → Build Nat) (Safe : Prop) (runs : Runs) : Prop :=
  ∀ before start, before.Valid → before.Ready start → place.Fits around before.blocks.length →
    Ends (action start) before (Completed place Safe runs before start)

-- The same from a block that may end in a jump, after which nothing runs.
def CompletesAny (place : Place) (around : List Surrounding) (action : Nat → Build Nat) (Safe : Prop) (runs : Runs) : Prop :=
  ∀ before start, before.Valid → start < before.blocks.length → (start ∉ before.closed → before.Ready start) →
    place.Fits around before.blocks.length →
    Ends (action start) before (Completed place Safe (fun trace completion => start ∉ before.closed ∧ runs trace completion) before start)

section
variable {place : Place} {around : List Surrounding} {Safe : Prop} {runs : Runs} {action : Nat → Build Nat}

theorem Completed.weaken (done : Completed place Safe runs before start final after) (less : Less → Safe)
    (fewerRuns : Less → ∀ trace completion, fewer trace completion → runs trace completion) :
    Completed place Less fewer before start final after :=
  ⟨done.grows, done.valid, done.own, done.inside, done.ready, fun safe => done.faultless (less safe),
    fun safe trace completion run => done.reaches (less safe) trace completion (fewerRuns safe trace completion run),
    fun safe trace run => done.opens (less safe) trace (fewerRuns safe trace .normal run)⟩

theorem completes_of (completes : Completes place around action Safe runs) (less : Less → Safe)
    (fewerRuns : Less → ∀ trace completion, fewer trace completion → runs trace completion := by exact fun _ _ _ run => run)
    (equal : ∀ start, same start = action start := by intro _; rfl) : Completes place around same Less fewer := by
  intro before start valid ready fits
  rw [equal]
  exact ends_mono (completes before start valid ready fits) fun _ _ done => done.weaken less fewerRuns

section
variable (completes : CompletesAny place around action Safe runs)
include completes

theorem completes_any_of (less : Less → Safe)
    (fewerRuns : Less → ∀ trace completion, fewer trace completion → runs trace completion := by exact fun _ _ _ run => run)
    (equal : ∀ start, same start = action start := by intro _; rfl) : CompletesAny place around same Less fewer := by
  intro before start valid small ready fits
  rw [equal]
  exact ends_mono (completes before start valid small ready fits) fun _ _ done =>
    done.weaken less fun safe trace completion run => ⟨run.1, fewerRuns safe trace completion run.2⟩

theorem completes_ready : Completes place around action Safe runs := by
  intro before start valid ready fits
  exact ends_mono (completes before start valid ready.inside (fun _ => ready) fits) fun _ _ done =>
    done.weaken id fun _ _ _ run => ⟨ready.isOpen, run⟩

end

theorem completes_evaluated (alone : scene.chainEnd = none)
    (builds : Builds scene action Safe Values Skips) : Completes place around action Safe (Normally Values) := by
  intro before start valid ready _
  refine ends_mono (builds before start valid ready (by simp [alone])) fun final after done => ?_
  refine ⟨done.grows, done.valid, done.own, done.ready.inside, fun _ => done.ready, done.faultless, ?_, fun _ _ _ => done.ready.isOpen⟩
  rintro _ trace _ ⟨run, rfl⟩
  exact reaches_normal.mpr (done.values trace run)

theorem completes_before (alone : scene.chainEnd = none) (builds : Builds scene first SafeFirst Values Skips)
    (completes : Completes place around second SafeSecond runs) :
    Completes place around (fun start => first start >>= second) (SafeFirst ∧ SafeSecond) (Before Values runs) := by
  intro before start valid ready fits
  refine ends_after (builds before start valid ready (by simp [alone])) fun middle between done => ?_
  refine ends_mono (completes between middle done.valid done.ready (fits.mono done.grows.size)) fun final after more => ?_
  refine ⟨grows_trans done.grows (grows_narrow more.grows done.grows.size done.own), more.valid,
    own_trans done.own more.own done.grows.size, more.inside, more.ready, fun safe none => more.faultless safe.2 (done.faultless safe.1 none), ?_, ?_⟩
  · rintro safe _ completion ⟨head, tail, early, late, rfl⟩
    exact reaches_before (flows_grow (done.values head early) more.grows) (more.reaches safe.2 tail completion late)
  · rintro safe _ ⟨head, tail, _, late, _⟩
    exact more.opens safe.2 tail late

theorem completes_in_turn (completes : Completes place around first SafeFirst A) (follows : CompletesAny place around second SafeSecond B) :
    Completes place around (fun start => first start >>= second) (SafeFirst ∧ SafeSecond) (InTurn A B) := by
  intro before start valid ready fits
  refine ends_after (completes before start valid ready fits) fun middle between done => ?_
  refine ends_mono (follows between middle done.valid done.inside done.ready (fits.mono done.grows.size)) fun final after more => ?_
  refine ⟨grows_trans done.grows (grows_narrow more.grows done.grows.size done.own), more.valid,
    own_trans done.own more.own done.grows.size, more.inside, more.ready, fun safe none => more.faultless safe.2 (done.faultless safe.1 none), ?_, ?_⟩
  · rintro safe trace completion (⟨early, abrupt⟩ | ⟨head, tail, early, late, rfl⟩)
    · exact reaches_abrupt (reaches_grow (done.reaches safe.1 trace completion early) more.grows) abrupt
    · have onward := reaches_grow (done.reaches safe.1 head .normal early) more.grows
      exact reaches_on onward (more.reaches safe.2 tail completion ⟨done.opens safe.1 head early, late⟩)
  · rintro safe trace (⟨_, abrupt⟩ | ⟨head, tail, early, late, _⟩)
    · exact absurd rfl abrupt
    · exact more.opens safe.2 tail ⟨done.opens safe.1 head early, late⟩

theorem completes_marked (change : Block → Block) (quiet : ∀ block, (change block).calls = block.calls)
    (completes : Completes place around action Safe runs) :
    Completes place around (fun start => do modifyBlock start change; action start) Safe runs := by
  intro before start valid ready fits
  refine ends_bind (ends_modify_block quiet fun marked padded fault => ?_)
  have size := padded.size
  refine ends_mono (completes marked start (padded.valid valid) (padded.ready start ready) fits.mono) fun final after done => ?_
  refine ⟨grows_trans (padded.grows _ _) (grows_narrow done.grows (by omega) (.inl rfl)), done.valid, ?_, done.inside,
    done.ready, fun safe none => done.faultless safe (fault.trans none), ?_, done.opens⟩
  · exact done.own.imp_right (by omega)
  · rw [← padded.tip start]
    exact done.reaches

theorem completes_refreshed {inLoop : Bool} {kind : BlockKind} (completes : Completes place around action Safe runs) :
    CompletesAny place around (fun start => do
      let block ← if ← isClosed start then newBlock inLoop kind else pure start
      action block) Safe runs := by
  intro before start valid small ready fits
  refine ends_bind (ends_is_closed ?_)
  by_cases member : start ∈ before.closed
  · rw [contains_iff_mem.mpr member]
    refine ends_add fun added padded fault size => ?_
    refine ends_mono (completes added before.blocks.length (padded.valid valid) (padded.ready_new valid _ (Nat.le_refl _) (by omega))
      fits.mono) fun final after done => ?_
    refine ⟨grows_trans (padded.grows _ _) (grows_narrow done.grows (by omega) (.inr (Nat.le_refl _))), done.valid, ?_,
      done.inside, done.ready, fun safe none => done.faultless safe (fault.trans none),
      fun _ _ _ run => absurd member run.1, fun _ _ run => absurd member run.1⟩
    rcases done.own with rfl | large
    · exact .inr (Nat.le_refl _)
    · exact .inr (by omega)
  · rw [Bool.eq_false_iff.mpr fun found => member (contains_iff_mem.mp found)]
    exact ends_mono (completes before start valid (ready member) fits) fun _ _ done => done.weaken id fun _ _ _ run => run.2

theorem completes_nothing (place : Place) (around : List Surrounding) :
    CompletesAny place around (fun start => pure start) True (Normally Silent) := by
  intro before start valid small ready _
  refine ends_pure start ⟨grows_refl _ _ _, valid, .inl rfl, small, ready, fun _ none => none, ?_, fun _ _ run => run.1⟩
  rintro _ _ _ ⟨_, rfl, rfl⟩
  exact reaches_normal.mpr (.stay start _)

theorem completes_noted (node : Value) (completes : Completes place around action Safe runs) :
    Completes place around (fun start => do noteStatement start node; action start) Safe runs :=
  completes_marked (fun block => { block with statements := block.statements ++ [node] }) (fun _ => rfl) completes

theorem close_grows {draft : Draft} (base start : Nat) (block : Nat) (own : block = start ∨ base ≤ block) :
    Grows base start draft { draft with closed := block :: draft.closed } := by
  refine ⟨Nat.le_refl _, fun _ member => member, fun _ member => member, fun _ => prefix_refl _, fun _ _ => rfl,
    fun other small different => ⟨rfl, id, fun member => ?_⟩⟩
  rcases mem_cons.mp member with rfl | old
  · omega
  · exact old

theorem completed_closed {landing : Nat}
    (grows : Grows before.blocks.length start before linked) (valid : linked.Valid) (small : start < linked.blocks.length)
    (fault : linked.fault = before.fault) (tip : linked.tip start = before.tip start)
    (made : ⟨start, landing, kind⟩ ∈ linked.edges) (normal : kind ≠ .exception)
    (lands : Safe → ∀ trace completion, runs trace completion → trace = [] ∧ completion ≠ .normal ∧
      ∀ final finalOffset, place.Lands linked final finalOffset completion landing 0) :
    Completed place Safe runs before start start { linked with closed := start :: linked.closed } := by
  have closing : Grows before.blocks.length start linked { linked with closed := start :: linked.closed } :=
    close_grows _ _ start (.inl rfl)
  refine ⟨grows_trans grows closing, ⟨valid.edges, ?_, valid.pending⟩, .inl rfl, small, ?_, ?_, ?_, ?_⟩
  · rintro block member
    rcases mem_cons.mp member with rfl | old
    · exact small
    · exact valid.closed block old
  · exact fun isOpen => absurd (mem_cons_self) isOpen
  · exact fun _ none => fault.trans none
  · intro safe trace completion run
    obtain ⟨rfl, _, lands⟩ := lands safe trace completion run
    have flows := flows_edge made normal
    rw [tip] at flows
    exact reaches_grow ⟨landing, 0, lands _ _, flows⟩ closing
  · intro safe trace run
    exact absurd rfl (lands safe trace .normal run).2.1

theorem completes_jump {depth : Nat} (normal : kind ≠ .exception) (small : ∀ size, place.Fits around size → target < size)
    (lands : Safe → ∀ trace completion, runs trace completion → trace = [] ∧ completion ≠ .normal ∧
      ∀ draft final finalOffset landing, place.Aims draft target depth landing → place.Lands draft final finalOffset completion landing 0) :
    Completes place around (fun start => do jump place start target kind depth; close start; return start) Safe runs := by
  intro before start valid ready fits
  refine ends_bind (ends_jump fun waiting landing linked origin lies connected aims => ?_)
  have inside := small _ fits
  have waits : ∀ jumping ∈ waiting, jumping.finalizer < before.blocks.length ∧ jumping.target < before.blocks.length := by
    intro jumping member
    obtain ⟨finalizer, rfl⟩ := origin jumping member
    exact ⟨fits.finalizers _ finalizer, inside⟩
  have landingSmall : landing < before.blocks.length := by
    rcases lies with rfl | member
    · exact inside
    · exact fits.finalizers landing member
  refine ends_bind (ends_close fun closed equal => ends_pure start ?_)
  subst equal
  refine completed_closed (grows_trans (waiting_grows _ _ waiting) (connected.grows _ _ (.inl rfl)))
    (connected.valid (waiting_valid valid waits) ready.inside landingSmall) (connected.size ▸ ready.inside)
    connected.fault (connected.tip start) (connected.made trivial) normal fun safe trace completion run => ?_
  obtain ⟨empty, abrupt, lands⟩ := lands safe trace completion run
  exact ⟨empty, abrupt, fun final finalOffset => lands linked final finalOffset landing (aims normal)⟩

theorem completes_throw : Completes place around (fun start => do connect start place.handler .throw; close start; return start) True
      fun trace completion => trace = [] ∧ completion = .thrown := by
  intro before start valid ready fits
  refine ends_link fun linked connected _ => ends_bind (ends_close fun closed equal => ends_pure start ?_)
  subst equal
  refine completed_closed (connected.grows _ _ (.inl rfl)) (connected.valid valid ready.inside fits.handler)
    (connected.size ▸ ready.inside) connected.fault (connected.tip start) (connected.made trivial) (by simp) ?_
  rintro _ trace completion ⟨rfl, rfl⟩
  exact ⟨rfl, by simp, fun _ _ => ⟨rfl, rfl⟩⟩

example : ((do connect 0 2 .throw; close 0; return 0 : Build Nat).run {}).2.closed = [0] := by decide +kernel

theorem completes_approximate (inLoop : Bool) (area : Region) (reason : Reason) :
    Completes place around (approximate inLoop area reason) False fun _ _ => False :=
  completes_of (completes_evaluated rfl (builds_approximate {} inLoop area reason)) id (fun safe => safe.elim)

theorem Stage.completed {fresh : List Nat} (stage : Stage before start fresh after)
    (faultless : Safe → before.fault = none → after.fault = none) (reaches : Safe → ∀ trace completion, runs trace completion →
      place.Reaches after final 0 start (before.tip start) trace completion) (member : final ∈ fresh := by simp) :
    Completed place Safe runs before start final after := by
  obtain ⟨large, ready, tip⟩ := stage.untouched final member
  exact ⟨stage.grows, stage.valid, .inr large, ready.inside, fun _ => ready, faultless, tip.symm ▸ reaches, fun _ _ _ => ready.isOpen⟩

theorem completed_flows {later : Draft} {count : Nat}
    (done : Completed place Safe runs before start final after) (padded : Padded count after later)
    (connected : Connected (final ∉ later.closed) ⟨final, target, kind⟩ later linked) (normal : kind ≠ .exception)
    (safe : Safe) (trace : List Value) (completion : Completion) (run : runs trace completion) :
    place.Reaches linked target 0 start (before.tip start) trace completion := by
  have reaches := reaches_grow (done.reaches safe trace completion run) (grows_trans padded.later connected.later)
  refine reaches_extend reaches ?_
  rintro rfl
  have isOpen : final ∉ later.closed := padded.closed ▸ done.opens safe trace run
  have flows := flows_edge (connected.made isOpen) normal
  rwa [connected.tip, padded.tip] at flows

theorem completes_if_else {left right : Nat → Build Nat} {SafeLeft SafeRight : Prop} (inLoop : Bool)
    (completesLeft : Completes place around left SafeLeft A) (completesRight : Completes place around right SafeRight B) :
    Completes place around (Layout.ifElse inLoop left right) (SafeLeft ∧ SafeRight)
    fun trace completion => A trace completion ∨ B trace completion := by
  intro before start valid ready fits
  have small := ready.inside
  refine ends_add fun d1 added1 fault1 size1 => ends_link fun d2 linked2 size2 => ?_
  have stage2 := ((stage_begin before start valid).add added1).connect linked2
  refine ends_after (completesLeft d2 before.blocks.length stage2.valid stage2.ready fits.mono) fun bodyEnd d3 body => ?_
  refine ends_add fun d4 added4 fault4 size4 => ends_leave fun d5 linked5 size5 => ?_
  refine ends_add fun d6 added6 fault6 size6 => ends_link fun d7 linked7 size7 => ?_
  have size3 := body.grows.size
  have bodySmall := body.inside
  have bodyOwn := body.own
  have stage3 : Stage before start [] d3 := stage2.build body.grows body.valid
  have stage5 := (stage3.add added4).connect linked5
  have stage7 := (stage5.add added6).connect linked7
  refine ends_after (completesRight d7 d5.blocks.length stage7.valid stage7.ready fits.mono) fun otherEnd d8 other => ?_
  refine ends_leave fun d9 linked9 _ => ends_pure _ ?_
  have size8 := other.grows.size
  have otherSmall := other.inside
  have otherOwn := other.own
  have stage8 : Stage before start [d3.blocks.length] d8 := stage7.build other.grows other.valid
  have stage9 := stage8.connect linked9
  have to7 := grows_trans (grows_later other.grows) linked9.later
  have to5 := grows_trans (grows_trans added6.later linked7.later) to7
  have to3 := grows_trans (grows_trans added4.later linked5.later) to5
  have to2 := grows_trans (grows_later body.grows) to3
  have startTip2 : d2.tip start = before.tip start := by rw [linked2.tip, added1.tip]
  have startTip7 : d7.tip start = before.tip start := by
    rw [linked7.tip, added6.tip, linked5.tip, added4.tip, tip_kept body.grows start (by omega) (by omega), startTip2]
  refine stage9.completed (fun safe none => ?_) ?_
  · rw [linked9.fault]
    refine other.faultless safe.2 ?_
    rw [linked7.fault, fault6, linked5.fault, fault4]
    refine body.faultless safe.1 ?_
    rw [linked2.fault, fault1, none]
  rintro safe trace completion (run | run)
  · have enter := flows_grow (flows_edge (linked2.made trivial) (by simp)) to2
    have inside := completed_flows body added4 linked5 (by simp) safe.1 trace completion run
    rw [startTip2] at enter
    rw [stage2.tip] at inside
    exact reaches_before enter (reaches_grow inside to5)
  · have enter := flows_grow (flows_edge (linked7.made trivial) (by simp)) to7
    have inside := completed_flows other (padded_refl d8) linked9 (by simp) safe.2 trace completion run
    rw [startTip7] at enter
    rw [stage7.tip] at inside
    exact reaches_before enter inside

theorem completes_if (inLoop : Bool) (completes : Completes place around action Safe runs) :
    Completes place around (Layout.ifThen inLoop action) Safe
    fun trace completion => runs trace completion ∨ Normally Silent trace completion := by
  intro before start valid ready fits
  have small := ready.inside
  refine ends_add fun d1 added1 fault1 size1 => ends_link fun d2 linked2 size2 => ?_
  have stage2 := ((stage_begin before start valid).add added1).connect linked2
  refine ends_after (completes d2 before.blocks.length stage2.valid stage2.ready fits.mono) fun bodyEnd d3 body => ?_
  refine ends_add fun d4 added4 fault4 size4 => ends_leave fun d5 linked5 size5 => ?_
  refine ends_link fun d6 linked6 _ => ends_pure _ ?_
  have size3 := body.grows.size
  have bodySmall := body.inside
  have bodyOwn := body.own
  have stage3 : Stage before start [] d3 := stage2.build body.grows body.valid
  have stage5 := (stage3.add added4).connect linked5
  have stage6 := stage5.connect linked6
  have to3 := grows_trans (grows_trans added4.later linked5.later) linked6.later
  have to2 := grows_trans (grows_later body.grows) to3
  have startTip2 : d2.tip start = before.tip start := by rw [linked2.tip, added1.tip]
  have startTip6 : d6.tip start = before.tip start := by
    rw [linked6.tip, linked5.tip, added4.tip, tip_kept body.grows start (by omega) (by omega), startTip2]
  refine stage6.completed (fun safe none => ?_) ?_
  · rw [linked6.fault, linked5.fault, fault4]
    refine body.faultless safe ?_
    rw [linked2.fault, fault1, none]
  rintro safe trace completion (run | ⟨rfl, rfl⟩)
  · have enter := flows_grow (flows_edge (linked2.made trivial) (by simp)) to2
    have inside := completed_flows body added4 linked5 (by simp) safe trace completion run
    rw [startTip2] at enter
    rw [stage2.tip] at inside
    exact reaches_before enter (reaches_grow inside linked6.later)
  · have skip := flows_edge (linked6.made trivial) (by simp : EdgeKind.whenFalse ≠ .exception)
    rw [startTip6] at skip
    exact reaches_normal.mpr skip

example : ((Layout.ifThen false pure 0).run { blocks := [default] }).2.edges.map (·.target) = [1, 2, 2] := by decide +kernel

theorem within_labeled (place : Place) (label : Option Value) (after : Nat) :
    ({ place with targets := ⟨label, after, none, place.finalizers.length, false⟩ :: place.targets } : Place).Within place
      ⟨label, after, none, place.finalizers.length, false⟩ := ⟨rfl, rfl, rfl, rfl⟩

theorem labeled_fits {after : Nat} (fits : place.Fits around size) (label : Option Value) (inside : after < size := by omega) :
    ({ place with targets := ⟨label, after, none, place.finalizers.length, false⟩ :: place.targets } : Place).Fits
      (.labeled label :: around) size :=
  fits.enter (within_labeled place label after) ⟨rfl, inside, nofun, rfl, Nat.le_refl _, rfl⟩

theorem completes_labeled (inLoop : Bool) (label : Option Value)
    (completes : ∀ inner : Place, Completes inner (.labeled label :: around) (body inner) Safe runs) :
    Completes place around (Layout.labeled place inLoop label body) Safe (Catching (Completion.LeavesLabel label) runs) := by
  intro before start valid ready fits
  have small := ready.inside
  refine ends_add fun d1 added1 fault1 size1 => ?_
  have stage1 := (stage_begin before start valid).add added1
  refine ends_after (completes _ d1 start stage1.valid (added1.ready start ready) (labeled_fits fits.mono label))
    fun bodyEnd d2 inside => ?_
  refine ends_leave fun d3 linked3 _ => ends_pure _ ?_
  have size2 := inside.grows.size
  have bodySmall := inside.inside
  have bodyOwn := inside.own
  have stage2 : Stage before start [before.blocks.length] d2 := stage1.build inside.grows inside.valid
  have stage3 := stage2.connect linked3
  refine stage3.completed (fun safe none => ?_) fun safe trace completion run => ?_
  · rw [linked3.fault]
    exact inside.faultless safe (fault1.trans none)
  · rw [← added1.tip start]
    exact labeled_reaches (within_labeled place label _)
      (fun trace completion => completed_flows inside (padded_refl d2) linked3 (by simp) safe trace completion) run

theorem within_loop_body (place : Place) (label : Option Value) (breakTo continueTo : Nat) :
    (place.inLoopBody label breakTo continueTo).Within place
      ⟨label, breakTo, some continueTo, place.finalizers.length, true⟩ := ⟨rfl, rfl, rfl, rfl⟩

theorem loop_body_fits {breakTo continueTo : Nat} (fits : place.Fits around size) (label : Option Value)
    (breaks : breakTo < size := by omega) (continues : continueTo < size := by omega) :
    (place.inLoopBody label breakTo continueTo).Fits (.loop label :: around) size := by
  refine fits.enter (within_loop_body place label breakTo continueTo) ⟨rfl, breaks, ?_, rfl, Nat.le_refl _, rfl⟩
  rintro _ ⟨⟩
  exact continues

section
variable {test : Nat → Build Nat} {SafeTest : Prop} (inLoop : Bool) (label : Option Value) (alone : scene.chainEnd = none)
  (builds : Builds scene test SafeTest Values Skips)
  (completes : ∀ inner : Place, Completes inner (.loop label :: around) (body inner) Safe runs)
include alone builds completes

theorem completes_while : Completes place around (Layout.whileLoop place inLoop label test body) (SafeTest ∧ Safe)
    (Loop label Values Values runs Silent fun _ => False) := by
  intro before start valid ready fits
  have small := ready.inside
  refine ends_add fun d1 added1 fault1 size1 => ends_link fun d2 linked2 size2 => ?_
  have stage2 := ((stage_begin before start valid).add added1).connect linked2
  refine ends_after (builds d2 before.blocks.length stage2.valid stage2.ready (by simp [alone])) fun tested d3 test => ?_
  refine ends_add fun d4 added4 fault4 size4 => ends_add fun d5 added5 fault5 size5 => ?_
  refine ends_link fun d6 linked6 size6 => ends_link fun d7 linked7 size7 => ?_
  have size3 := test.grows.size
  have testSmall := test.ready.inside
  have testOwn := test.own
  have stage3 : Stage before start [] d3 := stage2.build test.grows test.valid
  have stage6 := ((stage3.add added4).add added5).connect linked6
  have stage7 := stage6.connect linked7
  refine ends_after (completes _ d7 d4.blocks.length stage7.valid stage7.ready (loop_body_fits fits.mono label)) fun bodyEnd d8 body => ?_
  refine ends_leave fun d9 linked9 _ => ends_pure _ ?_
  have size8 := body.grows.size
  have bodySmall := body.inside
  have bodyOwn := body.own
  have stage8 : Stage before start [d3.blocks.length] d8 := stage7.build body.grows body.valid
  have stage9 := stage8.connect linked9
  have to7 := grows_trans (grows_later body.grows) linked9.later
  have to6 := grows_trans linked7.later to7
  have to3 := grows_trans (grows_trans added4.later added5.later) (grows_trans linked6.later to6)
  have to2 := grows_trans (grows_later test.grows) to3
  have enter := flows_grow (flows_edge (linked2.made trivial) (by simp)) to2
  have onward := flows_grow (flows_edge (linked6.made trivial) (by simp)) to6
  have outward := flows_grow (flows_edge (linked7.made trivial) (by simp)) to7
  rw [linked2.tip, added1.tip] at enter
  rw [linked6.tip, added5.tip, added4.tip] at onward
  rw [linked7.tip, linked6.tip, added5.tip, added4.tip] at outward
  refine stage9.completed (fun safe none => ?_) fun safe trace completion run => ?_
  · rw [linked9.fault]
    refine body.faultless safe.2 ?_
    rw [linked7.fault, linked6.fault, fault5, fault4]
    refine test.faultless safe.1 ?_
    rw [linked2.fault, fault1, none]
  have tested (trace : List Value) (value : Values trace) := flows_grow (test.values trace value) to3
  have rounds := completed_flows body (padded_refl d8) linked9 (by simp) safe.2
  rw [stage2.tip] at tested
  rw [stage7.tip] at rounds
  refine reaches_before enter (loop_reaches (within_loop_body place label _ _) ?_ ?_ rounds ?_ ?_ run)
  · exact fun trace value => by simpa using flows_trans (tested trace value) onward
  · exact fun trace value => by simpa using flows_trans (tested trace value) outward
  · rintro _ rfl
    exact .stay _ 0
  · exact fun _ impossible => impossible.elim

theorem completes_do_while : Completes place around (Layout.doWhile place inLoop label test body) (Safe ∧ SafeTest)
    (Loop label Silent (fun _ => False) runs Values Values) := by
  intro before start valid ready fits
  have small := ready.inside
  refine ends_add fun d1 added1 fault1 size1 => ends_add fun d2 added2 fault2 size2 => ?_
  refine ends_add fun d3 added3 fault3 size3 => ends_link fun d4 linked4 size4 => ?_
  have stage4 := ((((stage_begin before start valid).add added1).add added2).add added3).connect linked4
  refine ends_after (completes _ d4 d2.blocks.length stage4.valid stage4.ready (loop_body_fits fits.mono label)) fun bodyEnd d5 body => ?_
  refine ends_leave fun d6 linked6 size6 => ?_
  have size5 := body.grows.size
  have bodySmall := body.inside
  have bodyOwn := body.own
  have stage5 : Stage before start [d1.blocks.length, before.blocks.length] d5 :=
    stage4.build body.grows body.valid
  have stage6 := stage5.connect linked6
  refine ends_after (builds d6 before.blocks.length stage6.valid stage6.ready (by simp [alone])) fun tested d7 test => ?_
  refine ends_link fun d8 linked8 size8 => ends_link fun d9 linked9 _ => ends_pure _ ?_
  have size7 := test.grows.size
  have testSmall := test.ready.inside
  have testOwn := test.own
  have stage7 : Stage before start [d1.blocks.length] d7 := stage6.build test.grows test.valid
  have stage8 := stage7.connect linked8
  have stage9 := stage8.connect linked9
  have to7 := grows_trans linked8.later linked9.later
  have to6 := grows_trans (grows_later test.grows) to7
  have to4 := grows_trans (grows_later body.grows) (grows_trans linked6.later to6)
  have enter := flows_grow (flows_edge (linked4.made trivial) (by simp)) to4
  have backward := flows_grow (flows_edge (linked8.made trivial) (by simp)) linked9.later
  have outward := flows_edge (linked9.made trivial) (by simp : EdgeKind.loopExit ≠ .exception)
  rw [linked4.tip, added3.tip, added2.tip, added1.tip] at enter
  rw [linked8.tip] at backward
  rw [linked9.tip, linked8.tip] at outward
  refine stage9.completed (fun safe none => ?_) fun safe trace completion run => ?_
  · rw [linked9.fault, linked8.fault]
    refine test.faultless safe.2 ?_
    rw [linked6.fault]
    refine body.faultless safe.1 ?_
    rw [linked4.fault, fault3, fault2, fault1, none]
  have tested (trace : List Value) (value : Values trace) := flows_grow (test.values trace value) to7
  have rounds (trace : List Value) (completion : Completion) (run : runs trace completion) :=
    reaches_grow (completed_flows body (padded_refl d5) linked6 (by simp) safe.1 trace completion run) to6
  rw [stage6.tip] at tested
  rw [stage4.tip] at rounds
  refine reaches_before enter (loop_reaches (within_loop_body place label _ _) ?_ ?_ rounds ?_ ?_ run)
  · rintro _ rfl
    exact .stay _ 0
  · exact fun _ impossible => impossible.elim
  · exact fun trace value => by simpa using flows_trans (tested trace value) backward
  · exact fun trace value => by simpa using flows_trans (tested trace value) outward

end

example : ((Layout.whileLoop {} false none pure (fun _ => pure) 0).run { blocks := [default] }).2.edges.map (·.target) = [1, 3, 2, 1] := by
  decide +kernel

theorem completes_for_each (place : Place) {bind : Nat → Build Nat} {SafeBind : Prop} (inLoop : Bool) (label : Option Value)
    (alone : scene.chainEnd = none)
    (builds : Builds scene bind SafeBind Values Skips)
    (completes : ∀ inner : Place, Completes inner (.loop label :: around) (body inner) Safe runs) :
    Completes place around (Layout.forEach place inLoop label bind body) (SafeBind ∧ Safe)
    (Loop label Values Silent runs Silent fun _ => False) := by
  intro before start valid ready fits
  have small := ready.inside
  refine ends_add fun d1 added1 fault1 size1 => ends_link fun d2 linked2 size2 => ?_
  refine ends_add fun d3 added3 fault3 size3 => ends_add fun d4 added4 fault4 size4 => ?_
  refine ends_link fun d5 linked5 size5 => ends_link fun d6 linked6 size6 => ?_
  have stage2 := ((stage_begin before start valid).add added1).connect linked2
  have stage4 : Stage before start [d3.blocks.length, d2.blocks.length] d4 := ((stage2.add added3).add added4).drop (by simp)
  have stage5 := stage4.connect linked5
  have stage6 := stage5.connect linked6
  refine ends_after (builds d6 d3.blocks.length stage6.valid stage6.ready (by simp [alone])) fun bound d7 binding => ?_
  have size7 := binding.grows.size
  have boundOwn := binding.own
  have stage7 : Stage before start [d2.blocks.length] d7 := stage6.build binding.grows binding.valid
  refine ends_after (completes _ d7 bound stage7.valid binding.ready (loop_body_fits fits.mono label)) fun bodyEnd d8 body => ?_
  refine ends_leave fun d9 linked9 _ => ends_pure _ ?_
  have size8 := body.grows.size
  have bodySmall := body.inside
  have bodyOwn := body.own
  have stage8 : Stage before start [d2.blocks.length] d8 := stage7.build body.grows body.valid
  have stage9 := stage8.connect linked9
  have to7 := grows_trans (grows_later body.grows) linked9.later
  have to6 := grows_trans (grows_later binding.grows) to7
  have to5 := grows_trans linked6.later to6
  have to2 := grows_trans (grows_trans added3.later added4.later) (grows_trans linked5.later to5)
  have enter := flows_grow (flows_edge (linked2.made trivial) (by simp)) to2
  have onward := flows_grow (flows_edge (linked5.made trivial) (by simp)) to5
  have outward := flows_grow (flows_edge (linked6.made trivial) (by simp)) to6
  rw [linked2.tip, added1.tip] at enter
  rw [linked5.tip, added4.tip, added3.tip, stage2.tip] at onward
  rw [linked6.tip, linked5.tip, added4.tip, added3.tip, stage2.tip] at outward
  refine stage9.completed (fun safe none => ?_) fun safe trace completion run => ?_
  · rw [linked9.fault]
    refine body.faultless safe.2 (binding.faultless safe.1 ?_)
    rw [linked6.fault, linked5.fault, fault4, fault3, linked2.fault, fault1, none]
  have binds (trace : List Value) (value : Values trace) := flows_grow (binding.values trace value) to7
  have rounds := completed_flows body (padded_refl d8) linked9 (by simp) safe.2
  rw [stage6.tip] at binds
  refine reaches_before enter (loop_reaches (within_loop_body place label _ _) ?_ ?_ rounds ?_ ?_ run)
  · exact fun trace value => flows_trans onward (binds trace value)
  · rintro _ rfl
    exact outward
  · rintro _ rfl
    exact .stay _ 0
  · exact fun _ impossible => impossible.elim

-- What the head of a loop comes to: a new block for the body, and the ways from the
-- header there and out of the loop.
structure Entered (Safe : Prop) (enter leave : Traces) (before : Draft) (header after inside : Nat) (entered : Draft) : Prop where
  grows : Grows before.blocks.length header before entered
  valid : entered.Valid
  isNew : before.blocks.length ≤ inside
  ready : entered.Ready inside
  tip : entered.tip inside = 0
  faultless : Safe → before.fault = none → entered.fault = none
  enters : ∀ trace, enter trace → Flows entered header (before.tip header) trace inside 0
  leaves : ∀ trace, leave trace → Flows entered header (before.tip header) trace after 0

example : ((Layout.forEach {} false none pure (fun _ => pure) 0).run { blocks := [default] }).2.edges.map (·.target) = [1, 3, 2, 1] := by
  decide +kernel

theorem ends_for_head (alone : scene.chainEnd = none) (test : Option Expr)
    {header after : Nat} (valid : before.Valid) (ready : before.Ready header) (afterSmall : after < before.blocks.length) :
    Ends (Layout.forHead scene test header after) before
      (Entered (∃ node, SpelledOptional test node) (EvaluatesIf test) (leaveTest test) before header after) := by
  have small := ready.inside
  cases test with
  | none =>
    refine ends_add fun d1 added1 fault1 size1 => ends_link fun d2 linked2 _ => ends_pure _ ?_
    have stage2 := ((stage_begin before header valid).add added1).connect linked2
    refine ⟨stage2.grows, stage2.valid, Nat.le_refl _, stage2.ready, stage2.tip, fun _ none => ?_, ?_, fun _ impossible => impossible.elim⟩
    · rw [linked2.fault, fault1, none]
    intro trace run
    simp only [EvaluatesIf, Silent] at run
    subst run
    have enter := flows_edge (linked2.made trivial) (by simp : EdgeKind.unconditional ≠ .exception)
    rwa [linked2.tip, added1.tip] at enter
  | some test =>
    refine ends_after (test.builds scene before header valid ready (by simp [alone])) fun tested d1 test => ?_
    refine ends_add fun d2 added2 fault2 size2 => ends_link fun d3 linked3 size3 => ?_
    refine ends_link fun d4 linked4 _ => ends_pure _ ?_
    have size1 := test.grows.size
    have testSmall := test.ready.inside
    have testOwn := test.own
    have stage1 : Stage before header [] d1 := ⟨test.valid, test.grows, by simp⟩
    have stage3 := (stage1.add added2).connect linked3
    have stage4 := stage3.connect linked4
    have to1 := grows_trans (grows_trans added2.later linked3.later) linked4.later
    have onward := flows_grow (flows_edge (linked3.made trivial) (by simp)) linked4.later
    have outward := flows_edge (linked4.made trivial) (by simp : EdgeKind.loopExit ≠ .exception)
    rw [linked3.tip, added2.tip] at onward
    rw [linked4.tip, linked3.tip, added2.tip] at outward
    refine ⟨stage4.grows, stage4.valid, size1, stage4.ready, stage4.tip, ?_, ?_, ?_⟩
    · rintro ⟨node, spelled⟩ none
      rw [linked4.fault, linked3.fault, fault2]
      exact test.faultless ⟨node, .inr spelled⟩ none
    · intro trace run
      simp only [EvaluatesIf] at run
      simpa using flows_trans (flows_grow (test.values trace run) to1) onward
    · intro trace run
      simpa using flows_trans (flows_grow (test.values trace run) to1) outward

theorem completes_for (place : Place) {update : Nat → Build Nat} {head : Nat → Nat → Build Nat} {SafeHead SafeUpdate : Prop}
    {enter leave : Traces} (inLoop : Bool)
    (label : Option Value) (alone : scene.chainEnd = none)
    (heads : ∀ before header after, before.Valid → before.Ready header → after < before.blocks.length →
      Ends (head header after) before (Entered SafeHead enter leave before header after))
    (builds : Builds scene update SafeUpdate Values Skips)
    (completes : ∀ inner : Place, Completes inner (.loop label :: around) (body inner) Safe runs) :
    Completes place around (Layout.forLoop place inLoop label head update body) (SafeHead ∧ Safe ∧ SafeUpdate)
    (Loop label enter leave runs Values fun _ => False) := by
  intro before start valid ready fits
  have small := ready.inside
  refine ends_add fun d1 added1 fault1 size1 => ends_link fun d2 linked2 size2 => ?_
  refine ends_add fun d3 added3 fault3 size3 => ends_add fun d4 added4 fault4 size4 => ?_
  have stage2 := ((stage_begin before start valid).add added1).connect linked2
  have stage4 := (stage2.add added3).add added4
  refine ends_after (heads d4 before.blocks.length d3.blocks.length stage4.valid stage4.ready (by omega)) fun inside d5 entry => ?_
  have size5 := entry.grows.size
  have insideLarge := entry.isNew
  have stage5 : Stage before start [d3.blocks.length, d2.blocks.length] d5 :=
    stage4.build entry.grows entry.valid
  refine ends_after (completes _ d5 inside stage5.valid entry.ready (loop_body_fits fits.mono label)) fun bodyEnd d6 body => ?_
  refine ends_leave fun d7 linked7 size7 => ?_
  have size6 := body.grows.size
  have bodySmall := body.inside
  have bodyOwn := body.own
  have stage6 : Stage before start [d3.blocks.length, d2.blocks.length] d6 :=
    stage5.build body.grows body.valid
  have stage7 := stage6.connect linked7
  refine ends_after (builds d7 d2.blocks.length stage7.valid stage7.ready (by simp [alone])) fun advanced d8 update => ?_
  refine ends_link fun d9 linked9 _ => ends_pure _ ?_
  have size8 := update.grows.size
  have updateSmall := update.ready.inside
  have updateOwn := update.own
  have stage8 : Stage before start [d3.blocks.length] d8 := stage7.build update.grows update.valid
  have stage9 := stage8.connect linked9
  have to7 := grows_trans (grows_later update.grows) linked9.later
  have to5 := grows_trans (grows_later body.grows) (grows_trans linked7.later to7)
  have to2 := grows_trans (grows_trans added3.later added4.later) (grows_trans (grows_later entry.grows) to5)
  have starts := flows_grow (flows_edge (linked2.made trivial) (by simp)) to2
  have backward := flows_edge (linked9.made trivial) (by simp : EdgeKind.loopBack ≠ .exception)
  rw [linked2.tip, added1.tip] at starts
  rw [linked9.tip] at backward
  refine stage9.completed (fun safe none => ?_) fun safe trace completion run => ?_
  · rw [linked9.fault]
    refine update.faultless safe.2.2 ?_
    rw [linked7.fault]
    refine body.faultless safe.2.1 (entry.faultless safe.1 ?_)
    rw [fault4, fault3, linked2.fault, fault1, none]
  have enters (trace : List Value) (value : enter trace) := flows_grow (entry.enters trace value) to5
  have leaves (trace : List Value) (value : leave trace) := flows_grow (entry.leaves trace value) to5
  have advances (trace : List Value) (value : Values trace) := flows_grow (update.values trace value) linked9.later
  have rounds (trace : List Value) (completion : Completion) (run : runs trace completion) :=
    reaches_grow (completed_flows body (padded_refl d6) linked7 (by simp) safe.2.1 trace completion run) to7
  rw [stage4.tip] at enters leaves
  rw [entry.tip] at rounds
  rw [stage7.tip] at advances
  refine reaches_before starts (loop_reaches (within_loop_body place label _ _) enters leaves rounds ?_ ?_ run)
  · exact fun trace value => by simpa using flows_trans (advances trace value) backward
  · exact fun _ impossible => impossible.elim

end

end HookLint.Flow
