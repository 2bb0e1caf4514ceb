import HookLint.Proofs.Flow.Completed

namespace HookLint.Flow

open List

variable {place : Place} {around : List Surrounding} {origin : Draft} {start after : Nat}

section
variable {place : Place} {around : List Surrounding} {Safe : Prop} {runs : Runs} {action : Nat → Build Nat}

-- A tried statement starts in a block of its own, which leads to the handler in case of
-- an exception.
theorem completes_tried {inLoop : Bool} (completes : Completes place around action Safe runs) : CompletesAny place around (fun block => do
      let start ←
        if ← isClosed block then newBlock inLoop .unreachable
        else do
          let next ← newBlock inLoop .tryBody
          connect block next .unconditional
          pure next
      connect start place.handler .exception
      action start) Safe runs := by
  intro before start valid small ready fits
  have handlerSmall := fits.handler
  refine ends_bind (ends_is_closed ?_)
  by_cases member : start ∈ before.closed
  · rw [contains_iff_mem.mpr member]
    refine ends_add fun d1 added1 fault1 size1 => ends_link fun d2 linked2 size2 => ?_
    have stage2 := ((stage_begin before start valid).add added1).connect linked2
    refine ends_mono (completes d2 before.blocks.length stage2.valid stage2.ready fits.mono) fun final after done => ?_
    have doneOwn := done.own
    have stage3 : Stage before start [] after := stage2.build done.grows done.valid
    refine ⟨stage3.grows, done.valid, .inr (by omega), done.inside, done.ready, fun safe none => ?_,
      fun _ _ _ run => absurd member run.1, fun _ _ run => absurd member run.1⟩
    refine done.faultless safe ?_
    rw [linked2.fault, fault1, none]
  · rw [Bool.eq_false_iff.mpr fun found => member (contains_iff_mem.mp found)]
    refine ends_add fun d1 added1 fault1 size1 => ends_link fun d2 linked2 size2 => ?_
    refine ends_bind (ends_pure _ (ends_link fun d3 linked3 size3 => ?_))
    have stage2 := ((stage_begin before start valid).add added1).connect linked2
    have stage3 := stage2.connect linked3
    refine ends_mono (completes d3 before.blocks.length stage3.valid stage3.ready fits.mono) fun final after done => ?_
    have doneOwn := done.own
    have stage4 : Stage before start [] after := stage3.build done.grows done.valid
    refine ⟨stage4.grows, done.valid, .inr (by omega), done.inside, done.ready, fun safe none => ?_,
      fun safe trace completion run => ?_, fun safe trace run => done.opens safe trace run.2⟩
    · refine done.faultless safe ?_
      rw [linked3.fault, linked2.fault, fault1, none]
    · have enter := flows_grow (flows_edge (linked2.made trivial) (by simp)) (grows_trans linked3.later (grows_later done.grows))
      have inside := done.reaches safe trace completion run.2
      rw [linked2.tip, added1.tip] at enter
      rw [stage3.tip] at inside
      exact reaches_before enter inside

end

-- Jumps that waited at a finalizer go on from its end.
structure Resumed (place : Place) (block : Nat) (waiting : List Pending) (before after : Draft) : Prop where
  later : Later before after
  fault : after.fault = before.fault
  origins : ∀ jumping ∈ after.pending, jumping ∈ before.pending ∨ jumping.finalizer ∈ place.finalizers
  lands : ∀ jumping ∈ waiting, jumping.kind ≠ .exception → ∃ landing,
    place.Aims after jumping.target jumping.depth landing ∧ Flows after block (before.tip block) [] landing 0

theorem ends_jumps {block : Nat} {fresh : List Nat}
    (own : origin.blocks.length ≤ block) (absent : block ∉ fresh) (waiting : List Pending) (before : Draft)
    (stage : Stage origin start fresh before) (small : block < before.blocks.length)
    (fits : place.Fits around before.blocks.length)
    (targets : ∀ jumping ∈ waiting, jumping.target < before.blocks.length) :
    Ends (waiting.forM fun jumping => jump place block jumping.target jumping.kind jumping.depth) before
      fun _ after => Stage origin start fresh after ∧ Resumed place block waiting before after := by
  induction waiting generalizing before with
  | nil => exact ⟨stage, grows_refl _ _ _, rfl, fun _ member => .inl member, by simp⟩
  | cons jumping rest ih =>
    simp only [forall_mem_cons] at targets
    refine ends_bind (ends_jump fun waits landing d1 sources lies linked aims => ?_)
    have size1 := linked.size
    simp only at size1
    have waitsIn : ∀ other ∈ waits, other.finalizer < before.blocks.length ∧ other.target < before.blocks.length := by
      intro other member
      obtain ⟨finalizer, same⟩ := sources other member
      exact ⟨fits.finalizers _ finalizer, same ▸ targets.1⟩
    have landingSmall : landing < before.blocks.length := by
      rcases lies with rfl | member
      · exact targets.1
      · exact fits.finalizers landing member
    have stage0 : Stage origin start fresh { before with pending := before.pending ++ waits } := by
      refine ⟨waiting_valid stage.valid waitsIn, grows_trans stage.grows (waiting_grows _ _ waits), fun other member => ?_⟩
      obtain ⟨large, ready, empty⟩ := stage.untouched other member
      exact ⟨large, ⟨ready.inside, ready.isOpen, ready.quiet⟩, empty⟩
    have stage1 := stage0.connect linked small landingSmall (.inr own) (.inl absent)
    refine ends_mono (ih d1 stage1 (by omega) (size1 ▸ fits) (size1 ▸ targets.2)) fun _ after ⟨stage2, done⟩ => ?_
    have later1 : Later before d1 := grows_trans (waiting_grows _ _ waits) linked.later
    have tip : d1.tip block = before.tip block := linked.tip block
    refine ⟨stage2, grows_trans later1 done.later, done.fault.trans linked.fault, ?_, ?_⟩
    · intro other member
      rcases done.origins other member with old | new
      · rw [linked.pending] at old
        rcases mem_append.mp old with old | new
        · exact .inl old
        · exact .inr (sources other new).1
      · exact .inr new
    · simp only [forall_mem_cons]
      rw [← tip]
      refine ⟨fun normal => ⟨landing, aims_grow (aims normal) done.later, ?_⟩, done.lands⟩
      exact flows_grow (flows_edge (linked.made trivial) normal) done.later

theorem resumes_after {draft : Draft} {finalizer block offset middle middleOffset : Nat}
    {trace : List Value} (flows : Flows draft block offset trace middle middleOffset)
    (resumes : place.Resumes draft finalizer after middle middleOffset []) :
    place.Resumes draft finalizer after block offset trace := by
  refine ⟨by simpa using flows_trans flows resumes.onward, by simpa using flows_trans flows resumes.thrown,
    fun jumping member waits normal => ?_⟩
  obtain ⟨landing, aims, more⟩ := resumes.waiting jumping member waits normal
  exact ⟨landing, aims, by simpa using flows_trans flows more⟩

theorem ends_finally {guarded : Place} {before : Draft}
    {finallyBlock : Nat} {Safe SafeFinal : Prop} {body final : Runs} {build : Nat → Build Nat}
    (completes : Completes place around build SafeFinal final) (safety : Safe → SafeFinal)
    (fits : place.Fits around origin.blocks.length) (stage : Stage origin start [after, finallyBlock] before)
    (different : after ≠ finallyBlock) (guard : guarded.GuardedBy place finallyBlock)
    (faultless : Safe → origin.fault = none → before.fault = none)
    (inside : Safe → ∀ trace completion, body trace completion →
      guarded.Reaches before finallyBlock 0 start (origin.tip start) trace completion) :
    Ends (Layout.atLast place build after finallyBlock) before (Completed place Safe (Finalized body final) origin start) := by
  obtain ⟨finallyLarge, finallyReady, finallyEmpty⟩ := stage.untouched finallyBlock (by simp)
  obtain ⟨afterLarge, afterReady, _⟩ := stage.untouched after (by simp)
  have afterSmall := afterReady.inside
  have size0 := stage.grows.size
  refine ends_after (completes before finallyBlock stage.valid finallyReady (fits.mono size0)) fun finallyEnd d1 done => ?_
  have size1 := done.grows.size
  have endSmall := done.inside
  have endOwn := done.own
  have stage1 : Stage origin start [after] d1 :=
    stage.build done.grows done.valid (.inr finallyLarge) (by simp; omega)
  have finish (last : Draft) (later : Later d1 last) (stageLast : Stage origin start [after] last) (fault : last.fault = d1.fault)
      (resumes : finallyEnd ∉ d1.closed → place.Resumes last finallyBlock after finallyEnd (d1.tip finallyEnd) []) :
      Completed place Safe (Finalized body final) origin start after last := by
    refine ⟨stageLast.grows, stageLast.valid, .inr afterLarge, (stageLast.ready).inside,
      fun _ => stageLast.ready, fun safe none => ?_, fun safe trace completion run => ?_,
      fun _ _ _ => (stageLast.ready).isOpen⟩
    · rw [fault]
      exact done.faultless (safety safe) (faultless safe none)
    · have finals (trace : List Value) (completion : Completion) (run : final trace completion) :=
        reaches_grow (done.reaches (safety safe) trace completion run) later
      rw [finallyEmpty] at finals
      rw [stageLast.tip]
      refine finalized_reaches guard ?_ ?_ ?_ run
      · exact fun trace completion run =>
          reaches_grow (inside safe trace completion run) (grows_trans (grows_later done.grows) later)
      · exact fun trace completion run abrupt => reaches_abrupt (finals trace completion run) abrupt
      · intro trace run
        exact resumes_after (reaches_normal.mp (finals trace .normal run)) (resumes (done.opens (safety safe) trace run))
  refine ends_bind (ends_is_closed ?_)
  by_cases member : finallyEnd ∈ d1.closed
  · rw [contains_iff_mem.mpr member]
    exact ends_pure after (finish d1 (grows_refl _ _ _) stage1 rfl fun isOpen => absurd member isOpen)
  rw [Bool.eq_false_iff.mpr fun found => member (contains_iff_mem.mp found)]
  refine ends_link fun d2 linked2 size2 => ends_link fun d3 linked3 size3 => ?_
  have handlerSmall := fits.handler
  have stage2 := stage1.connect linked2
  have stage3 := stage2.connect linked3
  show Ends ((d3.pending.filter (·.finalizer = finallyBlock)).forM
    (fun jumping => jump place finallyEnd jumping.target jumping.kind jumping.depth) >>= fun _ => pure after) d3 _
  refine ends_after (ends_jumps (by omega) (by simp; omega)
    (d3.pending.filter (·.finalizer = finallyBlock)) d3 stage3 (by omega) fits.mono ?_)
    fun _ d4 ⟨stage4, resumed⟩ => ends_pure after (finish d4 ?_ stage4 ?_ fun _ => ⟨?_, ?_, ?_⟩)
  · exact fun jumping waits => (stage3.valid.pending jumping (mem_of_mem_filter waits)).2
  · exact grows_trans linked2.later (grows_trans linked3.later resumed.later)
  · rw [resumed.fault, linked3.fault, linked2.fault]
  · have onward := flows_grow (flows_edge (linked2.made trivial) (by simp)) (grows_trans linked3.later resumed.later)
    rwa [linked2.tip] at onward
  · have thrown := flows_grow (flows_edge (linked3.made trivial) (by simp)) resumed.later
    rwa [linked3.tip, linked2.tip] at thrown
  · intro jumping waits here normal
    -- What a jump passes on to lies further out than this finalizer.
    have known : jumping ∈ d3.pending.filter (·.finalizer = finallyBlock) := by
      rcases resumed.origins jumping waits with old | outer
      · exact mem_filter.mpr ⟨old, by simpa using here⟩
      · have := fits.finalizers _ outer
        omega
    have lands := resumed.lands jumping known normal
    rwa [linked3.tip, linked2.tip] at lands

-- What a tried body, with or without its handler, comes to while the rest of its
-- statement is still to be built.
structure Handled (place : Place) (Safe : Prop) (runs : Runs) (origin : Draft) (start next : Nat) (fresh : List Nat)
    (draft : Draft) : Prop where
  stage : Stage origin start fresh draft
  faultless : Safe → origin.fault = none → draft.fault = none
  reaches : Safe → ∀ trace completion, runs trace completion → place.Reaches draft next 0 start (origin.tip start) trace completion

section
variable {β : Type} {Post : β → Draft → Prop} {rest : Build β} {inner : Place} {around : List Surrounding}
  {origin draft : Draft} {start next : Nat} {fresh : List Nat} {Safe : Prop} {runs : Runs}

theorem ends_tried_body {body : Nat → Build Nat} {thrown : Nat} (inLoop : Bool)
    (completes : Completes inner around body Safe runs) (fits : inner.Fits around draft.blocks.length)
    (stage : Stage origin start fresh draft) (small : start < origin.blocks.length)
    (tip : draft.tip start = origin.tip start) (fault : draft.fault = origin.fault)
    (thrownSmall : thrown < draft.blocks.length) (nextSmall : next < draft.blocks.length)
    (continues : ∀ after, draft.blocks.length ≤ after.blocks.length →
      Handled inner Safe runs origin start next fresh after → Ends rest after Post) :
    Ends (do
      let inside ← newBlock inLoop .tryBody
      connect start inside .unconditional
      connect inside thrown .exception
      let bodyEnd ← body inside
      flow bodyEnd next .unconditional
      rest) draft Post := by
  have size0 := stage.grows.size
  have old (block : Nat) (member : block ∈ fresh) : origin.blocks.length ≤ block ∧ block < draft.blocks.length :=
    ⟨(stage.untouched block member).1, (stage.ready member).inside⟩
  refine ends_add fun d1 added1 fault1 size1 => ends_link fun d2 linked2 size2 => ?_
  refine ends_link fun d3 linked3 size3 => ?_
  have startUsed : start ∉ draft.blocks.length :: fresh := by
    rw [mem_cons, not_or]
    exact ⟨by omega, fun member => by have := old start member; omega⟩
  have stage2 := (stage.add added1).connect linked2 (by omega) (by omega) (.inl rfl) (.inl startUsed)
  have stage3 := stage2.connect linked3
  refine ends_after (completes d3 draft.blocks.length stage3.valid stage3.ready fits.mono) fun bodyEnd d4 done => ?_
  refine ends_leave fun d5 linked5 _ => continues d5 ?_ ⟨?_, fun safe none => ?_, fun safe trace completion run => ?_⟩
  · have := done.grows.size
    have := linked5.size
    omega
  · have size4 := done.grows.size
    have doneOwn := done.own
    have doneSmall := done.inside
    have stage4 : Stage origin start fresh d4 := by
      refine stage3.build done.grows done.valid (.inr size0) fun block member => ⟨mem_cons_of_mem _ member, ?_⟩
      have := old block member
      omega
    refine stage4.connect linked5 doneSmall (by omega) (by omega) (.inl fun member => ?_)
    have := old bodyEnd member
    omega
  · rw [linked5.fault]
    refine done.faultless safe ?_
    rw [linked3.fault, linked2.fault, fault1, fault, none]
  · have enter := flows_grow (flows_edge (linked2.made trivial) (by simp))
      (grows_trans linked3.later (grows_trans (grows_later done.grows) linked5.later))
    have inside := completed_flows done (padded_refl d4) linked5 (by simp) safe trace completion run
    rw [linked2.tip, added1.tip, tip] at enter
    rw [stage3.tip] at inside
    exact reaches_before enter inside

theorem Handled.link {after : Draft} {source target : Nat} (handled : Handled inner Safe runs origin start next fresh draft)
    (member : source ∈ fresh) (targetSmall : target < draft.blocks.length)
    (linked : Connected True ⟨source, target, .exception⟩ draft after) :
    Handled inner Safe runs origin start next fresh after :=
  ⟨handled.stage.connect linked (handled.stage.ready member).inside targetSmall (.inr (handled.stage.untouched source member).1) (.inr rfl),
    fun safe none => linked.fault.trans (handled.faultless safe none),
    fun safe trace completion run => reaches_grow (handled.reaches safe trace completion run) linked.later⟩

theorem ends_handler {handler : Nat → Build Nat} {SafeHandler : Prop} {rescue : Runs} {catchBlock : Nat}
    (completes : Completes inner around handler SafeHandler rescue)
    (handled : Handled { inner with handler := catchBlock } Safe runs origin start next (catchBlock :: fresh) draft)
    (fits : inner.Fits around draft.blocks.length) (absent : catchBlock ∉ fresh) (nextSmall : next < draft.blocks.length)
    (continues : ∀ after, draft.blocks.length ≤ after.blocks.length →
      Handled inner (Safe ∧ SafeHandler) (Rescued runs rescue) origin start next fresh after → Ends rest after Post) :
    Ends (do
      let handlerEnd ← handler catchBlock
      flow handlerEnd next .unconditional
      rest) draft Post := by
  have stage := handled.stage
  obtain ⟨catchLarge, catchReady, catchEmpty⟩ := stage.untouched catchBlock (by simp)
  have size0 := stage.grows.size
  refine ends_after (completes draft catchBlock stage.valid catchReady fits) fun handlerEnd d1 done => ?_
  refine ends_leave fun d2 linked2 _ => continues d2 ?_ ⟨?_, fun safe none => ?_, fun safe trace completion run => ?_⟩
  · have := done.grows.size
    have := linked2.size
    omega
  · have size1 := done.grows.size
    have doneOwn := done.own
    have doneSmall := done.inside
    have stage1 : Stage origin start fresh d1 :=
      stage.build done.grows done.valid (.inr catchLarge) fun block member =>
        ⟨mem_cons_of_mem _ member, fun same => absent (same ▸ member)⟩
    refine stage1.connect linked2 doneSmall (by omega) (by omega) (.inl fun member => ?_)
    rcases doneOwn with same | large
    · exact absent (same ▸ member)
    · have handlerSmall : handlerEnd < draft.blocks.length := (stage.ready (mem_cons_of_mem _ member)).inside
      omega
  · rw [linked2.fault]
    exact done.faultless safe.2 (handled.faultless safe.1 none)
  · have rescues := completed_flows done (padded_refl d1) linked2 (by simp) safe.2
    rw [catchEmpty] at rescues
    refine handled_reaches (fun trace completion run => ?_) rescues run
    exact reaches_grow (handled.reaches safe.1 trace completion run) (grows_trans (grows_later done.grows) linked2.later)

end

theorem Handled.completed {Safe : Prop} {runs : Runs} {draft : Draft} (handled : Handled place Safe runs origin start after [after] draft) :
    Completed place Safe runs origin start after draft := by
  have stage := handled.stage
  obtain ⟨large, ready, empty⟩ := stage.untouched after (by simp)
  refine ⟨stage.grows, stage.valid, .inr large, ready.inside, fun _ => ready, handled.faultless, ?_, fun _ _ _ => ready.isOpen⟩
  rw [empty]
  exact handled.reaches

theorem guarded_fits {size handler : Nat} {finalizers : List Nat}
    (fits : place.Fits around size) (handlerSmall : handler < size) (finalizersSmall : ∀ block ∈ finalizers, block < size) :
    ({ place with finalizers := finalizers ++ place.finalizers, handler := handler } : Place).Fits around size := by
  refine ⟨fits.exit, handlerSmall, fun block member => ?_, fits.targets.imp fun _ _ one => ?_⟩
  · rcases mem_append.mp member with new | old
    · exact finalizersSmall block new
    · exact fits.finalizers block old
  · refine ⟨one.label, one.breakTo, one.continueTo, one.isLoop, ?_, one.plain⟩
    rw [length_append]
    exact Nat.le_add_left_of_le one.depth

theorem guarded_by {size : Nat} (fits : place.Fits around size) (finallyBlock : Nat) :
    ({ place with finalizers := [finallyBlock] ++ place.finalizers, handler := finallyBlock } : Place).GuardedBy place
      finallyBlock := by
  refine ⟨rfl, rfl, rfl, fun target member => ?_⟩
  obtain ⟨_, one⟩ := fits.jump member
  exact one.depth

section
variable {place : Place} {around : List Surrounding} {SafeBody SafeHandler SafeFinal : Prop} {tried rescue final : Runs}
  {handler : Place → Nat → Build Nat} {finalizer : Nat → Build Nat}

section
variable (inLoop : Bool) (body : Place → Nat → Nat → Build Nat)
  (tries : ∀ inner : Place, Completes inner around (body inner inner.handler) SafeBody tried)
include tries

theorem completes_try_catch (handles : ∀ inner : Place, Completes inner around (handler inner) SafeHandler rescue) :
    Completes place around (fun block => do
      let catchBlock ← newBlock inLoop .catchClause
      let after ← newBlock inLoop .merge
      let inside ← newBlock inLoop .tryBody
      connect block inside .unconditional
      connect inside catchBlock .exception
      let bodyEnd ← body { place with handler := catchBlock } catchBlock inside
      flow bodyEnd after .unconditional
      let handled ← handler place catchBlock
      flow handled after .unconditional
      return after) (SafeBody ∧ SafeHandler) (Rescued tried rescue) := by
  intro before start valid ready fits
  have small := ready.inside
  refine ends_add fun d1 added1 fault1 size1 => ends_add fun d2 added2 fault2 size2 => ?_
  have stage2 : Stage before start [before.blocks.length, d1.blocks.length] d2 :=
    (((stage_begin before start valid).add added1).add added2).drop (by simp)
  have fits2 := fits.mono (by omega : before.blocks.length ≤ d2.blocks.length)
  have inner : ({ place with handler := before.blocks.length } : Place).Fits around d2.blocks.length :=
    guarded_fits fits2 (by omega) (by simp : ∀ block ∈ [], block < d2.blocks.length)
  refine ends_tried_body inLoop (tries { place with handler := before.blocks.length }) inner stage2 small
    (by rw [added2.tip, added1.tip]) (fault2.trans fault1) (by omega) (by omega) fun d3 size3 tried => ?_
  refine ends_handler (handles place) tried (fits2.mono size3) (by simp; omega) (by omega) fun d4 _ handled => ?_
  exact ends_pure _ handled.completed

theorem completes_try_finally (finalizes : Completes place around finalizer SafeFinal final) : Completes place around (fun block => do
      let finallyBlock ← newBlock inLoop .finallyBody
      let after ← newBlock inLoop .merge
      let inside ← newBlock inLoop .tryBody
      connect block inside .unconditional
      connect inside finallyBlock .exception
      let bodyEnd ← body
        { place with finalizers := [finallyBlock] ++ place.finalizers, handler := finallyBlock } finallyBlock inside
      flow bodyEnd finallyBlock .unconditional
      Layout.atLast place finalizer after finallyBlock) (SafeBody ∧ SafeFinal) (Finalized tried final) := by
  intro before start valid ready fits
  have small := ready.inside
  refine ends_add fun d1 added1 fault1 size1 => ends_add fun d2 added2 fault2 size2 => ?_
  have stage2 := ((stage_begin before start valid).add added1).add added2
  have fits2 := fits.mono (by omega : before.blocks.length ≤ d2.blocks.length)
  have inner := guarded_fits fits2 (by omega : before.blocks.length < d2.blocks.length)
    (by simp; omega : ∀ block ∈ [before.blocks.length], block < d2.blocks.length)
  refine ends_tried_body inLoop (tries _) inner stage2 small (by rw [added2.tip, added1.tip]) (fault2.trans fault1)
    (by omega) (by omega) fun d3 size3 handled => ?_
  exact ends_finally finalizes (fun safe => safe.2) fits handled.stage (by omega) (guarded_by fits before.blocks.length)
    (fun safe => handled.faultless safe.1) fun safe => handled.reaches safe.1

theorem completes_try_catch_finally (handles : ∀ inner : Place, Completes inner around (handler inner) SafeHandler rescue)
    (finalizes : Completes place around finalizer SafeFinal final) :
    Completes place around (fun block => do
      let finallyBlock ← newBlock inLoop .finallyBody
      let catchBlock ← newBlock inLoop .catchClause
      let after ← newBlock inLoop .merge
      let inside ← newBlock inLoop .tryBody
      connect block inside .unconditional
      connect inside catchBlock .exception
      let bodyEnd ← body
        { place with finalizers := [finallyBlock] ++ place.finalizers, handler := catchBlock } catchBlock inside
      flow bodyEnd finallyBlock .unconditional
      connect catchBlock finallyBlock .exception
      let handled ← handler
        { place with finalizers := [finallyBlock] ++ place.finalizers, handler := finallyBlock } catchBlock
      flow handled finallyBlock .unconditional
      Layout.atLast place finalizer after finallyBlock) ((SafeBody ∧ SafeHandler) ∧ SafeFinal) (Finalized (Rescued tried rescue) final) := by
  intro before start valid ready fits
  have small := ready.inside
  refine ends_add fun d1 added1 fault1 size1 => ends_add fun d2 added2 fault2 size2 => ?_
  refine ends_add fun d3 added3 fault3 size3 => ?_
  have stage3 : Stage before start [d1.blocks.length, d2.blocks.length, before.blocks.length] d3 :=
    ((((stage_begin before start valid).add added1).add added2).add added3).drop (by simp)
  have fits3 := fits.mono (by omega : before.blocks.length ≤ d3.blocks.length)
  have finallySmall : ∀ block ∈ [before.blocks.length], block < d3.blocks.length := by
    simp
    omega
  refine ends_tried_body inLoop (tries _) (guarded_fits fits3 (by omega : d1.blocks.length < d3.blocks.length) finallySmall)
    stage3 small (by rw [added3.tip, added2.tip, added1.tip]) (by rw [fault3, fault2, fault1]) (by omega) (by omega)
    fun d4 size4 tried => ?_
  refine ends_link fun d5 linked5 size5 => ?_
  have linked := tried.link (by simp) (by omega) linked5
  have guardedFits := (guarded_fits fits3 (by omega : before.blocks.length < d3.blocks.length) finallySmall).mono
    (by omega : d3.blocks.length ≤ d5.blocks.length)
  refine ends_handler (handles _) linked guardedFits (by simp; omega) (by omega) fun d6 _ handled => ?_
  exact ends_finally finalizes (fun safe => safe.2) fits handled.stage (by omega) (guarded_by fits before.blocks.length)
    (fun safe => handled.faultless safe.1) fun safe => handled.reaches safe.1

theorem completes_try_alone : Completes place around (fun block => do
      let after ← newBlock inLoop .merge
      let inside ← newBlock inLoop .tryBody
      connect block inside .unconditional
      connect inside after .exception
      let bodyEnd ← body { place with handler := after } after inside
      flow bodyEnd after .unconditional
      return after) False tried := by
  intro before start valid ready fits
  have small := ready.inside
  refine ends_add fun d1 added1 fault1 size1 => ?_
  have inner : ({ place with handler := before.blocks.length } : Place).Fits around d1.blocks.length :=
    guarded_fits fits.mono (by omega) (by simp : ∀ block ∈ [], block < d1.blocks.length)
  refine ends_tried_body inLoop (tries { place with handler := before.blocks.length }) inner
    ((stage_begin before start valid).add added1) small (added1.tip start) fault1 (by omega) (by omega) fun d2 _ handled => ?_
  have done := handled.completed
  exact ends_pure _ ⟨done.grows, done.valid, done.own, done.inside, done.ready, False.elim, False.elim, False.elim⟩

end

end

end HookLint.Flow
