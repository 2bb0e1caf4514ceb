import HookLint.Proofs.Flow.Growth
import HookLint.Proofs.Flow.Spelling

namespace HookLint.Flow

variable {A B Fewer Others S T : Traces} {Less SafeFirst SafeSecond : Prop} {action first second : Nat → Build Nat} {after before : Draft}

-- What building an expression from a block on comes to. Each trace of a value leads from the calls of the block to those
-- of the last block, and each skipping trace to the end of the chain.
structure Evaluated (scene : Scene) (Safe : Prop) (Values Skips : Traces) (before : Draft) (start : Nat)
    (final : Nat) (after : Draft) : Prop where
  grows : Grows before.blocks.length start before after
  valid : after.Valid
  own : final = start ∨ before.blocks.length ≤ final
  ready : after.Ready final
  faultless : Safe → before.fault = none → after.fault = none
  values : ∀ trace, Values trace → Flows after start (before.tip start) trace final (after.tip final)
  skips : ∀ trace, Skips trace → ∀ chainEnd, scene.chainEnd = some chainEnd → Flows after start (before.tip start) trace chainEnd 0

def Builds (scene : Scene) (action : Nat → Build Nat) (Safe : Prop) (Values Skips : Traces) : Prop :=
  ∀ before start, before.Valid → before.Ready start → (∀ chainEnd, scene.chainEnd = some chainEnd → chainEnd < before.blocks.length) →
    Ends (action start) before (Evaluated scene Safe Values Skips before start)

def Never : Traces := fun _ => False

section
variable {scene : Scene} {Safe : Prop} {Values Skips : Traces}

theorem scene_later {base origin : Nat}
    (sceneIn : ∀ chainEnd, scene.chainEnd = some chainEnd → chainEnd < before.blocks.length) (grows : Grows base origin before after) :
    ∀ chainEnd, scene.chainEnd = some chainEnd → chainEnd < after.blocks.length :=
  fun chainEnd known => Nat.lt_of_lt_of_le (sceneIn chainEnd known) grows.size

theorem Evaluated.weaken {start final : Nat} (done : Evaluated scene Safe Values Skips before start final after) (less : Less → Safe)
    (fewer : ∀ trace, Fewer trace → Values trace) (others : ∀ trace, Others trace → Skips trace) :
    Evaluated scene Less Fewer Others before start final after :=
  ⟨done.grows, done.valid, done.own, done.ready, fun safe => done.faultless (less safe),
    fun trace run => done.values trace (fewer trace run), fun trace run => done.skips trace (others trace run)⟩

theorem builds_of {same : Nat → Build Nat}
    (builds : Builds scene action Safe Values Skips) (less : Less → Safe) (fewer : ∀ trace, Fewer trace → Values trace)
    (others : ∀ trace, Others trace → Skips trace := by first | exact fun _ run => run | exact fun _ run => run.elim)
    (equal : ∀ start, same start = action start := by intro _; rfl) : Builds scene same Less Fewer Others := by
  intro before start valid ready sceneIn
  rw [equal]
  exact ends_mono (builds before start valid ready sceneIn) fun _ _ done => done.weaken less fewer others

theorem builds_pure (scene : Scene) (Safe : Prop) : Builds scene (fun start => pure start) Safe Silent Never := by
  intro before start valid ready _
  refine ends_pure start ⟨grows_refl _ _ _, valid, .inl rfl, ready, fun _ none => none, ?_, fun _ run => run.elim⟩
  rintro _ rfl
  exact .stay start _

theorem builds_bind (buildsFirst : Builds scene first SafeFirst A S) (buildsSecond : Builds scene second SafeSecond B T) :
    Builds scene (fun start => first start >>= second) (SafeFirst ∧ SafeSecond) (Then A B) fun trace => S trace ∨ Then A T trace := by
  intro before start valid ready sceneIn
  refine ends_after (buildsFirst before start valid ready sceneIn) fun middle between done => ?_
  refine ends_mono (buildsSecond between middle done.valid done.ready (scene_later sceneIn done.grows)) fun final after more => ?_
  refine ⟨grows_trans done.grows (grows_narrow more.grows done.grows.size done.own), more.valid,
    own_trans done.own more.own done.grows.size, more.ready,
    fun safe none => more.faultless safe.2 (done.faultless safe.1 none), ?_, ?_⟩
  · rintro _ ⟨a, b, early, late, rfl⟩
    exact flows_trans (flows_grow (done.values a early) more.grows) (more.values b late)
  · rintro trace (early | ⟨a, b, early, late, rfl⟩) chainEnd known
    · exact flows_grow (done.skips trace early chainEnd known) more.grows
    · exact flows_trans (flows_grow (done.values a early) more.grows) (more.skips b late chainEnd known)

theorem builds_record (scene : Scene) (call : Value) :
    Builds scene (fun start => do recordCall start call; return start) True (fun trace => trace = [call]) Never := by
  intro before start valid ready _
  refine ends_bind (ends_record_call fun after recorded => ends_pure start ?_)
  refine ⟨recorded.grows _ _ (.inl rfl) ready, recorded.valid valid, .inl rfl, recorded.ready start ready,
    fun _ none => recorded.fault.trans none, ?_, fun _ run => run.elim⟩
  rintro _ rfl
  have here := recorded.here ready.inside
  have tip : after.tip start = before.tip start + 1 := by simp [Draft.tip, here]
  rw [tip]
  exact .call start _ call [] start _ (by simp [here, Draft.tip]) (.stay start _)

theorem builds_maybe (inLoop : Bool) (insideKind : BlockKind) {taken skipped : EdgeKind}
    (isTaken : taken ≠ .exception) (isSkipped : skipped ≠ .exception) (builds : Builds scene action Safe Values Skips) :
    Builds scene (Layout.maybe inLoop insideKind taken skipped action) Safe (Maybe Values) Never := by
  intro before start valid ready sceneIn
  have small := ready.inside
  refine ends_add fun d1 added1 fault1 size1 => ?_
  refine ends_add fun d2 added2 fault2 size2 => ?_
  refine ends_link fun d3 linked3 size3 => ?_
  refine ends_link fun d4 linked4 size4 => ?_
  have stage2 := ((stage_begin before start valid).add added1).add added2
  have stage3 := stage2.connect linked3
  have stage4 := stage3.connect linked4
  refine ends_after (builds d4 before.blocks.length stage4.valid stage4.ready (scene_later sceneIn stage4.grows)) fun last d5 done => ?_
  refine ends_link fun d6 linked6 _ => ends_pure _ ?_
  have size5 := done.grows.size
  have lastSmall := done.ready.inside
  have lastOwn := done.own
  have stage5 : Stage before start [d1.blocks.length] d5 := stage4.build done.grows done.valid
  have stage6 := stage5.connect linked6
  have toEnd : Grows before.blocks.length start d4 d6 :=
    grows_trans (grows_narrow done.grows (by omega) (.inr (Nat.le_refl _))) (linked6.grows _ _ (.inr (.inl (by simp; omega))))
  have startTip : d4.tip start = before.tip start := by rw [linked4.tip, linked3.tip, added2.tip, added1.tip]
  refine ⟨stage6.grows, stage6.valid, .inr (by omega), stage6.ready, fun safe none => ?_, ?_, fun _ run => run.elim⟩
  · rw [linked6.fault]
    refine done.faultless safe ?_
    rw [linked4.fault, linked3.fault, fault2, fault1, none]
  rw [stage6.tip, ← startTip]
  rintro trace (rfl | run)
  · exact flows_grow (flows_edge (linked4.made trivial) isSkipped) toEnd
  have enter := flows_grow (flows_edge ((linked4.edges _).mpr (.inl (linked3.made trivial))) isTaken) toEnd
  have inner := flows_grow (done.values trace run) (linked6.grows d5.blocks.length last (.inl rfl))
  have leave := flows_edge (linked6.made trivial) (by simp : EdgeKind.unconditional ≠ .exception)
  rw [stage4.tip] at inner
  rw [linked6.tip] at leave
  simpa using flows_trans enter (flows_trans inner leave)

theorem builds_either {left right : Nat → Build Nat} (inLoop : Bool) {SafeLeft SafeRight : Prop}
    (buildsLeft : Builds scene left SafeLeft A S) (buildsRight : Builds scene right SafeRight B T) :
    Builds scene (Layout.either inLoop left right) (SafeLeft ∧ SafeRight) (fun trace => A trace ∨ B trace) Never := by
  intro before start valid ready sceneIn
  have small := ready.inside
  refine ends_add fun d1 added1 fault1 size1 => ?_
  refine ends_add fun d2 added2 fault2 size2 => ?_
  refine ends_add fun d3 added3 fault3 size3 => ?_
  refine ends_link fun d4 linked4 size4 => ?_
  refine ends_link fun d5 linked5 size5 => ?_
  have stage3 := (((stage_begin before start valid).add added1).add added2).add added3
  have stage4 := stage3.connect linked4
  have stage5 := stage4.connect linked5
  refine ends_after (buildsLeft d5 before.blocks.length stage5.valid stage5.ready
    (scene_later sceneIn stage5.grows)) fun leftEnd d6 leftDone => ?_
  refine ends_link fun d7 linked7 size7 => ?_
  have size6 := leftDone.grows.size
  have leftSmall := leftDone.ready.inside
  have leftOwn := leftDone.own
  have stage6 : Stage before start [d2.blocks.length, d1.blocks.length] d6 :=
    stage5.build leftDone.grows leftDone.valid
  have stage7 := stage6.connect linked7
  refine ends_after (buildsRight d7 d1.blocks.length stage7.valid stage7.ready
    (scene_later sceneIn stage7.grows)) fun rightEnd d8 rightDone => ?_
  refine ends_link fun d9 linked9 _ => ends_pure _ ?_
  have size8 := rightDone.grows.size
  have rightSmall := rightDone.ready.inside
  have rightOwn := rightDone.own
  have stage8 : Stage before start [d2.blocks.length] d8 := stage7.build rightDone.grows rightDone.valid
  have stage9 := stage8.connect linked9
  have end8 : Grows before.blocks.length start d8 d9 := linked9.grows _ _ (.inr (.inl (by simp; omega)))
  have end7 := grows_trans (grows_narrow rightDone.grows (by omega) (.inr (by omega))) end8
  have end6 := grows_trans (linked7.grows _ _ (.inr (.inl (by simp; omega)))) end7
  have end5 := grows_trans (grows_narrow leftDone.grows (by omega) (.inr (Nat.le_refl _))) end6
  have startTip : d5.tip start = before.tip start := by rw [linked5.tip, linked4.tip, added3.tip, added2.tip, added1.tip]
  refine ⟨stage9.grows, stage9.valid, .inr (by omega), stage9.ready, fun safe none => ?_, ?_, fun _ run => run.elim⟩
  · rw [linked9.fault]
    refine rightDone.faultless safe.2 ?_
    rw [linked7.fault]
    refine leftDone.faultless safe.1 ?_
    rw [linked5.fault, linked4.fault, fault3, fault2, fault1, none]
  rw [stage9.tip, ← startTip]
  rintro trace (run | run)
  · have enter := flows_grow (flows_edge ((linked5.edges _).mpr (.inl (linked4.made trivial))) (by simp)) end5
    have inner := flows_grow (leftDone.values trace run) end6
    have leave := flows_grow (flows_edge (linked7.made trivial) (by simp)) end7
    rw [stage5.tip] at inner
    rw [linked7.tip] at leave
    simpa using flows_trans enter (flows_trans inner leave)
  · have enter := flows_grow (flows_edge (linked5.made trivial) (by simp)) end5
    have inner := flows_grow (rightDone.values trace run) end8
    have leave := flows_edge (linked9.made trivial) (by simp : EdgeKind.unconditional ≠ .exception)
    rw [stage7.tip] at inner
    rw [linked9.tip] at leave
    simpa using flows_trans enter (flows_trans inner leave)

example : ((Layout.either false pure pure 0).run { blocks := [default] }).2.edges.map (·.target) = [1, 2, 3, 3] := by decide +kernel

theorem builds_optional_branch (scene : Scene) (isOptional : Bool) :
    Builds scene (optionalBranch scene isOptional) True Silent fun trace => isOptional = true ∧ trace = [] := by
  cases isOptional with
  | false => exact builds_of (builds_pure scene True) id (fun _ run => run) (by simp)
  | true =>
    intro before start valid ready sceneIn
    have small := ready.inside
    refine ends_add fun d1 added1 fault1 size1 => ?_
    refine ends_link fun d2 linked2 size2 => ?_
    have stage1 := (stage_begin before start valid).add added1
    have stage2 := stage1.connect linked2
    have startTip : d2.tip start = before.tip start := by rw [linked2.tip, added1.tip]
    cases chain : scene.chainEnd with
    | none =>
      refine ends_pure _ ⟨stage2.grows, stage2.valid, .inr (Nat.le_refl _), stage2.ready, fun _ none => ?_, ?_, by simp [chain]⟩
      · rw [linked2.fault, fault1, none]
      · rintro _ rfl
        rw [stage2.tip, ← startTip]
        exact flows_edge (linked2.made trivial) (by simp)
    | some chainEnd =>
      have inside := sceneIn chainEnd chain
      refine ends_link fun d3 linked3 _ => ends_pure _ ?_
      have stage3 := stage2.connect linked3
      refine ⟨stage3.grows, stage3.valid, .inr (Nat.le_refl _), stage3.ready, fun _ none => ?_, ?_, ?_⟩
      · rw [linked3.fault, linked2.fault, fault1, none]
      · rintro _ rfl
        rw [stage3.tip, ← startTip]
        exact flows_grow (flows_edge (linked2.made trivial) (by simp)) (linked3.grows 0 start (.inl rfl))
      · rintro _ ⟨_, rfl⟩ other known
        obtain rfl : chainEnd = other := Option.some.inj (chain.symm.trans known)
        rw [← startTip, ← linked3.tip]
        exact flows_edge (linked3.made trivial) (by simp)

theorem builds_chain {action : Nat → Nat → Build Nat} {inLoop : Bool}
    (builds : ∀ chainEnd, Builds { scene with chainEnd := some chainEnd } (action chainEnd) Safe Values Skips) :
    Builds scene (Layout.chain inLoop action) Safe (fun trace => Values trace ∨ Skips trace) Never := by
  intro before start valid ready sceneIn
  have small := ready.inside
  refine ends_add fun d1 added1 fault1 size1 => ?_
  have stage1 := (stage_begin before start valid).add added1
  have sceneNow : ∀ chainEnd, ({ scene with chainEnd := some before.blocks.length } : Scene).chainEnd = some chainEnd →
      chainEnd < d1.blocks.length := by
    rintro _ ⟨⟩
    omega
  refine ends_after (builds before.blocks.length d1 start stage1.valid (added1.ready start ready) sceneNow) fun last d2 done => ?_
  refine ends_link fun d3 linked3 _ => ends_pure _ ?_
  have size2 := done.grows.size
  have lastSmall := done.ready.inside
  have lastOwn := done.own
  have stage2 : Stage before start [before.blocks.length] d2 := stage1.build done.grows done.valid
  have stage3 := stage2.connect linked3
  refine ⟨stage3.grows, stage3.valid, .inr (Nat.le_refl _), stage3.ready, fun safe none => ?_, ?_, fun _ run => run.elim⟩
  · rw [linked3.fault]
    exact done.faultless safe (fault1.trans none)
  rw [stage3.tip, ← added1.tip]
  have toEnd := linked3.grows d2.blocks.length last (.inl rfl)
  rintro trace (run | run)
  · have leave := flows_edge (linked3.made trivial) (by simp : EdgeKind.unconditional ≠ .exception)
    rw [linked3.tip] at leave
    simpa using flows_trans (flows_grow (done.values trace run) toEnd) leave
  · exact flows_grow (done.skips trace run _ rfl) toEnd

example : ((Layout.chain false (fun _ => pure) 0).run { blocks := [default] }).2.edges = [⟨0, 1, .unconditional⟩] := by decide +kernel

theorem builds_access {middle : Scene → Nat → Build Nat} (isOptional : Bool)
    (builds : ∀ scene, Builds scene (middle scene) Safe Values Skips) (scene : Scene) : Builds scene (fun start => do
      let opened ← openChain scene isOptional
      let last ← middle (scene.inside opened) start
      closeChain opened last) Safe Values Skips := by
  unfold openChain
  cases alone : isOptional && scene.chainEnd.isNone with
  | false => exact builds scene
  | true =>
    have none : scene.chainEnd = none := by simp_all
    have chain : Builds scene (fun start => do
        let chainEnd ← newBlock scene.inLoop .chainEnd
        let last ← middle { scene with chainEnd := some chainEnd } start
        connect last chainEnd .unconditional
        return chainEnd) Safe (fun trace => Values trace ∨ Skips trace) Never := builds_chain fun _ => builds _
    intro before start valid ready sceneIn
    refine ends_mono (chain before start valid ready sceneIn) fun last after done => ?_
    exact ⟨done.grows, done.valid, done.own, done.ready, done.faultless, fun trace run => done.values trace (.inl run), by simp [none]⟩

theorem builds_approximate (scene : Scene) (inLoop : Bool) (area : Region) (reason : Reason) :
    Builds scene (approximate inLoop area reason) False Never Never := by
  intro before start valid ready sceneIn
  have small := ready.inside
  refine ends_add fun d1 added1 _ size1 => ?_
  refine ends_add fun d2 added2 _ size2 => ?_
  refine ends_link fun d3 linked3 size3 => ?_
  refine ends_link fun d4 linked4 size4 => ?_
  refine ends_link fun d5 linked5 size5 => ?_
  refine ends_link fun d6 linked6 _ => ?_
  refine ends_bind (ends_modify_block (fun _ => rfl) fun d7 noted7 _ => ?_)
  refine ends_bind (ends_record_calls area.calls d7 fun d8 touched8 => ?_)
  have stage2 : Stage before start [d1.blocks.length] d2 := (((stage_begin before start valid).add added1).add added2).drop (by simp)
  have stage3 := stage2.connect linked3
  have stage4 := stage3.connect linked4
  have stage5 := stage4.connect linked5
  have stage6 := stage5.connect linked6
  have stage8 := (stage6.pad noted7).touch touched8 (Nat.le_refl _) (by simp; omega) valid
  have finish (last : Draft) (noted : Padded 0 d8 last) : Evaluated scene False Never Never before start d1.blocks.length last := by
    have stage9 := stage8.pad noted
    exact ⟨stage9.grows, stage9.valid, .inr (by omega), stage9.ready, False.elim, fun _ run => run.elim, fun _ run => run.elim⟩
  cases area.line with
  | ok line | error fault => exact finish _ ⟨rfl, fun _ => rfl, rfl, rfl, rfl⟩

theorem builds_broken (scene : Scene) (fault : Fault) : Builds scene (fun start => do noteFault fault; return start) False Never Never := by
  intro before start valid ready _
  have noted : Padded 0 before { before with fault := before.fault <|> some fault } := ⟨rfl, fun _ => rfl, rfl, rfl, rfl⟩
  have stage := (stage_begin before start valid).pad noted
  exact ⟨stage.grows, stage.valid, .inl rfl, ⟨ready.inside, ready.isOpen, ready.quiet⟩, False.elim,
    fun _ run => run.elim, fun _ run => run.elim⟩

theorem builds_safe (builds : Builds scene action Safe Values Skips) (less : Less → Safe) :
    Builds scene action Less Values Skips := builds_of builds less (fun _ => id) fun _ => id

theorem builds_turn (buildsFirst : Builds scene first SafeFirst A S) (buildsSecond : Builds scene second SafeSecond B T) :
    Builds scene (fun start => first start >>= second) (SafeFirst ∧ SafeSecond) (Then A B) Never :=
  builds_of (builds_bind buildsFirst buildsSecond) id (fun _ => id) nofun

end

theorem Outcome.taken_ne_exception (runs : Outcome) : runs.taken ≠ .exception := by cases runs <;> simp [Outcome.taken]

theorem Outcome.skipped_ne_exception (runs : Outcome) : runs.skipped ≠ .exception := by cases runs <;> simp [Outcome.skipped]

-- By cases on the form: what is built mirrors the evaluation part by part.
mutual
theorem Expr.builds (scene : Scene) : (expr : Expr) →
    Builds scene (expr.build scene) (∃ node, expr.SpelledIf node) (expr.Evaluates .value) (expr.Evaluates .skipped)
  | .leaf => builds_pure scene _
  | .sequence parts => by
    refine builds_safe (builds_all scene parts) ?_
    rintro ⟨node, ⟨_, ⟨⟩⟩ | ⟨items, _, spelled⟩⟩
    exact ⟨items, spelled⟩
  | .call node isOptional callee arguments => by
    have builds (scene : Scene) := builds_bind (callee.builds scene) (builds_bind (builds_optional_branch scene isOptional)
      (builds_bind (builds_all scene arguments) (builds_record scene node)))
    refine builds_of (builds_access isOptional builds scene) ?_ ?_ ?_
    · rintro ⟨node, ⟨_, ⟨⟩⟩ | ⟨_, _, _, callee, items, _, arguments⟩⟩
      exact ⟨⟨_, .inr callee⟩, trivial, ⟨items, arguments⟩, trivial⟩
    · intro trace run
      simpa [Expr.Evaluates, Then, Silent] using run
    · intro trace run
      simpa [Expr.Evaluates, Then, Silent, Never, and_comm] using run
  | .member isOptional object key => by
    have builds (scene : Scene) := builds_bind (object.builds scene) (builds_bind (builds_optional_branch scene isOptional)
      (builds_if scene key))
    refine builds_of (builds_access isOptional builds scene) ?_ ?_ ?_
    · rintro ⟨node, ⟨_, ⟨⟩⟩ | ⟨_, _, object, key⟩⟩
      exact ⟨⟨_, .inr object⟩, trivial, ⟨_, _, key⟩⟩
    · intro trace run
      simpa [Expr.Evaluates, Then, Silent] using run
    · intro trace run
      simpa [Expr.Evaluates, Then, Silent, Never, and_comm] using run
  | .chain inner => by
    refine builds_safe (builds_chain fun chainEnd => inner.builds _) ?_
    rintro ⟨node, ⟨_, ⟨⟩⟩ | ⟨_, spelled⟩⟩
    exact ⟨_, .inr spelled⟩
  | .logical runs left right => by
    have branch := builds_maybe scene.inLoop .logicalRight runs.taken_ne_exception runs.skipped_ne_exception (right.builds scene)
    refine builds_safe (builds_turn (left.builds scene) branch) ?_
    rintro ⟨node, ⟨_, ⟨⟩⟩ | ⟨_, _, left, right⟩⟩
    exact ⟨⟨_, .inr left⟩, ⟨_, .inr right⟩⟩
  | .conditional test consequent alternate => by
    refine builds_safe (builds_turn (test.builds scene) (builds_either scene.inLoop (consequent.builds scene) (alternate.builds scene))) ?_
    rintro ⟨node, ⟨_, ⟨⟩⟩ | ⟨_, test, consequent, alternate⟩⟩
    exact ⟨⟨_, .inr test⟩, ⟨_, .inr consequent⟩, ⟨_, .inr alternate⟩⟩
  | .assign target value => by
    refine builds_safe (builds_turn (target.builds_before scene) (builds_turn (value.builds scene) (target.builds_after scene))) ?_
    rintro ⟨node, ⟨_, ⟨⟩⟩ | ⟨_, _, target, value⟩⟩
    exact ⟨⟨_, target⟩, ⟨_, .inr value⟩, ⟨_, target⟩⟩
  | .assignIf runs target value => by
    have branch := builds_maybe scene.inLoop .logicalRight runs.taken_ne_exception runs.skipped_ne_exception (value.builds scene)
    refine builds_safe (builds_turn (target.builds_before scene) branch) ?_
    rintro ⟨node, ⟨_, ⟨⟩⟩ | ⟨_, _, _, target, value⟩⟩
    exact ⟨⟨_, target⟩, ⟨_, .inr value⟩⟩
  | .object properties => by
    refine builds_safe (builds_properties scene properties) ?_
    rintro ⟨node, ⟨_, ⟨⟩⟩ | ⟨_, items, _, spelled⟩⟩
    exact ⟨items, spelled⟩
  | .destructure pattern => by
    refine builds_of (pattern.builds scene) ?_ nofun nofun
    rintro ⟨node, ⟨_, ⟨⟩⟩ | spelled⟩
    exact spelled.elim
  | .region area => by
    refine builds_safe (builds_approximate scene scene.inLoop area .unsupportedExpression) ?_
    rintro ⟨node, ⟨_, ⟨⟩⟩ | spelled⟩
    exact spelled.elim
  | .broken fault => by
    refine builds_safe (builds_broken scene fault) ?_
    rintro ⟨node, ⟨_, ⟨⟩⟩ | spelled⟩
    exact spelled.elim
theorem builds_all (scene : Scene) : (exprs : List Expr) →
    Builds scene (buildAll scene exprs) (∃ items, SpelledAll exprs items) (EvaluatesAll exprs) Never
  | [] => builds_pure scene _
  | expr :: rest => by
    refine builds_safe (builds_turn (expr.builds scene) (builds_all scene rest)) ?_
    rintro ⟨_, item, others, rfl, first, spelled⟩
    exact ⟨⟨item, first⟩, ⟨others, spelled⟩⟩
theorem builds_if (scene : Scene) : (expr : Option Expr) →
    Builds scene (buildIf scene expr) (∃ node key, SpelledKey expr node key) (EvaluatesIf expr) Never
  | none => builds_pure scene _
  | some expr => by
    refine builds_of (expr.builds scene) ?_ fun _ => id
    rintro ⟨node, key, _, spelled⟩
    exact ⟨_, .inr spelled⟩
theorem builds_properties (scene : Scene) : (properties : List Property) →
    Builds scene (buildProperties scene properties) (∃ items, SpelledProperties properties items) (EvaluatesProperties properties) Never
  | [] => builds_pure scene _
  | property :: rest => by
    refine builds_safe (builds_turn (property.builds scene) (builds_properties scene rest)) ?_
    rintro ⟨_, item, others, rfl, first, spelled⟩
    exact ⟨⟨item, first⟩, ⟨others, spelled⟩⟩
theorem Property.builds (scene : Scene) : (property : Property) →
    Builds scene (property.build scene) (∃ node, property.Spelled node) property.Evaluates Never
  | .spread argument => by
    refine builds_of (argument.builds scene) ?_ fun _ => id
    rintro ⟨node, _, spelled⟩
    exact ⟨_, .inr spelled⟩
  | .entry key value => by
    refine builds_safe (builds_turn (builds_if scene key) (value.builds scene)) ?_
    rintro ⟨node, _, key, value⟩
    exact ⟨⟨_, _, key⟩, ⟨_, .inr value⟩⟩
theorem Target.builds_before (scene : Scene) : (target : Target) →
    Builds scene (target.buildBefore scene) (∃ node, target.Spelled node) target.EvaluatesBefore Never
  | .plain | .pattern _ => builds_pure scene _
  | .member object key => by
    refine builds_safe (builds_turn (object.builds scene) (builds_if scene key)) ?_
    rintro ⟨node, _, object, key⟩
    exact ⟨⟨_, .inr object⟩, ⟨_, _, key⟩⟩
theorem Target.builds_after (scene : Scene) : (target : Target) →
    Builds scene (target.buildAfter scene) (∃ node, target.Spelled node) target.EvaluatesAfter Never
  | .plain | .member _ _ => builds_pure scene _
  | .pattern pattern => by
    refine builds_safe (pattern.builds scene) ?_
    rintro ⟨node, _, spelled⟩
    exact ⟨node, spelled⟩
theorem Pattern.builds (scene : Scene) : (pattern : Pattern) →
    Builds scene (pattern.build scene) (∃ node, pattern.Spelled node) pattern.Evaluates Never
  | .plain => builds_pure scene _
  | .withDefault target value => by
    have branch := builds_maybe scene.inLoop .defaultValue (by simp : EdgeKind.whenTrue ≠ .exception)
      (by simp : EdgeKind.whenFalse ≠ .exception) (value.builds scene)
    refine builds_safe (builds_turn (target.builds scene) branch) ?_
    rintro ⟨node, _, rfl, _, value⟩
    exact ⟨⟨.null, .inl rfl⟩, ⟨_, .inr value⟩⟩
  | .object properties => by
    refine builds_safe (builds_pattern_properties scene properties) ?_
    rintro ⟨node, _, items, _, spelled⟩
    exact ⟨items, spelled⟩
  | .array elements => by
    refine builds_safe (builds_patterns scene elements) ?_
    rintro ⟨node, _, items, _, spelled⟩
    exact ⟨items, spelled⟩
  | .rest target => by
    refine builds_safe (target.builds scene) ?_
    rintro ⟨node, _, spelled⟩
    exact ⟨_, spelled⟩
  | .member isOptional object key => by
    have builds (scene : Scene) := builds_bind (object.builds scene) (builds_bind (builds_optional_branch scene isOptional)
      (builds_if scene key))
    refine builds_of (builds_access isOptional builds scene) ?_ ?_
    · rintro ⟨node, _, _, _, object, key⟩
      exact ⟨⟨_, .inr object⟩, trivial, ⟨_, _, key⟩⟩
    · intro trace run
      simpa [Pattern.Evaluates, Then, Silent] using run
  | .broken fault => by
    refine builds_safe (builds_broken scene fault) ?_
    rintro ⟨node, ⟨⟩⟩
theorem builds_patterns (scene : Scene) : (patterns : List Pattern) →
    Builds scene (buildPatterns scene patterns) (∃ items, SpelledPatterns patterns items) (EvaluatesPatterns patterns) Never
  | [] => builds_pure scene _
  | pattern :: rest => by
    refine builds_safe (builds_turn (pattern.builds scene) (builds_patterns scene rest)) ?_
    rintro ⟨_, item, others, rfl, first, spelled⟩
    exact ⟨⟨item, first⟩, ⟨others, spelled⟩⟩
theorem builds_pattern_properties (scene : Scene) : (properties : List PatternProperty) →
    Builds scene (buildPatternProperties scene properties) (∃ items, SpelledPatternProperties properties items)
      (EvaluatesPatternProperties properties) Never
  | [] => builds_pure scene _
  | property :: rest => by
    refine builds_safe (builds_turn (property.builds scene) (builds_pattern_properties scene rest)) ?_
    rintro ⟨_, item, others, rfl, first, spelled⟩
    exact ⟨⟨item, first⟩, ⟨others, spelled⟩⟩
theorem PatternProperty.builds (scene : Scene) : (property : PatternProperty) →
    Builds scene (property.build scene) (∃ node, property.Spelled node) property.Evaluates Never
  | .rest target => by
    refine builds_safe (target.builds scene) ?_
    rintro ⟨node, _, spelled⟩
    exact ⟨_, spelled⟩
  | .entry key target => by
    refine builds_safe (builds_turn (builds_if scene key) (target.builds scene)) ?_
    rintro ⟨node, _, key, target⟩
    exact ⟨⟨_, _, key⟩, ⟨_, target⟩⟩
end

theorem builds_marked {scene : Scene} {Safe : Prop} {Values Skips : Traces}
    (change : Block → Block) (quiet : ∀ block, (change block).calls = block.calls) (builds : Builds scene action Safe Values Skips) :
    Builds scene (fun start => do modifyBlock start change; action start) Safe Values Skips := by
  intro before start valid ready sceneIn
  refine ends_bind (ends_modify_block quiet fun marked padded fault => ?_)
  have size := padded.size
  refine ends_mono (builds marked start (padded.valid valid) (padded.ready start ready)
    (scene_later sceneIn (padded.grows 0 0))) fun final after done => ?_
  refine ⟨grows_trans (padded.grows _ _) (grows_narrow done.grows (by omega) (.inl rfl)), done.valid,
    done.own.imp_right (by omega), done.ready, fun safe none => done.faultless safe (fault.trans none), ?_, ?_⟩
  · rw [← padded.tip start]
    exact done.values
  · rw [← padded.tip start]
    exact done.skips

theorem builds_declarators (scene : Scene) (declarators : List Declarator) :
    Builds scene (fun start => declarators.foldlM (fun block declarator => do
      let block ← declarator.value.build scene block
      declarator.target.build scene block) start) (∃ items, List.Forall₂ Declarator.Spelled declarators items)
      (EvaluatesDeclarators declarators) Never := by
  induction declarators with
  | nil => exact builds_of (builds_pure scene True) (fun _ => trivial) (fun _ run => run)
  | cons declarator rest ih =>
    refine builds_of (builds_bind (builds_bind (declarator.value.builds scene) (declarator.target.builds scene)) ih) ?_ (fun _ run => run)
    rintro ⟨items, spelled⟩
    cases spelled with
    | @cons _ item _ others first spelled => exact ⟨⟨⟨_, first.2.1⟩, ⟨_, first.2.2⟩⟩, ⟨others, spelled⟩⟩

theorem builds_variables (scene : Scene) (declared : Variables) :
    Builds scene (buildVariables scene declared) (∃ node, declared.Spelled node) (EvaluatesDeclarators declared.declarators) Never := by
  refine builds_of (builds_marked (fun block => { block with statements := block.statements ++ [declared.node] })
    (fun _ => rfl) (builds_declarators scene declared.declarators)) ?_ (fun _ run => run)
  rintro ⟨node, _, _, items, _, spelled⟩
  exact ⟨items, spelled⟩

theorem Start.builds (scene : Scene) (start : Start) :
    Builds scene (start.build scene) (∃ node, start.Spelled node) start.Evaluates Never := by
  cases start with
  | nothing => exact builds_of (builds_pure scene True) (fun _ => trivial) (fun _ run => run)
  | declare declared =>
    refine builds_of (builds_variables scene declared) ?_ (fun _ run => run)
    rintro ⟨node, spelled⟩
    exact ⟨node, spelled⟩
  | expression value =>
    refine builds_of (value.builds scene) ?_ (fun _ run => run)
    rintro ⟨node, _, spelled⟩
    exact ⟨node, .inr spelled⟩

end HookLint.Flow
