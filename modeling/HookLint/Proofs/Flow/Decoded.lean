import HookLint.Proofs.Flow.Evaluated
import HookLint.Proofs.Flow.Trails

namespace HookLint.Flow

open List

variable {A B S T : Traces} {action first second : Nat → Build Nat} {scene : Scene}

-- An access by ?. stands in a chain expression, on the way down from it by objects and
-- callees. Nothing is left to approximation.
mutual
def Expr.Chained (inChain : Bool) : Expr → Prop
  | .leaf => True
  | .sequence parts => ChainedAll parts
  | .call _ isOptional callee arguments => (isOptional = true → inChain = true) ∧ callee.Chained inChain ∧ ChainedAll arguments
  | .member isOptional object key => (isOptional = true → inChain = true) ∧ object.Chained inChain ∧ ChainedIf key
  | .chain inner => inner.Chained true
  | .logical _ left right => left.Chained false ∧ right.Chained false
  | .conditional test consequent alternate => test.Chained false ∧ consequent.Chained false ∧ alternate.Chained false
  | .assign target value | .assignIf _ target value => target.Chained ∧ value.Chained false
  | .object properties => ChainedProperties properties
  | .destructure _ | .region _ | .broken _ => False
def ChainedAll : List Expr → Prop
  | [] => True
  | expr :: rest => expr.Chained false ∧ ChainedAll rest
def ChainedIf : Option Expr → Prop
  | none => True
  | some expr => expr.Chained false
def ChainedProperties : List Property → Prop
  | [] => True
  | property :: rest => property.Chained ∧ ChainedProperties rest
def Property.Chained : Property → Prop
  | .spread argument => argument.Chained false
  | .entry key value => ChainedIf key ∧ value.Chained false
def Target.Chained : Target → Prop
  | .plain => True
  | .member object key => object.Chained false ∧ ChainedIf key
  | .pattern pattern => pattern.Chained
def Pattern.Chained : Pattern → Prop
  | .plain => True
  | .withDefault target value => target.Chained ∧ value.Chained false
  | .object properties => ChainedPatternProperties properties
  | .array elements => ChainedPatterns elements
  | .rest target => target.Chained
  | .member isOptional object key => isOptional = false ∧ object.Chained false ∧ ChainedIf key
  | .broken _ => False
def ChainedPatterns : List Pattern → Prop
  | [] => True
  | pattern :: rest => pattern.Chained ∧ ChainedPatterns rest
def ChainedPatternProperties : List PatternProperty → Prop
  | [] => True
  | property :: rest => property.Chained ∧ ChainedPatternProperties rest
def PatternProperty.Chained : PatternProperty → Prop
  | .rest target => target.Chained
  | .entry key target => ChainedIf key ∧ target.Chained
end

-- A later draft in which, of what was built from a start to a final block, only the
-- final block has changed.
def Extends (before : Draft) (start final : Nat) (after later : Draft) : Prop :=
  Changes (fun block => block = final ∨ (block < before.blocks.length ∧ block ≠ start)) after later

-- What is built for an expression lets nothing else through than its evaluations: the ways from where it
-- starts pass where it ends, or the end of the chain, with the calls of an evaluation.
structure Decoded (scene : Scene) (Values Skips : Traces) (before : Draft) (start final : Nat) (after : Draft) : Prop where
  changes : Changes (· = start) before after
  valid : after.Valid
  own : final = start ∨ before.blocks.length ≤ final
  bare : after.Bare final
  splits : ∀ later goal, Extends before start final after later → goal < before.blocks.length → goal ≠ start →
    Splits later goal 0 start (before.tip start) fun trace block offset =>
      (Values trace ∧ block = final ∧ offset = after.tip final) ∨ (Skips trace ∧ scene.chainEnd = some block ∧ offset = 0)

def Decodes (scene : Scene) (action : Nat → Build Nat) (Values Skips : Traces) : Prop :=
  ∀ before start, before.Valid → before.Bare start → (∀ chainEnd, scene.chainEnd = some chainEnd → chainEnd < before.blocks.length) →
    Ends (action start) before (Decoded scene Values Skips before start)

section
variable {scene : Scene} {Values Skips : Traces}

theorem scene_larger {touched : Nat → Prop} {before after : Draft}
    (sceneIn : ∀ chainEnd, scene.chainEnd = some chainEnd → chainEnd < before.blocks.length)
    (changes : Changes touched before after) : ∀ chainEnd, scene.chainEnd = some chainEnd → chainEnd < after.blocks.length :=
  fun chainEnd known => Nat.lt_of_lt_of_le (sceneIn chainEnd known) changes.size

theorem decodes_of {same : Nat → Build Nat} {More Others : Traces} (decodes : Decodes scene action Values Skips)
    (more : ∀ trace, Values trace → More trace)
    (others : ∀ trace, Skips trace → Others trace := by first | exact fun _ run => run | exact fun _ run => run.elim)
    (equal : ∀ start, same start = action start := by intro _; rfl) : Decodes scene same More Others := by
  intro before start valid bare sceneIn
  rw [equal]
  refine ends_mono (decodes before start valid bare sceneIn) fun final after done => ?_
  refine ⟨done.changes, done.valid, done.own, done.bare, fun later goal extended small away => ?_⟩
  refine splits_mono (done.splits later goal extended small away) fun trace block offset reached => ?_
  exact reached.imp (fun ends => ⟨more trace ends.1, ends.2⟩) fun skips => ⟨others trace skips.1, skips.2⟩

theorem decodes_pure (scene : Scene) : Decodes scene (fun start => pure start) Silent Never := by
  intro before start valid bare _
  refine ends_pure start ⟨changes_refl _ _, valid, .inl rfl, bare, fun later goal _ _ _ => ?_⟩
  exact splits_stay (.inl ⟨rfl, rfl, rfl⟩)

theorem decodes_bind (decodesFirst : Decodes scene first A S) (decodesSecond : Decodes scene second B T) :
    Decodes scene (fun start => first start >>= second) (Then A B) fun trace => S trace ∨ Then A T trace := by
  intro before start valid bare sceneIn
  refine ends_after (decodesFirst before start valid bare sceneIn) fun middle between done => ?_
  have size := done.changes.size
  refine ends_mono (decodesSecond between middle done.valid done.bare (scene_larger sceneIn done.changes)) fun final after more => ?_
  have own := done.own
  have ownLast := more.own
  refine ⟨(done.changes.trans more.changes).weaken, more.valid, by omega, more.bare, ?_⟩
  intro later goal extended small away
  have early : Extends before start middle between later := (more.changes.trans extended).weaken
  have late : Extends between middle final after later := extended.weaken
  refine splits_bind (done.splits later goal early small away) fun head block offset reached => ?_
  rcases reached with ⟨values, rfl, rfl⟩ | ⟨skips, known, rfl⟩
  · refine splits_mono (more.splits later goal late (by omega) (by omega)) fun tail block offset reached => ?_
    exact reached.imp (fun ends => ⟨⟨head, tail, values, ends.1, rfl⟩, ends.2⟩)
      fun skips => ⟨.inr ⟨head, tail, values, skips.1, rfl⟩, skips.2⟩
  · exact splits_stay (.inr ⟨.inl (by simpa using skips), known, rfl⟩)

theorem decodes_record (scene : Scene) (call : Value) :
    Decodes scene (fun start => do recordCall start call; return start) (fun trace => trace = [call]) Never := by
  intro before start valid bare _
  refine ends_bind (ends_record_call fun after recorded => ends_pure start ?_)
  have here := recorded.here bare.inside
  refine ⟨recorded.changes bare.inside, recorded.valid valid, .inl rfl, recorded.bare bare, ?_⟩
  intro later goal extended _ away
  have made : (later.callsOf start)[before.tip start]? = some call := by
    obtain ⟨more, same⟩ := extended.calls start
    rw [← same, here]
    simp [Draft.tip]
  refine splits_mono_le (Nat.zero_le _) (splits_call (Ne.symm away) made) fun trace block offset reached => ?_
  obtain ⟨rfl, rfl, rfl⟩ := reached
  exact .inl ⟨rfl, rfl, by simp [Draft.tip, here]⟩

theorem splits_to_merge {later : Draft} {goal start offset last lastOffset merge : Nat}
    (inner : Splits later goal 0 start offset fun trace block offset =>
      (Values trace ∧ block = last ∧ offset = lastOffset) ∨ (Skips trace ∧ scene.chainEnd = some block ∧ offset = 0))
    (leave : Splits later goal 1 last lastOffset fun trace next nextOffset =>
      trace = [] ∧ next ∈ [merge] ∧ nextOffset = 0) : Splits later goal 0 start offset fun trace block offset =>
      (Values trace ∧ block = merge ∧ offset = 0) ∨ (Skips trace ∧ scene.chainEnd = some block ∧ offset = 0) := by
  refine splits_bind inner fun head block offset reached => ?_
  rcases reached with ⟨values, rfl, rfl⟩ | ⟨skips, known, rfl⟩
  · refine splits_mono_le (Nat.zero_le _) leave fun tail block offset reached => ?_
    obtain ⟨rfl, target, rfl⟩ := reached
    exact .inl ⟨by simpa using values, mem_singleton.mp target, rfl⟩
  · exact splits_stay (.inr ⟨by simpa using skips, known, rfl⟩)

theorem decodes_maybe (inLoop : Bool) (insideKind : BlockKind) (taken skipped : EdgeKind)
    (decodes : Decodes scene action Values Skips) : Decodes scene (Layout.maybe inLoop insideKind taken skipped action)
      (Maybe Values) Skips := by
  intro before start valid bare sceneIn
  have small := bare.inside
  refine ends_add fun d1 added1 _ size1 => ?_
  refine ends_add fun d2 added2 _ size2 => ?_
  refine ends_link fun d3 linked3 size3 => ?_
  refine ends_link fun d4 linked4 size4 => ?_
  have stage2 := ((staged_begin before start valid).add added1).add added2
  have stage3 := stage2.connect linked3
  have stage4 := stage3.connect linked4
  have startOut : d4.Out start [d1.blocks.length, before.blocks.length] := linked4.out (linked3.out (added2.out (added1.out bare.out)))
  have startTip : d4.tip start = before.tip start := by rw [linked4.tip, linked3.tip, added2.tip, added1.tip]
  refine ends_after (decodes d4 before.blocks.length stage4.valid stage4.bare (scene_larger sceneIn stage4.changes)) fun last d5 done => ?_
  refine ends_link fun d6 linked6 _ => ends_pure _ ?_
  have size5 := done.changes.size
  have lastSmall := done.bare.inside
  have lastOwn := done.own
  have stage5 : Staged before start [d1.blocks.length] d5 := stage4.build done.changes done.valid
  have stage6 := stage5.connect linked6
  refine ⟨stage6.changes, stage6.valid, .inr (by omega), stage6.bare, fun later goal extended below away => ?_⟩
  have after5 := linked6.changes.trans extended
  have after4 := done.changes.trans after5
  have enter := splits_leave goal after4 startOut
  have size6 := linked6.size
  have inner := done.splits later goal after5.weaken (by omega) (by omega)
  have leave := splits_leave goal extended (linked6.out done.bare.out)
  rw [startTip] at enter
  rw [stage4.tip] at inner
  rw [stage6.tip]
  rw [linked6.tip] at leave
  refine splits_bind enter fun head block offset reached => ?_
  obtain ⟨rfl, target, rfl⟩ := reached
  rcases mem_pair.mp target with rfl | rfl
  · exact splits_stay (.inl ⟨.inl rfl, rfl, rfl⟩)
  · refine splits_mono (splits_to_merge inner leave) fun trace block offset reached => ?_
    exact reached.imp_left fun ends => ⟨.inr ends.1, ends.2⟩

theorem decodes_either {left right : Nat → Build Nat} (inLoop : Bool)
    (decodesLeft : Decodes scene left A S) (decodesRight : Decodes scene right B T) :
    Decodes scene (Layout.either inLoop left right) (fun trace => A trace ∨ B trace) fun trace => S trace ∨ T trace := by
  intro before start valid bare sceneIn
  have small := bare.inside
  refine ends_add fun d1 added1 _ size1 => ?_
  refine ends_add fun d2 added2 _ size2 => ?_
  refine ends_add fun d3 added3 _ size3 => ?_
  refine ends_link fun d4 linked4 size4 => ?_
  refine ends_link fun d5 linked5 size5 => ?_
  have stage3 := (((staged_begin before start valid).add added1).add added2).add added3
  have stage4 := stage3.connect linked4
  have stage5 := stage4.connect linked5
  have startOut : d5.Out start [d1.blocks.length, before.blocks.length] :=
    linked5.out (linked4.out (added3.out (added2.out (added1.out bare.out))))
  have startTip : d5.tip start = before.tip start := by rw [linked5.tip, linked4.tip, added3.tip, added2.tip, added1.tip]
  refine ends_after (decodesLeft d5 before.blocks.length stage5.valid stage5.bare
    (scene_larger sceneIn stage5.changes)) fun leftEnd d6 leftDone => ?_
  refine ends_link fun d7 linked7 size7 => ?_
  have size6 := leftDone.changes.size
  have leftSmall := leftDone.bare.inside
  have leftOwn := leftDone.own
  have stage6 : Staged before start [d2.blocks.length, d1.blocks.length] d6 :=
    stage5.build leftDone.changes leftDone.valid
  have stage7 := stage6.connect linked7
  refine ends_after (decodesRight d7 d1.blocks.length stage7.valid stage7.bare
    (scene_larger sceneIn stage7.changes)) fun rightEnd d8 rightDone => ?_
  refine ends_link fun d9 linked9 size9 => ends_pure _ ?_
  have size8 := rightDone.changes.size
  have rightSmall := rightDone.bare.inside
  have rightOwn := rightDone.own
  have stage8 : Staged before start [d2.blocks.length] d8 :=
    stage7.build rightDone.changes rightDone.valid
  have stage9 := stage8.connect linked9
  refine ⟨stage9.changes, stage9.valid, .inr (by omega), stage9.bare, fun later goal extended below away => ?_⟩
  have after8 := linked9.changes.trans extended
  have after7 := rightDone.changes.trans after8
  have after6 := linked7.changes.trans after7
  have after5 := leftDone.changes.trans after6
  have enter := splits_leave goal after5 startOut
  have innerLeft := leftDone.splits later goal after6.weaken (by omega) (by omega)
  have leaveLeft := splits_leave goal after7 (linked7.out leftDone.bare.out)
  have innerRight := rightDone.splits later goal after8.weaken (by omega) (by omega)
  have leaveRight := splits_leave goal extended (linked9.out rightDone.bare.out)
  rw [startTip] at enter
  rw [stage5.tip] at innerLeft
  rw [stage7.tip] at innerRight
  rw [linked7.tip] at leaveLeft
  rw [linked9.tip] at leaveRight
  rw [stage9.tip]
  refine splits_bind enter fun head block offset reached => ?_
  obtain ⟨rfl, target, rfl⟩ := reached
  rcases mem_pair.mp target with rfl | rfl
  · refine splits_mono (splits_to_merge innerRight leaveRight) fun trace block offset reached => ?_
    exact reached.imp (fun ends => ⟨.inr ends.1, ends.2⟩) fun skips => ⟨.inr skips.1, skips.2⟩
  · refine splits_mono (splits_to_merge innerLeft leaveLeft) fun trace block offset reached => ?_
    exact reached.imp (fun ends => ⟨.inl ends.1, ends.2⟩) fun skips => ⟨.inl skips.1, skips.2⟩

theorem decodes_optional_branch (scene : Scene) (isOptional : Bool) (inChain : isOptional = true → scene.chainEnd.isSome) :
    Decodes scene (optionalBranch scene isOptional) Silent fun trace => isOptional = true ∧ trace = [] := by
  cases isOptional with
  | false => exact decodes_of (decodes_pure scene) (fun _ run => run)
  | true =>
    obtain ⟨chainEnd, chain⟩ := Option.isSome_iff_exists.mp (inChain rfl)
    intro before start valid bare sceneIn
    have small := bare.inside
    have inside := sceneIn chainEnd chain
    refine ends_add fun d1 added1 _ size1 => ?_
    refine ends_link fun d2 linked2 size2 => ?_
    rw [chain]
    refine ends_link fun d3 linked3 size3 => ends_pure _ ?_
    have stage1 := (staged_begin before start valid).add added1
    have stage2 := stage1.connect linked2
    have stage3 := stage2.connect linked3
    have startOut : d3.Out start [chainEnd, before.blocks.length] := linked3.out (linked2.out (added1.out bare.out))
    have startTip : d3.tip start = before.tip start := by rw [linked3.tip, linked2.tip, added1.tip]
    refine ⟨stage3.changes, stage3.valid, .inr (Nat.le_refl _), stage3.bare, fun later goal extended below away => ?_⟩
    have enter := splits_leave goal extended startOut
    rw [startTip] at enter
    rw [stage3.tip]
    refine splits_mono_le (Nat.zero_le _) enter fun trace block offset reached => ?_
    obtain ⟨rfl, target, rfl⟩ := reached
    rcases mem_pair.mp target with rfl | rfl
    · exact .inr ⟨⟨rfl, rfl⟩, chain, rfl⟩
    · exact .inl ⟨rfl, rfl, rfl⟩

theorem decodes_chain {action : Nat → Nat → Build Nat} {inLoop : Bool}
    (decodes : ∀ chainEnd, Decodes { scene with chainEnd := some chainEnd } (action chainEnd) Values Skips) :
    Decodes scene (Layout.chain inLoop action) (fun trace => Values trace ∨ Skips trace) Never := by
  intro before start valid bare sceneIn
  have small := bare.inside
  refine ends_add fun d1 added1 _ size1 => ?_
  have stage1 := (staged_begin before start valid).add added1
  have sceneNow : ∀ chainEnd, ({ scene with chainEnd := some before.blocks.length } : Scene).chainEnd = some chainEnd →
      chainEnd < d1.blocks.length := by
    rintro _ ⟨⟩
    omega
  have bareNow : d1.Bare start := (added1.changes fun _ => False).bare id bare
  refine ends_after (decodes before.blocks.length d1 start stage1.valid bareNow sceneNow) fun last d2 done => ?_
  refine ends_link fun d3 linked3 size3 => ends_pure _ ?_
  have size2 := done.changes.size
  have lastSmall := done.bare.inside
  have lastOwn := done.own
  have stage2 : Staged before start [before.blocks.length] d2 := stage1.build done.changes done.valid
  have stage3 := stage2.connect linked3
  refine ⟨stage3.changes, stage3.valid, .inr (Nat.le_refl _), stage3.bare, fun later goal extended below away => ?_⟩
  have after2 := linked3.changes.trans extended
  have inner := done.splits later goal after2.weaken (by omega) away
  have leave := splits_leave goal extended (linked3.out done.bare.out)
  rw [added1.tip] at inner
  rw [linked3.tip] at leave
  rw [stage3.tip]
  refine splits_mono (splits_to_merge inner leave) fun trace block offset reached => ?_
  rcases reached with ⟨values, rfl, rfl⟩ | ⟨skips, known, rfl⟩
  · exact .inl ⟨.inl values, rfl, rfl⟩
  · exact .inl ⟨.inr skips, (Option.some.inj known).symm, rfl⟩

theorem decodes_access {middle : Scene → Nat → Build Nat} {inChain isOptional : Bool} (optional : isOptional = true → inChain = true)
    (decodes : ∀ scene : Scene, (inChain = true → scene.chainEnd.isSome) → Decodes scene (middle scene) Values Skips)
    (scene : Scene) (inside : inChain = true → scene.chainEnd.isSome) : Decodes scene (fun start => do
      let opened ← openChain scene isOptional
      let last ← middle (scene.inside opened) start
      closeChain opened last) Values Skips := by
  have known : (isOptional && scene.chainEnd.isNone) = false := by
    cases isOptional with
    | false => rfl
    | true => simpa using inside (optional rfl)
  unfold openChain
  rw [known]
  exact decodes scene inside

theorem decodes_turn (decodesFirst : Decodes scene first A Never)
    (decodesSecond : Decodes scene second B Never) : Decodes scene (fun start => first start >>= second) (Then A B) Never := by
  refine decodes_of (decodes_bind decodesFirst decodesSecond) (fun _ run => run) ?_
  simp [Never, Then]

end

theorem Expr.not_skipped : (expr : Expr) → expr.Chained false → ∀ trace, ¬ expr.Evaluates .skipped trace
  | .call node isOptional callee arguments, chained, trace => by
    rintro (skipped | ⟨rfl, _⟩)
    · exact callee.not_skipped chained.2.1 trace skipped
    · cases chained.1 rfl
  | .member isOptional base key, chained, trace => by
    rintro (skipped | ⟨rfl, _⟩)
    · exact base.not_skipped chained.2.1 trace skipped
    · cases chained.1 rfl
  | .leaf, _, _ | .sequence _, _, _ | .chain _, _, _ | .logical _ _ _, _, _ | .conditional _ _ _, _, _ | .assign _ _, _, _
  | .assignIf _ _ _, _, _ | .object _, _, _ | .destructure _, _, _ | .region _, _, _ | .broken _, _, _ => by simp [Expr.Evaluates]

theorem decodes_value {expr : Expr} (chained : expr.Chained false)
    (decodes : Decodes scene (expr.build scene) (expr.Evaluates .value) (expr.Evaluates .skipped)) :
    Decodes scene (expr.build scene) (expr.Evaluates .value) Never :=
  decodes_of decodes (fun _ run => run) fun trace run => expr.not_skipped chained trace run

-- By cases on the form: what is built mirrors the evaluation part by part.
mutual
theorem Expr.decodes (scene : Scene) (inChain : Bool) (inside : inChain = true → scene.chainEnd.isSome) : (expr : Expr) →
    expr.Chained inChain → Decodes scene (expr.build scene) (expr.Evaluates .value) (expr.Evaluates .skipped)
  | .leaf, _ => decodes_pure scene
  | .sequence parts, chained => decodes_all scene parts chained
  | .call node isOptional callee arguments, chained => by
    obtain ⟨optional, calleeChained, argumentsChained⟩ := chained
    have parts (scene : Scene) (inside : inChain = true → scene.chainEnd.isSome) :=
      decodes_bind (callee.decodes scene inChain inside calleeChained) (decodes_bind
        (decodes_optional_branch scene isOptional fun isTrue => inside (optional isTrue))
        (decodes_bind (decodes_all scene arguments argumentsChained) (decodes_record scene node)))
    refine decodes_of (decodes_access optional parts scene inside) ?_ ?_
    · intro trace run
      simpa [Expr.Evaluates, Then, Silent] using run
    · intro trace run
      simpa [Expr.Evaluates, Then, Silent, Never, and_comm] using run
  | .member isOptional object key, chained => by
    obtain ⟨optional, objectChained, keyChained⟩ := chained
    have parts (scene : Scene) (inside : inChain = true → scene.chainEnd.isSome) :=
      decodes_bind (object.decodes scene inChain inside objectChained) (decodes_bind
        (decodes_optional_branch scene isOptional fun isTrue => inside (optional isTrue))
        (decodes_if scene key keyChained))
    refine decodes_of (decodes_access optional parts scene inside) ?_ ?_
    · intro trace run
      simpa [Expr.Evaluates, Then, Silent] using run
    · intro trace run
      simpa [Expr.Evaluates, Then, Silent, Never, and_comm] using run
  | .chain inner, chained => decodes_chain fun _ => inner.decodes _ true (fun _ => rfl) chained
  | .logical runs left right, chained =>
    decodes_turn (decodes_value chained.1 (left.decodes scene false nofun chained.1))
      (decodes_maybe scene.inLoop .logicalRight runs.taken runs.skipped (decodes_value chained.2 (right.decodes scene false nofun chained.2)))
  | .conditional test consequent alternate, chained => by
    have testDecodes := decodes_value chained.1 (test.decodes scene false nofun chained.1)
    have consequentDecodes := decodes_value chained.2.1 (consequent.decodes scene false nofun chained.2.1)
    have alternateDecodes := decodes_value chained.2.2 (alternate.decodes scene false nofun chained.2.2)
    refine decodes_of (decodes_bind testDecodes (decodes_either scene.inLoop consequentDecodes alternateDecodes)) (fun _ => id) ?_
    simp [Never, Then]
  | .assign target value, chained =>
    decodes_turn (target.decodes_before scene chained.1) (decodes_turn
      (decodes_value chained.2 (value.decodes scene false nofun chained.2)) (target.decodes_after scene chained.1))
  | .assignIf runs target value, chained =>
    decodes_turn (target.decodes_before scene chained.1)
      (decodes_maybe scene.inLoop .logicalRight runs.taken runs.skipped (decodes_value chained.2 (value.decodes scene false nofun chained.2)))
  | .object properties, chained => decodes_properties scene properties chained
  | .destructure _, chained | .region _, chained | .broken _, chained => chained.elim
theorem decodes_all (scene : Scene) : (exprs : List Expr) → ChainedAll exprs →
    Decodes scene (buildAll scene exprs) (EvaluatesAll exprs) Never
  | [], _ => decodes_pure scene
  | expr :: rest, chained =>
    decodes_turn (decodes_value chained.1 (expr.decodes scene false nofun chained.1)) (decodes_all scene rest chained.2)
theorem decodes_if (scene : Scene) : (expr : Option Expr) → ChainedIf expr → Decodes scene (buildIf scene expr) (EvaluatesIf expr) Never
  | none, _ => decodes_pure scene
  | some expr, chained => decodes_value chained (expr.decodes scene false nofun chained)
theorem decodes_properties (scene : Scene) : (properties : List Property) → ChainedProperties properties →
    Decodes scene (buildProperties scene properties) (EvaluatesProperties properties) Never
  | [], _ => decodes_pure scene
  | property :: rest, chained => decodes_turn (property.decodes scene chained.1) (decodes_properties scene rest chained.2)
theorem Property.decodes (scene : Scene) : (property : Property) → property.Chained →
    Decodes scene (property.build scene) property.Evaluates Never
  | .spread argument, chained => decodes_value chained (argument.decodes scene false nofun chained)
  | .entry key value, chained =>
    decodes_turn (decodes_if scene key chained.1) (decodes_value chained.2 (value.decodes scene false nofun chained.2))
theorem Target.decodes_before (scene : Scene) : (target : Target) → target.Chained →
    Decodes scene (target.buildBefore scene) target.EvaluatesBefore Never
  | .plain, _ | .pattern _, _ => decodes_pure scene
  | .member object key, chained =>
    decodes_turn (decodes_value chained.1 (object.decodes scene false nofun chained.1)) (decodes_if scene key chained.2)
theorem Target.decodes_after (scene : Scene) : (target : Target) → target.Chained →
    Decodes scene (target.buildAfter scene) target.EvaluatesAfter Never
  | .plain, _ | .member _ _, _ => decodes_pure scene
  | .pattern pattern, chained => pattern.decodes scene chained
theorem Pattern.decodes (scene : Scene) : (pattern : Pattern) → pattern.Chained →
    Decodes scene (pattern.build scene) pattern.Evaluates Never
  | .plain, _ => decodes_pure scene
  | .withDefault target value, chained =>
    decodes_turn (target.decodes scene chained.1) (decodes_maybe scene.inLoop .defaultValue .whenTrue .whenFalse
      (decodes_value chained.2 (value.decodes scene false nofun chained.2)))
  | .object properties, chained => decodes_pattern_properties scene properties chained
  | .array elements, chained => decodes_patterns scene elements chained
  | .rest target, chained => target.decodes scene chained
  | .member isOptional object key, chained => by
    obtain ⟨rfl, objectChained, keyChained⟩ := chained
    have objectDecodes := decodes_value objectChained (object.decodes scene false nofun objectChained)
    exact decodes_of (decodes_turn objectDecodes (decodes_if scene key keyChained)) fun _ => id
  | .broken _, chained => chained.elim
theorem decodes_patterns (scene : Scene) : (patterns : List Pattern) → ChainedPatterns patterns →
    Decodes scene (buildPatterns scene patterns) (EvaluatesPatterns patterns) Never
  | [], _ => decodes_pure scene
  | pattern :: rest, chained => decodes_turn (pattern.decodes scene chained.1) (decodes_patterns scene rest chained.2)
theorem decodes_pattern_properties (scene : Scene) : (properties : List PatternProperty) → ChainedPatternProperties properties →
    Decodes scene (buildPatternProperties scene properties) (EvaluatesPatternProperties properties) Never
  | [], _ => decodes_pure scene
  | property :: rest, chained => decodes_turn (property.decodes scene chained.1) (decodes_pattern_properties scene rest chained.2)
theorem PatternProperty.decodes (scene : Scene) : (property : PatternProperty) → property.Chained →
    Decodes scene (property.build scene) property.Evaluates Never
  | .rest target, chained => target.decodes scene chained
  | .entry key target, chained => decodes_turn (decodes_if scene key chained.1) (target.decodes scene chained.2)
end

theorem decodes_marked {Values Skips : Traces} (change : Block → Block)
    (quiet : ∀ block, (change block).calls = block.calls) (decodes : Decodes scene action Values Skips) :
    Decodes scene (fun start => do modifyBlock start change; action start) Values Skips := by
  intro before start valid bare sceneIn
  refine ends_bind (ends_modify_block quiet fun marked padded _ => ?_)
  have size := padded.size
  have bareNow : marked.Bare start := (padded.changes fun _ => False).bare id bare
  refine ends_mono (decodes marked start (padded.valid valid) bareNow (scene_larger sceneIn (padded.changes fun _ => False)))
    fun final after done => ?_
  have own := done.own
  refine ⟨((padded.changes (· = start)).trans done.changes).weaken, done.valid, by omega, done.bare, ?_⟩
  intro later goal extended below away
  rw [← padded.tip start]
  exact done.splits later goal extended.weaken (by omega) away

def Declarator.Chained (declarator : Declarator) : Prop := declarator.value.Chained false ∧ declarator.target.Chained

def Variables.Chained (declared : Variables) : Prop := ∀ declarator ∈ declared.declarators, declarator.Chained

def Start.Chained : Start → Prop
  | .nothing => True
  | .declare declared => declared.Chained
  | .expression value => value.Chained false

theorem Expr.decodes_alone (scene : Scene) (expr : Expr) (chained : expr.Chained false) :
    Decodes scene (expr.build scene) (expr.Evaluates .value) Never :=
  decodes_value chained (expr.decodes scene false nofun chained)

theorem decodes_declarators (scene : Scene) (declarators : List Declarator) (chained : ∀ declarator ∈ declarators, declarator.Chained) :
    Decodes scene (fun start => declarators.foldlM (fun block declarator => do
      let block ← declarator.value.build scene block
      declarator.target.build scene block) start) (EvaluatesDeclarators declarators) Never := by
  induction declarators with
  | nil => exact decodes_of (decodes_pure scene) (fun _ run => run)
  | cons declarator rest ih =>
    obtain ⟨value, target⟩ := chained declarator mem_cons_self
    refine decodes_of (decodes_turn (decodes_turn (declarator.value.decodes_alone scene value)
      (declarator.target.decodes scene target)) (ih fun other member => chained other (mem_cons_of_mem _ member))) (fun _ run => run)

theorem decodes_variables (scene : Scene) (declared : Variables) (chained : declared.Chained) :
    Decodes scene (buildVariables scene declared) (EvaluatesDeclarators declared.declarators) Never :=
  decodes_marked (fun block => { block with statements := block.statements ++ [declared.node] }) (fun _ => rfl)
    (decodes_declarators scene declared.declarators chained)

theorem Start.decodes (scene : Scene) (start : Start) (chained : start.Chained) :
    Decodes scene (start.build scene) start.Evaluates Never := by
  cases start with
  | nothing => exact decodes_pure scene
  | declare declared => exact decodes_variables scene declared chained
  | expression value => exact value.decodes_alone scene chained

end HookLint.Flow
