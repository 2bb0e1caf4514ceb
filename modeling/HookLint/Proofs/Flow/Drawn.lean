import HookLint.Proofs.Flow.Moves

namespace HookLint.Flow

section
variable {inLoop : Bool} {marks others : Marks} {lead more : Lead} {action : Nat → Build Nat}

theorem Drawing.drawn {sheet : Sheet} {known : Draft → Prop} {alive opened : Nat → Prop} {lies : Bool → Nat → Prop} {draft : Draft}
    {start final : Nat} (drawing : Drawing sheet marks known alive opened lies draft) (ends : lead.whole = true → final = start)
    (has : ∀ later, known later → later.Has start lead.calls) (away : ∀ block, sheet.opened block → block ≠ start → block ≠ final)
    (fits : ∀ block, ((block = final ∨ sheet.alive block ∧ block ≠ start) ↔ alive block) ∧
      (block = final ∨ sheet.alive block ∧ block ≠ start → block = final ∨ sheet.opened block ∧ block ≠ start) ∧
      (block = final ∨ sheet.opened block ∧ block ≠ start → opened block) ∧
      ∀ side, side = inLoop ∧ block = final ∨ sheet.lies side block → lies side block) :
    ((∀ block, sheet.opened block → block ≠ start → block ≠ final) ∧ (lead.whole = true → final = start)) ∧
      Drawing sheet marks (·.Has start lead.calls) (fun block => block = final ∨ sheet.alive block ∧ block ≠ start)
        (fun block => block = final ∨ sheet.opened block ∧ block ≠ start)
        (fun side block => side = inLoop ∧ block = final ∨ sheet.lies side block) draft :=
  ⟨⟨away, ends⟩, drawing.finish (included_refl _) has fits⟩

theorem draws_pure : Draws inLoop [] .still fun start => pure start := by
  intro sheet start sane lives inside
  have within := sane.within
  exact ends_pure start ((draw_begin sane).drawn (fun _ => rfl) (fun _ _ => nofun) (fun _ _ => id) (by grind))

theorem draws_bind {first second : Nat → Build Nat} (early : Draws inLoop marks lead first) (late : Draws inLoop others more second) :
    Draws inLoop (marks ++ others) (lead.andThen more) fun start => first start >>= second := by
  intro sheet start sane lives inside
  have within := sane.within
  refine ends_bind (draw_lead (draw_begin sane) early lives inside fun middle d1 away drawing => ?_)
  refine draw_lead drawing late (.inl rfl) (.inl ⟨rfl, rfl⟩) fun final d2 apart drawing => drawing.drawn (fun whole => ?_) ?_ (by grind) (by grind)
  · obtain ⟨stays, ends⟩ := and_then_whole whole
    exact (apart.2 ends).trans (away.2 stays)
  · exact fun later facts => has_and_then away.2 facts.1.2 facts.2

theorem draws_broken (fault : Fault) : Draws inLoop [] .still fun start => do noteFault fault; return start := by
  intro sheet start sane lives inside
  have within := sane.within
  refine ends_bind (draw_fault (draw_begin sane) fun d1 drawing => ends_pure start ?_)
  exact drawing.drawn (fun _ => rfl) (fun _ _ => nofun) (fun _ _ => id) (by grind)

theorem draws_record (call : Value) :
    Draws inLoop [(⟨inLoop, false⟩, call)] ⟨[call], true⟩ fun start => do recordCall start call; return start := by
  intro sheet start sane lives inside
  have within := sane.within
  refine ends_bind (draw_record (draw_begin sane) ⟨inLoop, false⟩ inside (by simp) fun d1 _ has drawing => ends_pure start ?_)
  have drawing := drawing.know fun later keeps => (has (within start lives)).keep keeps
  exact drawing.drawn (fun _ => rfl) (fun _ facts => facts.2) (fun _ _ => id) (by grind)

theorem Draws.split (draws : Draws inLoop marks lead action) : Draws inLoop marks .split action := by
  intro sheet start sane lives inside
  refine ends_mono (draws sheet start sane lives inside) fun final after done => ⟨⟨done.1.1, nofun⟩, done.2.finish (included_refl _) (fun _ _ => nofun) ?_⟩
  have within := done.2.within
  grind

theorem draws_approximate (area : Region) (reason : Reason) : Draws inLoop (area.marks inLoop) .split (approximate inLoop area reason) := by
  intro sheet start sane lives _
  have within := sane.within
  refine ends_bind (draw_new (draw_begin sane) fun inside d1 ahead new _ drawing => ?_)
  refine ends_bind (draw_new drawing fun next d2 nextAhead newNext _ drawing => ?_)
  refine ends_bind (draw_connect drawing (by grind) ahead nofun fun d3 drawing => ?_)
  refine ends_bind (draw_connect drawing (by grind) nextAhead nofun fun d4 drawing => ?_)
  refine ends_bind (draw_link drawing (by grind) ahead fun d5 drawing => ?_)
  refine ends_bind (draw_connect drawing (by grind) nextAhead nofun fun d6 drawing => ?_)
  refine ends_bind (draw_statement drawing fun d7 drawing => ?_)
  refine ends_bind (draw_records drawing area.calls (.inr (.inl ⟨rfl, rfl⟩)) drawing.fact.2 fun d8 drawing => ?_)
  cases area.line with
  | ok line => exact ends_bind (draw_remark drawing fun d9 drawing => ends_pure next (drawing.drawn nofun (fun _ _ => nofun) (by grind) (by grind)))
  | error fault => exact ends_bind (draw_fault drawing fun d9 drawing => ends_pure next (drawing.drawn nofun (fun _ _ => nofun) (by grind) (by grind)))

theorem draws_maybe (insideKind : BlockKind) (taken skipped : EdgeKind) (takes : taken ≠ .exception) (skips : skipped ≠ .exception)
    (draws : Draws inLoop marks lead action) : Draws inLoop marks .split (Layout.maybe inLoop insideKind taken skipped action) := by
  intro sheet start sane lives _
  have within := sane.within
  refine ends_bind (draw_new (draw_begin sane) fun inside d1 ahead new _ drawing => ?_)
  refine ends_bind (draw_new drawing fun merge d2 mergeAhead newMerge _ drawing => ?_)
  refine ends_bind (draw_connect drawing (by grind) ahead takes fun d3 drawing => ?_)
  refine ends_bind (draw_connect drawing (by grind) mergeAhead skips fun d4 drawing => ?_)
  refine ends_bind (draw_build drawing draws (by grind) (by grind) fun last d5 away drawing => ?_)
  refine ends_bind (draw_connect drawing (by grind) mergeAhead nofun fun d6 drawing => ends_pure _ ?_)
  exact drawing.drawn nofun (fun _ _ => nofun) (by grind) (by grind)

theorem draws_either {left right : Nat → Build Nat} (drawsLeft : Draws inLoop marks lead left)
    (drawsRight : Draws inLoop others more right) : Draws inLoop (marks ++ others) .split (Layout.either inLoop left right) := by
  intro sheet start sane lives _
  have within := sane.within
  refine ends_bind (draw_new (draw_begin sane) fun whenTrue d1 trueAhead newTrue _ drawing => ?_)
  refine ends_bind (draw_new drawing fun whenFalse d2 falseAhead newFalse _ drawing => ?_)
  refine ends_bind (draw_new drawing fun merge d3 mergeAhead newMerge _ drawing => ?_)
  refine ends_bind (draw_connect drawing (by grind) trueAhead nofun fun d4 drawing => ?_)
  refine ends_bind (draw_connect drawing (by grind) falseAhead nofun fun d5 drawing => ?_)
  refine ends_bind (draw_build drawing drawsLeft (by grind) (by grind) fun leftEnd d6 leftAway drawing => ?_)
  refine ends_bind (draw_connect drawing (by grind) mergeAhead nofun fun d7 drawing => ?_)
  refine ends_bind (draw_build drawing drawsRight (by grind) (by grind) fun rightEnd d8 rightAway drawing => ?_)
  refine ends_bind (draw_connect drawing (by grind) mergeAhead nofun fun d9 drawing => ends_pure _ ?_)
  exact drawing.drawn nofun (fun _ _ => nofun) (by grind) (by grind)

theorem draws_optional_branch (scene : Scene) (ahead : scene.Ahead) (isOptional : Bool) :
    Draws scene.inLoop [] ⟨[], !isOptional⟩ (optionalBranch scene isOptional) := by
  cases isOptional with
  | false => exact draws_pure
  | true =>
    intro sheet start sane lives _
    have within := sane.within
    refine ends_bind (draw_new (draw_begin sane) fun next d1 nextAhead new _ drawing => ?_)
    refine ends_bind (draw_connect drawing (by grind) nextAhead nofun fun d2 drawing => ?_)
    cases found : scene.chainEnd with
    | none => exact ends_pure next (drawing.drawn nofun (fun _ _ => nofun) (by grind) (by grind))
    | some chainEnd =>
      refine ends_bind (draw_connect drawing (by grind) (ahead chainEnd found) nofun fun d3 drawing => ends_pure next ?_)
      exact drawing.drawn nofun (fun _ _ => nofun) (by grind) (by grind)

theorem draws_chain {action : Nat → Nat → Build Nat} (draws : ∀ chainEnd, chainEnd ≠ 0 → Draws inLoop marks lead (action chainEnd)) :
    Draws inLoop marks (lead.andThen .split) (Layout.chain inLoop action) := by
  intro sheet start sane lives inside
  have within := sane.within
  refine ends_bind (draw_new (draw_begin sane) fun chainEnd d1 ahead new _ drawing => ?_)
  refine ends_bind (draw_lead drawing (draws chainEnd ahead) (.inr lives) (.inr inside) fun last d2 away drawing => ?_)
  refine ends_bind (draw_connect drawing (by grind) ahead nofun fun d3 drawing => ends_pure _ ?_)
  rw [and_then_split]
  exact drawing.drawn nofun (fun _ facts => facts.2) (by grind) (by grind)

theorem draws_access {middle : Scene → Nat → Build Nat} (isOptional : Bool) (scene : Scene) (ahead : scene.Ahead)
    (splits : isOptional = true → lead.whole = false)
    (draws : ∀ inner : Scene, inner.inLoop = scene.inLoop → inner.Ahead → Draws scene.inLoop marks lead (middle inner)) :
    Draws scene.inLoop marks lead (fun start => do
      let opened ← openChain scene isOptional
      let last ← middle (scene.inside opened) start
      closeChain opened last) := by
  unfold openChain
  cases alone : isOptional && scene.chainEnd.isNone with
  | false => exact draws scene rfl ahead
  | true =>
    have same : lead.andThen .split = lead := by rw [and_then_split, ← splits (Bool.and_eq_true_iff.mp alone).1]
    rw [← same]
    exact draws_chain fun chainEnd positive => draws { scene with chainEnd := some chainEnd } rfl (by simpa [Scene.Ahead] using positive)

end

theorem Outcome.taken_normal (outcome : Outcome) : outcome.taken ≠ .exception := by cases outcome <;> decide

theorem Outcome.skipped_normal (outcome : Outcome) : outcome.skipped ≠ .exception := by cases outcome <;> decide

-- By cases on the form: no expression goes back to a block that it has left.
mutual
theorem Expr.draws (scene : Scene) (ahead : scene.Ahead) : (expr : Expr) → Draws scene.inLoop (expr.marks scene.inLoop) expr.lead (expr.build scene)
  | .leaf => draws_pure
  | .sequence parts => draws_all scene ahead parts
  | .call node isOptional callee arguments => by
    have middle (inner : Scene) (same : inner.inLoop = scene.inLoop) (ahead : inner.Ahead) := same ▸ draws_bind (callee.draws _ ahead)
      (draws_bind (draws_optional_branch _ ahead isOptional) (draws_bind (draws_all _ ahead arguments) (draws_record node)))
    exact draws_access isOptional scene ahead (access_splits isOptional _ _) middle
  | .member isOptional object key => by
    have middle (inner : Scene) (same : inner.inLoop = scene.inLoop) (ahead : inner.Ahead) := same ▸ draws_bind (object.draws _ ahead)
      (draws_bind (draws_optional_branch _ ahead isOptional) (draws_if _ ahead key))
    exact draws_access isOptional scene ahead (access_splits isOptional _ _) middle
  | .chain inner =>
    draws_chain fun chainEnd positive =>
      inner.draws { scene with chainEnd := some chainEnd } (by simpa [Scene.Ahead] using positive)
  | .logical runs left right =>
    draws_bind (left.draws scene ahead)
      (draws_maybe .logicalRight runs.taken runs.skipped runs.taken_normal runs.skipped_normal (right.draws scene ahead))
  | .conditional test consequent alternate =>
    draws_bind (test.draws scene ahead) (draws_either (consequent.draws scene ahead) (alternate.draws scene ahead))
  | .assign target value =>
    draws_bind (target.draws_before scene ahead) (draws_bind (value.draws scene ahead) (target.draws_after scene ahead))
  | .assignIf runs target value =>
    draws_bind (target.draws_before scene ahead)
      (draws_maybe .logicalRight runs.taken runs.skipped runs.taken_normal runs.skipped_normal (value.draws scene ahead))
  | .object properties => draws_properties scene ahead properties
  | .destructure pattern => pattern.draws scene ahead
  | .region area => draws_approximate area .unsupportedExpression
  | .broken fault => draws_broken fault
theorem draws_all (scene : Scene) (ahead : scene.Ahead) : (exprs : List Expr) →
    Draws scene.inLoop (marksOfAll scene.inLoop exprs) (leadOfAll exprs) (buildAll scene exprs)
  | [] => draws_pure
  | expr :: rest => draws_bind (expr.draws scene ahead) (draws_all scene ahead rest)
theorem draws_if (scene : Scene) (ahead : scene.Ahead) : (expr : Option Expr) →
    Draws scene.inLoop (marksOfIf scene.inLoop expr) (leadOfIf expr) (buildIf scene expr)
  | none => draws_pure
  | some expr => expr.draws scene ahead
theorem draws_properties (scene : Scene) (ahead : scene.Ahead) : (properties : List Property) →
    Draws scene.inLoop (marksOfProperties scene.inLoop properties) (leadOfProperties properties) (buildProperties scene properties)
  | [] => draws_pure
  | property :: rest => draws_bind (property.draws scene ahead) (draws_properties scene ahead rest)
theorem Property.draws (scene : Scene) (ahead : scene.Ahead) : (property : Property) →
    Draws scene.inLoop (property.marks scene.inLoop) property.lead (property.build scene)
  | .spread argument => argument.draws scene ahead
  | .entry key value => draws_bind (draws_if scene ahead key) (value.draws scene ahead)
theorem Target.draws_before (scene : Scene) (ahead : scene.Ahead) : (target : Target) →
    Draws scene.inLoop (target.marksBefore scene.inLoop) target.leadBefore (target.buildBefore scene)
  | .plain | .pattern _ => draws_pure
  | .member object key => draws_bind (object.draws scene ahead) (draws_if scene ahead key)
theorem Target.draws_after (scene : Scene) (ahead : scene.Ahead) : (target : Target) →
    Draws scene.inLoop (target.marksAfter scene.inLoop) target.leadAfter (target.buildAfter scene)
  | .plain | .member _ _ => draws_pure
  | .pattern pattern => pattern.draws scene ahead
theorem Pattern.draws (scene : Scene) (ahead : scene.Ahead) : (pattern : Pattern) →
    Draws scene.inLoop (pattern.marks scene.inLoop) pattern.lead (pattern.build scene)
  | .plain => draws_pure
  | .withDefault target value =>
    draws_bind (target.draws scene ahead) (draws_maybe .defaultValue .whenTrue .whenFalse (by decide) (by decide) (value.draws scene ahead))
  | .object properties => draws_pattern_properties scene ahead properties
  | .array elements => draws_patterns scene ahead elements
  | .rest target => target.draws scene ahead
  | .member isOptional object key => by
    have middle (inner : Scene) (same : inner.inLoop = scene.inLoop) (ahead : inner.Ahead) := same ▸ draws_bind (object.draws _ ahead)
      (draws_bind (draws_optional_branch _ ahead isOptional) (draws_if _ ahead key))
    exact draws_access isOptional scene ahead (access_splits isOptional _ _) middle
  | .broken fault => draws_broken fault
theorem draws_patterns (scene : Scene) (ahead : scene.Ahead) : (patterns : List Pattern) →
    Draws scene.inLoop (marksOfPatterns scene.inLoop patterns) (leadOfPatterns patterns) (buildPatterns scene patterns)
  | [] => draws_pure
  | pattern :: rest => draws_bind (pattern.draws scene ahead) (draws_patterns scene ahead rest)
theorem draws_pattern_properties (scene : Scene) (ahead : scene.Ahead) : (properties : List PatternProperty) →
    Draws scene.inLoop (marksOfPatternProperties scene.inLoop properties) (leadOfPatternProperties properties) (buildPatternProperties scene properties)
  | [] => draws_pure
  | property :: rest => draws_bind (property.draws scene ahead) (draws_pattern_properties scene ahead rest)
theorem PatternProperty.draws (scene : Scene) (ahead : scene.Ahead) : (property : PatternProperty) →
    Draws scene.inLoop (property.marks scene.inLoop) property.lead (property.build scene)
  | .rest target => target.draws scene ahead
  | .entry key target => draws_bind (draws_if scene ahead key) (target.draws scene ahead)
end

end HookLint.Flow
