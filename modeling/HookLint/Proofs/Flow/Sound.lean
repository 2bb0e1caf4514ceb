import HookLint.Proofs.Flow.Growth

namespace HookLint.Flow

open List

-- Forms that were read from trees in which everything is in its place.
def Region.Sound (area : Region) : Prop := ∃ line, area.line = .ok line

mutual
def Expr.Sound : Expr → Prop
  | .leaf => True
  | .sequence parts => SoundAll parts
  | .call _ _ callee arguments => callee.Sound ∧ SoundAll arguments
  | .member _ object key => object.Sound ∧ SoundIf key
  | .chain inner => inner.Sound
  | .logical _ left right => left.Sound ∧ right.Sound
  | .conditional test consequent alternate => test.Sound ∧ consequent.Sound ∧ alternate.Sound
  | .assign target value | .assignIf _ target value => target.Sound ∧ value.Sound
  | .object properties => SoundProperties properties
  | .destructure pattern => pattern.Sound
  | .region area => area.Sound
  | .broken _ => False
def SoundAll : List Expr → Prop
  | [] => True
  | expr :: rest => expr.Sound ∧ SoundAll rest
def SoundIf : Option Expr → Prop
  | none => True
  | some expr => expr.Sound
def SoundProperties : List Property → Prop
  | [] => True
  | property :: rest => property.Sound ∧ SoundProperties rest
def Property.Sound : Property → Prop
  | .spread argument => argument.Sound
  | .entry key value => SoundIf key ∧ value.Sound
def Target.Sound : Target → Prop
  | .plain => True
  | .member object key => object.Sound ∧ SoundIf key
  | .pattern pattern => pattern.Sound
def Pattern.Sound : Pattern → Prop
  | .plain => True
  | .withDefault target value => target.Sound ∧ value.Sound
  | .object properties => SoundPatternProperties properties
  | .array elements => SoundPatterns elements
  | .rest target => target.Sound
  | .member _ object key => object.Sound ∧ SoundIf key
  | .broken _ => False
def SoundPatterns : List Pattern → Prop
  | [] => True
  | pattern :: rest => pattern.Sound ∧ SoundPatterns rest
def SoundPatternProperties : List PatternProperty → Prop
  | [] => True
  | property :: rest => property.Sound ∧ SoundPatternProperties rest
def PatternProperty.Sound : PatternProperty → Prop
  | .rest target => target.Sound
  | .entry key target => SoundIf key ∧ target.Sound
end

def Variables.Sound (declared : Variables) : Prop := ∀ declarator ∈ declared.declarators, declarator.value.Sound ∧ declarator.target.Sound

def Start.Sound : Start → Prop
  | .nothing => True
  | .declare declared => declared.Sound
  | .expression value => value.Sound

mutual
def Stmt.Sound : Stmt → Prop
  | .note _ => True
  | .block body => SoundStmts body
  | .evaluate _ value | .bare value | .returnValue _ value | .throwValue _ value => value.Sound
  | .declare declared => declared.Sound
  | .ifElse _ test consequent alternate => test.Sound ∧ SoundOptional consequent ∧ SoundOptional alternate
  | .labeled _ body => body.Sound
  | .whileLoop _ test body | .doWhileLoop _ body test => test.Sound ∧ SoundOptional body
  | .forLoop _ start test update body => start.Sound ∧ SoundIf test ∧ update.Sound ∧ SoundOptional body
  | .forEach _ source targets body => source.Sound ∧ SoundPatterns targets ∧ SoundOptional body
  | .breakTo area _ | .continueTo area _ | .region area => area.Sound
  | .switch _ discriminant cases => discriminant.Sound ∧ SoundCases cases
  | .tryCatch body handler finalizer => SoundStmts body ∧ SoundHandler handler ∧ SoundOptional finalizer
  | .withObject object body => object.Sound ∧ SoundOptional body
  | .broken _ => False
def SoundStmts : List Stmt → Prop
  | [] => True
  | stmt :: rest => stmt.Sound ∧ SoundStmts rest
def SoundOptional : Option Stmt → Prop
  | none => True
  | some stmt => stmt.Sound
def SoundCases : List Case → Prop
  | [] => True
  | branch :: rest => branch.Sound ∧ SoundCases rest
def Case.Sound : Case → Prop
  | .mk test body => SoundIf test ∧ SoundStmts body
def SoundHandler : Option Handler → Prop
  | none => True
  | some handler => handler.Sound
def Handler.Sound : Handler → Prop
  | .mk param body => param.Sound ∧ SoundOptional body
end

def Body.Sound (body : Body) : Prop := SoundPatterns body.params ∧ SoundStmts body.statements

-- The first fault that building meets, or the one that was met before.
def faultAfter {α : Type} (action : Build α) (draft : Draft) : Option Fault := (action.run draft).2.fault

section
variable {α β : Type} (draft : Draft)

@[simp]
theorem run_fault (action : Build α) : (action.run draft).2.fault = faultAfter action draft := rfl

@[simp]
theorem fault_after_pure (answer : α) : faultAfter (pure answer) draft = draft.fault := rfl

@[simp]
theorem fault_after_bind (action : Build α) (rest : α → Build β) :
    faultAfter (action >>= rest) draft = faultAfter (rest (action.run draft).1) (action.run draft).2 := rfl

@[simp]
theorem fault_after_map (action : Build α) (change : α → β) : faultAfter (change <$> action) draft = faultAfter action draft := rfl

@[simp]
theorem fault_after_new_block (inLoop : Bool) (kind : BlockKind) : faultAfter (newBlock inLoop kind) draft = draft.fault := rfl

@[simp]
theorem fault_after_connect (source target : Nat) (kind : EdgeKind) : faultAfter (connect source target kind) draft = draft.fault := by
  have ends : Ends (connect source target kind) draft fun _ after => after.fault = draft.fault :=
    ends_connect fun _ connected _ => connected.fault
  exact ends

@[simp]
theorem fault_after_close (block : Nat) : faultAfter (close block) draft = draft.fault := rfl

@[simp]
theorem fault_after_flow (source target : Nat) (kind : EdgeKind) : faultAfter (flow source target kind) draft = draft.fault := by
  have ends : Ends (flow source target kind) draft fun _ after => after.fault = draft.fault := ends_flow fun _ connected _ => connected.fault
  exact ends

@[simp]
theorem fault_after_note_statement (block : Nat) (node : Value) : faultAfter (noteStatement block node) draft = draft.fault := rfl

@[simp]
theorem fault_after_record_call (block : Nat) (call : Value) : faultAfter (recordCall block call) draft = draft.fault := rfl

@[simp]
theorem fault_after_set_kind (block : Nat) (kind : BlockKind) : faultAfter (setKind block kind) draft = draft.fault := rfl

theorem fault_after_next {action : Build α} {rest : α → Build β}
    (first : faultAfter action draft = draft.fault) (later : ∀ answer between, faultAfter (rest answer) between = between.fault) :
    faultAfter (action >>= rest) draft = draft.fault := by
  rw [fault_after_bind, later, run_fault, first]

theorem fault_after_for_each (items : List α) (action : α → Build PUnit)
    (each : ∀ item draft, faultAfter (action item) draft = draft.fault) : faultAfter (forM items action) draft = draft.fault := by
  induction items generalizing draft with
  | nil => rfl
  | cons item rest ih => rw [forM_cons, fault_after_bind, ih, run_fault, each]

@[simp]
theorem fault_after_new_blocks (items : List α) (inLoop : Bool) (kind : BlockKind) :
    faultAfter (items.mapM fun _ => newBlock inLoop kind) draft = draft.fault := by
  induction items generalizing draft with
  | nil => rfl
  | cons item rest ih => simp [mapM_cons, ih]

@[simp]
theorem fault_after_jump (place : Place) (block target : Nat) (kind : EdgeKind) (depth : Nat) :
    faultAfter (jump place block target kind depth) draft = draft.fault := by
  unfold jump
  split
  · split
    · rw [fault_after_bind, fault_after_connect]
      rfl
    · exact fault_after_connect ..
  · exact fault_after_connect ..

theorem fault_after_approximate (inLoop : Bool) (area : Region) (reason : Reason) (block : Nat) (sound : area.Sound) :
    faultAfter (approximate inLoop area reason block) draft = draft.fault := by
  obtain ⟨line, found⟩ := sound
  have recorded (inside : Nat) (draft : Draft) : faultAfter (forM area.calls (recordCall inside)) draft = draft.fault :=
    fault_after_for_each draft _ _ fun _ _ => rfl
  have noted (draft : Draft) : faultAfter (modify fun draft : Draft => { draft with
      approximations := draft.approximations ++ [⟨area.node.get "type", line, reason⟩] }) draft = draft.fault := rfl
  unfold approximate
  rw [found]
  simp [recorded, noted]

@[simp]
theorem fault_after_open_chain (scene : Scene) (isOptional : Bool) : faultAfter (openChain scene isOptional) draft = draft.fault := by
  unfold openChain
  split <;> simp

@[simp]
theorem fault_after_close_chain (opened : Option Nat) (block : Nat) : faultAfter (closeChain opened block) draft = draft.fault := by
  unfold closeChain
  cases opened <;> simp

@[simp]
theorem fault_after_optional_branch (scene : Scene) (isOptional : Bool) (block : Nat) :
    faultAfter (optionalBranch scene isOptional block) draft = draft.fault := by
  unfold optionalBranch
  cases isOptional <;> cases scene.chainEnd <;> simp

end

-- A form that is sound is built without a fault.
mutual
theorem Expr.calm : (expr : Expr) → expr.Sound → ∀ scene block draft, faultAfter (expr.build scene block) draft = draft.fault
  | .leaf, _ => by simp [Expr.build]
  | .sequence parts, sound => by simp [Expr.build, calm_all parts sound]
  | .call node isOptional callee arguments, sound => by simp [Expr.build, callee.calm sound.1, calm_all arguments sound.2]
  | .member isOptional object key, sound => by simp [Expr.build, object.calm sound.1, calm_if key sound.2]
  | .chain inner, sound => by simp [Expr.build, inner.calm sound]
  | .logical runs left right, sound => by simp [Expr.build, left.calm sound.1, right.calm sound.2]
  | .conditional test consequent alternate, sound => by
    simp [Expr.build, test.calm sound.1, consequent.calm sound.2.1, alternate.calm sound.2.2]
  | .assign target value, sound => by simp [Expr.build, target.calm_before sound.1, value.calm sound.2, target.calm_after sound.1]
  | .assignIf runs target value, sound => by simp [Expr.build, target.calm_before sound.1, value.calm sound.2]
  | .object properties, sound => by simp [Expr.build, calm_properties properties sound]
  | .destructure pattern, sound => by simp [Expr.build, pattern.calm sound]
  | .region area, sound => by simp [Expr.build, fault_after_approximate _ _ area _ _ sound]
theorem calm_all : (exprs : List Expr) → SoundAll exprs → ∀ scene block draft, faultAfter (buildAll scene exprs block) draft = draft.fault
  | [], _ => by simp [buildAll]
  | expr :: rest, sound => by simp [buildAll, expr.calm sound.1, calm_all rest sound.2]
theorem calm_if : (expr : Option Expr) → SoundIf expr → ∀ scene block draft, faultAfter (buildIf scene expr block) draft = draft.fault
  | none, _ => by simp [buildIf]
  | some expr, sound => by simp [buildIf, expr.calm sound]
theorem calm_properties : (properties : List Property) → SoundProperties properties → ∀ scene block draft,
    faultAfter (buildProperties scene properties block) draft = draft.fault
  | [], _ => by simp [buildProperties]
  | property :: rest, sound => by simp [buildProperties, property.calm sound.1, calm_properties rest sound.2]
theorem Property.calm : (property : Property) → property.Sound → ∀ scene block draft,
    faultAfter (property.build scene block) draft = draft.fault
  | .spread argument, sound => by simp [Property.build, argument.calm sound]
  | .entry key value, sound => by simp [Property.build, calm_if key sound.1, value.calm sound.2]
theorem Target.calm_before : (target : Target) → target.Sound → ∀ scene block draft,
    faultAfter (target.buildBefore scene block) draft = draft.fault
  | .plain, _ | .pattern _, _ => by simp [Target.buildBefore]
  | .member object key, sound => by simp [Target.buildBefore, object.calm sound.1, calm_if key sound.2]
theorem Target.calm_after : (target : Target) → target.Sound → ∀ scene block draft,
    faultAfter (target.buildAfter scene block) draft = draft.fault
  | .plain, _ | .member _ _, _ => by simp [Target.buildAfter]
  | .pattern pattern, sound => by simp [Target.buildAfter, pattern.calm sound]
theorem Pattern.calm : (pattern : Pattern) → pattern.Sound → ∀ scene block draft, faultAfter (pattern.build scene block) draft = draft.fault
  | .plain, _ => by simp [Pattern.build]
  | .withDefault target value, sound => by simp [Pattern.build, target.calm sound.1, value.calm sound.2]
  | .object properties, sound => by simp [Pattern.build, calm_pattern_properties properties sound]
  | .array elements, sound => by simp [Pattern.build, calm_patterns elements sound]
  | .rest target, sound => by simp [Pattern.build, target.calm sound]
  | .member isOptional object key, sound => by simp [Pattern.build, object.calm sound.1, calm_if key sound.2]
theorem calm_patterns : (patterns : List Pattern) → SoundPatterns patterns → ∀ scene block draft,
    faultAfter (buildPatterns scene patterns block) draft = draft.fault
  | [], _ => by simp [buildPatterns]
  | pattern :: rest, sound => by simp [buildPatterns, pattern.calm sound.1, calm_patterns rest sound.2]
theorem calm_pattern_properties : (properties : List PatternProperty) → SoundPatternProperties properties →
    ∀ scene block draft, faultAfter (buildPatternProperties scene properties block) draft = draft.fault
  | [], _ => by simp [buildPatternProperties]
  | property :: rest, sound => by simp [buildPatternProperties, property.calm sound.1, calm_pattern_properties rest sound.2]
theorem PatternProperty.calm : (property : PatternProperty) → property.Sound → ∀ scene block draft,
    faultAfter (property.build scene block) draft = draft.fault
  | .rest target, sound => by simp [PatternProperty.build, target.calm sound]
  | .entry key target, sound => by simp [PatternProperty.build, calm_if key sound.1, target.calm sound.2]
end

theorem calm_variables (scene : Scene) (declared : Variables) (sound : declared.Sound) (block : Nat) (draft : Draft) :
    faultAfter (buildVariables scene declared block) draft = draft.fault := by
  have all (declarators : List Declarator) (sound : ∀ declarator ∈ declarators, declarator.value.Sound ∧ declarator.target.Sound)
      (block : Nat) (draft : Draft) : faultAfter (declarators.foldlM (fun block declarator => do
        let block ← declarator.value.build scene block
        declarator.target.build scene block) block) draft = draft.fault := by
    induction declarators generalizing block draft with
    | nil => rfl
    | cons declarator rest ih =>
      obtain ⟨first, others⟩ := forall_mem_cons.mp sound
      simp [ih others, declarator.value.calm first.1, declarator.target.calm first.2]
  simp [buildVariables, all _ sound]

theorem Start.calm (scene : Scene) (start : Start) (sound : start.Sound) (block : Nat) (draft : Draft) :
    faultAfter (start.build scene block) draft = draft.fault := by
  cases start with
  | nothing => rfl
  | declare declared => exact calm_variables scene declared sound block draft
  | expression value => exact value.calm sound scene block draft

theorem calm_tests (scene : Scene) (tests : List (Option Expr × Nat)) (sound : ∀ test ∈ tests, SoundIf test.1)
    (block : Nat) (draft : Draft) : faultAfter (buildTests scene tests block) draft = draft.fault := by
  induction tests generalizing block draft with
  | nil => rfl
  | cons test rest ih =>
    obtain ⟨first, others⟩ := forall_mem_cons.mp sound
    obtain ⟨test, body⟩ := test
    cases test with
    | none => exact ih others block draft
    | some test => simp [buildTests, ih others, test.calm first]

theorem sound_tests (cases : List Case) (sound : SoundCases cases) : ∀ test ∈ cases.map Case.test, SoundIf test := by
  induction cases with
  | nil => simp
  | cons branch rest ih =>
    obtain ⟨test, body⟩ := branch
    exact forall_mem_cons.mpr ⟨sound.1.1, ih sound.2⟩

theorem calm_jump (place : Place) (area : Region) (sound : area.Sound) (target : Option (Nat × Nat)) (kind : EdgeKind)
    (reason : Reason) (block : Nat) (draft : Draft) : faultAfter (buildJump place area target kind reason block) draft = draft.fault := by
  cases target with
  | none => simp [buildJump, fault_after_approximate _ _ area _ _ sound]
  | some goal => simp [buildJump]

theorem calm_finalized {finalizer : Place → Nat → Build Nat}
    (calm : ∀ place block draft, faultAfter (finalizer place block) draft = draft.fault) (place : Place)
    (finallyBlock next : Nat) (draft : Draft) : faultAfter (do
      let finallyEnd ← finalizer place finallyBlock
      let closed ← isClosed finallyEnd
      if closed then pure next
      else do
        connect finallyEnd next .unconditional
        connect finallyEnd place.handler .throw
        let after ← get
        (fun _ => next) <$> forM (after.pending.filter (·.finalizer = finallyBlock)) fun jumping =>
          jump place finallyEnd jumping.target jumping.kind jumping.depth) draft = draft.fault := by
  refine fault_after_next draft (calm _ _ _) fun finallyEnd d1 => fault_after_next d1 rfl fun closed d2 => ?_
  cases closed with
  | true => rfl
  | false =>
    refine fault_after_next d2 (by simp) fun _ d3 => fault_after_next d3 (by simp) fun _ d4 => ?_
    exact fault_after_next d4 rfl fun after d5 => by simp [fault_after_for_each]

mutual
theorem Stmt.calm : (stmt : Stmt) → stmt.Sound → ∀ place block draft, faultAfter (stmt.build place block) draft = draft.fault
  | .note node, _ => by simp [Stmt.build]
  | .block body, sound => by simp [Stmt.build, calm_stmts body sound]
  | .evaluate node value, sound | .bare value, sound => by simp [Stmt.build, value.calm sound]
  | .declare declared, sound => by simp [Stmt.build, calm_variables _ declared sound]
  | .returnValue node value, sound | .throwValue node value, sound => by simp [Stmt.build, value.calm sound]
  | .ifElse subject test consequent none, sound => by simp [Stmt.build, test.calm sound.1, calm_optional consequent sound.2.1]
  | .ifElse subject test consequent (some alternate), sound => by
    simp [Stmt.build, test.calm sound.1, calm_optional consequent sound.2.1, alternate.calm sound.2.2]
  | .labeled label body, sound => by simp [Stmt.build, body.calm sound]
  | .whileLoop label test body, sound | .doWhileLoop label body test, sound => by
    simp [Stmt.build, test.calm sound.1, calm_optional body sound.2]
  | .forLoop label start none update body, sound => by
    simp [Stmt.build, start.calm _ sound.1, update.calm sound.2.2.1, calm_optional body sound.2.2.2]
  | .forLoop label start (some test) update body, sound => by
    simp [Stmt.build, start.calm _ sound.1, test.calm sound.2.1, update.calm sound.2.2.1, calm_optional body sound.2.2.2]
  | .forEach label source targets body, sound => by
    simp [Stmt.build, source.calm sound.1, calm_patterns targets sound.2.1, calm_optional body sound.2.2]
  | .breakTo area label, sound | .continueTo area label, sound => by simp [Stmt.build, calm_jump _ area sound]
  | .switch subject discriminant cases, sound => by
    intro place block draft
    have tests (bodies : List Nat) := calm_tests place.scene ((cases.map Case.test).zip bodies) fun test member =>
      sound_tests cases sound.2 test.1 (of_mem_zip member).1
    have rest := calm_cases cases sound.2
    refine fault_after_next draft rfl fun _ d1 => fault_after_next d1 (discriminant.calm sound.1 _ _ _) fun _ d2 => ?_
    refine fault_after_next d2 rfl fun _ d3 => fault_after_next d3 rfl fun next d4 => ?_
    refine fault_after_next d4 (by simp) fun bodies d5 => fault_after_next d5 (tests bodies _ _) fun tested d6 => ?_
    cases defaultBody ((cases.map Case.test).zip bodies) with
    | none | some body =>
      refine fault_after_next d6 (by simp) fun _ d7 => fault_after_next d7 (rest _ _ _ _) fun last d8 => ?_
      cases last <;> simp
  | .tryCatch body none none, sound => by simp [Stmt.build, calm_tried body sound.1]
  | .tryCatch body (some handler) none, sound => by simp [Stmt.build, calm_tried body sound.1, handler.calm sound.2.1]
  | .tryCatch body none (some finalizer), sound => by simp [Stmt.build, calm_tried body sound.1, calm_finalized (finalizer.calm sound.2.2)]
  | .tryCatch body (some handler) (some finalizer), sound => by
    simp [Stmt.build, calm_tried body sound.1, handler.calm sound.2.1, calm_finalized (finalizer.calm sound.2.2)]
  | .withObject object body, sound => by simp [Stmt.build, object.calm sound.1, calm_optional body sound.2]
  | .region area, sound => by simp [Stmt.build, fault_after_approximate _ _ area _ _ sound]
theorem calm_stmts : (stmts : List Stmt) → SoundStmts stmts → ∀ place block draft,
    faultAfter (buildStmts place stmts block) draft = draft.fault
  | [], _ => by simp [buildStmts]
  | stmt :: rest, sound => by
    intro place block draft
    refine fault_after_next draft rfl fun closed d1 => ?_
    cases closed <;> simp [stmt.calm sound.1, calm_stmts rest sound.2]
theorem calm_optional : (stmt : Option Stmt) → SoundOptional stmt → ∀ place block draft,
    faultAfter (buildOptional place stmt block) draft = draft.fault
  | none, _ => by simp [buildOptional]
  | some stmt, sound => by simp [buildOptional, stmt.calm sound]
theorem calm_cases : (cases : List Case) → SoundCases cases → ∀ place bodies previous draft,
    faultAfter (buildCases place cases bodies previous) draft = draft.fault
  | [], _, place, bodies, previous, draft | branch :: rest, sound, place, [], previous, draft => by simp [buildCases]
  | branch :: rest, sound, place, body :: others, none, draft | branch :: rest, sound, place, body :: others, some previous, draft => by
    simp [buildCases, branch.calm sound.1, calm_cases rest sound.2]
theorem Case.calm : (branch : Case) → branch.Sound → ∀ place block draft, faultAfter (branch.build place block) draft = draft.fault
  | .mk test body, sound => by simp [Case.build, calm_stmts body sound.2]
theorem calm_tried : (stmts : List Stmt) → SoundStmts stmts → ∀ place thrown block draft,
    faultAfter (buildTried place thrown stmts block) draft = draft.fault
  | [], _, place, thrown, block, draft => by simp [buildTried]
  | stmt :: rest, sound, place, thrown, block, draft => by
    refine fault_after_next draft rfl fun closed d1 => ?_
    cases closed <;> simp [stmt.calm sound.1, calm_tried rest sound.2]
theorem Handler.calm : (handler : Handler) → handler.Sound → ∀ place block draft, faultAfter (handler.build place block) draft = draft.fault
  | .mk param body, sound => by simp [Handler.build, param.calm sound.1, calm_optional body sound.2]
end

theorem Body.calm (body : Body) (sound : body.Sound) : body.draft.fault = none := by
  have calm : faultAfter body.build {} = none := by simp [Body.build, calm_patterns body.params sound.1, calm_stmts body.statements sound.2]
  exact calm

end HookLint.Flow
