import HookLint.Flow.Draft

/-!
Building the control-flow graph of a body. Each function takes the block in which evaluation
starts and answers the block in which it ends.
-/

namespace HookLint.Flow

/-- What surrounds an expression: whether it is in a loop body, and where the innermost `?.` chain
around it ends. -/
structure Scene where
  inLoop : Bool := false
  chainEnd : Option Nat := none

def openChain (scene : Scene) (isOptional : Bool) : Build (Option Nat) := do
  if isOptional && scene.chainEnd.isNone then return some (← newBlock scene.inLoop .chainEnd)
  return none

def Scene.inside (scene : Scene) : Option Nat → Scene
  | some chainEnd => { scene with chainEnd := some chainEnd }
  | none => scene

def closeChain (opened : Option Nat) (block : Nat) : Build Nat := do
  match opened with
  | none => return block
  | some chainEnd =>
    connect block chainEnd .unconditional
    return chainEnd

def optionalBranch (scene : Scene) (isOptional : Bool) (block : Nat) : Build Nat := do
  if !isOptional then return block
  let next ← newBlock scene.inLoop .chainContinue
  connect block next .whenTrue
  if let some chainEnd := scene.chainEnd then connect block chainEnd .whenFalse
  return next

def Outcome.taken : Outcome → EdgeKind
  | .whenTrue => .whenTrue
  | .whenFalse => .whenFalse

def Outcome.skipped : Outcome → EdgeKind
  | .whenTrue => .whenFalse
  | .whenFalse => .whenTrue

mutual
def Expr.build (scene : Scene) (expr : Expr) (block : Nat) : Build Nat :=
  match expr with
  | .leaf => pure block
  | .sequence parts => buildAll scene parts block
  | .call node isOptional callee arguments => do
    let opened ← openChain scene isOptional
    let scene := scene.inside opened
    let block ← callee.build scene block
    let block ← optionalBranch scene isOptional block
    let block ← buildAll scene arguments block
    recordCall block node
    closeChain opened block
  | .member isOptional object key => do
    let opened ← openChain scene isOptional
    let scene := scene.inside opened
    let block ← object.build scene block
    let block ← optionalBranch scene isOptional block
    let block ← buildIf scene key block
    closeChain opened block
  | .chain inner => do
    let chainEnd ← newBlock scene.inLoop .chainEnd
    let block ← inner.build { scene with chainEnd := some chainEnd } block
    connect block chainEnd .unconditional
    return chainEnd
  | .logical runs left right => do
    let block ← left.build scene block
    let inside ← newBlock scene.inLoop .logicalRight
    let merge ← newBlock scene.inLoop .merge
    connect block inside runs.taken
    connect block merge runs.skipped
    connect (← right.build scene inside) merge .unconditional
    return merge
  | .conditional test consequent alternate => do
    let block ← test.build scene block
    let whenTrue ← newBlock scene.inLoop .ternaryTrue
    let whenFalse ← newBlock scene.inLoop .ternaryFalse
    let merge ← newBlock scene.inLoop .merge
    connect block whenTrue .whenTrue
    connect block whenFalse .whenFalse
    connect (← consequent.build scene whenTrue) merge .unconditional
    connect (← alternate.build scene whenFalse) merge .unconditional
    return merge
  | .assign target value => do
    let block ← target.buildBefore scene block
    let block ← value.build scene block
    target.buildAfter scene block
  | .assignIf runs target value => do
    let block ← target.buildBefore scene block
    let inside ← newBlock scene.inLoop .logicalRight
    let merge ← newBlock scene.inLoop .merge
    connect block inside runs.taken
    connect block merge runs.skipped
    connect (← value.build scene inside) merge .unconditional
    return merge
  | .object properties => buildProperties scene properties block
  | .destructure pattern => pattern.build scene block
  | .region area => approximate scene.inLoop area .unsupportedExpression block
  | .broken fault => do
    noteFault fault
    return block
def buildAll (scene : Scene) (exprs : List Expr) (block : Nat) : Build Nat :=
  match exprs with
  | [] => pure block
  | expr :: rest => do
    let block ← expr.build scene block
    buildAll scene rest block
def buildIf (scene : Scene) (expr : Option Expr) (block : Nat) : Build Nat :=
  match expr with
  | none => pure block
  | some expr => expr.build scene block
def buildProperties (scene : Scene) (properties : List Property) (block : Nat) : Build Nat :=
  match properties with
  | [] => pure block
  | property :: rest => do
    let block ← property.build scene block
    buildProperties scene rest block
def Property.build (scene : Scene) (property : Property) (block : Nat) : Build Nat :=
  match property with
  | .spread argument => argument.build scene block
  | .entry key value => do
    let block ← buildIf scene key block
    value.build scene block
def Target.buildBefore (scene : Scene) (target : Target) (block : Nat) : Build Nat :=
  match target with
  | .plain | .pattern _ => pure block
  | .member object key => do
    let block ← object.build scene block
    buildIf scene key block
def Target.buildAfter (scene : Scene) (target : Target) (block : Nat) : Build Nat :=
  match target with
  | .pattern pattern => pattern.build scene block
  | .plain | .member _ _ => pure block
def Pattern.build (scene : Scene) (pattern : Pattern) (block : Nat) : Build Nat :=
  match pattern with
  | .plain => pure block
  | .withDefault target value => do
    let block ← target.build scene block
    let inside ← newBlock scene.inLoop .defaultValue
    let merge ← newBlock scene.inLoop .merge
    connect block inside .whenTrue
    connect block merge .whenFalse
    connect (← value.build scene inside) merge .unconditional
    return merge
  | .object properties => buildPatternProperties scene properties block
  | .array elements => buildPatterns scene elements block
  | .rest target => target.build scene block
  | .member isOptional object key => do
    let opened ← openChain scene isOptional
    let scene := scene.inside opened
    let block ← object.build scene block
    let block ← optionalBranch scene isOptional block
    let block ← buildIf scene key block
    closeChain opened block
  | .broken fault => do
    noteFault fault
    return block
def buildPatterns (scene : Scene) (patterns : List Pattern) (block : Nat) : Build Nat :=
  match patterns with
  | [] => pure block
  | pattern :: rest => do
    let block ← pattern.build scene block
    buildPatterns scene rest block
def buildPatternProperties (scene : Scene) (properties : List PatternProperty) (block : Nat) : Build Nat :=
  match properties with
  | [] => pure block
  | property :: rest => do
    let block ← property.build scene block
    buildPatternProperties scene rest block
def PatternProperty.build (scene : Scene) (property : PatternProperty) (block : Nat) : Build Nat :=
  match property with
  | .rest target => target.build scene block
  | .entry key target => do
    let block ← buildIf scene key block
    target.build scene block
end

structure JumpTarget where
  label : Option Value
  breakTo : Nat
  continueTo : Option Nat
  depth : Nat
  takesPlainBreak : Bool

structure Place where
  targets : List JumpTarget := []
  handler : Nat := 2
  finalizers : List Nat := []
  inLoop : Bool := false

def Place.scene (place : Place) : Scene := { inLoop := place.inLoop }

/-- The statement that a jump means. A jump without a label skips labels, and a `continue` without
a label also skips switches. -/
def Place.find (place : Place) (label : Option Value) (isContinue : Bool) : Option JumpTarget :=
  place.targets.find? fun target =>
    match label with
    | some name => target.label.any (·.equal name)
    | none => target.takesPlainBreak && (!isContinue || target.continueTo.isSome)

def jump (place : Place) (block target : Nat) (kind : EdgeKind) (depth : Nat) : Build Unit := do
  match place.finalizers with
  | finalizer :: rest =>
    if rest.length + 1 > depth then
      modify fun draft => { draft with pending := draft.pending ++ [⟨finalizer, target, kind, depth⟩] }
      connect block finalizer kind
    else connect block target kind
  | [] => connect block target kind

def Place.inLoopBody (place : Place) (label : Option Value) (breakTo continueTo : Nat) : Place :=
  { place with
    targets := ⟨label, breakTo, some continueTo, place.finalizers.length, true⟩ :: place.targets
    inLoop := true }

def buildJump (place : Place) (region : Region) (target : Option (Nat × Nat)) (kind : EdgeKind) (reason : Reason)
    (block : Nat) : Build Nat := do
  noteStatement block region.node
  match target with
  | none => approximate place.inLoop region reason block
  | some (target, depth) =>
    jump place block target kind depth
    close block
    return block

def buildVariables (scene : Scene) (declared : Variables) (block : Nat) : Build Nat := do
  noteStatement block declared.node
  declared.declarators.foldlM (fun block declarator => do
    let block ← declarator.value.build scene block
    declarator.target.build scene block) block

def Start.build (scene : Scene) (start : Start) (block : Nat) : Build Nat :=
  match start with
  | .nothing => pure block
  | .declare declared => buildVariables scene declared block
  | .expression value => value.build scene block

def buildTests (scene : Scene) : List (Option Expr × Nat) → Nat → Build Nat
  | [], block => pure block
  | (none, _) :: rest, block => buildTests scene rest block
  | (some test, body) :: rest, block => do
    let tested ← test.build scene block
    connect tested body .case
    let next ← newBlock scene.inLoop .caseTest
    connect tested next .whenFalse
    buildTests scene rest next

def defaultBody (tests : List (Option Expr × Nat)) : Option Nat :=
  (tests.reverse.find? (·.1.isNone)).map (·.2)

def Case.test : Case → Option Expr
  | .mk test _ => test

mutual
def Stmt.build (place : Place) (stmt : Stmt) (block : Nat) : Build Nat :=
  match stmt with
  | .note node => do
    noteStatement block node
    return block
  | .block body => buildStmts place body block
  | .evaluate node value => do
    noteStatement block node
    value.build place.scene block
  | .bare value => value.build place.scene block
  | .declare declared => buildVariables place.scene declared block
  | .returnValue node value => do
    let block ← value.build place.scene block
    noteStatement block node
    jump place block 1 .earlyReturn 0
    close block
    return block
  | .throwValue node value => do
    let block ← value.build place.scene block
    noteStatement block node
    connect block place.handler .throw
    close block
    return block
  | .ifElse subject test consequent alternate => do
    noteStatement block subject
    let tested ← test.build place.scene block
    setKind tested .ifCondition
    let body ← newBlock place.inLoop .ifBody
    connect tested body .whenTrue
    let bodyEnd ← buildOptional place consequent body
    let merge ← newBlock place.inLoop .merge
    flow bodyEnd merge .unconditional
    match alternate with
    | some alternate =>
      let other ← newBlock place.inLoop .elseBody
      connect tested other .whenFalse
      let otherEnd ← alternate.build place other
      flow otherEnd merge .unconditional
    | none => connect tested merge .whenFalse
    return merge
  | .labeled label body => do
    let after ← newBlock place.inLoop .labelExit
    let target := ⟨label, after, none, place.finalizers.length, false⟩
    let bodyEnd ← body.build { place with targets := target :: place.targets } block
    flow bodyEnd after .unconditional
    return after
  | .whileLoop label test body => do
    let header ← newBlock place.inLoop .loopHeader
    connect block header .unconditional
    let tested ← test.build place.scene header
    let after ← newBlock place.inLoop .loopExit
    let inside ← newBlock true .loopBody
    connect tested inside .whenTrue
    connect tested after .loopExit
    let bodyEnd ← buildOptional (place.inLoopBody label after header) body inside
    flow bodyEnd header .loopBack
    return after
  | .doWhileLoop label body test => do
    let again ← newBlock place.inLoop .loopTest
    let after ← newBlock place.inLoop .loopExit
    let inside ← newBlock true .loopBody
    connect block inside .unconditional
    let bodyEnd ← buildOptional (place.inLoopBody label after again) body inside
    flow bodyEnd again .unconditional
    let tested ← test.build place.scene again
    connect tested inside .loopBack
    connect tested after .loopExit
    return after
  | .forLoop label start test update body => do
    let block ← start.build place.scene block
    let header ← newBlock place.inLoop .loopHeader
    connect block header .unconditional
    let advance ← newBlock place.inLoop .loopUpdate
    let after ← newBlock place.inLoop .loopExit
    let inside ← match test with
      | some test => do
        let tested ← test.build place.scene header
        let inside ← newBlock true .loopBody
        connect tested inside .whenTrue
        connect tested after .loopExit
        pure inside
      | none => do
        let inside ← newBlock true .loopBody
        connect header inside .unconditional
        pure inside
    let bodyEnd ← buildOptional (place.inLoopBody label after advance) body inside
    flow bodyEnd advance .unconditional
    let advanced ← update.build place.scene advance
    connect advanced header .loopBack
    return after
  | .forEach label source targets body => do
    let block ← source.build place.scene block
    let header ← newBlock place.inLoop .loopHeader
    connect block header .unconditional
    let after ← newBlock place.inLoop .loopExit
    let inside ← newBlock true .loopBody
    connect header inside .whenTrue
    connect header after .loopExit
    let bound ← buildPatterns { inLoop := true } targets inside
    let bodyEnd ← buildOptional (place.inLoopBody label after header) body bound
    flow bodyEnd header .loopBack
    return after
  | .breakTo region label =>
    let target := (place.find label false).map fun target => (target.breakTo, target.depth)
    buildJump place region target .break .breakWithoutTarget block
  | .continueTo region label =>
    let target := (place.find label true).bind fun target => target.continueTo.map (·, target.depth)
    buildJump place region target .continue .continueWithoutTarget block
  | .switch subject discriminant cases => do
    noteStatement block subject
    let dispatch ← discriminant.build place.scene block
    setKind dispatch .switchDiscriminant
    let after ← newBlock place.inLoop .switchExit
    let bodies ← cases.mapM fun _ => newBlock place.inLoop .caseBody
    let tests := (cases.map Case.test).zip bodies
    let tested ← buildTests place.scene tests dispatch
    match defaultBody tests with
    | some body => connect tested body .case
    | none => connect tested after .whenFalse
    let target := ⟨none, after, none, place.finalizers.length, true⟩
    let last ← buildCases { place with targets := target :: place.targets } cases bodies none
    if let some last := last then flow last after .unconditional
    return after
  | .tryCatch body handler finalizer => do
    let finally? ← match finalizer with
      | some _ => some <$> newBlock place.inLoop .finallyBody
      | none => pure none
    let catch? ← match handler with
      | some _ => some <$> newBlock place.inLoop .catchClause
      | none => pure none
    let after ← newBlock place.inLoop .merge
    let thrown := (catch? <|> finally?).getD after
    let next := finally?.getD after
    let inside ← newBlock place.inLoop .tryBody
    connect block inside .unconditional
    connect inside thrown .exception
    let guarded := { place with finalizers := finally?.toList ++ place.finalizers }
    let bodyEnd ← buildTried { guarded with handler := thrown } thrown body inside
    flow bodyEnd next .unconditional
    match handler, catch? with
    | some handler, some catchBlock =>
      if let some finallyBlock := finally? then connect catchBlock finallyBlock .exception
      let handled ← handler.build { guarded with handler := finally?.getD place.handler } catchBlock
      flow handled next .unconditional
    | _, _ => pure ()
    match finalizer, finally? with
    | some finalizer, some finallyBlock =>
      let finallyEnd ← finalizer.build place finallyBlock
      unless ← isClosed finallyEnd do
        connect finallyEnd after .unconditional
        connect finallyEnd place.handler .throw
        let waiting := (← get).pending.filter (·.finalizer = finallyBlock)
        waiting.forM fun jumping => jump place finallyEnd jumping.target jumping.kind jumping.depth
    | _, _ => pure ()
    return after
  | .withObject object body => do
    let block ← object.build place.scene block
    buildOptional place body block
  | .region area => approximate place.inLoop area .unsupportedStatement block
  | .broken fault => do
    noteFault fault
    return block
def buildStmts (place : Place) (stmts : List Stmt) (block : Nat) : Build Nat :=
  match stmts with
  | [] => pure block
  | stmt :: rest => do
    let block ← if ← isClosed block then newBlock place.inLoop .unreachable else pure block
    let block ← stmt.build place block
    buildStmts place rest block
def buildOptional (place : Place) (stmt : Option Stmt) (block : Nat) : Build Nat :=
  match stmt with
  | none => pure block
  | some stmt => stmt.build place block
def buildCases (place : Place) (cases : List Case) (bodies : List Nat) (previous : Option Nat) : Build (Option Nat) :=
  match cases, bodies with
  | branch :: rest, body :: others => do
    if let some previous := previous then flow previous body .unconditional
    let bodyEnd ← branch.build place body
    buildCases place rest others (some bodyEnd)
  | _, _ => pure previous
def Case.build (place : Place) (branch : Case) (block : Nat) : Build Nat :=
  match branch with
  | .mk _ body => buildStmts place body block
/-- Every statement of a tried block starts a block of its own, from which an exception may go to
the handler. -/
def buildTried (place : Place) (thrown : Nat) (stmts : List Stmt) (block : Nat) : Build Nat :=
  match stmts with
  | [] => pure block
  | stmt :: rest => do
    let start ←
      if ← isClosed block then newBlock place.inLoop .unreachable
      else do
        let next ← newBlock place.inLoop .tryBody
        connect block next .unconditional
        pure next
    connect start thrown .exception
    let block ← stmt.build place start
    buildTried place thrown rest block
def Handler.build (place : Place) (handler : Handler) (block : Nat) : Build Nat :=
  match handler with
  | .mk param body => do
    let block ← param.build place.scene block
    buildOptional place body block
end

def Body.build (body : Body) : Build Unit := do
  let entry ← newBlock false .entry
  let exit ← newBlock false .exit
  let _ ← newBlock false .throwExit
  let block ← buildPatterns {} body.params entry
  let last ← buildStmts {} body.statements block
  flow last exit .unconditional

def Body.draft (body : Body) : Draft := (body.build.run {}).2

def Draft.graph (draft : Draft) (name : Value) : FlowGraph :=
  { nodes := List.range draft.blocks.length
    wiring := draft.wiring
    entry := 0
    exit := 1
    throwExit := some 2
    loopBody := draft.loopBody
    name
    blocks := draft.blocks
    approximations := draft.approximations }

end HookLint.Flow

namespace HookLint

def FlowGraph.ofUnit (name : Value) (node : Value) : Except Fault FlowGraph :=
  let draft := (Flow.readUnit node).draft
  match draft.fault with
  | some fault => .error fault
  | none => .ok (draft.graph name)

end HookLint
