import HookLint.Flow.Build

namespace HookLint.Flow

-- A statement that jumps: a return, or a break or continue with its label.
inductive Leap where
  | back
  | break (label : Option Value)
  | continue (label : Option Value)

def Leap.kind : Leap → EdgeKind
  | .back => .earlyReturn
  | .break _ => .break
  | .continue _ => .continue

-- A finalizer by the blocks in which it starts and ends, and whether a jump ended the last one.
structure Finalizer where
  entry : Nat
  last : Nat
  ended : Bool
deriving DecidableEq, Repr

-- What jumps see of a statement: the jumps in it, what they may be aimed at, and the finalizers of the
-- try statements around them.
inductive Outline where
  | nothing
  | both (first second : Outline)
  | jump (leap : Leap) (block : Nat)
  | inside (target : JumpTarget) (part : Outline)
  | guarded (finalizer : Finalizer) (tried last : Outline)

def withoutJumps (action : Build Nat) : Build (Nat × Outline) := do return (← action, .nothing)

-- Building a statement and noting its outline on the way.
mutual
def Stmt.outline (place : Place) (stmt : Stmt) (block : Nat) : Build (Nat × Outline) :=
  match stmt with
  | .note node => withoutJumps ((Stmt.note node).build place block)
  | .block body => outlineStmts place body block
  | .evaluate node value => withoutJumps ((Stmt.evaluate node value).build place block)
  | .bare value => withoutJumps ((Stmt.bare value).build place block)
  | .declare declared => withoutJumps ((Stmt.declare declared).build place block)
  | .returnValue node value => do
    let last ← (Stmt.returnValue node value).build place block
    return (last, .jump .back last)
  | .throwValue node value => withoutJumps ((Stmt.throwValue node value).build place block)
  | .ifElse subject test consequent alternate => do
    noteStatement block subject
    let tested ← test.build place.scene block
    setKind tested .ifCondition
    let body ← newBlock place.inLoop .ifBody
    connect tested body .whenTrue
    let taken ← outlineOptional place consequent body
    let merge ← newBlock place.inLoop .merge
    flow taken.1 merge .unconditional
    match alternate with
    | some alternate =>
      let other ← newBlock place.inLoop .elseBody
      connect tested other .whenFalse
      let skipped ← alternate.outline place other
      flow skipped.1 merge .unconditional
      return (merge, .both taken.2 skipped.2)
    | none =>
      connect tested merge .whenFalse
      return (merge, taken.2)
  | .labeled label body => do
    let after ← newBlock place.inLoop .labelExit
    let target := ⟨label, after, none, place.finalizers.length, false⟩
    let inner ← body.outline { place with targets := target :: place.targets } block
    flow inner.1 after .unconditional
    return (after, .inside target inner.2)
  | .whileLoop label test body => do
    let header ← newBlock place.inLoop .loopHeader
    connect block header .unconditional
    let tested ← test.build place.scene header
    let after ← newBlock place.inLoop .loopExit
    let inside ← newBlock true .loopBody
    connect tested inside .whenTrue
    connect tested after .loopExit
    let inner ← outlineOptional (place.inLoopBody label after header) body inside
    flow inner.1 header .loopBack
    return (after, .inside ⟨label, after, some header, place.finalizers.length, true⟩ inner.2)
  | .doWhileLoop label body test => do
    let again ← newBlock place.inLoop .loopTest
    let after ← newBlock place.inLoop .loopExit
    let inside ← newBlock true .loopBody
    connect block inside .unconditional
    let inner ← outlineOptional (place.inLoopBody label after again) body inside
    flow inner.1 again .unconditional
    let tested ← test.build place.scene again
    connect tested inside .loopBack
    connect tested after .loopExit
    return (after, .inside ⟨label, after, some again, place.finalizers.length, true⟩ inner.2)
  | .forLoop label start test update body => do
    let block ← start.build place.scene block
    let header ← newBlock place.inLoop .loopHeader
    connect block header .unconditional
    let advance ← newBlock place.inLoop .loopUpdate
    let after ← newBlock place.inLoop .loopExit
    let inside ← match test with
      | some test => do
        let tested ← test.build place.scene header
        let inside ← newBlock true .loopBody
        connect tested inside .whenTrue
        connect tested after .loopExit
        pure inside
      | none => do
        let inside ← newBlock true .loopBody
        connect header inside .unconditional
        pure inside
    let inner ← outlineOptional (place.inLoopBody label after advance) body inside
    flow inner.1 advance .unconditional
    let advanced ← update.build place.scene advance
    connect advanced header .loopBack
    return (after, .inside ⟨label, after, some advance, place.finalizers.length, true⟩ inner.2)
  | .forEach label source targets body => do
    let block ← source.build place.scene block
    let header ← newBlock place.inLoop .loopHeader
    connect block header .unconditional
    let after ← newBlock place.inLoop .loopExit
    let inside ← newBlock true .loopBody
    connect header inside .whenTrue
    connect header after .loopExit
    let bound ← buildPatterns { inLoop := true } targets inside
    let inner ← outlineOptional (place.inLoopBody label after header) body bound
    flow inner.1 header .loopBack
    return (after, .inside ⟨label, after, some header, place.finalizers.length, true⟩ inner.2)
  | .breakTo region label => do
    let last ← (Stmt.breakTo region label).build place block
    return (last, .jump (.break label) block)
  | .continueTo region label => do
    let last ← (Stmt.continueTo region label).build place block
    return (last, .jump (.continue label) block)
  | .switch subject discriminant cases => do
    noteStatement block subject
    let dispatch ← discriminant.build place.scene block
    setKind dispatch .switchDiscriminant
    let after ← newBlock place.inLoop .switchExit
    let bodies ← cases.mapM fun _ => newBlock place.inLoop .caseBody
    let tests := (cases.map Case.test).zip bodies
    let tested ← buildTests place.scene tests dispatch
    match defaultBody tests with
    | some body => connect tested body .case
    | none => connect tested after .whenFalse
    let target := ⟨none, after, none, place.finalizers.length, true⟩
    let inner ← outlineCases { place with targets := target :: place.targets } cases bodies none
    if let some last := inner.1 then flow last after .unconditional
    return (after, .inside target inner.2)
  | .tryCatch body handler finalizer => do
    let finally? ← match finalizer with
      | some _ => some <$> newBlock place.inLoop .finallyBody
      | none => pure none
    let catch? ← match handler with
      | some _ => some <$> newBlock place.inLoop .catchClause
      | none => pure none
    let after ← newBlock place.inLoop .merge
    let thrown := (catch? <|> finally?).getD after
    let next := finally?.getD after
    let inside ← newBlock place.inLoop .tryBody
    connect block inside .unconditional
    connect inside thrown .exception
    let guarded := { place with finalizers := finally?.toList ++ place.finalizers }
    let tried ← outlineTried { guarded with handler := thrown } thrown body inside
    flow tried.1 next .unconditional
    let caught ← match handler, catch? with
      | some handler, some catchBlock => do
        if let some finallyBlock := finally? then connect catchBlock finallyBlock .exception
        let handled ← handler.outline { guarded with handler := finally?.getD place.handler } catchBlock
        flow handled.1 next .unconditional
        pure handled.2
      | _, _ => pure .nothing
    match finalizer, finally? with
    | some finalizer, some finallyBlock =>
      let last ← finalizer.outline place finallyBlock
      let ended ← isClosed last.1
      unless ended do
        connect last.1 after .unconditional
        connect last.1 place.handler .throw
        let waiting := (← get).pending.filter (·.finalizer = finallyBlock)
        waiting.forM fun jumping => jump place last.1 jumping.target jumping.kind jumping.depth
      return (after, .guarded ⟨finallyBlock, last.1, ended⟩ (.both tried.2 caught) last.2)
    | _, _ => return (after, .both tried.2 caught)
  | .withObject object body => do
    let block ← object.build place.scene block
    outlineOptional place body block
  | .region area => withoutJumps ((Stmt.region area).build place block)
  | .broken fault => withoutJumps ((Stmt.broken fault).build place block)
def outlineStmts (place : Place) (stmts : List Stmt) (block : Nat) : Build (Nat × Outline) :=
  match stmts with
  | [] => pure (block, .nothing)
  | stmt :: rest => do
    let block ← if ← isClosed block then newBlock place.inLoop .unreachable else pure block
    let first ← stmt.outline place block
    let others ← outlineStmts place rest first.1
    return (others.1, .both first.2 others.2)
def outlineOptional (place : Place) (stmt : Option Stmt) (block : Nat) : Build (Nat × Outline) :=
  match stmt with
  | none => pure (block, .nothing)
  | some stmt => stmt.outline place block
def outlineCases (place : Place) (cases : List Case) (bodies : List Nat) (previous : Option Nat) : Build (Option Nat × Outline) :=
  match cases, bodies with
  | branch :: rest, body :: others => do
    if let some previous := previous then flow previous body .unconditional
    let first ← branch.outline place body
    let more ← outlineCases place rest others (some first.1)
    return (more.1, .both first.2 more.2)
  | _, _ => pure (previous, .nothing)
def Case.outline (place : Place) (branch : Case) (block : Nat) : Build (Nat × Outline) :=
  match branch with
  | .mk _ body => outlineStmts place body block
def outlineTried (place : Place) (thrown : Nat) (stmts : List Stmt) (block : Nat) : Build (Nat × Outline) :=
  match stmts with
  | [] => pure (block, .nothing)
  | stmt :: rest => do
    let start ←
      if ← isClosed block then newBlock place.inLoop .unreachable
      else do
        let next ← newBlock place.inLoop .tryBody
        connect block next .unconditional
        pure next
    connect start thrown .exception
    let first ← stmt.outline place start
    let others ← outlineTried place thrown rest first.1
    return (others.1, .both first.2 others.2)
def Handler.outline (place : Place) (handler : Handler) (block : Nat) : Build (Nat × Outline) :=
  match handler with
  | .mk param body => do
    let block ← param.build place.scene block
    outlineOptional place body block
end

def Body.outlined (body : Body) : Build Outline := do
  let entry ← newBlock false .entry
  let exit ← newBlock false .exit
  let _ ← newBlock false .throwExit
  let block ← buildPatterns {} body.params entry
  let last ← outlineStmts {} body.statements block
  flow last.1 exit .unconditional
  return last.2

def Body.outline (body : Body) : Outline := (body.outlined.run {}).1

theorem built_ite {α : Type} (condition : Prop) [Decidable condition] (first second : Build (α × Outline)) :
    Prod.fst <$> (if condition then first else second) = if condition then Prod.fst <$> first else Prod.fst <$> second :=
  apply_ite _ _ _ _

-- Noting the outline changes nothing in what is built.
mutual
theorem Stmt.outline_build (place : Place) : (stmt : Stmt) → ∀ block, Prod.fst <$> stmt.outline place block = stmt.build place block
  | .note node => by simp [Stmt.outline, withoutJumps]
  | .block body => outline_stmts_build place body
  | .evaluate node value | .bare value | .declare declared => by simp [Stmt.outline, withoutJumps]
  | .returnValue node value => by simp [Stmt.outline]
  | .throwValue node value => by simp [Stmt.outline, withoutJumps]
  | .ifElse subject test consequent (some alternate) => by
    intro block
    simp only [Stmt.outline, Stmt.build, map_bind, map_pure, ← outline_optional_build place consequent,
      ← alternate.outline_build place, bind_map_left]
  | .ifElse subject test consequent none => by
    intro block
    simp only [Stmt.outline, Stmt.build, map_bind, map_pure, ← outline_optional_build place consequent, bind_map_left]
  | .labeled label body => by
    intro block
    simp only [Stmt.outline, Stmt.build, map_bind, map_pure, ← body.outline_build _, bind_map_left]
  | .whileLoop label test body | .doWhileLoop label body test | .forLoop label start (some test) update body
  | .forLoop label start none update body | .forEach label source targets body => by
    intro block
    simp only [Stmt.outline, Stmt.build, map_bind, map_pure, ← outline_optional_build _ body, bind_map_left]
  | .breakTo region label | .continueTo region label => by simp [Stmt.outline]
  | .switch subject discriminant cases => by
    intro block
    simp only [Stmt.outline, Stmt.build, map_bind, ← outline_cases_build _ cases, bind_map_left]
    refine bind_congr fun _ => bind_congr fun dispatch => bind_congr fun _ => bind_congr fun after => bind_congr fun bodies =>
      bind_congr fun tested => ?_
    have finish (inner : Option Nat × Outline) : Prod.fst <$> (do
        if let some last := inner.1 then flow last after .unconditional
        return (after, Outline.inside ⟨none, after, none, place.finalizers.length, true⟩ inner.2)) = (do
        if let some last := inner.1 then flow last after .unconditional
        return after) := by
      cases inner.1 <;> simp only [map_bind, map_pure]
    cases defaultBody ((cases.map Case.test).zip bodies) <;> simp only [map_bind, finish] <;> rfl
  | .tryCatch body none none => by
    intro block
    simp only [Stmt.outline, Stmt.build, map_bind, map_pure, pure_bind, ← outline_tried_build _ _ body, bind_map_left]
  | .tryCatch body (some handler) none => by
    intro block
    simp only [Stmt.outline, Stmt.build, map_bind, map_pure, pure_bind, ← outline_tried_build _ _ body,
      ← handler.outline_build _, bind_map_left]
  | .tryCatch body none (some finalizer) => by
    intro block
    simp only [Stmt.outline, Stmt.build, map_bind, pure_bind, ← outline_tried_build _ _ body,
      ← finalizer.outline_build _, bind_map_left, built_ite, map_pure]
  | .tryCatch body (some handler) (some finalizer) => by
    intro block
    simp only [Stmt.outline, Stmt.build, map_bind, pure_bind, ← outline_tried_build _ _ body,
      ← handler.outline_build _, ← finalizer.outline_build _, bind_map_left, built_ite, map_pure]
  | .withObject object body => by
    intro block
    simp only [Stmt.outline, Stmt.build, map_bind, outline_optional_build _ body]
  | .region area | .broken fault => by simp [Stmt.outline, withoutJumps]
theorem outline_stmts_build (place : Place) : (stmts : List Stmt) → ∀ block,
    Prod.fst <$> outlineStmts place stmts block = buildStmts place stmts block
  | [] => by simp [outlineStmts, buildStmts]
  | stmt :: rest => by
    intro block
    simp only [outlineStmts, buildStmts, map_bind, ← stmt.outline_build place, ← outline_stmts_build place rest,
      bind_map_left, built_ite, bind_pure_comp, Functor.map_map]
theorem outline_optional_build (place : Place) : (stmt : Option Stmt) → ∀ block,
    Prod.fst <$> outlineOptional place stmt block = buildOptional place stmt block
  | none => by simp [outlineOptional, buildOptional]
  | some stmt => stmt.outline_build place
theorem outline_cases_build (place : Place) : (cases : List Case) → (bodies : List Nat) → (previous : Option Nat) →
    Prod.fst <$> outlineCases place cases bodies previous = buildCases place cases bodies previous
  | [], _, _ | _ :: _, [], _ => by simp [outlineCases, buildCases]
  | branch :: rest, body :: others, none | branch :: rest, body :: others, some previous => by
    simp only [outlineCases, buildCases, map_bind, ← branch.outline_build place, ← outline_cases_build place rest,
      bind_map_left, bind_pure_comp, Functor.map_map]
theorem Case.outline_build (place : Place) : (branch : Case) → ∀ block, Prod.fst <$> branch.outline place block = branch.build place block
  | .mk _ body => outline_stmts_build place body
theorem outline_tried_build (place : Place) (thrown : Nat) : (stmts : List Stmt) → ∀ block,
    Prod.fst <$> outlineTried place thrown stmts block = buildTried place thrown stmts block
  | [] => by simp [outlineTried, buildTried]
  | stmt :: rest => by
    intro block
    simp only [outlineTried, buildTried, map_bind, ← stmt.outline_build place, ← outline_tried_build place thrown rest,
      bind_map_left, built_ite, bind_pure_comp, Functor.map_map]
theorem Handler.outline_build (place : Place) : (handler : Handler) → ∀ block,
    Prod.fst <$> handler.outline place block = handler.build place block
  | .mk param body => by
    intro block
    simp only [Handler.outline, Handler.build, map_bind, outline_optional_build _ body]
end

theorem Body.outlined_build (body : Body) : (body.outlined.run {}).2 = body.draft := by
  have built : body.build = (fun _ => ()) <$> body.outlined := by
    simp only [Body.build, Body.outlined, ← outline_stmts_build, map_bind, bind_map_left, map_pure]
    rfl
  rw [Body.draft, built]
  rfl

end HookLint.Flow
