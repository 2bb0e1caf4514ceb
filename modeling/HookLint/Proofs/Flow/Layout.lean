import HookLint.Flow.Build

-- How the builder lays out the blocks of a form, with the parts of the form left open.
namespace HookLint.Flow.Layout

abbrev maybe (inLoop : Bool) (insideKind : BlockKind) (taken skipped : EdgeKind) (action : Nat → Build Nat) (start : Nat) : Build Nat := do
  let inside ← newBlock inLoop insideKind
  let merge ← newBlock inLoop .merge
  connect start inside taken
  connect start merge skipped
  connect (← action inside) merge .unconditional
  return merge

abbrev either (inLoop : Bool) (left right : Nat → Build Nat) (start : Nat) : Build Nat := do
  let whenTrue ← newBlock inLoop .ternaryTrue
  let whenFalse ← newBlock inLoop .ternaryFalse
  let merge ← newBlock inLoop .merge
  connect start whenTrue .whenTrue
  connect start whenFalse .whenFalse
  connect (← left whenTrue) merge .unconditional
  connect (← right whenFalse) merge .unconditional
  return merge

abbrev chain (inLoop : Bool) (action : Nat → Nat → Build Nat) (start : Nat) : Build Nat := do
  let chainEnd ← newBlock inLoop .chainEnd
  let last ← action chainEnd start
  connect last chainEnd .unconditional
  return chainEnd

abbrev ifElse (inLoop : Bool) (left right : Nat → Build Nat) (tested : Nat) : Build Nat := do
  let body ← newBlock inLoop .ifBody
  connect tested body .whenTrue
  let bodyEnd ← left body
  let merge ← newBlock inLoop .merge
  flow bodyEnd merge .unconditional
  let other ← newBlock inLoop .elseBody
  connect tested other .whenFalse
  let otherEnd ← right other
  flow otherEnd merge .unconditional
  return merge

abbrev ifThen (inLoop : Bool) (action : Nat → Build Nat) (tested : Nat) : Build Nat := do
  let body ← newBlock inLoop .ifBody
  connect tested body .whenTrue
  let bodyEnd ← action body
  let merge ← newBlock inLoop .merge
  flow bodyEnd merge .unconditional
  connect tested merge .whenFalse
  return merge

abbrev labeled (place : Place) (inLoop : Bool) (label : Option Value) (body : Place → Nat → Build Nat) (start : Nat) : Build Nat := do
  let after ← newBlock inLoop .labelExit
  let bodyEnd ← body
    { place with targets := ⟨label, after, none, place.finalizers.length, false⟩ :: place.targets } start
  flow bodyEnd after .unconditional
  return after

abbrev whileLoop (place : Place) (inLoop : Bool) (label : Option Value) (test : Nat → Build Nat)
    (body : Place → Nat → Build Nat) (start : Nat) : Build Nat := do
  let header ← newBlock inLoop .loopHeader
  connect start header .unconditional
  let tested ← test header
  let after ← newBlock inLoop .loopExit
  let inside ← newBlock true .loopBody
  connect tested inside .whenTrue
  connect tested after .loopExit
  let bodyEnd ← body (place.inLoopBody label after header) inside
  flow bodyEnd header .loopBack
  return after

abbrev doWhile (place : Place) (inLoop : Bool) (label : Option Value) (test : Nat → Build Nat)
    (body : Place → Nat → Build Nat) (start : Nat) : Build Nat := do
  let again ← newBlock inLoop .loopTest
  let after ← newBlock inLoop .loopExit
  let inside ← newBlock true .loopBody
  connect start inside .unconditional
  let bodyEnd ← body (place.inLoopBody label after again) inside
  flow bodyEnd again .unconditional
  let tested ← test again
  connect tested inside .loopBack
  connect tested after .loopExit
  return after

abbrev forEach (place : Place) (inLoop : Bool) (label : Option Value) (bind : Nat → Build Nat)
    (body : Place → Nat → Build Nat) (start : Nat) : Build Nat := do
  let header ← newBlock inLoop .loopHeader
  connect start header .unconditional
  let after ← newBlock inLoop .loopExit
  let inside ← newBlock true .loopBody
  connect header inside .whenTrue
  connect header after .loopExit
  let bound ← bind inside
  let bodyEnd ← body (place.inLoopBody label after header) bound
  flow bodyEnd header .loopBack
  return after

abbrev forLoop (place : Place) (inLoop : Bool) (label : Option Value) (head : Nat → Nat → Build Nat)
    (update : Nat → Build Nat) (body : Place → Nat → Build Nat) (start : Nat) : Build Nat := do
  let header ← newBlock inLoop .loopHeader
  connect start header .unconditional
  let advance ← newBlock inLoop .loopUpdate
  let after ← newBlock inLoop .loopExit
  let inside ← head header after
  let bodyEnd ← body (place.inLoopBody label after advance) inside
  flow bodyEnd advance .unconditional
  let advanced ← update advance
  connect advanced header .loopBack
  return after

abbrev forHead (scene : Scene) (test : Option Expr) (header after : Nat) : Build Nat :=
  match test with
  | some test => do
    let tested ← test.build scene header
    let inside ← newBlock true .loopBody
    connect tested inside .whenTrue
    connect tested after .loopExit
    pure inside
  | none => do
    let inside ← newBlock true .loopBody
    connect header inside .unconditional
    pure inside

abbrev inSwitch (place : Place) (after : Nat) : Place :=
  { place with targets := ⟨none, after, none, place.finalizers.length, true⟩ :: place.targets }

abbrev switchBodies (place : Place) (cases : List Case) (bodies : List Nat) (after : Nat) : Build Nat := do
  let last ← buildCases (inSwitch place after) cases bodies none
  if let some last := last then flow last after .unconditional
  return after

abbrev switch (place : Place) (cases : List Case) (dispatch : Nat) : Build Nat := do
  let after ← newBlock place.inLoop .switchExit
  let bodies ← cases.mapM fun _ => newBlock place.inLoop .caseBody
  let tests := (cases.map Case.test).zip bodies
  let tested ← buildTests place.scene tests dispatch
  match defaultBody tests with
  | some body => connect tested body .case
  | none => connect tested after .whenFalse
  switchBodies place cases bodies after

abbrev atLast (place : Place) (finalizer : Nat → Build Nat) (after finallyBlock : Nat) : Build Nat := do
  let finallyEnd ← finalizer finallyBlock
  unless ← isClosed finallyEnd do
    connect finallyEnd after .unconditional
    connect finallyEnd place.handler .throw
    let waiting := (← get).pending.filter (·.finalizer = finallyBlock)
    waiting.forM fun jumping => jump place finallyEnd jumping.target jumping.kind jumping.depth
  return after

end HookLint.Flow.Layout
