import HookLint.Proofs.Flow.Landing
import HookLint.Proofs.Flow.Outline

namespace HookLint.Flow

-- What stands around a jump: something that it may be aimed at, or a try statement with a finalizer.
inductive Frame where
  | within (target : JumpTarget)
  | guard (finalizer : Finalizer)

-- A jump by the block in which it ends, and what stands around it, the innermost first.
structure Jump where
  leap : Leap
  block : Nat
  frames : List Frame

def Outline.jumps : Outline → List Frame → List Jump
  | .nothing, _ => []
  | .both first second, frames => first.jumps frames ++ second.jumps frames
  | .jump leap block, frames => [⟨leap, block, frames⟩]
  | .inside target part, frames => part.jumps (.within target :: frames)
  | .guarded finalizer tried last, frames => tried.jumps (.guard finalizer :: frames) ++ last.jumps frames

-- A jump as the text has it, with the statements around it that it may mean; none of them is a finalizer.
structure Spot where
  leap : Leap
  around : List (Option Surrounding)

mutual
def Stmt.spots (around : List (Option Surrounding)) : Stmt → List Spot
  | .block body => spotsAll around body
  | .returnValue _ _ => [⟨.back, around⟩]
  | .ifElse _ _ consequent alternate => spotsIf around consequent ++ spotsIf around alternate
  | .labeled label body => body.spots (some (.labeled label) :: around)
  | .whileLoop label _ body | .doWhileLoop label body _ | .forLoop label _ _ _ body | .forEach label _ _ body =>
    spotsIf (some (.loop label) :: around) body
  | .breakTo _ label => [⟨.break label, around⟩]
  | .continueTo _ label => [⟨.continue label, around⟩]
  | .switch _ _ cases => spotsCases (some .switch :: around) cases
  | .tryCatch body handler none => spotsAll around body ++ spotsHandler around handler
  | .tryCatch body handler (some finalizer) =>
    spotsAll (none :: around) body ++ spotsHandler (none :: around) handler ++ finalizer.spots around
  | .withObject _ body => spotsIf around body
  | .note _ | .evaluate _ _ | .bare _ | .declare _ | .throwValue _ _ | .region _ | .broken _ => []
def spotsAll (around : List (Option Surrounding)) : List Stmt → List Spot
  | [] => []
  | stmt :: rest => stmt.spots around ++ spotsAll around rest
def spotsIf (around : List (Option Surrounding)) : Option Stmt → List Spot
  | none => []
  | some stmt => stmt.spots around
def spotsCases (around : List (Option Surrounding)) : List Case → List Spot
  | [] => []
  | .mk _ body :: rest => spotsAll around body ++ spotsCases around rest
def spotsHandler (around : List (Option Surrounding)) : Option Handler → List Spot
  | none => []
  | some (.mk _ body) => spotsIf around body
end

-- The jumps of a body, in the order of its text.
def Body.spots (body : Body) : List Spot := spotsAll [] body.statements

def JumpTarget.text (target : JumpTarget) : Surrounding :=
  if target.continueTo.isSome then .loop target.label else if target.takesPlainBreak then .switch else .labeled target.label

def Frame.text : Frame → Option Surrounding
  | .within target => some target.text
  | .guard _ => none

def Jump.spot (jump : Jump) : Spot := ⟨jump.leap, jump.frames.map Frame.text⟩

-- As what the block behind a statement is made.
def Surrounding.exits : Surrounding → List BlockKind
  | .loop _ => [.loopExit]
  | .switch => [.switchExit]
  | .labeled _ => [.labelExit]

-- As what the block is made with which the next round of a loop starts.
def rounds : List BlockKind := [.loopHeader, .loopTest, .loopUpdate]

namespace Leap

-- Whether a jump is aimed at a statement around it.
def takes : Leap → JumpTarget → Bool
  | .back, _ => false
  | .break label, target => target.takes false label
  | .continue label, target => target.takes true label

def goal : Leap → JumpTarget → Option Nat
  | .back, _ => none
  | .break _, target => some target.breakTo
  | .continue _, target => target.continueTo

-- The innermost statement around a jump that it is aimed at.
def target (leap : Leap) : List Frame → Option JumpTarget
  | [] => none
  | .guard _ :: rest => leap.target rest
  | .within target :: rest => if leap.takes target then some target else leap.target rest

-- The finalizers that a jump leaves on its way there, in order.
def crossed (leap : Leap) : List Frame → List Finalizer
  | [] => []
  | .guard finalizer :: rest => finalizer :: leap.crossed rest
  | .within target :: rest => if leap.takes target then [] else leap.crossed rest

-- The block that a jump is aimed at. A return is aimed at the exit.
def lands (leap : Leap) (frames : List Frame) : Option Nat :=
  match leap with
  | .back => some 1
  | .break _ | .continue _ => (leap.target frames).bind leap.goal

end Leap

end HookLint.Flow
