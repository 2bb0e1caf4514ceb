import HookLint.Flow.Block
import HookLint.Flow.Stmt

namespace HookLint.Flow

structure Pending where
  finalizer : Nat
  target : Nat
  kind : EdgeKind
  depth : Nat
deriving DecidableEq, Repr, Inhabited

structure Draft where
  blocks : List Block := []
  wiring : Wiring := .empty
  closed : List Nat := []
  pending : List Pending := []
  loopBody : List Nat := []
  approximations : List Approximation := []
  fault : Option Fault := none
deriving Inhabited

abbrev Draft.edges (draft : Draft) : List Edge := draft.wiring.edges

abbrev Build := StateM Draft

def newBlock (inLoop : Bool) (kind : BlockKind) : Build Nat := fun draft =>
  let number := draft.blocks.length
  (number, { draft with
    blocks := draft.blocks ++ [{ kind }]
    loopBody := if inLoop then draft.loopBody ++ [number] else draft.loopBody })

def connect (source target : Nat) (kind : EdgeKind) : Build Unit := modify fun draft =>
  { draft with wiring := draft.wiring.add ⟨source, target, kind⟩ }

def isClosed (block : Nat) : Build Bool := do return (← get).closed.contains block

def close (block : Nat) : Build Unit := modify fun draft => { draft with closed := block :: draft.closed }

def flow (source target : Nat) (kind : EdgeKind) : Build Unit := do
  unless ← isClosed source do connect source target kind

def modifyBlock (number : Nat) (change : Block → Block) : Build Unit := modify fun draft =>
  { draft with blocks := draft.blocks.modify number change }

def noteStatement (block : Nat) (statement : Value) : Build Unit :=
  modifyBlock block fun b => { b with statements := b.statements ++ [statement] }

def recordCall (block : Nat) (call : Value) : Build Unit :=
  modifyBlock block fun b => { b with calls := b.calls ++ [call] }

def setKind (block : Nat) (kind : BlockKind) : Build Unit := modifyBlock block fun b => { b with kind }

def noteFault (fault : Fault) : Build Unit := modify fun draft =>
  { draft with fault := draft.fault <|> some fault }

def approximate (inLoop : Bool) (region : Region) (reason : Reason) (block : Nat) : Build Nat := do
  let inside ← newBlock inLoop .approximate
  let after ← newBlock inLoop .merge
  connect block inside .approximate
  connect block after .approximate
  connect inside inside .loopBack
  connect inside after .unconditional
  noteStatement inside region.node
  region.calls.forM (recordCall inside)
  match region.line with
  | .ok line => modify fun draft => { draft with
      approximations := draft.approximations ++ [⟨region.node.get "type", line, reason⟩] }
  | .error fault => noteFault fault
  return after

end HookLint.Flow
