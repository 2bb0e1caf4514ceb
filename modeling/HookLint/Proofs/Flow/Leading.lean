import HookLint.Flow.Build

namespace HookLint.Flow

-- What a form evaluates before control first splits: the calls, and whether the form ends there.
structure Lead where
  calls : List Value
  whole : Bool

namespace Lead

def still : Lead := ⟨[], true⟩

def split : Lead := ⟨[], false⟩

def andThen (first second : Lead) : Lead := if first.whole then ⟨first.calls ++ second.calls, second.whole⟩ else first

end Lead

mutual
def Expr.lead : Expr → Lead
  | .leaf | .broken _ => .still
  | .sequence parts => leadOfAll parts
  | .call node isOptional callee arguments =>
    callee.lead.andThen ((Lead.mk [] !isOptional).andThen ((leadOfAll arguments).andThen ⟨[node], true⟩))
  | .member isOptional object key => object.lead.andThen ((Lead.mk [] !isOptional).andThen (leadOfIf key))
  | .chain inner => inner.lead.andThen .split
  | .logical _ left _ => left.lead.andThen .split
  | .conditional test _ _ => test.lead.andThen .split
  | .assign target value => target.leadBefore.andThen (value.lead.andThen target.leadAfter)
  | .assignIf _ target _ => target.leadBefore.andThen .split
  | .object properties => leadOfProperties properties
  | .destructure pattern => pattern.lead
  | .region _ => .split
def leadOfAll : List Expr → Lead
  | [] => .still
  | expr :: rest => expr.lead.andThen (leadOfAll rest)
def leadOfIf : Option Expr → Lead
  | none => .still
  | some expr => expr.lead
def leadOfProperties : List Property → Lead
  | [] => .still
  | property :: rest => property.lead.andThen (leadOfProperties rest)
def Property.lead : Property → Lead
  | .spread argument => argument.lead
  | .entry key value => (leadOfIf key).andThen value.lead
def Target.leadBefore : Target → Lead
  | .plain | .pattern _ => .still
  | .member object key => object.lead.andThen (leadOfIf key)
def Target.leadAfter : Target → Lead
  | .plain | .member _ _ => .still
  | .pattern pattern => pattern.lead
def Pattern.lead : Pattern → Lead
  | .plain | .broken _ => .still
  | .withDefault target _ => target.lead.andThen .split
  | .object properties => leadOfPatternProperties properties
  | .array elements => leadOfPatterns elements
  | .rest target => target.lead
  | .member isOptional object key => object.lead.andThen ((Lead.mk [] !isOptional).andThen (leadOfIf key))
def leadOfPatterns : List Pattern → Lead
  | [] => .still
  | pattern :: rest => pattern.lead.andThen (leadOfPatterns rest)
def leadOfPatternProperties : List PatternProperty → Lead
  | [] => .still
  | property :: rest => property.lead.andThen (leadOfPatternProperties rest)
def PatternProperty.lead : PatternProperty → Lead
  | .rest target => target.lead
  | .entry key target => (leadOfIf key).andThen target.lead
end

def leadOfDeclarators : List Declarator → Lead
  | [] => .still
  | declarator :: rest => (declarator.value.lead.andThen declarator.target.lead).andThen (leadOfDeclarators rest)

def Start.lead : Start → Lead
  | .nothing => .still
  | .declare declared => leadOfDeclarators declared.declarators
  | .expression value => value.lead

-- A jump ends its block, and loops and try statements start in blocks of their own.
mutual
def Stmt.lead : Stmt → Lead
  | .note _ | .broken _ => .still
  | .block body => leadOfStmts body
  | .evaluate _ value | .bare value => value.lead
  | .declare declared => leadOfDeclarators declared.declarators
  | .returnValue _ value | .throwValue _ value | .ifElse _ value _ _ | .forEach _ value _ _ | .switch _ value _ => ⟨value.lead.calls, false⟩
  | .forLoop _ start _ _ _ => ⟨start.lead.calls, false⟩
  | .labeled _ body => ⟨body.lead.calls, false⟩
  | .withObject object body => object.lead.andThen (leadOfOptional body)
  | .whileLoop _ _ _ | .doWhileLoop _ _ _ | .tryCatch _ _ _ | .breakTo _ _ | .continueTo _ _ | .region _ => .split
def leadOfStmts : List Stmt → Lead
  | [] => .still
  | stmt :: rest => stmt.lead.andThen (leadOfStmts rest)
def leadOfOptional : Option Stmt → Lead
  | none => .still
  | some stmt => stmt.lead
end

-- A try statement.
structure Attempt where
  tried : List Stmt
  handler : Option Handler
  finalizer : Option Stmt

mutual
def Stmt.attempts : Stmt → List Attempt
  | .block body => attemptsOfAll body
  | .ifElse _ _ consequent alternate => attemptsOfOptional consequent ++ attemptsOfOptional alternate
  | .labeled _ body => body.attempts
  | .whileLoop _ _ body | .doWhileLoop _ body _ | .forLoop _ _ _ _ body | .forEach _ _ _ body | .withObject _ body =>
    attemptsOfOptional body
  | .switch _ _ cases => attemptsOfCases cases
  | .tryCatch body handler none => ⟨body, handler, none⟩ :: (attemptsOfAll body ++ attemptsOfHandler handler)
  | .tryCatch body handler (some finalizer) =>
    ⟨body, handler, some finalizer⟩ :: (attemptsOfAll body ++ attemptsOfHandler handler ++ finalizer.attempts)
  | _ => []
def attemptsOfAll : List Stmt → List Attempt
  | [] => []
  | stmt :: rest => stmt.attempts ++ attemptsOfAll rest
def attemptsOfOptional : Option Stmt → List Attempt
  | none => []
  | some stmt => stmt.attempts
def attemptsOfCases : List Case → List Attempt
  | [] => []
  | .mk _ body :: rest => attemptsOfAll body ++ attemptsOfCases rest
def attemptsOfHandler : Option Handler → List Attempt
  | none => []
  | some (.mk _ body) => attemptsOfOptional body
end

-- The try statements of a body, the outer ones first.
def Body.attempts (body : Body) : List Attempt := attemptsOfAll body.statements

-- As what the block is made to which an exception goes.
def Attempt.entry : Attempt → Option BlockKind
  | ⟨_, some _, _⟩ => some .catchClause
  | ⟨_, none, some _⟩ => some .finallyBody
  | ⟨_, none, none⟩ => none

def Attempt.stmt (attempt : Attempt) : Stmt := .tryCatch attempt.tried attempt.handler attempt.finalizer

-- The block that is made for the catch clause, or for the finalizer of a try statement without one, when there are so
-- many blocks already: the first block that its building makes, or the second one if it has both.
def Attempt.receiver (attempt : Attempt) (size : Nat) : Nat := if attempt.handler.isSome && attempt.finalizer.isSome then size + 1 else size

-- A block of which more is known by now. It is renamed if it comes to hold the test of an if or a switch.
structure Block.Grows (before after : Block) : Prop where
  calls : before.calls ⊆ after.calls
  kind : after.kind = before.kind ∨ after.kind = .ifCondition ∨ after.kind = .switchDiscriminant

-- A statement starts in a block from which an exception goes to the target and which has the calls of its lead.
def Stmt.Escapes (stmt : Stmt) (blocks : List Block) (edges : List Edge) (target : Nat) : Prop :=
  ∃ start, ⟨start, target, .exception⟩ ∈ edges ∧ ∀ call ∈ stmt.lead.calls, ∃ block, blocks[start]? = some block ∧ call ∈ block.calls

structure Attempt.Shielded (attempt : Attempt) (blocks : List Block) (edges : List Edge) (target : Nat) : Prop where
  received : ∀ kind, attempt.entry = some kind → ∃ block, blocks[target]? = some block ∧ Block.Grows { kind } block
  escapes : ∀ stmt ∈ attempt.tried, stmt.Escapes blocks edges target

theorem block_grows_refl (block : Block) : block.Grows block := ⟨fun _ => id, .inl rfl⟩

theorem Block.Grows.trans {first middle last : Block} (early : first.Grows middle) (late : middle.Grows last) : first.Grows last := by
  refine ⟨List.Subset.trans early.calls late.calls, ?_⟩
  rcases late.kind with same | renamed
  · rw [same]
    exact early.kind
  · exact .inr renamed

theorem and_then_split (lead : Lead) : lead.andThen .split = ⟨lead.calls, false⟩ := by
  obtain ⟨calls, whole⟩ := lead
  cases whole <;> simp [Lead.andThen, Lead.split]

theorem and_then_whole {lead more : Lead} (whole : (lead.andThen more).whole = true) : lead.whole = true ∧ more.whole = true := by
  unfold Lead.andThen at whole
  split at whole
  · exact ⟨by assumption, whole⟩
  · contradiction

theorem access_splits (isOptional : Bool) (object rest : Lead) (split : isOptional = true) :
    (object.andThen ((Lead.mk [] !isOptional).andThen rest)).whole = false := by
  obtain ⟨calls, whole⟩ := object
  cases whole <;> simp [Lead.andThen, split]

end HookLint.Flow
