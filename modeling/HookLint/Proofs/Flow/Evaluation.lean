import HookLint.Flow.Stmt

namespace HookLint.Flow

-- The calls that an evaluation may make, in the order in which it makes them.
abbrev Traces := List Value → Prop

def Silent : Traces := fun trace => trace = []

def Then (first second : Traces) : Traces := fun trace => ∃ a b, first a ∧ second b ∧ trace = a ++ b

def Maybe (part : Traces) : Traces := fun trace => trace = [] ∨ part trace

-- An access by ?. to a missing value skips what is left of its chain.
inductive Result where
  | value
  | skipped

mutual
def Expr.Evaluates : Expr → Result → Traces
  | .leaf, .value => Silent
  | .sequence parts, .value => EvaluatesAll parts
  | .call node _ callee arguments, .value => Then (callee.Evaluates .value) (Then (EvaluatesAll arguments) fun trace => trace = [node])
  | .call _ isOptional callee _, .skipped => fun trace =>
    callee.Evaluates .skipped trace ∨ (isOptional = true ∧ callee.Evaluates .value trace)
  | .member _ object key, .value => Then (object.Evaluates .value) (EvaluatesIf key)
  | .member isOptional object _, .skipped => fun trace =>
    object.Evaluates .skipped trace ∨ (isOptional = true ∧ object.Evaluates .value trace)
  | .chain inner, .value => fun trace => inner.Evaluates .value trace ∨ inner.Evaluates .skipped trace
  | .logical _ left right, .value => Then (left.Evaluates .value) (Maybe (right.Evaluates .value))
  | .conditional test consequent alternate, .value =>
    Then (test.Evaluates .value) fun trace => consequent.Evaluates .value trace ∨ alternate.Evaluates .value trace
  | .assign target value, .value => Then target.EvaluatesBefore (Then (value.Evaluates .value) target.EvaluatesAfter)
  | .assignIf _ target value, .value => Then target.EvaluatesBefore (Maybe (value.Evaluates .value))
  | .object properties, .value => EvaluatesProperties properties
  | _, _ => fun _ => False
def EvaluatesAll : List Expr → Traces
  | [] => Silent
  | expr :: rest => Then (expr.Evaluates .value) (EvaluatesAll rest)
def EvaluatesIf : Option Expr → Traces
  | none => Silent
  | some expr => expr.Evaluates .value
def EvaluatesProperties : List Property → Traces
  | [] => Silent
  | property :: rest => Then property.Evaluates (EvaluatesProperties rest)
def Property.Evaluates : Property → Traces
  | .spread argument => argument.Evaluates .value
  | .entry key value => Then (EvaluatesIf key) (value.Evaluates .value)
-- A reference is evaluated before the value that is assigned to it, a pattern
-- after it.
def Target.EvaluatesBefore : Target → Traces
  | .member object key => Then (object.Evaluates .value) (EvaluatesIf key)
  | .plain | .pattern _ => Silent
def Target.EvaluatesAfter : Target → Traces
  | .pattern pattern => pattern.Evaluates
  | .plain | .member _ _ => Silent
def Pattern.Evaluates : Pattern → Traces
  | .plain => Silent
  | .withDefault target value => Then target.Evaluates (Maybe (value.Evaluates .value))
  | .object properties => EvaluatesPatternProperties properties
  | .array elements => EvaluatesPatterns elements
  | .rest target => target.Evaluates
  | .member _ object key => Then (object.Evaluates .value) (EvaluatesIf key)
  | .broken _ => fun _ => False
def EvaluatesPatterns : List Pattern → Traces
  | [] => Silent
  | pattern :: rest => Then pattern.Evaluates (EvaluatesPatterns rest)
def EvaluatesPatternProperties : List PatternProperty → Traces
  | [] => Silent
  | property :: rest => Then property.Evaluates (EvaluatesPatternProperties rest)
def PatternProperty.Evaluates : PatternProperty → Traces
  | .rest target => target.Evaluates
  | .entry key target => Then (EvaluatesIf key) target.Evaluates
end

-- How a statement ends.
inductive Completion where
  | normal
  | returned
  | thrown
  | broke (label : Option Value)
  | continued (label : Option Value)

-- Whether a jump that names a statement means the one with the given label.
def Named (label : Option Value) (name : Value) : Prop := label.any (·.equal name) = true

namespace Completion

-- Whether a statement ends the labeled statement around it.
def LeavesLabel (label : Option Value) : Completion → Prop
  | .broke (some name) => Named label name
  | _ => False

-- Whether a statement ends the loop or switch around it.
def LeavesLoop (label : Option Value) : Completion → Prop
  | .broke none => True
  | .broke (some name) => Named label name
  | _ => False

-- Whether the loop around a statement goes on after it.
def GoesOn (label : Option Value) : Completion → Prop
  | .normal | .continued none => True
  | .continued (some name) => Named label name
  | _ => False

end Completion

abbrev Runs := List Value → Completion → Prop

def Normally (traces : Traces) : Runs := fun trace completion => traces trace ∧ completion = .normal

def Before (first : Traces) (rest : Runs) : Runs := fun trace completion => ∃ a b, first a ∧ rest b completion ∧ trace = a ++ b

-- The second one runs only if the first one ends normally.
def InTurn (first second : Runs) : Runs := fun trace completion =>
  (first trace completion ∧ completion ≠ .normal) ∨ ∃ a b, first a .normal ∧ second b completion ∧ trace = a ++ b

def Catching (Caught : Completion → Prop) (body : Runs) : Runs := fun trace completion =>
  (body trace completion ∧ ¬ Caught completion) ∨ (completion = .normal ∧ ∃ inner, body trace inner ∧ Caught inner)

def Rescued (tried rescue : Runs) : Runs := fun trace completion =>
  (tried trace completion ∧ completion ≠ .thrown) ∨ ∃ a b, tried a .thrown ∧ rescue b completion ∧ trace = a ++ b

-- A finalizer that ends normally leaves the completion as it was.
def Finalized (guarded final : Runs) : Runs := fun trace completion =>
  ∃ a b inner last, guarded a inner ∧ final b last ∧ trace = a ++ b ∧
    ((last = .normal ∧ completion = inner) ∨ (last ≠ .normal ∧ completion = last))

-- A loop in general. At its top it enters a round or leaves, after a round it goes
-- back to the top or finishes.
inductive Loop (label : Option Value) (enter leave : Traces) (body : Runs) (again finish : Traces) : List Value → Completion → Prop where
  | left (head : List Value) (leaves : leave head) : Loop label enter leave body again finish head .normal
  | broken (head inside : List Value) (completion : Completion) (enters : enter head)
      (runs : body inside completion) (ends : completion.LeavesLoop label) :
      Loop label enter leave body again finish (head ++ inside) .normal
  | abrupt (head inside : List Value) (completion : Completion) (enters : enter head)
      (runs : body inside completion) (stays : ¬ completion.LeavesLoop label) (stops : ¬ completion.GoesOn label) :
      Loop label enter leave body again finish (head ++ inside) completion
  | finished (head inside tail : List Value) (completion : Completion) (enters : enter head)
      (runs : body inside completion) (goesOn : completion.GoesOn label) (finishes : finish tail) :
      Loop label enter leave body again finish (head ++ (inside ++ tail)) .normal
  | next (head inside tail rest : List Value) (completion final : Completion) (enters : enter head)
      (runs : body inside completion) (goesOn : completion.GoesOn label) (returns : again tail)
      (others : Loop label enter leave body again finish rest final) :
      Loop label enter leave body again finish (head ++ (inside ++ (tail ++ rest))) final

def EvaluatesDeclarators : List Declarator → Traces
  | [] => Silent
  | declarator :: rest => Then (Then (declarator.value.Evaluates .value) declarator.target.Evaluates) (EvaluatesDeclarators rest)

def Start.Evaluates : Start → Traces
  | .nothing => Silent
  | .declare declared => EvaluatesDeclarators declared.declarators
  | .expression value => value.Evaluates .value

-- The tests of a switch, none of which matches.
def Unmatched : List Case → Traces
  | [] => Silent
  | .mk (some test) _ :: rest => Then (test.Evaluates .value) (Unmatched rest)
  | .mk none _ :: rest => Unmatched rest

-- After a missing test a round is always entered.
def leaveTest : Option Expr → Traces
  | none => fun _ => False
  | some test => test.Evaluates .value

mutual
def Stmt.Runs : Stmt → Runs
  | .note _ => Normally Silent
  | .block body => RunsAll body
  | .evaluate _ value => Normally (value.Evaluates .value)
  | .declare declared => Normally (EvaluatesDeclarators declared.declarators)
  | .returnValue _ value => fun trace completion => value.Evaluates .value trace ∧ completion = .returned
  | .throwValue _ value => fun trace completion => value.Evaluates .value trace ∧ completion = .thrown
  | .ifElse _ test consequent alternate => Before (test.Evaluates .value) fun trace completion =>
    RunsIf consequent trace completion ∨ RunsIf alternate trace completion
  | .labeled label body => Catching (Completion.LeavesLabel label) body.Runs
  | .whileLoop label test body => Loop label (test.Evaluates .value) (test.Evaluates .value) (RunsIf body) Silent fun _ => False
  | .doWhileLoop label body test => Loop label Silent (fun _ => False) (RunsIf body) (test.Evaluates .value) (test.Evaluates .value)
  | .forLoop label start test update body => Before start.Evaluates
      (Loop label (EvaluatesIf test) (leaveTest test) (RunsIf body) (update.Evaluates .value) fun _ => False)
  | .forEach label source targets body => Before (source.Evaluates .value)
      (Loop label (EvaluatesPatterns targets) Silent (RunsIf body) Silent fun _ => False)
  | .breakTo _ label => fun trace completion => trace = [] ∧ completion = .broke label
  | .continueTo _ label => fun trace completion => trace = [] ∧ completion = .continued label
  | .switch _ discriminant cases => Before (discriminant.Evaluates .value)
      (Catching (Completion.LeavesLoop none) fun trace completion =>
        RunsMatched cases trace completion ∨ Before (Unmatched cases) (RunsDefault cases) trace completion)
  | .tryCatch body handler finalizer => RunsFinally finalizer (RunsHandled handler (RunsAll body))
  | _ => fun _ _ => False
def RunsAll : List Stmt → Runs
  | [] => Normally Silent
  | stmt :: rest => InTurn stmt.Runs (RunsAll rest)
def RunsIf : Option Stmt → Runs
  | none => Normally Silent
  | some stmt => stmt.Runs
def RunsHandled : Option Handler → Runs → Runs
  | none, tried => tried
  | some handler, tried => Rescued tried handler.Runs
def Handler.Runs : Handler → Runs
  | .mk param body => Before param.Evaluates (RunsIf body)
def RunsFinally : Option Stmt → Runs → Runs
  | none, guarded => guarded
  | some finalizer, guarded => Finalized guarded finalizer.Runs
-- From a case on, every body runs on into the next one.
def RunsCases : List Case → Runs
  | [] => Normally Silent
  | branch :: rest => InTurn branch.Runs (RunsCases rest)
def Case.Runs : Case → Runs
  | .mk _ body => RunsAll body
-- The tests are evaluated in turn until one matches.
def RunsMatched : List Case → Runs
  | [] => fun _ _ => False
  | .mk (some test) body :: rest => Before (test.Evaluates .value) fun trace completion =>
    InTurn (RunsAll body) (RunsCases rest) trace completion ∨ RunsMatched rest trace completion
  | .mk none _ :: rest => RunsMatched rest
def RunsDefault : List Case → Runs
  | [] => Normally Silent
  | .mk none body :: rest => InTurn (RunsAll body) (RunsCases rest)
  | .mk (some _) _ :: rest => RunsDefault rest
end

-- The parameters of a function are bound before its statements run.
def Body.Runs (body : Body) : Runs := Before (EvaluatesPatterns body.params) (RunsAll body.statements)

end HookLint.Flow
