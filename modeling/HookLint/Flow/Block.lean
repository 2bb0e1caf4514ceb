import HookLint.Graph.Basic
import HookLint.Tree.Location
import HookLint.Value.Display

namespace HookLint.Flow

inductive BlockKind where
  | entry | exit | throwExit
  | unreachable | merge | approximate
  | ifCondition | ifBody | elseBody | labelExit
  | loopHeader | loopBody | loopTest | loopUpdate | loopExit
  | switchDiscriminant | switchExit | caseTest | caseBody
  | tryBody | catchClause | finallyBody
  | chainContinue | chainEnd | logicalRight | ternaryTrue | ternaryFalse | defaultValue
deriving DecidableEq, Repr, Inhabited

def BlockKind.name : BlockKind → String
  | .entry => "entry"
  | .exit => "exit"
  | .throwExit => "throw_exit"
  | .unreachable => "unreachable"
  | .merge => "merge"
  | .approximate => "approximate"
  | .ifCondition => "if_condition"
  | .ifBody => "if_body"
  | .elseBody => "else_body"
  | .labelExit => "label_exit"
  | .loopHeader => "loop_header"
  | .loopBody => "loop_body"
  | .loopTest => "loop_test"
  | .loopUpdate => "loop_update"
  | .loopExit => "loop_exit"
  | .switchDiscriminant => "switch_discriminant"
  | .switchExit => "switch_exit"
  | .caseTest => "case_test"
  | .caseBody => "case_body"
  | .tryBody => "try_body"
  | .catchClause => "catch_clause"
  | .finallyBody => "finally_body"
  | .chainContinue => "chain_continue"
  | .chainEnd => "chain_end"
  | .logicalRight => "logical_right"
  | .ternaryTrue => "ternary_true"
  | .ternaryFalse => "ternary_false"
  | .defaultValue => "default_value"

/-- Code that runs without branching: the statements that start in it, and the calls that it
evaluates in their order. -/
structure Block where
  kind : BlockKind
  statements : List Value := []
  calls : List Value := []
deriving Inhabited

inductive Reason where
  | unsupportedStatement
  | unsupportedExpression
  | breakWithoutTarget
  | continueWithoutTarget
deriving DecidableEq, Repr, Inhabited

def Reason.text : Reason → String
  | .unsupportedStatement => "unsupported statement"
  | .unsupportedExpression => "unsupported expression"
  | .breakWithoutTarget => "break without target"
  | .continueWithoutTarget => "continue without target"

structure Approximation where
  kind : Value
  line : Value
  reason : Reason
deriving Inhabited

end HookLint.Flow

namespace HookLint

structure FlowGraph extends Graph where
  name : Value
  blocks : List Flow.Block
  approximations : List Flow.Approximation
deriving Inhabited

namespace FlowGraph

def calls (graph : FlowGraph) : List (Nat × Nat × Value) :=
  graph.blocks.zipIdx.flatMap fun (block, number) =>
    block.calls.zipIdx.map fun (call, ordinal) => (number, ordinal, call)

end FlowGraph

end HookLint
